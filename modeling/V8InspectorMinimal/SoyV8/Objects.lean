import V8InspectorMinimal.SoyV8.Values

/-! `GetObject` and `GetInternalFieldObject`, which unwrap the pointer to a native object from a JS
value. V8 is built without checks, so that it is not defined what it does when it is asked for the
internal fields of a value that is no object, or for a field that the object does not have. -/

namespace V8Min.SoyV8

def internalFieldCount (h : Heap) (v : Value) : Except Fault ℕ :=
  match h.object? v with
  | some o => .ok o.internalFields.length
  | none => .error .undefinedBehaviour

def Heap.internalField? (h : Heap) (v : Value) (i : ℕ) : Option Value :=
  (h.object? v).bind fun o => o.internalFields[i]?

def getInternalField (h : Heap) (v : Value) (i : ℕ) : Except Fault Value :=
  match h.internalField? v i with
  | some f => .ok f
  | none => .error .undefinedBehaviour

/-- The handle that `GetObject` goes on with. One that isn't an external is assumed to be backed by
its internal field. -/
def internalHandle (h : Heap) (handle : Value) : Except Fault Value :=
  if (h.external? handle).isSome then .ok handle
  else if (h.object? handle).isSome then getInternalField h handle 0
  else .ok handle

def getObject (h : Heap) (handle : Value) : Except Fault Pointer :=
  match internalHandle h handle with
  | .error e => .error e
  | .ok handle =>
    match h.external? handle with
    | none => .error (.threw (.notExternal (getTypeName h handle)))
    | some p =>
      if p = 0 then .error (.threw .internalFieldNull)
      else .ok p

def getInternalFieldObject (h : Heap) (v : Value) (index : ℕ) : Except Fault Pointer :=
  match internalFieldCount h v with
  | .error e => .error e
  | .ok fieldCount =>
    if index ≥ fieldCount then .error (.threw (.missingInternalField index fieldCount))
    else
      match getInternalField h v index with
      | .error e => .error e
      | .ok windowHandle => getObject h windowHandle

/-- The call returns a pointer that is not null and that `reached` holds of, or it throws. -/
def Unwraps (reached : Pointer → Prop) : Except Fault Pointer → Prop
  | .ok p => p ≠ 0 ∧ reached p
  | .error (.threw _) => True
  | .error .undefinedBehaviour => False

def IsPointerOf (h : Heap) (v : Value) (p : Pointer) : Prop :=
  h.external? v = some p ∨
    h.external? v = none ∧ ∃ w, h.internalField? v 0 = some w ∧ h.external? w = some p

def Fieldless (h : Heap) (v : Value) : Prop :=
  ∃ o, h.object? v = some o ∧ h.external? v = none ∧ o.internalFields = []

section Unwrap
variable {h : Heap}

theorem internalHandle_of_object {v : Value} {o : Object} (ho : h.object? v = some o)
    (hv : h.external? v = none) : internalHandle h v = getInternalField h v 0 := by
  unfold internalHandle
  rw [hv, ho]
  rfl

theorem internalHandle_of_fieldless {v : Value} (hv : Fieldless h v) :
    internalHandle h v = .error .undefinedBehaviour := by
  obtain ⟨o, ho, hexternal, hfields⟩ := hv
  have hnone : h.internalField? v 0 = none := by
    rw [Heap.internalField?, ho, Option.bind_some, hfields]
    rfl
  rw [internalHandle_of_object ho hexternal, getInternalField, hnone]

theorem internalHandle_eq_ok {v : Value} (hv : ¬ Fieldless h v) :
    ∃ w, internalHandle h v = .ok w ∧
      (w = v ∨ h.external? v = none ∧ h.internalField? v 0 = some w) := by
  cases hexternal : h.external? v with
  | some p => exact ⟨v, by rw [internalHandle, hexternal]; rfl, Or.inl rfl⟩
  | none =>
    cases ho : h.object? v with
    | none => exact ⟨v, by rw [internalHandle, hexternal, ho]; rfl, Or.inl rfl⟩
    | some o =>
      cases hfields : o.internalFields with
      | nil => exact absurd ⟨o, ho, hexternal, hfields⟩ hv
      | cons w ws =>
        have hfield : h.internalField? v 0 = some w := by
          rw [Heap.internalField?, ho, Option.bind_some, hfields]
          rfl
        refine ⟨w, ?_, Or.inr ⟨rfl, hfield⟩⟩
        rw [internalHandle_of_object ho hexternal, getInternalField, hfield]

theorem getObject_unwraps_iff (v : Value) :
    Unwraps (IsPointerOf h v) (getObject h v) ↔ ¬ Fieldless h v := by
  constructor
  · intro hunwraps hv
    rw [getObject, internalHandle_of_fieldless hv] at hunwraps
    exact hunwraps
  · intro hv
    obtain ⟨w, hw, hreached⟩ := internalHandle_eq_ok hv
    rw [getObject, hw]
    cases hexternal : h.external? w with
    | none =>
      simp only [hexternal]
      trivial
    | some p =>
      by_cases hp : p = 0
      · simp only [hexternal, hp, if_true]
        trivial
      · simp only [hexternal, hp, if_false]
        refine ⟨hp, ?_⟩
        rcases hreached with rfl | ⟨hv, hfield⟩
        · exact Or.inl hexternal
        · exact Or.inr ⟨hv, w, hfield, hexternal⟩

theorem getInternalFieldObject_of_missing {v : Value} {o : Object} {index : ℕ}
    (ho : h.object? v = some o) (hindex : o.internalFields.length ≤ index) :
    getInternalFieldObject h v index =
      .error (.threw (.missingInternalField index o.internalFields.length)) := by
  unfold getInternalFieldObject internalFieldCount
  rw [ho]
  exact if_pos hindex

theorem getInternalFieldObject_of_field {v w : Value} {index : ℕ}
    (hw : h.internalField? v index = some w) :
    getInternalFieldObject h v index = getObject h w := by
  obtain ⟨o, ho, hfield⟩ := Option.bind_eq_some_iff.mp hw
  have hindex : ¬ index ≥ o.internalFields.length :=
    Nat.not_le_of_lt (List.getElem?_eq_some_iff.mp hfield).1
  unfold getInternalFieldObject internalFieldCount getInternalField
  rw [ho, hw]
  exact if_neg hindex

theorem getInternalFieldObject_unwraps_iff (v : Value) (index : ℕ) :
    Unwraps (fun p => ∃ w, h.internalField? v index = some w ∧ IsPointerOf h w p)
      (getInternalFieldObject h v index) ↔
      (h.object? v).isSome ∧ ∀ w, h.internalField? v index = some w → ¬ Fieldless h w := by
  cases ho : h.object? v with
  | none => simp [getInternalFieldObject, internalFieldCount, ho, Unwraps]
  | some o =>
    rw [Option.isSome_some, and_iff_right rfl]
    cases hw : h.internalField? v index with
    | none =>
      have hfield : o.internalFields[index]? = none := by
        rw [Heap.internalField?, ho, Option.bind_some] at hw
        exact hw
      rw [getInternalFieldObject_of_missing ho (List.getElem?_eq_none_iff.mp hfield)]
      exact ⟨fun _ w h => absurd h.symm (Option.some_ne_none w), fun _ => trivial⟩
    | some w =>
      have hreached : (fun p => ∃ w', some w = some w' ∧ IsPointerOf h w' p) =
          IsPointerOf h w := by
        funext p
        simp
      rw [getInternalFieldObject_of_field hw, hreached, getObject_unwraps_iff]
      simp

end Unwrap

/-- The exact conditions under which the two functions are safe. -/
theorem unwrap_safe_iff (h : Heap) (v : Value) (index : ℕ) :
    (Unwraps (IsPointerOf h v) (getObject h v) ↔ ¬ Fieldless h v) ∧
      (Unwraps (fun p => ∃ w, h.internalField? v index = some w ∧ IsPointerOf h w p)
        (getInternalFieldObject h v index) ↔
        (h.object? v).isSome ∧
          ∀ w, h.internalField? v index = some w → ¬ Fieldless h w) :=
  ⟨getObject_unwraps_iff v, getInternalFieldObject_unwraps_iff v index⟩

-- an external is asked for its fields as any other object is
example : getInternalFieldObject ⟨[{ contents := .external 7 }], by decide⟩ (.object 0) 0 =
    .error (.threw (.missingInternalField 0 0)) := rfl

def plainObjects : Heap where
  objects := [{}, { internalFields := [.object 0] }]
  fits := by decide

theorem unwrap_plain_object :
    ¬ Unwraps (IsPointerOf plainObjects (.object 0)) (getObject plainObjects (.object 0)) ∧
      ¬ Unwraps (fun p => ∃ w, plainObjects.internalField? (.object 1) 0 = some w ∧
        IsPointerOf plainObjects w p) (getInternalFieldObject plainObjects (.object 1) 0) ∧
      ¬ Unwraps (fun p => ∃ w, plainObjects.internalField? (.number .nan) 0 = some w ∧
        IsPointerOf plainObjects w p) (getInternalFieldObject plainObjects (.number .nan) 0) :=
  ⟨id, id, id⟩

end V8Min.SoyV8
