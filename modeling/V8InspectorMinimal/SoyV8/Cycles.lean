import V8InspectorMinimal.SoyV8.EnumArray

/-! When `EnumArray` returns or throws. Its recursion follows the elements of arrays and has no
bound and no set of visited arrays, so that an array which contains itself may never be left. -/

namespace V8Min.SoyV8
open Doubles Traversal

def floatKnows : ArrayType → Bool
  | .float32Array => true
  | _ => false

def intKnows : ArrayType → Bool
  | .int8Array | .uint8Array | .uint8ClampedArray | .int16Array | .uint16Array | .int32Array
  | .uint32Array => true
  | .float32Array | .float64Array | .other _ => false

def Handles (knows : ArrayType → Bool) (h : Heap) (v : Value) : Prop :=
  (∃ x, v = .number x) ∨ ∃ a, h.typedArray? v = some a ∧ knows a.type = true

section Handles
variable {ε : Type} {view : Heap → TypedArray → Option (List ε)} {knows : ArrayType → Bool}

theorem isSome_leafElements_iff (hview : ∀ h a, (view h a).isSome = knows a.type) (h : Heap)
    (ofDouble : Double → ε) (v : Value) :
    (leafElements h ofDouble view v).isSome = true ↔ Handles knows h v := by
  by_cases hnumber : ∃ x, v = .number x
  · obtain ⟨x, rfl⟩ := hnumber
    exact ⟨fun _ => Or.inl ⟨x, rfl⟩, fun _ => rfl⟩
  have hnumber' (x : Double) : v ≠ .number x := fun hx => hnumber ⟨x, hx⟩
  rw [leafElements_of_typedArray? hnumber', Handles, or_iff_right hnumber]
  cases htyped : h.typedArray? v with
  | none => simp
  | some a => simp [hview]

theorem floatView_isSome (h : Heap) (a : TypedArray) :
    (floatView h a).isSome = floatKnows a.type := by
  unfold floatView floatKnows
  cases a.type <;> rfl

theorem intView_isSome (h : Heap) (a : TypedArray) : (intView h a).isSome = intKnows a.type := by
  unfold intView intKnows
  cases a.type <;> rfl

end Handles

theorem finite_arrays (h : Heap) : {v | (h.array? v).isSome}.Finite := by
  have hrefs : (Value.object '' {r | r < h.objects.length}).Finite :=
    (Set.finite_lt_nat h.objects.length).image Value.object
  refine hrefs.subset fun v hv => ?_
  cases v with
  | object r =>
    refine ⟨r, ?_, rfl⟩
    by_contra hr
    have hnone : h.objects[r]? = none := List.getElem?_eq_none (Nat.le_of_not_lt hr)
    have hobject : h.object? (.object r) = none := hnone
    simp [Heap.array?, Heap.contents?, hobject] at hv
  | _ => exact absurd hv Bool.false_ne_true

theorem enumArray_ends_iff_of_reads {ε : Type} {o : Overload ε}
    {view : Heap → TypedArray → Option (List ε)} {knows : ArrayType → Bool} (ho : o.Reads view)
    (hview : ∀ h a, (view h a).isSome = knows a.type) (h : Heap) (context : String) (v : Value)
    (array : List ε) : (∃ fuel, (enumArray o h context fuel v array).isSome) ↔
      ¬ Trapped h.array? (Handles knows h) v := by
  have hhandles (v : Value) (array : List ε) :
      (appendOut (leafOut o view h context) v array).2 = .ok () ↔ Handles knows h v := by
    rw [← isSome_leafElements_iff hview h o.ofDouble v, appendOut, leafOut]
    cases leafElements h o.ofDouble view v <;> simp
  simp only [enumArray_eq_walk ho]
  exact walk_ends_iff hhandles (finite_arrays h) v array

/-- The exact condition under which a call ends: it comes to no array that leads back to itself. -/
theorem enumArray_ends_iff (p : Platform) (fresh : ℕ → UInt8) (h : Heap) (context : String)
    (v : Value) :
    (∀ array : List Single,
      (∃ fuel, (enumArray (floatOverload p fresh) h context fuel v array).isSome) ↔
        ¬ Trapped h.array? (Handles floatKnows h) v) ∧
    ∀ array : List Int32,
      (∃ fuel, (enumArray (intOverload p fresh) h context fuel v array).isSome) ↔
        ¬ Trapped h.array? (Handles intKnows h) v := by
  refine ⟨fun array => ?_, fun array => ?_⟩
  · exact enumArray_ends_iff_of_reads (floatOverload_reads p fresh) floatView_isSome h context v
      array
  · exact enumArray_ends_iff_of_reads (intOverload_reads p fresh) intView_isSome h context v array

def selfArray : Heap where
  objects := [{ contents := .array [.object 0] }]
  fits := by decide

theorem trapped_selfArray (knows : ArrayType → Bool) :
    Trapped selfArray.array? (Handles knows selfArray) (.object 0) := by
  have henters : Enters selfArray.array? (Handles knows selfArray) (.object 0) (.object 0) :=
    ⟨[], [], rfl, fun z hz => absurd hz List.not_mem_nil⟩
  exact ⟨.object 0, .refl, .single henters⟩

theorem enumArray_never_ends :
    (¬ ∃ fuel,
      (enumArray (floatOverload x86 fun _ => 0) selfArray "" fuel (.object 0) []).isSome) ∧
    ¬ ∃ fuel, (enumArray (intOverload x86 fun _ => 0) selfArray "" fuel (.object 0) []).isSome := by
  constructor
  · rw [enumArray_ends_iff_of_reads (floatOverload_reads _ _) floatView_isSome]
    exact not_not_intro (trapped_selfArray floatKnows)
  · rw [enumArray_ends_iff_of_reads (intOverload_reads _ _) intView_isSome]
    exact not_not_intro (trapped_selfArray intKnows)

end V8Min.SoyV8
