import Mathlib.Data.List.TakeWhile
import V8InspectorMinimal.Base.Traversal
import V8InspectorMinimal.SoyV8.TypedArrays

/-! The two overloads of `EnumArray` that flatten a JS value into an array of floats or of ints.
They differ in their element type and in the typed arrays that they know. -/

namespace V8Min.SoyV8
open Bytes Doubles Traversal

structure Single where
  bits : UInt32
  deriving DecidableEq

instance : Scalar Single :=
  .littleEndian 4 (Scalar.size_pos (ε := UInt32)) (fun x => x.bits.toNat)
    (fun n => ⟨UInt32.ofNat n⟩) (fun x => x.bits.toNat_lt)
    (fun _ => congrArg Single.mk UInt32.ofNat_toNat)
    fun _ h => UInt32.toNat_ofNat_of_lt' h

/-- The conversions of a `double`. The one to `int` drops what is after the point, and what it makes
of a number that is then out of range is left to the platform. -/
structure Platform where
  toFloat : Double → Single
  toInt : Double → Int32
  toInt_eq : ∀ x r, x.toRat? = some r → -2 ^ 31 ≤ truncate r → truncate r < 2 ^ 31 →
    (toInt x).toInt = truncate r

structure Overload (ε : Type) where
  name : String
  ofDouble : Double → ε
  branch : ArrayType → Option (Heap → Value → List ε → Outcome ε)

/-- The loop's counter is an `int`, which is enough for arrays of fewer than `2 ^ 31` elements.
`fuel` bounds the depth of the recursion. -/
def enumArray {ε : Type} (o : Overload ε) (h : Heap) (context : String) :
    ℕ → Value → List ε → Option (Outcome ε)
  | 0, _, _ => none
  | fuel + 1, v, array =>
    match v with
    | .number x => some (array ++ [o.ofDouble x], .ok ())
    | v =>
      match h.array? v with
      | some elements => forEach (enumArray o h context fuel) elements array
      | none =>
        match (h.typedArray? v).bind fun a => o.branch a.type with
        | some branch => some (branch h v array)
        | none =>
          some (array, .error (.threw (.unhandledElement (getTypeName h v) o.name context)))

def floatOverload (p : Platform) (fresh : ℕ → UInt8) : Overload Single where
  name := "float"
  ofDouble := p.toFloat
  branch
    | .float32Array => some fun h v array => enumTypedArray fresh h .float32Array v array
    | _ => none

def throughTemporary (τ : Type) [Scalar τ] (fresh : ℕ → UInt8) (type : ArrayType)
    (toInt : τ → Int32) (h : Heap) (v : Value) (array : List Int32) : Outcome Int32 :=
  match enumTypedArray fresh h type v ([] : List τ) with
  | (ints, .ok ()) => (array ++ ints.map toInt, .ok ())
  | (_, .error e) => (array, .error e)

def intOverload (p : Platform) (fresh : ℕ → UInt8) : Overload Int32 where
  name := "int"
  ofDouble := p.toInt
  branch
    | .int32Array => some (throughTemporary Int32 fresh .int32Array id)
    | .uint32Array => some (throughTemporary UInt32 fresh .uint32Array UInt32.toInt32)
    | .int16Array => some (throughTemporary Int16 fresh .int16Array Int16.toInt32)
    | .uint16Array =>
      some (throughTemporary UInt16 fresh .uint16Array fun x => x.toUInt32.toInt32)
    | .int8Array => some (throughTemporary Int8 fresh .int8Array Int8.toInt32)
    | .uint8Array => some (throughTemporary UInt8 fresh .uint8Array fun x => x.toUInt32.toInt32)
    | .uint8ClampedArray =>
      some (throughTemporary UInt8 fresh .uint8ClampedArray fun x => x.toUInt32.toInt32)
    | .float32Array | .float64Array | .other _ => none

/-! ## The elements of a leaf -/

def viewElements (τ : Type) [Scalar τ] (h : Heap) (a : TypedArray) : List τ :=
  elements τ a.length (h.viewBytes a)

def floatView (h : Heap) (a : TypedArray) : Option (List Single) :=
  match a.type with
  | .float32Array => some (viewElements Single h a)
  | _ => none

def intView (h : Heap) (a : TypedArray) : Option (List Int32) :=
  match a.type with
  | .int32Array => some (viewElements Int32 h a)
  | .uint32Array => some ((viewElements UInt32 h a).map UInt32.toInt32)
  | .int16Array => some ((viewElements Int16 h a).map Int16.toInt32)
  | .uint16Array => some ((viewElements UInt16 h a).map fun x => x.toUInt32.toInt32)
  | .int8Array => some ((viewElements Int8 h a).map Int8.toInt32)
  | .uint8Array | .uint8ClampedArray =>
    some ((viewElements UInt8 h a).map fun x => x.toUInt32.toInt32)
  | .float32Array | .float64Array | .other _ => none

def leafElements {ε : Type} (h : Heap) (ofDouble : Double → ε)
    (view : Heap → TypedArray → Option (List ε)) : Value → Option (List ε)
  | .number x => some [ofDouble x]
  | v => (h.typedArray? v).bind (view h)

/-- Each branch appends what `view` says, and there is none where `view` says nothing. -/
def Overload.Reads {ε : Type} (o : Overload ε) (view : Heap → TypedArray → Option (List ε)) :
    Prop :=
  ∀ h v a, h.typedArray? v = some a →
    (o.branch a.type = none ∧ view h a = none) ∨
      ∃ f xs, o.branch a.type = some f ∧ view h a = some xs ∧
        ∀ array, f h v array = (array ++ xs, .ok ())

theorem floatOverload_reads (p : Platform) (fresh : ℕ → UInt8) :
    (floatOverload p fresh).Reads floatView := by
  intro h v a hv
  unfold floatView
  cases htype : a.type with
  | float32Array =>
    have hcast := Heap.asArrayOfType_eq_some.mpr ⟨hv, htype⟩
    have hsize : Scalar.size Single = a.type.elementSize := htype ▸ rfl
    exact Or.inr ⟨_, _, rfl, rfl, enumTypedArray_of_size_eq hcast hsize⟩
  | _ => exact Or.inl ⟨rfl, rfl⟩

theorem throughTemporary_eq (τ : Type) [Scalar τ] {fresh : ℕ → UInt8} {h : Heap} {v : Value}
    {a : TypedArray} {type : ArrayType} (hv : h.typedArray? v = some a) (htype : a.type = type)
    (hsize : Scalar.size τ = type.elementSize) (toInt : τ → Int32) (array : List Int32) :
    throughTemporary τ fresh type toInt h v array =
      (array ++ (viewElements τ h a).map toInt, .ok ()) := by
  have hcast := Heap.asArrayOfType_eq_some.mpr ⟨hv, htype⟩
  have hcopy : enumTypedArray fresh h type v ([] : List τ) = (viewElements τ h a, .ok ()) :=
    enumTypedArray_of_size_eq hcast (htype ▸ hsize) []
  unfold throughTemporary
  rw [hcopy]

theorem intOverload_reads (p : Platform) (fresh : ℕ → UInt8) :
    (intOverload p fresh).Reads intView := by
  intro h v a hv
  unfold intView
  cases htype : a.type with
  | int32Array =>
    refine Or.inr ⟨_, _, rfl, rfl, fun array => ?_⟩
    rw [throughTemporary_eq Int32 hv htype rfl, List.map_id]
  | uint32Array => exact Or.inr ⟨_, _, rfl, rfl, throughTemporary_eq UInt32 hv htype rfl _⟩
  | int16Array => exact Or.inr ⟨_, _, rfl, rfl, throughTemporary_eq Int16 hv htype rfl _⟩
  | uint16Array => exact Or.inr ⟨_, _, rfl, rfl, throughTemporary_eq UInt16 hv htype rfl _⟩
  | int8Array => exact Or.inr ⟨_, _, rfl, rfl, throughTemporary_eq Int8 hv htype rfl _⟩
  | uint8Array => exact Or.inr ⟨_, _, rfl, rfl, throughTemporary_eq UInt8 hv htype rfl _⟩
  | uint8ClampedArray => exact Or.inr ⟨_, _, rfl, rfl, throughTemporary_eq UInt8 hv htype rfl _⟩
  | _ => exact Or.inl ⟨rfl, rfl⟩

/-! ## The recursion is a walk over the arrays -/

section Walk
variable {ε : Type} {o : Overload ε} {view : Heap → TypedArray → Option (List ε)}

def leafOut (o : Overload ε) (view : Heap → TypedArray → Option (List ε)) (h : Heap)
    (context : String) (v : Value) : Except Fault (List ε) :=
  match leafElements h o.ofDouble view v with
  | some xs => .ok xs
  | none => .error (.threw (.unhandledElement (getTypeName h v) o.name context))

theorem enumArray_node {h : Heap} {context : String} {v : Value} {xs : List Value}
    (hv : h.array? v = some xs) (fuel : ℕ) (array : List ε) :
    enumArray o h context (fuel + 1) v array =
      forEach (enumArray o h context fuel) xs array := by
  cases v with
  | number x => exact absurd hv (Option.some_ne_none _).symm
  | _ => simp only [enumArray, hv]

theorem enumArray_of_typedArray? {h : Heap} {context : String} {v : Value}
    (hnumber : ∀ x, v ≠ .number x) (hv : h.array? v = none) (fuel : ℕ) (array : List ε) :
    enumArray o h context (fuel + 1) v array =
      match (h.typedArray? v).bind fun a => o.branch a.type with
      | some branch => some (branch h v array)
      | none =>
        some (array, .error (.threw (.unhandledElement (getTypeName h v) o.name context))) := by
  cases v with
  | number x => exact absurd rfl (hnumber x)
  | _ => simp only [enumArray, hv]

theorem leafElements_of_typedArray? {h : Heap} {ofDouble : Double → ε} {v : Value}
    (hnumber : ∀ x, v ≠ .number x) :
    leafElements h ofDouble view v = (h.typedArray? v).bind (view h) := by
  cases v with
  | number x => exact absurd rfl (hnumber x)
  | _ => rfl

theorem enumArray_leaf (ho : o.Reads view) {h : Heap} {context : String} {v : Value}
    (hv : h.array? v = none) (fuel : ℕ) (array : List ε) :
    enumArray o h context (fuel + 1) v array =
      some (appendOut (leafOut o view h context) v array) := by
  by_cases hnumber : ∃ x, v = .number x
  · obtain ⟨x, rfl⟩ := hnumber
    rfl
  have hnumber' (x : Double) : v ≠ .number x := fun hx => hnumber ⟨x, hx⟩
  rw [enumArray_of_typedArray? hnumber' hv, appendOut, leafOut,
    leafElements_of_typedArray? hnumber']
  cases htyped : h.typedArray? v with
  | none => rfl
  | some a =>
    rw [Option.bind_some, Option.bind_some]
    rcases ho h v a htyped with ⟨hbranch, hview⟩ | ⟨f, xs, hbranch, hview, hf⟩
    · rw [hbranch, hview]
    · rw [hbranch, hview]
      exact congrArg some (hf array)

theorem enumArray_eq_walk (ho : o.Reads view) (h : Heap) (context : String) (fuel : ℕ) (v : Value)
    (array : List ε) : enumArray o h context fuel v array =
      walk h.array? (appendOut (leafOut o view h context)) fuel v array := by
  induction fuel generalizing v array with
  | zero => rfl
  | succ fuel ih =>
    cases hv : h.array? v with
    | none => rw [enumArray_leaf ho hv, walk_leaf hv]
    | some xs =>
      have hcalls : enumArray o h context fuel =
          walk h.array? (appendOut (leafOut o view h context)) fuel := by
        funext w array
        exact ih w array
      rw [enumArray_node hv, walk_node hv, hcalls]

/-! ## Flattening -/

structure Flattens (leaf : Value → Option (List ε)) (leaves : List Value) (array : List ε)
    (result : Outcome ε) : Prop where
  returns : result.2 = .ok () ↔ ∀ v ∈ leaves, (leaf v).isSome
  returned : result.2 = .ok () → result.1 = array ++ leaves.flatMap fun v => (leaf v).getD []
  threw : result.2 ≠ .ok () → (∃ e, result.2 = .error (.threw e)) ∧
    result.1 = array ++
      (leaves.takeWhile fun v => (leaf v).isSome).flatMap fun v => (leaf v).getD []

theorem isOut_leafOut (h : Heap) (context : String) (v : Value) :
    isOut (leafOut o view h context) v = (leafElements h o.ofDouble view v).isSome := by
  unfold isOut leafOut
  cases leafElements h o.ofDouble view v <;> rfl

theorem outOf_leafOut (h : Heap) (context : String) (v : Value) :
    outOf (leafOut o view h context) v = (leafElements h o.ofDouble view v).getD [] := by
  unfold outOf leafOut
  cases leafElements h o.ofDouble view v <;> rfl

theorem visitAll_threw {h : Heap} {context : String} {leaves : List Value} {array : List ε}
    (hfails : (visitAll (appendOut (leafOut o view h context)) leaves array).2 ≠ .ok ()) :
    ∃ e, (visitAll (appendOut (leafOut o view h context)) leaves array).2 =
      .error (.threw e) := by
  induction leaves generalizing array with
  | nil => exact absurd rfl hfails
  | cons v leaves ih =>
    rw [visitAll, appendOut, leafOut] at hfails ⊢
    cases hv : leafElements h o.ofDouble view v with
    | none => exact ⟨_, rfl⟩
    | some xs =>
      rw [hv] at hfails
      exact ih hfails

theorem flattens_visitAll (h : Heap) (context : String) (leaves : List Value) (array : List ε) :
    Flattens (leafElements h o.ofDouble view) leaves array
      (visitAll (appendOut (leafOut o view h context)) leaves array) := by
  have harray : (visitAll (appendOut (leafOut o view h context)) leaves array).1 = _ :=
    visitAll_appendOut_fst leaves array
  have hreturns : (visitAll (appendOut (leafOut o view h context)) leaves array).2 = .ok () ↔ _ :=
    visitAll_appendOut_snd leaves array
  simp only [isOut_leafOut] at hreturns
  have hisOut : isOut (leafOut o view h context) =
      fun v => (leafElements h o.ofDouble view v).isSome := by
    funext v
    exact isOut_leafOut h context v
  have houtOf : outOf (leafOut o view h context) =
      fun v => (leafElements h o.ofDouble view v).getD [] := by
    funext v
    exact outOf_leafOut h context v
  rw [hisOut, houtOf] at harray
  refine ⟨hreturns, fun hok => ?_, fun hfails => ⟨visitAll_threw hfails, harray⟩⟩
  have hwhole := List.takeWhile_eq_self_iff.mpr (hreturns.mp hok)
  rw [harray, hwhole]

theorem enumArray_of_leaves (ho : o.Reads view) {h : Heap} {context : String} {v : Value}
    {leaves : List Value} (hleaves : Leaves h.array? [v] leaves) (array : List ε) :
    ∃ fuel result, (∀ fuel' ≥ fuel, enumArray o h context fuel' v array = some result) ∧
      Flattens (leafElements h o.ofDouble view) leaves array result := by
  obtain ⟨fuel, hfuel⟩ : ∃ fuel, ∀ fuel' ≥ fuel, ∀ array,
      walk h.array? (appendOut (leafOut o view h context)) fuel' v array = some _ :=
    walk_of_leaves hleaves
  refine ⟨fuel, _, fun fuel' hle => ?_, flattens_visitAll h context leaves array⟩
  rw [enumArray_eq_walk ho]
  exact hfuel fuel' hle array

end Walk

/-- Both overloads flatten every value that has no endless way down. -/
theorem enumArray_flattens (p : Platform) (fresh : ℕ → UInt8) (h : Heap) (context : String)
    (v : Value) (hv : Acyclic h.array? v) :
    ∃ leaves, Leaves h.array? [v] leaves ∧
      (∀ array : List Single, ∃ fuel result,
        (∀ fuel' ≥ fuel, enumArray (floatOverload p fresh) h context fuel' v array = some result) ∧
          Flattens (leafElements h p.toFloat floatView) leaves array result) ∧
      ∀ array : List Int32, ∃ fuel result,
        (∀ fuel' ≥ fuel, enumArray (intOverload p fresh) h context fuel' v array = some result) ∧
          Flattens (leafElements h p.toInt intView) leaves array result := by
  obtain ⟨leaves, hleaves⟩ := hv.exists_leaves
  refine ⟨leaves, hleaves, fun array => ?_, fun array => ?_⟩
  · exact enumArray_of_leaves (floatOverload_reads p fresh) hleaves array
  · exact enumArray_of_leaves (intOverload_reads p fresh) hleaves array

def roundShift (n k : ℕ) : ℕ :=
  -- to the nearest, and at a tie to the even one
  let q := n / 2 ^ k
  let r := n % 2 ^ k
  if 2 ^ k < 2 * r ∨ (2 ^ k = 2 * r ∧ q % 2 = 1) then q + 1 else q

def x86 : Platform where
  -- numbers out of the range of `int` become the least one, and those out of the range of `float`
  -- infinite
  toFloat
    | .nan => ⟨0x7fc00000⟩
    | .infinity negative => ⟨if negative then 0xff800000 else 0x7f800000⟩
    | .finite x =>
      let sign : UInt32 := if x.negative then 0x80000000 else 0
      -- a subnormal `float` has the least exponent and a shorter significand
      let biased := max (x.exponent + 179) 1
      let rounded := roundShift x.significand (biased - (x.exponent + 150)).toNat
      ⟨sign + UInt32.ofNat (min ((biased.toNat - 1) * 2 ^ 23 + rounded) 0x7f800000)⟩
  toInt x :=
    match x.toRat? with
    | some r =>
      if -2 ^ 31 ≤ truncate r ∧ truncate r < 2 ^ 31 then Int32.ofInt (truncate r)
      else Int32.minValue
    | none => Int32.minValue
  toInt_eq x r hx hlow hhigh := by
    rw [hx]
    show (if _ then _ else _ : Int32).toInt = _
    rw [if_pos ⟨hlow, hhigh⟩]
    exact Int32.toInt_ofInt_of_le hlow hhigh

def nestedArray : Heap where
  objects := [
    { contents := .array [.number (.finite (.ofInt 3 (by decide))), .object 1, .object 2] },
    { contents := .array [.object 2] },
    { contents := .typedArray ⟨.float32Array, 3, 0, 1⟩ },
    { contents := .arrayBuffer [0, 0, 0, 64] }]
  fits := by decide

theorem acyclic_nestedArray : Acyclic nestedArray.array? (.object 0) := by
  have hnumber : Acyclic nestedArray.array? (.number (.finite (.ofInt 3 (by decide)))) :=
    acyclic_of_leaf rfl
  have htyped : Acyclic nestedArray.array? (.object 2) := acyclic_of_leaf rfl
  have hinner : Acyclic nestedArray.array? (.object 1) := by
    apply acyclic_of_node rfl
    simpa using htyped
  apply acyclic_of_node rfl
  simpa using ⟨hnumber, hinner, htyped⟩

theorem enumArray_flattens_nestedArray : Acyclic nestedArray.array? (.object 0) ∧
    ∃ leaves, Leaves nestedArray.array? [.object 0] leaves ∧
      (∀ array : List Single, ∃ fuel result,
        (∀ fuel' ≥ fuel, enumArray (floatOverload x86 fun _ => 0) nestedArray "" fuel' (.object 0)
          array = some result) ∧
          Flattens (leafElements nestedArray x86.toFloat floatView) leaves array result) ∧
      ∀ array : List Int32, ∃ fuel result,
        (∀ fuel' ≥ fuel, enumArray (intOverload x86 fun _ => 0) nestedArray "" fuel' (.object 0)
          array = some result) ∧
          Flattens (leafElements nestedArray x86.toInt intView) leaves array result :=
  ⟨acyclic_nestedArray,
    enumArray_flattens x86 (fun _ => 0) nestedArray "" (.object 0) acyclic_nestedArray⟩

-- 3 and twice 2
example : enumArray (floatOverload x86 fun _ => 0) nestedArray "" 3 (.object 0) [⟨7⟩] =
    some ([⟨7⟩, ⟨0x40400000⟩, ⟨0x40000000⟩, ⟨0x40000000⟩], .ok ()) := by decide +kernel

end V8Min.SoyV8
