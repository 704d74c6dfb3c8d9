import V8InspectorMinimal.Base.Loops
import V8InspectorMinimal.SoyV8.EnumArray

/-! The `GetArray` and the `EnumArray` that are given a function for the elements. Both count in an
`int` and pass it on as a `size_t`, but one compares it with a `size_t` and the other with the
`uint32_t` of `Array::Length`. -/

namespace V8Min.SoyV8
open Loops Traversal

/-- A `GetElement` for a new array at `array`. No index is asked for twice, so that the values which
the calls give are a function of it. A call may make and change other objects, but it has no handle
to the array, which is returned only after the last call. -/
structure GetElement (array : Ref) where
  value : UInt64 → Value
  effect : UInt64 → Heap → Heap
  contents?_effect : ∀ i h,
    (effect i h).contents? (.object array) = h.contents? (.object array)

def GetElement.round {array : Ref} (getElement : GetElement array) (i : Int32) (h : Heap) :
    Heap × Except Empty Unit :=
  let h' := getElement.effect (toSizeT i) h
  (h'.setElement array i.toUInt32.toNat (getElement.value (toSizeT i)), .ok ())

def getArrayOf (h : Heap) (elementCount : UInt64) (getElement : GetElement h.next) (fuel : ℕ) :
    Option (Heap × Value) :=
  (intLoop (fun i _ => toSizeT i < elementCount) (fun i h => some (getElement.round i h)) fuel
    (h.alloc (.array []) trivial)).map fun result => (result.1, .object h.next)

def arrayLength (h : Heap) (array : Value) : UInt32 := .ofNat ((h.array? array).getD []).length

def arrayGet (h : Heap) (array : Value) (index : UInt32) : Value :=
  -- `undefined` where the array has no element
  (((h.array? array).getD [])[index.toNat]?).getD .undefined

/-- `EnumArray(Local<Array>, std::function)`. Besides the heap there is what `EnumElement` has
captured, and a call of it may throw. -/
def enumArrayOf {τ φ : Type} (array : Value)
    (enumElement : UInt64 → Value → Heap × τ → (Heap × τ) × Except φ Unit) (fuel : ℕ)
    (s : Heap × τ) : Option ((Heap × τ) × Except φ Unit) :=
  intLoop (fun i s => i.toUInt32 < arrayLength s.1 array)
    (fun i s => some (enumElement (toSizeT i) (arrayGet s.1 array i.toUInt32) s)) fuel s

/-! ## Building -/

theorem GetElement.round_spec {array : Ref} (getElement : GetElement array) {h : Heap}
    {ys : List Value} (hys : h.contents? (.object array) = some (.array ys))
    (hlength : ys.length < 2 ^ 32) :
    ∃ h', getElement.round (.ofNat ys.length) h = (h', .ok ()) ∧ h'.contents? (.object array) =
      some (.array (ys ++ [getElement.value (toSizeT (.ofNat ys.length))])) := by
  have heffect := getElement.contents?_effect (toSizeT (.ofNat ys.length)) h
  rw [hys] at heffect
  have hset := contents?_setElement heffect (getElement.value (toSizeT (.ofNat ys.length)))
  refine ⟨_, ?_, hset⟩
  unfold round
  rw [toNat_toUInt32 hlength]

section Building
variable {h : Heap}

theorem GetElement.forEach_round (getElement : GetElement h.next) {m : ℕ} (hm : m ≤ 2 ^ 32) :
    ∃ h', forEach (fun k h => some (getElement.round (.ofNat k) h)) (List.range m)
        (h.alloc (.array []) trivial) = some (h', .ok ()) ∧
      h'.contents? (.object h.next) =
        some (.array ((List.range m).map fun k => getElement.value (toSizeT (.ofNat k)))) := by
  induction m with
  | zero => exact ⟨h.alloc (.array []) trivial, rfl, h.contents?_alloc (.array []) trivial⟩
  | succ m ih =>
    obtain ⟨h', hloop, hcontents⟩ := ih (Nat.le_of_succ_le hm)
    have hlength : ((List.range m).map
        fun k => getElement.value (toSizeT (.ofNat k))).length = m := by simp
    obtain ⟨h'', hround, hset⟩ := getElement.round_spec hcontents (hlength.symm ▸ hm)
    rw [hlength] at hround hset
    refine ⟨h'', ?_, ?_⟩
    · rw [List.range_succ, forEach_append_ok hloop]
      exact forEach_cons_ok (congrArg some hround)
    · rw [List.range_succ, List.map_append, hset]
      rfl

theorem getArrayOf_returns (elementCount : UInt64) (getElement : GetElement h.next) :
    ∃ h', Returns (getArrayOf h elementCount getElement) (h', .object h.next) ∧
      h'.array? (.object h.next) = some ((List.range (sizeRounds elementCount.toNat)).map
        fun k => getElement.value (toSizeT (.ofNat k))) := by
  have hlt := sizeRounds_lt elementCount.toNat_lt
  obtain ⟨h', hloop, hcontents⟩ := getElement.forEach_round (Nat.le_of_lt hlt)
  refine ⟨h', ⟨sizeRounds elementCount.toNat + 1, fun fuel hfuel => ?_⟩, ?_⟩
  · rw [getArrayOf, intLoop_sizeT elementCount hfuel, hloop]
    rfl
  · exact congrArg (Option.bind · Contents.elements?) hcontents

end Building

/-! ## Enumerating -/

theorem toNat_arrayLength {h : Heap} {v : Value} {xs : List Value} (hv : h.array? v = some xs)
    (hlength : xs.length < 2 ^ 32) : (arrayLength h v).toNat = xs.length := by
  rw [arrayLength, hv, Option.getD_some, UInt32.toNat_ofNat_of_lt' hlength]

theorem arrayGet_ofNat {h : Heap} {v : Value} {xs : List Value} (hv : h.array? v = some xs) {k : ℕ}
    (hk : k < 2 ^ 32) :
    arrayGet h v (Int32.ofNat k).toUInt32 = xs[k]?.getD .undefined := by
  rw [arrayGet, hv, Option.getD_some, toNat_toUInt32 hk]

/-- An `EnumElement` that does not modify the array. -/
structure EnumElement (array : Ref) (τ φ : Type) where
  call : UInt64 → Value → Heap × τ → (Heap × τ) × Except φ Unit
  contents?_call : ∀ i v s,
    (call i v s).1.1.contents? (.object array) = s.1.contents? (.object array)

theorem EnumElement.array?_call {array : Ref} {τ φ : Type} (enumElement : EnumElement array τ φ)
    (i : UInt64) (v : Value) (s : Heap × τ) :
    (enumElement.call i v s).1.1.array? (.object array) = s.1.array? (.object array) :=
  congrArg (Option.bind · Contents.elements?) (enumElement.contents?_call i v s)

theorem enumArrayOf_returns {h : Heap} {array : Ref} {m : ℕ} {f : ℕ → Value}
    (hf : h.array? (.object array) = some ((List.range m).map f)) (hm : m < 2 ^ 32) {τ φ : Type}
    (enumElement : EnumElement array τ φ) (t : τ) :
    Returns (fun fuel => enumArrayOf (.object array) enumElement.call fuel (h, t))
      (visitAll (fun k => enumElement.call (toSizeT (.ofNat k)) (f k)) (List.range m) (h, t)) := by
  -- no call changes the array, so that its length and its elements are those at the start
  let P (s : Heap × τ) : Prop := s.1.array? (.object array) = some ((List.range m).map f)
  have hsize : ((List.range m).map f).length = m := by simp
  have hrounds : (arrayLength h (.object array)).toNat = m :=
    (toNat_arrayLength hf (hsize.symm ▸ hm)).trans hsize
  have hbound (s : Heap × τ) (hs : P s) :
      arrayLength s.1 (.object array) = arrayLength h (.object array) := by
    unfold arrayLength
    rw [hs, hf]
  have hkeeps (i : Int32) (s s' : Heap × τ) (hs : P s)
      (hcall : some (enumElement.call (toSizeT i) (arrayGet s.1 (.object array) i.toUInt32) s) =
        some (s', .ok ())) : P s' := by
    have harray := enumElement.array?_call (toSizeT i) (arrayGet s.1 (.object array) i.toUInt32) s
    rw [Option.some.inj hcall] at harray
    exact harray.trans hs
  refine ⟨m + 1, fun fuel hfuel => ?_⟩
  have hloop := intLoop_uint32 (s := (h, t)) hbound hkeeps (hrounds.symm ▸ hfuel) hf
  rw [hrounds] at hloop
  refine hloop.trans ?_
  rw [← forEach_visit]
  refine forEach_congr (P := P) (fun k hk s hs => ?_) (fun k => hkeeps (.ofNat k)) hf
  have hget : arrayGet s.1 (.object array) (Int32.ofNat k).toUInt32 = f k := by
    rw [arrayGet_ofNat hs (Nat.lt_trans (List.mem_range.mp hk) hm), List.getElem?_map,
      List.getElem?_range (List.mem_range.mp hk)]
    rfl
  rw [hget]

def BuildsAndEnumerates (h : Heap) (n : UInt64) (getElement : GetElement h.next) : Prop :=
  ∃ h', Returns (getArrayOf h n getElement) (h', .object h.next) ∧
    h'.array? (.object h.next) =
      some ((List.range n.toNat).map fun k => getElement.value (.ofNat k)) ∧
    ∀ (τ φ : Type) (enumElement : EnumElement h.next τ φ) (t : τ),
      Returns (fun fuel => enumArrayOf (.object h.next) enumElement.call fuel (h', t))
        (visitAll (fun k => enumElement.call (.ofNat k) (getElement.value (.ofNat k)))
          (List.range n.toNat) (h', t))

section Bound
variable {h : Heap} {n : UInt64} {getElement : GetElement h.next}

theorem BuildsAndEnumerates.le (hbuilds : BuildsAndEnumerates h n getElement) :
    n.toNat ≤ 2 ^ 31 := by
  obtain ⟨h', hreturns, harray, -⟩ := hbuilds
  obtain ⟨h'', hreturns', harray'⟩ := getArrayOf_returns n getElement
  obtain rfl : h' = h'' := congrArg Prod.fst (hreturns.unique hreturns')
  have hlength := congrArg (Option.map List.length) (harray'.symm.trans harray)
  simp only [Option.map_some, List.length_map, List.length_range, Option.some.injEq] at hlength
  exact sizeRounds_eq_iff.mp hlength

theorem buildsAndEnumerates_of_le (hn : n.toNat ≤ 2 ^ 31) :
    BuildsAndEnumerates h n getElement := by
  obtain ⟨h', hreturns, harray⟩ := getArrayOf_returns n getElement
  have hsizeT (k : ℕ) (hk : k ∈ List.range n.toNat) : toSizeT (.ofNat k) = .ofNat k :=
    toSizeT_of_lt (Nat.lt_of_lt_of_le (List.mem_range.mp hk) hn)
  have hvalues : ((List.range n.toNat).map fun k => getElement.value (toSizeT (.ofNat k))) =
      (List.range n.toNat).map fun k => getElement.value (.ofNat k) :=
    List.map_congr_left fun k hk => by rw [hsizeT k hk]
  rw [sizeRounds_eq_iff.mpr hn, hvalues] at harray
  refine ⟨h', hreturns, harray, fun τ φ enumElement t => ?_⟩
  have hvisits := enumArrayOf_returns harray (Nat.lt_of_le_of_lt hn (by decide)) enumElement t
  rw [visitAll_congr fun k hk => by rw [hsizeT k hk]] at hvisits
  exact hvisits

end Bound

/-- The exact range of counts for which the two functions visit every index once. -/
theorem buildsAndEnumerates_iff (h : Heap) (n : UInt64) (getElement : GetElement h.next) :
    BuildsAndEnumerates h n getElement ↔ n.toNat ≤ 2 ^ 31 :=
  ⟨fun hbuilds => hbuilds.le, buildsAndEnumerates_of_le⟩

def undefinedElements (array : Ref) : GetElement array where
  value _ := .undefined
  effect _ h := h
  contents?_effect _ _ := rfl

theorem getArrayOf_stops_short :
    (∃ h', Returns (getArrayOf ⟨[], by decide⟩ 2147483649 (undefinedElements 0)) (h', .object 0) ∧
      (h'.array? (.object 0)).map List.length = some 2147483648) ∧
    ¬ BuildsAndEnumerates ⟨[], by decide⟩ 2147483649 (undefinedElements 0) := by
  constructor
  · obtain ⟨h', hreturns, harray⟩ :=
      getArrayOf_returns (h := ⟨[], by decide⟩) 2147483649 (undefinedElements 0)
    have hrounds : sizeRounds (2147483649 : UInt64).toNat = 2147483648 := by decide
    have hlength := congrArg (Option.map List.length) harray
    rw [Option.map_some, List.length_map, List.length_range, hrounds] at hlength
    exact ⟨h', hreturns, hlength⟩
  · intro hbuilds
    exact absurd hbuilds.le (by decide)

/-! ## The recursive `EnumArray` -/

/-- The loop over the elements of an array in the recursive `EnumArray` counts in an `int` too. It
passes no index on, and so it comes to the elements of every array. -/
theorem enumArray_eq_loop {ε : Type} (o : Overload ε) {h : Heap} {v : Value} {xs : List Value}
    (hv : h.array? v = some xs) (hlength : xs.length < 2 ^ 32) (context : String) (fuel : ℕ)
    {rounds : ℕ} (hrounds : xs.length < rounds) (array : List ε) :
    enumArray o h context (fuel + 1) v array =
      intLoop (fun i _ => i.toUInt32 < arrayLength h v)
        (fun i => enumArray o h context fuel (arrayGet h v i.toUInt32)) rounds array := by
  have hn : (arrayLength h v).toNat = xs.length := toNat_arrayLength hv hlength
  have hget : xs = (List.range xs.length).map fun k => arrayGet h v (Int32.ofNat k).toUInt32 := by
    apply List.ext_getElem
    · simp
    · intro k hk _
      rw [List.getElem_map, List.getElem_range, arrayGet_ofNat hv (Nat.lt_trans hk hlength),
        List.getElem?_eq_getElem hk, Option.getD_some]
  have hforEach : forEach (enumArray o h context fuel) xs array =
      forEach (fun k => enumArray o h context fuel (arrayGet h v (Int32.ofNat k).toUInt32))
        (List.range xs.length) array := by
    conv_lhs => rw [hget]
    exact forEach_map _ _ array
  rw [enumArray_node hv, hforEach]
  refine Eq.trans ?_ (intLoop_uint32 (P := fun _ => True) (fun _ _ => rfl)
    (fun _ _ _ _ _ => trivial) (hn.symm ▸ hrounds) trivial).symm
  rw [hn]

end V8Min.SoyV8
