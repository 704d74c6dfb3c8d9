import V8InspectorMinimal.Base.Loops
import V8InspectorMinimal.SoyV8.Cycles

/-! What becomes of the numbers in `EnumArray(ArrayBridge<int>&)`: the copy of a typed array against
the recursion over a plain array, and both against `GetArray` and `GetTypedArray`. -/

namespace V8Min.SoyV8
open Bytes Doubles Loops Traversal

section Calls
variable {ε : Type} {o : Overload ε} {view : Heap → TypedArray → Option (List ε)}

theorem forEach_numbers (h : Heap) (context : String) (fuel : ℕ) (ds : List Double)
    (array : List ε) : forEach (enumArray o h context (fuel + 1)) (ds.map .number) array =
      some (array ++ ds.map o.ofDouble, .ok ()) := by
  induction ds generalizing array with
  | nil => rw [List.map_nil, List.map_nil, List.append_nil, forEach]
  | cons d ds ih =>
    have hd : enumArray o h context (fuel + 1) (.number d) array =
        some (array ++ [o.ofDouble d], .ok ()) := rfl
    rw [List.map_cons, forEach_cons_ok hd, ih, List.map_cons, List.append_assoc,
      List.singleton_append]

theorem enumArray_numbers {h : Heap} {w : Value} {ds : List Double}
    (hw : h.array? w = some (ds.map .number)) (context : String) {fuel : ℕ} (hfuel : 2 ≤ fuel)
    (array : List ε) :
    enumArray o h context fuel w array = some (array ++ ds.map o.ofDouble, .ok ()) := by
  obtain ⟨n, rfl⟩ := Nat.exists_eq_add_of_le' hfuel
  rw [enumArray_node hw, forEach_numbers]

theorem enumArray_view (ho : o.Reads view) {h : Heap} {v : Value} {a : TypedArray} {xs : List ε}
    (hv : h.typedArray? v = some a) (hxs : view h a = some xs) (context : String) {fuel : ℕ}
    (hfuel : 1 ≤ fuel) (array : List ε) :
    enumArray o h context fuel v array = some (array ++ xs, .ok ()) := by
  obtain ⟨n, rfl⟩ := Nat.exists_eq_add_of_le' hfuel
  have hnumber (x : Double) : v ≠ .number x := by
    rintro rfl
    exact absurd hv (Option.some_ne_none _).symm
  have harray : h.array? v = none := by
    obtain ⟨c, hc, ha⟩ := Option.bind_eq_some_iff.mp hv
    rw [Heap.array?, hc, Option.bind_some]
    cases c with
    | typedArray b => rfl
    | _ => exact absurd ha (Option.some_ne_none _).symm
  rw [enumArray_leaf ho harray, appendOut, leafOut, leafElements_of_typedArray? hnumber, hv,
    Option.bind_some, hxs]

end Calls

/-! ## Typed arrays and plain arrays of the same numbers -/

def viewNumbers (h : Heap) (a : TypedArray) : List ℤ :=
  match a.type with
  | .int8Array => (viewElements Int8 h a).map Int8.toInt
  | .uint8Array | .uint8ClampedArray => (viewElements UInt8 h a).map fun x => x.toNat
  | .int16Array => (viewElements Int16 h a).map Int16.toInt
  | .uint16Array => (viewElements UInt16 h a).map fun x => x.toNat
  | .int32Array => (viewElements Int32 h a).map Int32.toInt
  | .uint32Array => (viewElements UInt32 h a).map fun x => x.toNat
  | .float32Array | .float64Array | .other _ => []

theorem toInt_toInt32_of_lt {x : UInt32} (hx : x.toNat < 2 ^ 31) : x.toInt32.toInt = x.toNat := by
  show x.toBitVec.toInt = _
  apply BitVec.toInt_eq_toNat_of_lt
  show 2 * x.toNat < 2 ^ 32
  omega

theorem toInt_uint8 (x : UInt8) : x.toUInt32.toInt32.toInt = x.toNat := by
  have hx := x.toNat_lt
  have hsame : x.toUInt32.toNat = x.toNat := x.toNat_toUInt32
  rw [toInt_toInt32_of_lt (by omega), hsame]

theorem toInt_uint16 (x : UInt16) : x.toUInt32.toInt32.toInt = x.toNat := by
  have hx := x.toNat_lt
  have hsame : x.toUInt32.toNat = x.toNat := x.toNat_toUInt32
  rw [toInt_toInt32_of_lt (by omega), hsame]

theorem exists_intView {h : Heap} {a : TypedArray} (hknows : intKnows a.type = true) :
    ∃ ints, intView h a = some ints ∧
      ((∀ n ∈ viewNumbers h a, n < 2 ^ 31) → ints.map Int32.toInt = viewNumbers h a) := by
  unfold intView viewNumbers
  cases htype : a.type with
  | int32Array => exact ⟨_, rfl, fun _ => rfl⟩
  | uint32Array =>
    refine ⟨_, rfl, fun hlt => ?_⟩
    rw [List.map_map]
    apply List.map_congr_left
    intro x hx
    apply toInt_toInt32_of_lt
    exact Int.ofNat_lt.mp (hlt _ (List.mem_map_of_mem hx))
  | int16Array =>
    refine ⟨_, rfl, fun _ => ?_⟩
    rw [List.map_map]
    exact List.map_congr_left fun x _ => x.toInt_toInt32
  | uint16Array =>
    refine ⟨_, rfl, fun _ => ?_⟩
    rw [List.map_map]
    exact List.map_congr_left fun x _ => toInt_uint16 x
  | int8Array =>
    refine ⟨_, rfl, fun _ => ?_⟩
    rw [List.map_map]
    exact List.map_congr_left fun x _ => x.toInt_toInt32
  | uint8Array =>
    refine ⟨_, rfl, fun _ => ?_⟩
    rw [List.map_map]
    exact List.map_congr_left fun x _ => toInt_uint8 x
  | uint8ClampedArray =>
    refine ⟨_, rfl, fun _ => ?_⟩
    rw [List.map_map]
    exact List.map_congr_left fun x _ => toInt_uint8 x
  | float32Array | float64Array | other e =>
    rw [htype] at hknows
    exact absurd hknows Bool.false_ne_true

theorem viewNumbers_bounds {h : Heap} {a : TypedArray} {n : ℤ} (hn : n ∈ viewNumbers h a) :
    -2 ^ 31 ≤ n ∧ (a.type ≠ .uint32Array → n < 2 ^ 31) := by
  unfold viewNumbers at hn
  split at hn
  · obtain ⟨x, -, rfl⟩ := List.mem_map.mp hn
    have hlow := x.le_toInt
    have hhigh := x.toInt_lt
    omega
  · obtain ⟨x, -, rfl⟩ := List.mem_map.mp hn
    have hhigh := x.toNat_lt
    omega
  · obtain ⟨x, -, rfl⟩ := List.mem_map.mp hn
    have hhigh := x.toNat_lt
    omega
  · obtain ⟨x, -, rfl⟩ := List.mem_map.mp hn
    have hlow := x.le_toInt
    have hhigh := x.toInt_lt
    omega
  · obtain ⟨x, -, rfl⟩ := List.mem_map.mp hn
    have hhigh := x.toNat_lt
    omega
  · obtain ⟨x, -, rfl⟩ := List.mem_map.mp hn
    exact ⟨x.le_toInt, fun _ => x.toInt_lt⟩
  · rename_i htype
    obtain ⟨x, -, rfl⟩ := List.mem_map.mp hn
    exact ⟨by omega, fun hne => absurd htype hne⟩
  all_goals exact absurd hn List.not_mem_nil

/-- The two calls throw, or append the same ints, which are the numbers of the typed array. -/
def Preserves (p : Platform) (fresh : ℕ → UInt8) (h : Heap) (context : String) (v w : Value)
    (a : TypedArray) (array : List Int32) : Prop :=
  ∃ fuel r s, enumArray (intOverload p fresh) h context fuel v array = some r ∧
    enumArray (intOverload p fresh) h context fuel w array = some s ∧
    ((r.2 ≠ .ok () ∧ s.2 ≠ .ok ()) ∨ ∃ ints, r = (array ++ ints, .ok ()) ∧
      s = (array ++ ints, .ok ()) ∧ ints.map Int32.toInt = viewNumbers h a)

theorem Platform.toInt_of_toRat? (p : Platform) {d : Double} {n : ℤ} (hd : d.toRat? = some (n : ℚ))
    (hlow : -2 ^ 31 ≤ n) (hhigh : n < 2 ^ 31) : (p.toInt d).toInt = n := by
  have htruncate := truncate_intCast n
  rw [p.toInt_eq d n hd (htruncate.symm ▸ hlow) (htruncate.symm ▸ hhigh), htruncate]

theorem Platform.map_toInt (p : Platform) {ds : List Double} {ns : List ℤ}
    (hds : ds.map Double.toRat? = ns.map fun n : ℤ => some (n : ℚ))
    (hns : ∀ n ∈ ns, -2 ^ 31 ≤ n ∧ n < 2 ^ 31) : (ds.map p.toInt).map Int32.toInt = ns := by
  induction ds generalizing ns with
  | nil => exact (List.map_eq_nil_iff.mp hds.symm).symm
  | cons d ds ih =>
    cases ns with
    | nil => exact absurd hds (List.cons_ne_nil _ _)
    | cons n ns =>
      rw [List.map_cons, List.map_cons, List.cons.injEq] at hds
      obtain ⟨hlow, hhigh⟩ := hns n List.mem_cons_self
      have hrest := ih hds.2 fun m hm => hns m (List.mem_cons_of_mem n hm)
      rw [List.map_cons, List.map_cons, p.toInt_of_toRat? hds.1 hlow hhigh, hrest]

section Paths
variable {p : Platform} {fresh : ℕ → UInt8} {h : Heap} {context : String} {v w : Value}
  {a : TypedArray} {ds : List Double} {array : List Int32}

theorem Preserves.lt (hpreserves : Preserves p fresh h context v w a array)
    (hv : h.typedArray? v = some a) (hknows : intKnows a.type = true) :
    ∀ n ∈ viewNumbers h a, n < 2 ^ 31 := by
  obtain ⟨fuel, r, s, hr, -, ⟨hthrew, -⟩ | ⟨ints, -, -, hints⟩⟩ := hpreserves
  · obtain ⟨ints, hints, -⟩ := exists_intView hknows (h := h)
    cases fuel with
    | zero => exact absurd hr (Option.some_ne_none _).symm
    | succ fuel =>
      rw [enumArray_view (intOverload_reads p fresh) hv hints context (Nat.le_add_left 1 fuel)]
        at hr
      exact absurd (Option.some.inj hr ▸ rfl) hthrew
  · intro n hn
    rw [← hints] at hn
    obtain ⟨x, -, rfl⟩ := List.mem_map.mp hn
    exact x.toInt_lt

theorem preserves_of_lt (hv : h.typedArray? v = some a) (hknows : intKnows a.type = true)
    (hw : h.array? w = some (ds.map .number))
    (hds : ds.map Double.toRat? = (viewNumbers h a).map fun n : ℤ => some (n : ℚ))
    (hlt : ∀ n ∈ viewNumbers h a, n < 2 ^ 31) : Preserves p fresh h context v w a array := by
  obtain ⟨ints, hview, hints⟩ := exists_intView hknows (h := h)
  have hfast := enumArray_view (intOverload_reads p fresh) hv hview context (by decide : 1 ≤ 2)
    array
  have hslow := enumArray_numbers (o := intOverload p fresh) hw context (Nat.le_refl 2) array
  have hdoubles : (ds.map p.toInt).map Int32.toInt = viewNumbers h a :=
    p.map_toInt hds fun n hn => ⟨(viewNumbers_bounds hn).1, hlt n hn⟩
  have hsame : ds.map p.toInt = ints := by
    apply List.map_injective_iff.mpr (fun _ _ => Int32.toInt_inj.mp)
    rw [hdoubles, hints hlt]
  have hslow' : enumArray (intOverload p fresh) h context 2 w array =
      some (array ++ ints, .ok ()) := hsame ▸ hslow
  exact ⟨2, _, _, hfast, hslow', Or.inr ⟨ints, rfl, rfl, hints hlt⟩⟩

end Paths

/-- The exact condition under which the copy of a typed array and the recursion over the plain array
of the same numbers agree and change no number. -/
theorem enumArray_preserves_iff (p : Platform) (fresh : ℕ → UInt8) (h : Heap) (context : String)
    (v w : Value) (a : TypedArray) (ds : List Double) (hv : h.typedArray? v = some a)
    (hknows : intKnows a.type = true) (hw : h.array? w = some (ds.map .number))
    (hds : ds.map Double.toRat? = (viewNumbers h a).map fun n : ℤ => some (n : ℚ))
    (array : List Int32) :
    Preserves p fresh h context v w a array ↔ ∀ n ∈ viewNumbers h a, n < 2 ^ 31 :=
  ⟨fun hpreserves => hpreserves.lt hv hknows, preserves_of_lt hv hknows hw hds⟩

def halves : Heap where
  -- two `Uint32Array`s of one number, each with the plain array of it
  objects := [
    { contents := .arrayBuffer [7, 0, 0, 0, 0, 0, 0, 0x80] },
    { contents := .typedArray ⟨.uint32Array, 0, 0, 1⟩ },
    { contents := .array [.number (.finite (.ofInt 7 (by decide)))] },
    { contents := .typedArray ⟨.uint32Array, 0, 4, 1⟩ },
    { contents := .array [.number (.finite (.ofInt 2147483648 (by decide)))] }]
  fits := by decide

theorem toRat?_halves (n : ℤ) (hn : n.natAbs < 2 ^ 53) :
    [Double.finite (.ofInt n hn)].map Double.toRat? = [n].map fun n : ℤ => some (n : ℚ) :=
  congrArg (fun r => [some r]) (Finite.toRat_ofInt hn)

theorem enumArray_preserves_low : Preserves x86 (fun _ => 0) halves "" (.object 1) (.object 2)
    ⟨.uint32Array, 0, 0, 1⟩ [] :=
  (enumArray_preserves_iff x86 (fun _ => 0) halves "" (.object 1) (.object 2)
    ⟨.uint32Array, 0, 0, 1⟩ [.finite (.ofInt 7 (by decide))] rfl rfl rfl
    (toRat?_halves 7 (by decide)) []).mpr (by decide)

theorem enumArray_wraps_high :
    halves.typedArray? (.object 3) = some ⟨.uint32Array, 0, 4, 1⟩ ∧
      halves.array? (.object 4) = some [.number (.finite (.ofInt 2147483648 (by decide)))] ∧
      viewNumbers halves ⟨.uint32Array, 0, 4, 1⟩ = [2147483648] ∧
      ¬ Preserves x86 (fun _ => 0) halves "" (.object 3) (.object 4)
        ⟨.uint32Array, 0, 4, 1⟩ [] := by
  refine ⟨rfl, rfl, by decide, fun hpreserves => ?_⟩
  have hlt := hpreserves.lt rfl rfl 2147483648 (by decide)
  exact absurd hlt (by decide)

/-! ## Round trips -/

theorem natAbs_toInt_lt (x : Int32) : x.toInt.natAbs < 2 ^ 53 := by
  have hlow := x.le_toInt
  have hhigh := x.toInt_lt
  omega

def ofInt32 (x : Int32) : Double := .finite (.ofInt x.toInt (natAbs_toInt_lt x))

theorem toRat?_ofInt32 (x : Int32) : (ofInt32 x).toRat? = some (x.toInt : ℚ) :=
  congrArg some (Finite.toRat_ofInt (natAbs_toInt_lt x))

theorem Platform.toInt_ofInt32 (p : Platform) (x : Int32) : p.toInt (ofInt32 x) = x := by
  apply Int32.toInt_inj.mp
  exact p.toInt_of_toRat? (toRat?_ofInt32 x) x.le_toInt x.toInt_lt

section GetArray
variable {ν : Type} (toDouble : ν → Double)

def setValue (values : List ν) (r : Ref) (i : Int32) (h : Heap) : Heap × Except Fault Unit :=
  match values[(toSizeT i).toNat]? with
  | some x => (h.setElement r i.toUInt32.toNat (.number (toDouble x)), .ok ())
  | none => (h, .error .undefinedBehaviour)

/-- `GetArray<NUMBERTYPE>`, which counts in an `int` up to a `size_t`. -/
def getArrayLoop (h : Heap) (values : List ν) (fuel : ℕ) : Option (Heap × Except Fault Value) :=
  (intLoop (fun i _ => toSizeT i < .ofNat values.length)
    (fun i h' => some (setValue toDouble values h.next i h')) fuel
    (h.alloc (.array []) trivial)).map fun (h', result) => (h', result.map fun _ => .object h.next)

def setElements (r : Ref) : ℕ → List ν → Heap → Heap
  | _, [], h => h
  | i, x :: xs, h => setElements r (i + 1) xs (h.setElement r i (.number (toDouble x)))

def getArray (h : Heap) (values : List ν) : Heap × Value :=
  -- what the loop makes of values that an `int` can count
  (setElements toDouble h.next 0 values (h.alloc (.array []) trivial), .object h.next)

theorem setValue_ofNat {values : List ν} {k : ℕ} {x : ν} (hk : k < 2 ^ 31)
    (hx : values[k]? = some x) (r : Ref) (h : Heap) :
    setValue toDouble values r (.ofNat k) h =
      (h.setElement r k (.number (toDouble x)), .ok ()) := by
  unfold setValue
  rw [toNat_toSizeT_of_lt hk, hx, toNat_toUInt32 (Nat.lt_trans hk (by decide))]

theorem forEach_setValue (before values : List ν) (hlength : (before ++ values).length ≤ 2 ^ 31)
    (r : Ref) (h : Heap) :
    forEach (fun k h => some (setValue toDouble (before ++ values) r (.ofNat k) h))
        (List.range' before.length values.length) h =
      some (setElements toDouble r before.length values h, .ok ()) := by
  induction values generalizing before h with
  | nil => rfl
  | cons x values ih =>
    have hk : before.length < 2 ^ 31 := by
      rw [List.length_append, List.length_cons] at hlength
      omega
    have hx : (before ++ x :: values)[before.length]? = some x := by simp
    have hround := setValue_ofNat toDouble hk hx r h
    have hrest := ih (before ++ [x]) (by simpa using hlength)
      (h.setElement r before.length (.number (toDouble x)))
    rw [List.append_assoc, List.length_append] at hrest
    rw [List.length_cons, List.range'_succ, forEach_cons_ok (congrArg some hround)]
    exact hrest

theorem getArrayLoop_returns (h : Heap) {values : List ν} (hlength : values.length ≤ 2 ^ 31) :
    Returns (getArrayLoop toDouble h values)
      ((getArray toDouble h values).1, .ok (getArray toDouble h values).2) := by
  have hsize : (UInt64.ofNat values.length).toNat = values.length :=
    UInt64.toNat_ofNat_of_lt' (Nat.lt_of_le_of_lt hlength (by decide))
  have hrounds : sizeRounds values.length = values.length := sizeRounds_eq_iff.mpr hlength
  refine ⟨values.length + 1, fun fuel hfuel => ?_⟩
  have hlt : sizeRounds (UInt64.ofNat values.length).toNat < fuel := by
    rw [hsize, hrounds]
    exact hfuel
  rw [getArrayLoop, intLoop_sizeT _ hlt, hsize, hrounds, List.range_eq_range']
  exact congrArg (Option.map _) (forEach_setValue toDouble [] values hlength h.next _)

theorem contents?_setElements {h : Heap} {r : Ref} {ys : List Value}
    (hr : h.contents? (.object r) = some (.array ys)) (values : List ν) :
    (setElements toDouble r ys.length values h).contents? (.object r) =
      some (.array (ys ++ (values.map toDouble).map .number)) := by
  induction values generalizing h ys with
  | nil =>
    rw [List.map_nil, List.map_nil, List.append_nil]
    exact hr
  | cons x values ih =>
    have hset := contents?_setElement hr (.number (toDouble x))
    have hrest := ih hset
    rw [List.length_append, List.length_singleton, List.append_assoc, List.singleton_append]
      at hrest
    exact hrest

theorem array?_getArray (h : Heap) (values : List ν) :
    (getArray toDouble h values).1.array? (getArray toDouble h values).2 =
      some ((values.map toDouble).map .number) := by
  have hnew := h.contents?_alloc (.array []) trivial
  have hset := contents?_setElements toDouble hnew values
  exact congrArg (Option.bind · Contents.elements?) hset

end GetArray

section TypedArray
variable {h : Heap} {values : ByteBridge} (hle : values.bytes.length ≤ TypedArray.kMaxLength)
include hle

theorem typedArray?_getTypedArray :
    (getTypedArray h values).1.typedArray? (.object (newArrayBuffer h values).next) =
      some (newTypedArray h values) := by
  have hnew := (newArrayBuffer h values).contents?_alloc (.typedArray (newTypedArray h values))
    (newTypedArray_fits h values)
  rw [getTypedArray_of_le hle]
  exact congrArg (Option.bind · Contents.typedArray?) hnew

theorem viewBytes_getTypedArray :
    (getTypedArray h values).1.viewBytes (newTypedArray h values) = values.bytes := by
  have hbuffer : bufferAt (getTypedArray h values).1.objects h.next = some values.bytes := by
    rw [getTypedArray_of_le hle]
    exact bufferAt_append _ (bufferAt_newArrayBuffer h values)
  have hcontents :
      (getTypedArray h values).1.bufferContents (newTypedArray h values) = values.bytes :=
    congrArg (Option.getD · []) hbuffer
  rw [Heap.viewBytes, hcontents, newTypedArray_eq]
  show (values.bytes.drop 0).take (1 * values.bytes.length) = values.bytes
  rw [List.drop_zero, Nat.one_mul, List.take_length]

theorem intView_getTypedArray :
    intView (getTypedArray h values).1 (newTypedArray h values) =
      some (values.bytes.map fun x => x.toUInt32.toInt32) := by
  have hlength : (newTypedArray h values).length = values.bytes.length := by
    rw [newTypedArray_eq]
  have helements : viewElements UInt8 (getTypedArray h values).1 (newTypedArray h values) =
      values.bytes := by
    unfold viewElements
    rw [viewBytes_getTypedArray hle, hlength]
    exact elements_uint8 values.bytes
  have htype : (newTypedArray h values).type = .uint8ClampedArray := rfl
  unfold intView
  rw [htype]
  exact congrArg (fun xs : List UInt8 => some (xs.map fun x => x.toUInt32.toInt32)) helements

end TypedArray

def enumHandle {ε : Type} (o : Overload ε) (h : Heap) (context : String) (fuel : ℕ)
    (handle : Option Value) (array : List ε) : Option (Outcome ε) :=
  -- nothing may be asked of an empty handle
  match handle with
  | none => some (array, .error .undefinedBehaviour)
  | some v => enumArray o h context fuel v array

/-- `GetTypedArray` of the bytes, and `EnumArray` of what it gives, append the bytes. -/
def TypedArrayReturns (p : Platform) (fresh : ℕ → UInt8) (h : Heap) (context : String)
    (array : List Int32) (values : ByteBridge) : Prop :=
  ∃ ints : List Int32, ints.map Int32.toInt = values.bytes.map (fun b => (b.toNat : ℤ)) ∧
    ∀ fuel ≥ 1, enumHandle (intOverload p fresh) (getTypedArray h values).1 context fuel
      (getTypedArray h values).2 array = some (array ++ ints, .ok ())

section RoundTrip
variable (p : Platform) (fresh : ℕ → UInt8) (h : Heap) (context : String) (array : List Int32)

theorem typedArrayReturns_iff (values : ByteBridge) :
    TypedArrayReturns p fresh h context array values ↔
      values.bytes.length ≤ TypedArray.kMaxLength := by
  constructor
  · rintro ⟨ints, -, henum⟩
    by_contra hlt
    have hempty := henum 1 (Nat.le_refl 1)
    rw [getTypedArray_of_lt (Nat.lt_of_not_le hlt), enumHandle, Option.some.injEq] at hempty
    exact absurd (congrArg Prod.snd hempty) (by simp)
  · intro hle
    refine ⟨values.bytes.map fun x => x.toUInt32.toInt32, ?_, fun fuel hfuel => ?_⟩
    · rw [List.map_map]
      exact List.map_congr_left fun b _ => toInt_uint8 b
    · have hview := enumArray_view (intOverload_reads p fresh) (typedArray?_getTypedArray hle)
        (intView_getTypedArray (h := h) hle) context hfuel array
      have hhandle : (getTypedArray h values).2 = some (.object (newArrayBuffer h values).next) :=
        congrArg Prod.snd (getTypedArray_of_le hle)
      rw [hhandle]
      exact hview

/-- What the program makes of ints or of bytes, `EnumArray` turns back into the same numbers. There
may be no more bytes than a typed array has room for. -/
theorem enumArray_round_trip :
    (∀ values : List Int32, values.length < 2 ^ 31 → ∃ h' v,
      Returns (getArrayLoop ofInt32 h values) (h', .ok v) ∧
        ∀ fuel ≥ 2, enumArray (intOverload p fresh) h' context fuel v array =
          some (array ++ values, .ok ())) ∧
    ∀ values : ByteBridge, TypedArrayReturns p fresh h context array values ↔
      values.bytes.length ≤ TypedArray.kMaxLength := by
  refine ⟨fun values hlength => ?_, typedArrayReturns_iff p fresh h context array⟩
  refine ⟨_, _, getArrayLoop_returns ofInt32 h (Nat.le_of_lt hlength), fun fuel hfuel => ?_⟩
  have hsame : (values.map ofInt32).map p.toInt = values := by
    rw [List.map_map]
    exact (List.map_congr_left fun x _ => p.toInt_ofInt32 x).trans (List.map_id values)
  have harray := array?_getArray ofInt32 h values
  rw [enumArray_numbers harray context hfuel]
  exact congrArg (fun xs => some (array ++ xs, Except.ok ())) hsame

end RoundTrip

theorem enumArray_round_trip_two : (∃ h' v,
    Returns (getArrayLoop ofInt32 ⟨[], by decide⟩ [1, -2]) (h', .ok v) ∧
      enumArray (intOverload x86 fun _ => 0) h' "" 2 v [3] = some ([3, 1, -2], .ok ())) ∧
    TypedArrayReturns x86 (fun _ => 0) ⟨[], by decide⟩ "" [3] ⟨[7, 255], by decide⟩ := by
  obtain ⟨hints, hbytes⟩ := enumArray_round_trip x86 (fun _ => 0) ⟨[], by decide⟩ "" [3]
  obtain ⟨h', v, hmade, henum⟩ := hints [1, -2] (by decide)
  exact ⟨⟨h', v, hmade, henum 2 (Nat.le_refl 2)⟩, (hbytes ⟨[7, 255], by decide⟩).mpr (by decide)⟩

def tooLong : ByteBridge where
  bytes := List.replicate (2 ^ 31) 0
  size_lt := by
    rw [List.length_replicate]
    decide

theorem enumArray_tooLong : tooLong.bytes.length = 2 ^ 31 ∧
    (getTypedArray ⟨[], by decide⟩ tooLong).2 = none ∧
    ¬ TypedArrayReturns x86 (fun _ => 0) ⟨[], by decide⟩ "" [] tooLong := by
  have hlength : tooLong.bytes.length = 2 ^ 31 := List.length_replicate
  have hlt : TypedArray.kMaxLength < tooLong.bytes.length := by
    rw [hlength]
    decide
  exact ⟨hlength, congrArg Prod.snd (getTypedArray_of_lt hlt),
    fun hreturns => Nat.not_le_of_lt hlt ((typedArrayReturns_iff _ _ _ _ _ _).mp hreturns)⟩

end V8Min.SoyV8
