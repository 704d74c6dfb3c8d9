import V8InspectorMinimal.SoyV8.Memory

/-! The copies between the program's arrays and typed arrays: the template `EnumArray`, which reads
a whole view as one block of memory, and `GetTypedArray` and `CopyToTypedArray`, which write. -/

namespace V8Min.SoyV8
open Bytes

abbrev Outcome (ε : Type) := List ε × Except Fault Unit

def divide (m n : ℕ) : Except Fault ℕ :=
  if n = 0 then .error .undefinedBehaviour else .ok (m / n)

def Heap.copyContents (h : Heap) (a : TypedArray) (byteLength : ℕ) : List UInt8 :=
  (h.viewBytes a).take byteLength

section Template
variable {ε : Type} [Scalar ε]

/-- The elements that `PushBlock(n)` appends. Their memory holds whatever bytes are there. -/
def newBlock (ε : Type) [Scalar ε] (fresh : ℕ → UInt8) (n : ℕ) : List ε :=
  elements ε n ((List.range (Scalar.size ε * n)).map fresh)

def enumTypedArray (fresh : ℕ → UInt8) (h : Heap) (type : ArrayType) (v : Value)
    (array : List ε) : Outcome ε :=
  match safeCast h (.typedArray type) (h.asArrayOfType type) v with
  | .error e => (array, .error e)
  | .ok a =>
    -- skip div0 checks
    if a.length = 0 then (array, .ok ())
    else
      match divide a.byteLength a.length with
      | .error e => (array, .error e)
      | .ok elementSizev8 =>
        if Scalar.size ε ≠ elementSizev8 then
          (array, .error (.threw (.elementSize elementSizev8 (Scalar.size ε))))
        else
          let newElements := newBlock ε fresh a.length
          let newElementsByteSize := Scalar.size ε * a.length % 2 ^ 64
          let written := h.copyContents a newElementsByteSize
          let array := array ++ elements ε a.length (write written (memory newElements))
          if newElementsByteSize ≠ written.length then
            (array, .error (.threw (.bytesWritten written.length newElementsByteSize)))
          else (array, .ok ())

variable {fresh : ℕ → UInt8} {h : Heap} {type : ArrayType} {v : Value} {a : TypedArray}

theorem safeCast_eq_ok {α : Type} {t : CastType} {as? : Value → Option α} {x : α}
    (hv : as? v = some x) : safeCast h t as? v = .ok x := by
  unfold safeCast
  rw [hv]

theorem enumTypedArray_of_length_eq_zero (hv : h.asArrayOfType type v = some a)
    (hlength : a.length = 0) (array : List ε) :
    enumTypedArray fresh h type v array = (array, .ok ()) := by
  unfold enumTypedArray
  simp only [safeCast_eq_ok hv, hlength, if_true]

theorem divide_byteLength (hlength : a.length ≠ 0) :
    divide a.byteLength a.length = .ok a.type.elementSize := by
  unfold divide TypedArray.byteLength
  rw [if_neg hlength, Nat.mul_div_cancel _ (Nat.pos_of_ne_zero hlength)]

theorem enumTypedArray_of_size_ne (hv : h.asArrayOfType type v = some a) (hlength : a.length ≠ 0)
    (hsize : Scalar.size ε ≠ a.type.elementSize) (array : List ε) :
    enumTypedArray fresh h type v array =
      (array, .error (.threw (.elementSize a.type.elementSize (Scalar.size ε)))) := by
  unfold enumTypedArray
  simp only [safeCast_eq_ok hv, hlength, if_false, divide_byteLength hlength, ne_eq, hsize,
    not_false_eq_true, if_true]

theorem mul_length_mod (hv : h.asArrayOfType type v = some a)
    (hsize : Scalar.size ε = a.type.elementSize) :
    Scalar.size ε * a.length % 2 ^ 64 = a.byteLength := by
  obtain ⟨hv, -⟩ := Heap.asArrayOfType_eq_some.mp hv
  have hinside := Heap.view_inside hv
  have hlt := h.bufferContents_lt a
  rw [hsize]
  exact Nat.mod_eq_of_lt (show a.byteLength < 2 ^ 64 by omega)

theorem length_newBlock (n : ℕ) :
    (memory (newBlock ε fresh n)).length = Scalar.size ε * n := by
  unfold newBlock
  rw [length_memory, length_elements]

theorem enumTypedArray_of_size_eq (hv : h.asArrayOfType type v = some a)
    (hsize : Scalar.size ε = a.type.elementSize) (array : List ε) :
    enumTypedArray fresh h type v array =
      (array ++ elements ε a.length (h.viewBytes a), .ok ()) := by
  by_cases hlength : a.length = 0
  · rw [enumTypedArray_of_length_eq_zero hv hlength, hlength, elements, List.append_nil]
  have hview := Heap.length_viewBytes (Heap.asArrayOfType_eq_some.mp hv).1
  have hbytes : h.copyContents a a.byteLength = h.viewBytes a :=
    List.take_of_length_le (Nat.le_of_eq hview)
  have hblock : (memory (newBlock ε fresh a.length)).length ≤ (h.viewBytes a).length := by
    rw [length_newBlock, hview, hsize]
    exact Nat.le_refl _
  unfold enumTypedArray
  simp only [safeCast_eq_ok hv, hlength, if_false, divide_byteLength hlength, hsize.symm, ne_eq,
    not_true_eq_false, mul_length_mod hv hsize, hbytes, write_of_length_le hblock, hview]

/-- The result in each case. The new elements are the bytes of the view, and neither the division
nor the check of the bytes written fails. -/
theorem enumTypedArray_exact (ε : Type) [Scalar ε] (fresh : ℕ → UInt8) (h : Heap)
    (type : ArrayType) (v : Value) (a : TypedArray) (hv : h.asArrayOfType type v = some a)
    (array : List ε) :
    (a.length = 0 → enumTypedArray fresh h type v array = (array, .ok ())) ∧
      (0 < a.length → Scalar.size ε ≠ a.type.elementSize →
        enumTypedArray fresh h type v array =
          (array, .error (.threw (.elementSize a.type.elementSize (Scalar.size ε))))) ∧
      (0 < a.length → Scalar.size ε = a.type.elementSize →
        ∃ new : List ε, enumTypedArray fresh h type v array = (array ++ new, .ok ()) ∧
          new.length = a.length ∧
          memory new = ((h.bufferContents a).drop a.byteOffset).take a.byteLength) ∧
      (enumTypedArray fresh h type v array).2 ≠ .error .undefinedBehaviour ∧
      ∀ written expected, (enumTypedArray fresh h type v array).2 ≠
        .error (.threw (.bytesWritten written expected)) := by
  have hempty (hlength : a.length = 0) : enumTypedArray fresh h type v array = (array, .ok ()) :=
    enumTypedArray_of_length_eq_zero hv hlength array
  have hmisaligned (hlength : 0 < a.length) (hsize : Scalar.size ε ≠ a.type.elementSize) :
      enumTypedArray fresh h type v array =
        (array, .error (.threw (.elementSize a.type.elementSize (Scalar.size ε)))) :=
    enumTypedArray_of_size_ne hv (Nat.ne_of_gt hlength) hsize array
  have haligned (hsize : Scalar.size ε = a.type.elementSize) :
      enumTypedArray fresh h type v array =
        (array ++ elements ε a.length (h.viewBytes a), .ok ()) :=
    enumTypedArray_of_size_eq hv hsize array
  have hfault : (enumTypedArray fresh h type v array).2 = .ok () ∨
      (enumTypedArray fresh h type v array).2 =
        .error (.threw (.elementSize a.type.elementSize (Scalar.size ε))) := by
    by_cases hsize : Scalar.size ε = a.type.elementSize
    · exact Or.inl (congrArg Prod.snd (haligned hsize))
    · rcases Nat.eq_zero_or_pos a.length with hlength | hlength
      · exact Or.inl (congrArg Prod.snd (hempty hlength))
      · exact Or.inr (congrArg Prod.snd (hmisaligned hlength hsize))
  refine ⟨hempty, hmisaligned, fun _ hsize => ?_, ?_, fun written expected => ?_⟩
  · have hview := Heap.length_viewBytes (Heap.asArrayOfType_eq_some.mp hv).1
    refine ⟨elements ε a.length (h.viewBytes a), haligned hsize, length_elements _ _, ?_⟩
    apply memory_elements
    rw [hview, hsize]
    rfl
  · rcases hfault with hfault | hfault <;> simp [hfault]
  · rcases hfault with hfault | hfault <;> simp [hfault]

end Template

def sharedBuffer : Heap where
  objects := [
    { contents := .arrayBuffer [1, 2, 3, 4, 5, 6] },
    { contents := .typedArray ⟨.uint16Array, 0, 2, 2⟩ },
    { contents := .typedArray ⟨.uint8ClampedArray, 0, 1, 3⟩ }]
  fits := by decide

theorem enumTypedArray_exact_sharedBuffer :
    sharedBuffer.asArrayOfType .uint16Array (.object 1) = some ⟨.uint16Array, 0, 2, 2⟩ ∧
      ∃ new : List UInt16,
        enumTypedArray (fun _ => 0) sharedBuffer .uint16Array (.object 1) [7] =
          ([7] ++ new, .ok ()) ∧ new.length = 2 ∧ memory new = [3, 4, 5, 6] :=
  ⟨by decide, (enumTypedArray_exact UInt16 (fun _ => 0) sharedBuffer .uint16Array (.object 1)
    ⟨.uint16Array, 0, 2, 2⟩ (by decide) [7]).2.2.1 (by decide) rfl⟩

/-! ## Writing -/

def copyToTypedArray (h : Heap) (values : List UInt8) (v : Value) : Heap × Except Fault Unit :=
  match safeCast h (.typedArray .uint8ClampedArray) (h.asArrayOfType .uint8ClampedArray) v with
  | .error e => (h, .error e)
  | .ok a => (h.copy a.buffer values, .ok ())

structure WritesView (h h' : Heap) (v : Value) (a : TypedArray) (values : List UInt8) : Prop where
  view : h'.typedArray? v = some a
  written : h'.viewBytes a = values
  frame : ∀ i, i < a.byteOffset ∨ a.byteOffset + a.byteLength ≤ i →
    (h'.bufferContents a)[i]? = (h.bufferContents a)[i]?

structure Coincides (buffer values : List UInt8) (offset : ℕ) : Prop where
  before : ∀ i < values.length, i < offset → buffer[i]? = values[i]?
  overlap : ∀ i < values.length, offset ≤ i → values[i]? = values[i - offset]?
  after : ∀ i, values.length ≤ i → offset ≤ i → i < offset + values.length →
    buffer[i]? = values[i - offset]?

theorem take_drop_eq_iff {bytes values : List UInt8} {offset : ℕ} :
    (bytes.drop offset).take values.length = values ↔
      ∀ j < values.length, bytes[offset + j]? = values[j]? := by
  constructor
  · intro hslice j hj
    have hget := congrArg (·[j]?) hslice
    simpa only [List.getElem?_take, hj, if_true, List.getElem?_drop] using hget
  · intro hget
    apply List.ext_getElem?
    intro j
    rw [List.getElem?_take, List.getElem?_drop]
    split
    · rename_i hj
      exact hget j hj
    · rename_i hj
      exact (List.getElem?_eq_none (Nat.le_of_not_lt hj)).symm

theorem coincides_iff {buffer values : List UInt8} {offset : ℕ} :
    Coincides buffer values offset ↔
      ((write values buffer).drop offset).take values.length = values ∧
        ∀ i, i < offset ∨ offset + values.length ≤ i →
          (write values buffer)[i]? = buffer[i]? := by
  rw [take_drop_eq_iff]
  constructor
  · intro h
    refine ⟨fun j hj => ?_, fun i hi => ?_⟩
    · rw [getElem?_write]
      split
      · rename_i hlt
        rw [h.overlap _ hlt (Nat.le_add_right _ _), Nat.add_sub_cancel_left]
      · rename_i hge
        have hlt : offset + j < offset + values.length := Nat.add_lt_add_left hj offset
        rw [h.after _ (Nat.le_of_not_lt hge) (Nat.le_add_right _ _) hlt, Nat.add_sub_cancel_left]
    · rw [getElem?_write]
      split
      · rename_i hlt
        have hbefore : i < offset := by omega
        exact (h.before i hlt hbefore).symm
      · rfl
  · rintro ⟨hview, hframe⟩
    refine ⟨fun i hlt hi => ?_, fun i hlt hi => ?_, fun i hge hi hlt => ?_⟩
    · have hkept := hframe i (Or.inl hi)
      rw [getElem?_write, if_pos hlt] at hkept
      exact hkept.symm
    · have hread := hview (i - offset) (by omega)
      rw [Nat.add_sub_cancel' hi, getElem?_write, if_pos hlt] at hread
      exact hread
    · have hread := hview (i - offset) (by omega)
      rw [Nat.add_sub_cancel' hi, getElem?_write, if_neg (Nat.not_lt.mpr hge)] at hread
      exact hread

theorem coincides_of_offset_or_length {buffer values : List UInt8} {offset : ℕ}
    (h : offset = 0 ∨ values.length = 0) : Coincides buffer values offset := by
  rcases h with rfl | h
  · refine ⟨fun i _ hi => absurd hi (Nat.not_lt_zero i), fun i _ _ => rfl, fun i hge _ hlt => ?_⟩
    omega
  · refine ⟨fun i hi => ?_, fun i hi => ?_, fun i _ hi hlt => ?_⟩
    · omega
    · omega
    · omega

theorem exists_not_coincides {buffer : List UInt8} {offset length : ℕ} (hoffset : offset ≠ 0)
    (hlength : length ≠ 0) (hle : offset + length ≤ buffer.length) :
    ∃ values : List UInt8, values.length = length ∧ ¬ Coincides buffer values offset := by
  have hpos : 0 < buffer.length := by omega
  refine ⟨List.replicate length (buffer[0] + 1), List.length_replicate, fun h => ?_⟩
  have hfirst := h.before 0 (by rw [List.length_replicate]; omega) (Nat.pos_of_ne_zero hoffset)
  rw [List.getElem?_replicate, if_pos (Nat.pos_of_ne_zero hlength),
    List.getElem?_eq_getElem hpos] at hfirst
  have hsame : buffer[0] = buffer[0] + 1 := Option.some.inj hfirst
  simp at hsame

section Writing
variable {h : Heap} {v : Value} {a : TypedArray}

theorem writesView_iff (hv : h.asArrayOfType .uint8ClampedArray v = some a) {values : List UInt8}
    (hsize : values.length = a.length) :
    WritesView h (copyToTypedArray h values v).1 v a values ↔
      Coincides (h.bufferContents a) values a.byteOffset := by
  obtain ⟨htyped, htype⟩ := Heap.asArrayOfType_eq_some.mp hv
  have hlength : a.byteLength = values.length := by
    rw [TypedArray.byteLength, htype, hsize]
    exact Nat.one_mul _
  have hle : values.length ≤ (h.bufferContents a).length := by
    have hinside := Heap.view_inside htyped
    omega
  have hcopy : (copyToTypedArray h values v).1 = h.copy a.buffer values := by
    unfold copyToTypedArray
    rw [safeCast_eq_ok hv]
  have hview : (h.copy a.buffer values).typedArray? v = some a :=
    (h.typedArray?_modify _ _ v).trans htyped
  rw [hcopy, coincides_iff]
  constructor
  · rintro ⟨-, hwritten, hframe⟩
    rw [Heap.viewBytes, Heap.bufferContents_copy hle, hlength] at hwritten
    rw [Heap.bufferContents_copy hle, hlength] at hframe
    exact ⟨hwritten, hframe⟩
  · rintro ⟨hwritten, hframe⟩
    refine ⟨hview, ?_, ?_⟩
    · rw [Heap.viewBytes, Heap.bufferContents_copy hle, hlength]
      exact hwritten
    · rw [Heap.bufferContents_copy hle, hlength]
      exact hframe

/-- The exact condition under which the copy writes the view that it is given, and the views with
which it does so whatever is written. -/
theorem copyToTypedArray_writesView_iff (h : Heap) (v : Value) (a : TypedArray)
    (hv : h.asArrayOfType .uint8ClampedArray v = some a) :
    (∀ values : List UInt8, values.length = a.length →
      (copyToTypedArray h values v).2 = .ok () ∧
        (WritesView h (copyToTypedArray h values v).1 v a values ↔
          Coincides (h.bufferContents a) values a.byteOffset)) ∧
    ((∀ values : List UInt8, values.length = a.length →
      WritesView h (copyToTypedArray h values v).1 v a values) ↔
        a.byteOffset = 0 ∨ a.length = 0) := by
  refine ⟨fun values hsize => ⟨?_, writesView_iff hv hsize⟩, fun hall => ?_, fun hplace => ?_⟩
  · unfold copyToTypedArray
    rw [safeCast_eq_ok hv]
  · by_contra hplace
    obtain ⟨hoffset, hlength⟩ := not_or.mp hplace
    obtain ⟨htyped, htype⟩ := Heap.asArrayOfType_eq_some.mp hv
    have hinside := Heap.view_inside htyped
    rw [TypedArray.byteLength, htype, ArrayType.elementSize, Nat.one_mul] at hinside
    obtain ⟨values, hsize, hnot⟩ := exists_not_coincides hoffset hlength hinside
    exact hnot ((writesView_iff hv hsize).mp (hall values hsize))
  · intro values hsize
    apply (writesView_iff hv hsize).mpr
    apply coincides_of_offset_or_length
    rw [hsize]
    exact hplace

end Writing

theorem copyToTypedArray_writesView_sharedBuffer :
    sharedBuffer.asArrayOfType .uint8ClampedArray (.object 2) = some ⟨.uint8ClampedArray, 0, 1, 3⟩ ∧
      ((copyToTypedArray sharedBuffer [1, 1, 1] (.object 2)).2 = .ok () ∧
        (WritesView sharedBuffer (copyToTypedArray sharedBuffer [1, 1, 1] (.object 2)).1 (.object 2)
          ⟨.uint8ClampedArray, 0, 1, 3⟩ [1, 1, 1] ↔ Coincides [1, 2, 3, 4, 5, 6] [1, 1, 1] 1)) ∧
      ((∀ values : List UInt8, values.length = 3 → WritesView sharedBuffer
        (copyToTypedArray sharedBuffer values (.object 2)).1 (.object 2)
          ⟨.uint8ClampedArray, 0, 1, 3⟩ values) ↔ 1 = 0 ∨ 3 = 0) := by
  have hiff := copyToTypedArray_writesView_iff sharedBuffer (.object 2)
    ⟨.uint8ClampedArray, 0, 1, 3⟩ (by decide)
  exact ⟨by decide, hiff.1 [1, 1, 1] rfl, hiff.2⟩

theorem writes_before_view :
    sharedBuffer.asArrayOfType .uint8ClampedArray (.object 2) = some ⟨.uint8ClampedArray, 0, 1, 3⟩ ∧
      ¬ WritesView sharedBuffer (copyToTypedArray sharedBuffer [7, 8, 9] (.object 2)).1 (.object 2)
        ⟨.uint8ClampedArray, 0, 1, 3⟩ [7, 8, 9] := by
  refine ⟨by decide, fun h => ?_⟩
  have hbytes : (copyToTypedArray sharedBuffer [7, 8, 9] (.object 2)).1.viewBytes
      ⟨.uint8ClampedArray, 0, 1, 3⟩ = [8, 9, 4] := by decide
  have hwritten := h.written
  rw [hbytes] at hwritten
  exact absurd hwritten (by decide)

/-! ## New typed arrays -/

structure ByteBridge where
  bytes : List UInt8
  size_lt : bytes.length < 2 ^ 64

theorem ByteBridge.fits_zeros (values : ByteBridge) (objects : List Object) :
    (Contents.arrayBuffer (List.replicate values.bytes.length 0)).Fits objects := by
  show (List.replicate values.bytes.length (0 : UInt8)).length < 2 ^ 64
  rw [List.length_replicate]
  exact values.size_lt

def newArrayBuffer (h : Heap) (values : ByteBridge) : Heap :=
  -- `ArrayBuffer::New`, and the copy into its contents
  (h.alloc (.arrayBuffer (List.replicate values.bytes.length 0))
    (values.fits_zeros h.objects)).copy h.next values.bytes

theorem bufferAt_newArrayBuffer (h : Heap) (values : ByteBridge) :
    bufferAt (newArrayBuffer h values).objects h.next = some values.bytes := by
  have hnew := h.bufferAt_alloc (List.replicate values.bytes.length 0) (values.fits_zeros h.objects)
  have hcopy := bufferAt_copy (h.alloc _ (values.fits_zeros h.objects)) h.next values.bytes
  rw [hnew] at hcopy
  refine hcopy.trans ?_
  rw [Option.map_some, List.length_replicate, List.take_length]
  exact congrArg some (write_of_length_le (Nat.le_of_eq List.length_replicate))

def newTypedArray (h : Heap) (values : ByteBridge) : TypedArray where
  type := .uint8ClampedArray
  buffer := h.next
  byteOffset := 0
  length := ((bufferAt (newArrayBuffer h values).objects h.next).getD []).length

theorem newTypedArray_eq (h : Heap) (values : ByteBridge) :
    newTypedArray h values = ⟨.uint8ClampedArray, h.next, 0, values.bytes.length⟩ := by
  rw [newTypedArray, bufferAt_newArrayBuffer, Option.getD_some]

theorem newTypedArray_fits (h : Heap) (values : ByteBridge) :
    (Contents.typedArray (newTypedArray h values)).Fits (newArrayBuffer h values).objects := by
  rw [newTypedArray_eq]
  refine ⟨values.bytes, bufferAt_newArrayBuffer h values, ?_⟩
  show 0 + 1 * values.bytes.length ≤ values.bytes.length
  rw [Nat.zero_add, Nat.one_mul]

/-- The longest array that `New` makes, on a platform of 64 bits. -/
def TypedArray.kMaxLength : ℕ := 2 ^ 31 - 1

def getTypedArray (h : Heap) (values : ByteBridge) : Heap × Option Value :=
  -- of a buffer that is too long `New` makes no array, and the handle is empty
  if (newTypedArray h values).length ≤ TypedArray.kMaxLength then
    ((newArrayBuffer h values).alloc (.typedArray (newTypedArray h values))
      (newTypedArray_fits h values), some (.object (newArrayBuffer h values).next))
  else (newArrayBuffer h values, none)

theorem getTypedArray_of_le {h : Heap} {values : ByteBridge}
    (hle : values.bytes.length ≤ TypedArray.kMaxLength) :
    getTypedArray h values = ((newArrayBuffer h values).alloc
      (.typedArray (newTypedArray h values)) (newTypedArray_fits h values),
      some (.object (newArrayBuffer h values).next)) := by
  have hnew : (newTypedArray h values).length ≤ TypedArray.kMaxLength := by
    rw [newTypedArray_eq]
    exact hle
  exact if_pos hnew

theorem getTypedArray_of_lt {h : Heap} {values : ByteBridge}
    (hlt : TypedArray.kMaxLength < values.bytes.length) :
    getTypedArray h values = (newArrayBuffer h values, none) := by
  have hnew : ¬ (newTypedArray h values).length ≤ TypedArray.kMaxLength := by
    rw [newTypedArray_eq]
    exact Nat.not_le_of_lt hlt
  exact if_neg hnew

end V8Min.SoyV8
