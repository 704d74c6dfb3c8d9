import V8InspectorMinimal.Base.Runs
import V8InspectorMinimal.SoyV8.Numbers

/-! What a typed array reads as while the program goes on: `GetTypedArray` makes new ones,
`CopyToTypedArray` writes into their buffers, and scripts do what they like to the rest. -/

namespace V8Min.SoyV8
open Bytes Runs

def Contents.setByte (i : ℕ) (b : UInt8) : Contents → Contents
  | .arrayBuffer bytes => .arrayBuffer (bytes.set i b)
  | c => c

theorem Contents.bytes?_setByte (i : ℕ) (b : UInt8) (c : Contents) :
    (c.setByte i b).bytes? = c.bytes?.map (List.set · i b) := by
  cases c <;> rfl

theorem Contents.keeps_setByte (i : ℕ) (b : UInt8) : Keeps (setByte i b) where
  typedArray? c := by cases c <;> rfl
  length_bytes? c := by
    rw [bytes?_setByte, Option.map_map]
    congr 1
    funext bytes
    exact List.length_set

def Heap.setByte (h : Heap) (r : Ref) (i : ℕ) (b : UInt8) : Heap :=
  h.modify r (Contents.setByte i b) (Contents.keeps_setByte i b)

inductive HeapAct where
  | getTypedArray (values : ByteBridge)
  | copyToTypedArray (values : List UInt8) (v : Value)
  | newObject (c : Contents)
  | setElement (r : Ref) (i : ℕ) (v : Value)
  | setByte (r : Ref) (i : ℕ) (b : UInt8)

def heapStep (h : Heap) : HeapAct → Option Heap
  | .getTypedArray values => some (getTypedArray h values).1
  | .copyToTypedArray values v =>
    if ∀ a ∈ h.asArrayOfType .uint8ClampedArray v, values.length ≤ (h.bufferContents a).length then
      some (copyToTypedArray h values v).1
    else none
  | .newObject c => if hc : c.Fits h.objects then some (h.alloc c hc) else none
  | .setElement r i v => some (h.setElement r i v)
  | .setByte r i b => some (h.setByte r i b)

/-- The byte that comes to stand at index `i` of the buffer. A copy begins at index 0, whatever the
offset of the view. -/
def byteWritten (buffer : Ref) (i : ℕ) (h : Heap) : HeapAct → Option UInt8
  | .copyToTypedArray values v =>
    (h.asArrayOfType .uint8ClampedArray v).bind fun a =>
      if a.buffer = buffer then values[i]? else none
  | .setByte r i' b => if r = buffer ∧ i' = i then some b else none
  | _ => none

/-! ## A view stays where it is -/

section Views
variable {h h' : Heap} {v : Value} {a : TypedArray}

theorem typedArray?_alloc {c : Contents} (hc : c.Fits h.objects) (hv : h.typedArray? v = some a) :
    (h.alloc c hc).typedArray? v = some a := by
  obtain ⟨c', hc', ha⟩ := Option.bind_eq_some_iff.mp hv
  obtain ⟨o, ho, rfl⟩ := Option.map_eq_some_iff.mp hc'
  cases v with
  | object r =>
    have hlt := (List.getElem?_eq_some_iff.mp ho).1
    have ho' : (h.objects ++ [{ contents := c }])[r]? = some o :=
      (List.getElem?_append_left hlt).trans ho
    exact Option.bind_eq_some_iff.mpr ⟨o.contents, congrArg (Option.map _) ho', ha⟩
  | _ => cases ho

theorem typedArray?_heapStep {act : HeapAct} (hv : h.typedArray? v = some a)
    (hstep : heapStep h act = some h') : h'.typedArray? v = some a := by
  cases act with
  | getTypedArray values =>
    obtain rfl := Option.some.inj hstep
    have hnew := typedArray?_alloc (values.fits_zeros h.objects) hv
    have hbuffer : (newArrayBuffer h values).typedArray? v = some a :=
      (Heap.typedArray?_modify _ _ (Contents.keeps_copy values.bytes) v).trans hnew
    unfold getTypedArray
    split
    · exact typedArray?_alloc (newTypedArray_fits h values) hbuffer
    · exact hbuffer
  | copyToTypedArray values w =>
    obtain ⟨-, hstep⟩ := Option.ite_none_right_eq_some.mp hstep
    obtain rfl := Option.some.inj hstep
    unfold copyToTypedArray
    split
    · exact hv
    · exact (h.typedArray?_modify _ (Contents.keeps_copy values) v).trans hv
  | newObject c =>
    obtain ⟨hc, hstep⟩ := Option.dite_none_right_eq_some.mp hstep
    obtain rfl := Option.some.inj hstep
    exact typedArray?_alloc hc hv
  | setElement r i w =>
    obtain rfl := Option.some.inj hstep
    exact (h.typedArray?_modify r (Contents.keeps_setElement i w) v).trans hv
  | setByte r i b =>
    obtain rfl := Option.some.inj hstep
    exact (h.typedArray?_modify r (Contents.keeps_setByte i b) v).trans hv

theorem exists_bufferAt (hv : h.typedArray? v = some a) :
    ∃ bytes, bufferAt h.objects a.buffer = some bytes ∧
      a.byteOffset + a.byteLength ≤ bytes.length := by
  obtain ⟨o, ho, ha⟩ := Heap.exists_object_of_typedArray? hv
  exact (Contents.fits_iff.mp (h.fits o ho)).1 a ha

end Views

/-! ## The bytes of a buffer -/

theorem bufferAt_modify_of_ne {f : Contents → Contents} {objects : List Object} {r r' : Ref}
    (hne : r ≠ r') :
    bufferAt (objects.modify r (Object.mapContents f)) r' = bufferAt objects r' := by
  rw [bufferAt_modify]
  simp only [if_neg hne]
  rfl

theorem Contents.bytes?_setElement (i : ℕ) (v : Value) (c : Contents) :
    (c.setElement i v).bytes? = c.bytes? := by
  cases c <;> rfl

theorem bufferAt_setElement (h : Heap) (r r' : Ref) (i : ℕ) (v : Value) :
    bufferAt (h.setElement r i v).objects r' = bufferAt h.objects r' := by
  refine (bufferAt_modify h.objects r r').trans ?_
  unfold bufferAt
  congr 1
  funext o
  split
  · exact Contents.bytes?_setElement i v o.contents
  · rfl

theorem bufferAt_setByte (h : Heap) (r : Ref) (i : ℕ) (b : UInt8) :
    bufferAt (h.setByte r i b).objects r = (bufferAt h.objects r).map (List.set · i b) := by
  refine (bufferAt_modify h.objects r r).trans ?_
  unfold bufferAt
  rw [Option.map_bind]
  congr 1
  funext o
  rw [if_pos rfl]
  exact Contents.bytes?_setByte i b o.contents

theorem bufferAt_getTypedArray {h : Heap} {r : Ref} {bytes : List UInt8} (values : ByteBridge)
    (hr : bufferAt h.objects r = some bytes) :
    bufferAt (getTypedArray h values).1.objects r = some bytes := by
  obtain ⟨o, ho, -⟩ := Option.bind_eq_some_iff.mp hr
  have hlt : r < h.next := (List.getElem?_eq_some_iff.mp ho).1
  have hcopy : bufferAt (newArrayBuffer h values).objects r = some bytes :=
    (bufferAt_modify_of_ne (Nat.ne_of_gt hlt)).trans (bufferAt_append _ hr)
  unfold getTypedArray
  split
  · exact bufferAt_append _ hcopy
  · exact hcopy

section Bytes
variable {h h' : Heap} {v : Value} {a : TypedArray} {i : ℕ}

theorem bufferContents_copyToTypedArray {values : List UInt8} {w : Value}
    (hroom : ∀ a' ∈ h.asArrayOfType .uint8ClampedArray w,
      values.length ≤ (h.bufferContents a').length) :
    ((copyToTypedArray h values w).1.bufferContents a)[i]? =
      (byteWritten a.buffer i h (.copyToTypedArray values w)).or (h.bufferContents a)[i]? := by
  have hbyte : byteWritten a.buffer i h (.copyToTypedArray values w) =
      (h.asArrayOfType .uint8ClampedArray w).bind fun a' =>
        if a'.buffer = a.buffer then values[i]? else none := rfl
  rw [hbyte]
  unfold copyToTypedArray safeCast
  cases hw : h.asArrayOfType .uint8ClampedArray w with
  | none => rfl
  | some a' =>
    rw [Option.bind_some]
    -- a copy to another view counts if the buffer is the same
    by_cases hsame : a'.buffer = a.buffer
    · have hle : values.length ≤ (h.bufferContents a).length := by
        have hle := hroom a' hw
        unfold Heap.bufferContents at hle ⊢
        rwa [hsame] at hle
      show ((h.copy a'.buffer values).bufferContents a)[i]? = _
      rw [if_pos hsame, hsame, Heap.bufferContents_copy hle, getElem?_write]
      split
      · rename_i hi
        rw [List.getElem?_eq_getElem hi, Option.some_or]
      · rename_i hi
        rw [List.getElem?_eq_none (Nat.le_of_not_lt hi), Option.none_or]
    · rw [if_neg hsame, Option.none_or]
      exact congrArg (fun bytes => (Option.getD bytes [])[i]?) (bufferAt_modify_of_ne hsame)

theorem bufferContents_setByte {r : Ref} {j : ℕ} (b : UInt8)
    (hi : i < (h.bufferContents a).length) :
    ((h.setByte r j b).bufferContents a)[i]? =
      (byteWritten a.buffer i h (.setByte r j b)).or (h.bufferContents a)[i]? := by
  have hbyte : byteWritten a.buffer i h (.setByte r j b) =
      if r = a.buffer ∧ j = i then some b else none := rfl
  rw [hbyte]
  by_cases hsame : r = a.buffer
  · have hset : (h.setByte r j b).bufferContents a = (h.bufferContents a).set j b := by
      unfold Heap.bufferContents
      rw [← hsame, bufferAt_setByte]
      cases bufferAt h.objects r <;> rfl
    rw [hset, List.getElem?_set]
    by_cases hj : j = i
    · subst hj
      rw [if_pos rfl, if_pos hi, if_pos ⟨hsame, rfl⟩, Option.some_or]
    · rw [if_neg hj, if_neg fun hand => hj hand.2, Option.none_or]
  · rw [if_neg fun hand => hsame hand.1, Option.none_or]
    exact congrArg (fun bytes => (Option.getD bytes [])[i]?) (bufferAt_modify_of_ne hsame)

theorem bufferContents_heapStep {act : HeapAct} (hv : h.typedArray? v = some a)
    (hi : i < (h.bufferContents a).length) (hstep : heapStep h act = some h') :
    (h'.bufferContents a)[i]? = (byteWritten a.buffer i h act).or (h.bufferContents a)[i]? := by
  obtain ⟨bytes, hbytes, -⟩ := exists_bufferAt hv
  have hkept (hsame : bufferAt h'.objects a.buffer = bufferAt h.objects a.buffer) :
      (h'.bufferContents a)[i]? = (h.bufferContents a)[i]? := by
    rw [Heap.bufferContents, hsame]
    rfl
  cases act with
  | getTypedArray values =>
    obtain rfl := Option.some.inj hstep
    exact hkept ((bufferAt_getTypedArray values hbytes).trans hbytes.symm)
  | copyToTypedArray values w =>
    obtain ⟨hroom, hstep⟩ := Option.ite_none_right_eq_some.mp hstep
    obtain rfl := Option.some.inj hstep
    exact bufferContents_copyToTypedArray hroom
  | newObject c =>
    obtain ⟨hc, hstep⟩ := Option.dite_none_right_eq_some.mp hstep
    obtain rfl := Option.some.inj hstep
    exact hkept ((bufferAt_append _ hbytes).trans hbytes.symm)
  | setElement r j w =>
    obtain rfl := Option.some.inj hstep
    exact hkept (bufferAt_setElement h r a.buffer j w)
  | setByte r j b =>
    obtain rfl := Option.some.inj hstep
    exact bufferContents_setByte b hi

theorem viewBytes_run {acts : List HeapAct} (hv : h.typedArray? v = some a)
    (hrun : run heapStep h acts = some h') {j : ℕ} (hj : j < a.byteLength) :
    (h'.viewBytes a)[j]? =
      (outputs heapStep (byteWritten a.buffer (a.byteOffset + j)) h acts).getLast?.or
        (h.viewBytes a)[j]? := by
  have hbyte (h : Heap) : (h.viewBytes a)[j]? = (h.bufferContents a)[a.byteOffset + j]? := by
    rw [Heap.viewBytes, List.getElem?_take_of_lt hj, List.getElem?_drop]
  rw [hbyte, hbyte]
  have hread (s : Heap) (act : HeapAct) (t : Heap) (hs : s.typedArray? v = some a)
      (hstep : heapStep s act = some t) : (t.bufferContents a)[a.byteOffset + j]? =
        (byteWritten a.buffer (a.byteOffset + j) s act).or
          (s.bufferContents a)[a.byteOffset + j]? := by
    have hinside := Heap.view_inside hs
    exact bufferContents_heapStep hs (by omega) hstep
  exact read_eq_getLast (fun _ _ _ => typedArray?_heapStep) hread hv hrun

end Bytes

/-- A view of bytes reads as the last byte that was written at each place, by a copy to any view of
its buffer or by a script, and both ways of reading it give the same. -/
theorem typedArray_reads_last (p : Platform) (fresh : ℕ → UInt8) (h h' : Heap)
    (acts : List HeapAct) (v : Value) (a : TypedArray)
    (hv : h.asArrayOfType .uint8ClampedArray v = some a)
    (hrun : run heapStep h acts = some h') :
    ∃ bytes : List UInt8, bytes.length = a.length ∧
      (∀ j < a.length, bytes[j]? =
        (outputs heapStep (byteWritten a.buffer (a.byteOffset + j)) h acts).getLast?.or
          (h.viewBytes a)[j]?) ∧
      (∀ array, enumTypedArray fresh h' .uint8ClampedArray v array = (array ++ bytes, .ok ())) ∧
      ∀ context array, ∀ fuel ≥ 1, enumArray (intOverload p fresh) h' context fuel v array =
        some (array ++ bytes.map fun b => b.toUInt32.toInt32, .ok ()) := by
  obtain ⟨htyped, htype⟩ := Heap.asArrayOfType_eq_some.mp hv
  have htyped' : h'.typedArray? v = some a :=
    invariant (I := fun h => h.typedArray? v = some a) (fun _ _ _ => typedArray?_heapStep) htyped
      hrun
  have hv' := Heap.asArrayOfType_eq_some.mpr ⟨htyped', htype⟩
  have hbytes : a.byteLength = a.length := by
    rw [TypedArray.byteLength, htype]
    exact Nat.one_mul _
  have hlength : (h'.viewBytes a).length = a.length :=
    (Heap.length_viewBytes htyped').trans hbytes
  have helements : elements UInt8 a.length (h'.viewBytes a) = h'.viewBytes a := by
    rw [← hlength]
    exact elements_uint8 _
  refine ⟨h'.viewBytes a, hlength, fun j hj => viewBytes_run htyped hrun (hbytes ▸ hj),
    fun array => ?_, fun context array fuel hfuel => ?_⟩
  · rw [enumTypedArray_of_size_eq hv' (by rw [htype]; rfl), helements]
  · have hview : intView h' a = some ((h'.viewBytes a).map fun b => b.toUInt32.toInt32) := by
      unfold intView viewElements
      rw [htype, helements]
    exact enumArray_view (intOverload_reads p fresh) htyped' hview context hfuel array

def copiedUnder : List HeapAct :=
  -- a view past the first byte of a new array's buffer, and a copy to the whole array after that
  [.newObject (.typedArray ⟨.uint8ClampedArray, 0, 1, 2⟩), .copyToTypedArray [7, 8] (.object 1),
    .setByte 0 2 9]

theorem typedArray_reads_last_copiedUnder : ∃ h' : Heap,
    run heapStep (getTypedArray ⟨[], by decide⟩ ⟨[1, 2, 3], by decide⟩).1 copiedUnder = some h' ∧
      (∀ array : List UInt8, enumTypedArray (fun _ => 0) h' .uint8ClampedArray (.object 1) array =
        (array ++ [7, 8, 9], .ok ())) ∧
      ∀ array, enumArray (intOverload x86 fun _ => 0) h' "" 1 (.object 1) array =
        some (array ++ [7, 8, 9], .ok ()) := by
  have hsome : (run heapStep (getTypedArray ⟨[], by decide⟩ ⟨[1, 2, 3], by decide⟩).1
      copiedUnder).isSome = true := by decide
  obtain ⟨h', hrun⟩ := Option.isSome_iff_exists.mp hsome
  obtain ⟨bytes, hlength, hread, htyped, hints⟩ := typedArray_reads_last x86 (fun _ => 0) _ h'
    copiedUnder (.object 1) ⟨.uint8ClampedArray, 0, 0, 3⟩ (by decide) hrun
  have hbytes : bytes = [7, 8, 9] := by
    have hthree : bytes.length = 3 := hlength
    apply List.ext_getElem?
    intro j
    match j with
    | 0 => exact hread 0 (by decide)
    | 1 => exact hread 1 (by decide)
    | 2 => exact hread 2 (by decide)
    | j + 3 => rw [List.getElem?_eq_none (by omega), List.getElem?_eq_none (by simp)]
  subst hbytes
  exact ⟨h', hrun, htyped, fun array => hints "" array 1 (Nat.le_refl 1)⟩

end V8Min.SoyV8
