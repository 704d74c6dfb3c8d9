import V8InspectorMinimal.SoyV8.Values

/-! How the program changes the heap of JS objects: it makes objects, sets elements of arrays and
writes into the bytes of buffers. None of these moves a view or resizes a buffer. -/

namespace V8Min.SoyV8
open Bytes

structure Contents.Keeps (f : Contents → Contents) : Prop where
  typedArray? : ∀ c, (f c).typedArray? = c.typedArray?
  length_bytes? : ∀ c, (f c).bytes?.map List.length = c.bytes?.map List.length

def Object.mapContents (f : Contents → Contents) (o : Object) : Object :=
  { o with contents := f o.contents }

section Modify
variable {f : Contents → Contents}

theorem getElem?_modify (objects : List Object) (r r' : Ref) :
    (objects.modify r (Object.mapContents f))[r']? =
      objects[r']?.map fun o => if r = r' then o.mapContents f else o := by
  rw [List.getElem?_modify]
  rfl

theorem exists_of_mem_modify {objects : List Object} {r : Ref} {o : Object}
    (ho : o ∈ objects.modify r (Object.mapContents f)) :
    ∃ o' ∈ objects, o.contents = o'.contents ∨ o.contents = f o'.contents := by
  obtain ⟨i, hi⟩ := List.mem_iff_getElem?.mp ho
  rw [getElem?_modify] at hi
  obtain ⟨o', ho', rfl⟩ := Option.map_eq_some_iff.mp hi
  refine ⟨o', List.mem_of_getElem? ho', ?_⟩
  split
  · exact Or.inr rfl
  · exact Or.inl rfl

theorem bufferAt_modify (objects : List Object) (r r' : Ref) :
    bufferAt (objects.modify r (Object.mapContents f)) r' =
      objects[r']?.bind fun o => (if r = r' then f o.contents else o.contents).bytes? := by
  unfold bufferAt
  rw [getElem?_modify, Option.bind_map]
  congr 1
  funext o
  show (if r = r' then o.mapContents f else o).contents.bytes? = _
  split
  · rfl
  · rfl

theorem Contents.Keeps.length_bufferAt (hf : Keeps f) (objects : List Object) (r r' : Ref) :
    (bufferAt (objects.modify r (Object.mapContents f)) r').map List.length =
      (bufferAt objects r').map List.length := by
  rw [bufferAt_modify]
  unfold bufferAt
  rw [Option.map_bind, Option.map_bind]
  congr 1
  funext o
  show Option.map List.length (if r = r' then f o.contents else o.contents).bytes? = _
  split
  · exact hf.length_bytes? o.contents
  · rfl

theorem Contents.Keeps.fits (hf : Keeps f) (h : Heap) (r : Ref) {o : Object}
    (ho : o ∈ h.objects.modify r (Object.mapContents f)) :
    o.contents.Fits (h.objects.modify r (Object.mapContents f)) := by
  obtain ⟨o', ho', hc⟩ := exists_of_mem_modify ho
  obtain ⟨hinside, haddressable⟩ := Contents.fits_iff.mp (h.fits o' ho')
  refine Contents.fits_iff.mpr ⟨fun a ha => ?_, fun bytes hb => ?_⟩
  · have ha' : o'.contents.typedArray? = some a := by
      rcases hc with hc | hc
      · rw [← hc, ha]
      · rw [← hf.typedArray?, ← hc, ha]
    obtain ⟨bytes, hbytes, hle⟩ := hinside a ha'
    have hlength := hf.length_bufferAt h.objects r a.buffer
    rw [hbytes] at hlength
    obtain ⟨bytes', hbytes', hl⟩ := Option.map_eq_some_iff.mp hlength
    exact ⟨bytes', hbytes', hl ▸ hle⟩
  · have hlength : o'.contents.bytes?.map List.length = some bytes.length := by
      rcases hc with hc | hc
      · rw [← hc, hb]
        rfl
      · rw [← hf.length_bytes?, ← hc, hb]
        rfl
    obtain ⟨bytes', hb', hl⟩ := Option.map_eq_some_iff.mp hlength
    exact hl ▸ haddressable bytes' hb'

def Heap.modify (h : Heap) (r : Ref) (f : Contents → Contents) (hf : Contents.Keeps f) : Heap where
  objects := h.objects.modify r (Object.mapContents f)
  fits _ ho := hf.fits h r ho

theorem Heap.contents?_modify_eq (h : Heap) (r r' : Ref) (hf : Contents.Keeps f) :
    (h.modify r f hf).contents? (.object r') =
      (h.contents? (.object r')).map fun c => if r = r' then f c else c := by
  unfold contents? object?
  show ((h.objects.modify r (Object.mapContents f))[r']?).map Object.contents = _
  rw [getElem?_modify, Option.map_map, Option.map_map]
  congr 1
  funext o
  show (if r = r' then o.mapContents f else o).contents = _
  split
  · rfl
  · rfl

theorem Heap.contents?_modify (h : Heap) (r : Ref) (hf : Contents.Keeps f) :
    (h.modify r f hf).contents? (.object r) = (h.contents? (.object r)).map f := by
  rw [h.contents?_modify_eq]
  congr 1
  funext c
  exact if_pos rfl

theorem Heap.typedArray?_modify (h : Heap) (r : Ref) (hf : Contents.Keeps f) (v : Value) :
    (h.modify r f hf).typedArray? v = h.typedArray? v := by
  cases v with
  | object r' =>
    unfold typedArray?
    rw [h.contents?_modify_eq, Option.bind_map]
    congr 1
    funext c
    show (if r = r' then f c else c).typedArray? = c.typedArray?
    split
    · exact hf.typedArray? c
    · rfl
  | _ => rfl

end Modify

/-! ## Elements and bytes -/

def Contents.setElement (i : ℕ) (v : Value) : Contents → Contents
  | .array xs => .array ((xs ++ List.replicate (i + 1 - xs.length) Value.undefined).set i v)
  | c => c

theorem Contents.keeps_setElement (i : ℕ) (v : Value) : Keeps (setElement i v) where
  typedArray? c := by cases c <;> rfl
  length_bytes? c := by cases c <;> rfl

def Heap.setElement (h : Heap) (r : Ref) (i : ℕ) (v : Value) : Heap :=
  h.modify r (Contents.setElement i v) (Contents.keeps_setElement i v)

theorem contents?_setElement {h : Heap} {r : Ref} {ys : List Value}
    (hr : h.contents? (.object r) = some (.array ys)) (v : Value) :
    (h.setElement r ys.length v).contents? (.object r) = some (.array (ys ++ [v])) := by
  have hset : Contents.setElement ys.length v (.array ys) = .array (ys ++ [v]) := by
    rw [Contents.setElement, Nat.add_sub_cancel_left, List.set_append_right _ _ (Nat.le_refl _),
      Nat.sub_self]
    rfl
  have hmodify := h.contents?_modify r (Contents.keeps_setElement ys.length v)
  rw [hr, Option.map_some, hset] at hmodify
  exact hmodify

/-- The memory of a buffer seen through `GetRemoteArray`, after `Copy`. No byte past its end is
written. -/
def Contents.copy (values : List UInt8) : Contents → Contents
  | .arrayBuffer bytes => .arrayBuffer (write (values.take bytes.length) bytes)
  | c => c

theorem Contents.bytes?_copy (values : List UInt8) (c : Contents) :
    (c.copy values).bytes? = c.bytes?.map fun bytes => write (values.take bytes.length) bytes := by
  cases c <;> rfl

theorem Contents.keeps_copy (values : List UInt8) : Keeps (copy values) where
  typedArray? c := by cases c <;> rfl
  length_bytes? c := by
    rw [bytes?_copy, Option.map_map]
    congr 1
    funext bytes
    have hle : (values.take bytes.length).length ≤ bytes.length := List.length_take_le _ _
    exact length_write hle

def Heap.copy (h : Heap) (r : Ref) (values : List UInt8) : Heap :=
  h.modify r (Contents.copy values) (Contents.keeps_copy values)

theorem bufferAt_copy (h : Heap) (r : Ref) (values : List UInt8) :
    bufferAt (h.copy r values).objects r =
      (bufferAt h.objects r).map fun bytes => write (values.take bytes.length) bytes := by
  refine (bufferAt_modify h.objects r r).trans ?_
  unfold bufferAt
  rw [Option.map_bind]
  congr 1
  funext o
  rw [if_pos rfl]
  exact Contents.bytes?_copy values o.contents

theorem Heap.bufferContents_copy {h : Heap} {a : TypedArray} {values : List UInt8}
    (hle : values.length ≤ (h.bufferContents a).length) :
    (h.copy a.buffer values).bufferContents a = write values (h.bufferContents a) := by
  unfold bufferContents at hle ⊢
  rw [bufferAt_copy]
  cases hb : bufferAt h.objects a.buffer with
  | none =>
    rw [hb] at hle
    have hnil : values = [] := List.eq_nil_of_length_eq_zero (Nat.le_zero.mp hle)
    rw [hnil]
    rfl
  | some bytes =>
    rw [hb] at hle
    have htake : values.take bytes.length = values := List.take_of_length_le hle
    exact congrArg (write · bytes) htake

/-! ## New objects -/

theorem bufferAt_append {objects : List Object} {r : Ref} {bytes : List UInt8} (o : Object)
    (hr : bufferAt objects r = some bytes) : bufferAt (objects ++ [o]) r = some bytes := by
  obtain ⟨o', ho', hbytes⟩ := Option.bind_eq_some_iff.mp hr
  have hlt := (List.getElem?_eq_some_iff.mp ho').1
  unfold bufferAt
  rw [List.getElem?_append_left hlt, ho']
  exact hbytes

theorem Contents.Fits.append {objects : List Object} {c : Contents} (hc : c.Fits objects)
    (o : Object) : c.Fits (objects ++ [o]) := by
  obtain ⟨hinside, haddressable⟩ := fits_iff.mp hc
  refine fits_iff.mpr ⟨fun a ha => ?_, haddressable⟩
  obtain ⟨bytes, hbytes, hle⟩ := hinside a ha
  exact ⟨bytes, bufferAt_append o hbytes, hle⟩

def Heap.alloc (h : Heap) (c : Contents) (hc : c.Fits h.objects) : Heap where
  objects := h.objects ++ [{ contents := c }]
  fits o ho := by
    rcases List.mem_append.mp ho with ho | ho
    · exact (h.fits o ho).append _
    · obtain rfl := List.mem_singleton.mp ho
      exact hc.append _

def Heap.next (h : Heap) : Ref := h.objects.length

theorem Heap.contents?_alloc (h : Heap) (c : Contents) (hc : c.Fits h.objects) :
    (h.alloc c hc).contents? (.object h.next) = some c := by
  unfold contents? object? alloc next
  show ((h.objects ++ [{ contents := c }])[h.objects.length]?).map Object.contents = some c
  rw [List.getElem?_concat_length]
  rfl

theorem Heap.bufferAt_alloc (h : Heap) (bytes : List UInt8)
    (hc : (Contents.arrayBuffer bytes).Fits h.objects) :
    bufferAt (h.alloc (.arrayBuffer bytes) hc).objects h.next = some bytes := by
  unfold bufferAt alloc next
  show ((h.objects ++ [{ contents := .arrayBuffer bytes }])[h.objects.length]?).bind _ = _
  rw [List.getElem?_concat_length]
  rfl

end V8Min.SoyV8
