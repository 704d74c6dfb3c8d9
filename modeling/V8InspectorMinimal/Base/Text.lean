import Mathlib.Data.List.Basic

/-! Texts as lists of Unicode scalar values, and their Latin-1, UTF-8 and UTF-16 code units.
What the verifications need is how the lengths of two encodings of one text compare. -/

namespace Text

def latin1Char (b : UInt8) : Char := Char.ofNat b.toNat

def latin1Decode (bs : List UInt8) : List Char := bs.map latin1Char

def utf8Encode (cs : List Char) : List UInt8 := cs.flatMap String.utf8EncodeChar

def utf16EncodeChar (c : Char) : List UInt16 :=
  if c.toNat < 0x10000 then [UInt16.ofNat c.toNat]
  else [UInt16.ofNat (0xD800 + (c.toNat - 0x10000) / 0x400),
    UInt16.ofNat (0xDC00 + (c.toNat - 0x10000) % 0x400)]

def utf16Encode (cs : List Char) : List UInt16 := cs.flatMap utf16EncodeChar

def IsAscii (c : Char) : Prop := c.toNat < 0x80

instance : DecidablePred IsAscii := fun c => inferInstanceAs (Decidable (c.toNat < 0x80))

theorem toNat_latin1Char (b : UInt8) : (latin1Char b).toNat = b.toNat := by
  have hb := b.toNat_lt
  have hv : b.toNat.isValidChar := Or.inl (by omega)
  rw [latin1Char, Char.ofNat, dif_pos hv]
  rfl

theorem isAscii_iff_utf8Size (c : Char) : IsAscii c ↔ c.utf8Size = 1 := by
  rw [Char.utf8Size_eq_one_iff, UInt32.le_iff_toNat_le]
  exact Nat.lt_succ_iff

theorem utf8EncodeChar_of_isAscii {c : Char} (h : IsAscii c) :
    String.utf8EncodeChar c = [UInt8.ofNat c.toNat] := by
  rw [String.utf8EncodeChar_eq_singleton ((isAscii_iff_utf8Size c).mp h)]
  rfl

theorem utf16EncodeChar_of_isAscii {c : Char} (h : IsAscii c) :
    utf16EncodeChar c = [UInt16.ofNat c.toNat] := by
  have hc : c.toNat < 0x80 := h
  rw [utf16EncodeChar, if_pos (by omega)]

theorem utf8Encode_of_isAscii {cs : List Char} (h : ∀ c ∈ cs, IsAscii c) :
    utf8Encode cs = cs.map fun c => UInt8.ofNat c.toNat := by
  rw [List.map_eq_flatMap]
  exact List.flatMap_congr fun c hc => utf8EncodeChar_of_isAscii (h c hc)

theorem utf16Encode_of_isAscii {cs : List Char} (h : ∀ c ∈ cs, IsAscii c) :
    utf16Encode cs = cs.map fun c => UInt16.ofNat c.toNat := by
  rw [List.map_eq_flatMap]
  exact List.flatMap_congr fun c hc => utf16EncodeChar_of_isAscii (h c hc)

/-! ## Lengths -/

section FlatMap
variable {α β γ : Type*} {f : α → List β} {g : α → List γ}

theorem length_flatMap_le (h : ∀ a, (f a).length ≤ (g a).length) (as : List α) :
    (as.flatMap f).length ≤ (as.flatMap g).length := by
  induction as with
  | nil => exact Nat.le_refl _
  | cons a as ih =>
    simp only [List.flatMap_cons, List.length_append]
    exact Nat.add_le_add (h a) ih

theorem length_flatMap_eq_iff (h : ∀ a, (f a).length ≤ (g a).length) (as : List α) :
    (as.flatMap f).length = (as.flatMap g).length ↔
      ∀ a ∈ as, (f a).length = (g a).length := by
  induction as with
  | nil => simp
  | cons a as ih =>
    have hle := length_flatMap_le h as
    have ha := h a
    rw [List.forall_mem_cons, ← ih]
    simp only [List.flatMap_cons, List.length_append]
    omega

end FlatMap

theorem one_le_length_utf8EncodeChar (c : Char) : 1 ≤ (String.utf8EncodeChar c).length := by
  rw [String.length_utf8EncodeChar]
  exact c.utf8Size_pos

theorem length_utf8Encode_eq_iff (cs : List Char) :
    cs.length = (utf8Encode cs).length ↔ ∀ c ∈ cs, IsAscii c := by
  have hle (c : Char) : [c].length ≤ (String.utf8EncodeChar c).length :=
    one_le_length_utf8EncodeChar c
  have h := length_flatMap_eq_iff hle cs
  rw [List.flatMap_singleton'] at h
  rw [utf8Encode, h]
  refine forall₂_congr fun c _ => ?_
  rw [isAscii_iff_utf8Size, String.length_utf8EncodeChar]
  exact eq_comm

theorem utf8Encode_injective : Function.Injective utf8Encode := by
  intro cs ds h
  have hb : (String.ofList cs).toByteArray = (String.ofList ds).toByteArray := by
    rw [String.toByteArray_ofList, String.toByteArray_ofList]
    exact congrArg List.toByteArray h
  have hs := congrArg String.toList (String.toByteArray_inj.mp hb)
  rwa [String.toList_ofList, String.toList_ofList] at hs

/-! ## UTF-16 -/

theorem utf16EncodeChar_lt_iff (c : Char) :
    (∀ u ∈ utf16EncodeChar c, u.toNat < 0x80) ↔ IsAscii c := by
  constructor
  · intro h
    rw [utf16EncodeChar] at h
    split at h
    · rename_i hc
      have hu := h _ (List.mem_singleton_self _)
      rwa [UInt16.toNat_ofNat_of_lt' hc] at hu
    · have hu := h _ List.mem_cons_self
      have hv : c.toNat < 0x110000 := by
        rcases c.valid with h | h
        · exact Nat.lt_trans h (by decide)
        · exact h.2
      rw [UInt16.toNat_ofNat_of_lt' (by rw [UInt16.size]; omega)] at hu
      omega
  · intro h u hu
    have hc : c.toNat < 0x80 := h
    rw [utf16EncodeChar_of_isAscii h, List.mem_singleton] at hu
    rw [hu, UInt16.toNat_ofNat_of_lt' (by rw [UInt16.size]; omega)]
    exact hc

theorem utf16Encode_lt_iff (cs : List Char) :
    (∀ u ∈ utf16Encode cs, u.toNat < 0x80) ↔ ∀ c ∈ cs, IsAscii c := by
  simp only [utf16Encode, List.mem_flatMap, forall_exists_index, and_imp]
  rw [forall_comm]
  refine forall_congr' fun c => ?_
  rw [forall_comm]
  exact forall_congr' fun _ => utf16EncodeChar_lt_iff c

/-- No scalar value takes more UTF-16 units than UTF-8 bytes, and only ASCII takes as many. -/
theorem length_utf16EncodeChar (c : Char) :
    (utf16EncodeChar c).length ≤ (String.utf8EncodeChar c).length ∧
      ((utf16EncodeChar c).length = (String.utf8EncodeChar c).length → IsAscii c) := by
  have hsize := c.utf8Size_eq
  rw [String.length_utf8EncodeChar, isAscii_iff_utf8Size]
  rw [utf16EncodeChar]
  split
  · simp only [List.length_singleton]
    omega
  · rename_i hc
    have h4 : c.utf8Size = 4 := by
      rw [Char.utf8Size_eq_four_iff, UInt32.lt_iff_toNat_lt]
      exact Nat.lt_of_lt_of_le (by decide) (Nat.not_lt.mp hc)
    simp only [List.length_cons, List.length_nil]
    omega

theorem isAscii_of_length_utf16Encode {cs : List Char}
    (h : (utf16Encode cs).length = (utf8Encode cs).length) : ∀ c ∈ cs, IsAscii c := by
  have hle := fun c => (length_utf16EncodeChar c).1
  have heq := (length_flatMap_eq_iff hle cs).mp h
  exact fun c hc => (length_utf16EncodeChar c).2 (heq c hc)

def utf16Decode : List UInt16 → Option (List Char)
  | [] => some []
  | [u] => if u.toNat < 0xD800 ∨ 0xE000 ≤ u.toNat then some [Char.ofNat u.toNat] else none
  | u :: v :: us =>
    if u.toNat < 0xD800 ∨ 0xE000 ≤ u.toNat then
      (utf16Decode (v :: us)).map (Char.ofNat u.toNat :: ·)
    else
      (utf16Decode us).map
        (Char.ofNat (0x10000 + (u.toNat - 0xD800) * 0x400 + (v.toNat - 0xDC00)) :: ·)

theorem utf16Decode_cons_of_scalar {u : UInt16} (hu : u.toNat < 0xD800 ∨ 0xE000 ≤ u.toNat)
    (us : List UInt16) :
    utf16Decode (u :: us) = (utf16Decode us).map (Char.ofNat u.toNat :: ·) := by
  cases us with
  | nil => exact if_pos hu
  | cons v us => rw [utf16Decode, if_pos hu]

theorem utf16Decode_append (c : Char) (us : List UInt16) :
    utf16Decode (utf16EncodeChar c ++ us) = (utf16Decode us).map (c :: ·) := by
  have hvalid : c.toNat < 0xD800 ∨ (0xDFFF < c.toNat ∧ c.toNat < 0x110000) := c.valid
  rw [utf16EncodeChar]
  split
  · rename_i hc
    have hunit : (UInt16.ofNat c.toNat).toNat = c.toNat := UInt16.toNat_ofNat_of_lt' hc
    have hscalar : (UInt16.ofNat c.toNat).toNat < 0xD800 ∨
        0xE000 ≤ (UInt16.ofNat c.toNat).toNat := by
      rw [hunit]
      omega
    rw [List.singleton_append, utf16Decode_cons_of_scalar hscalar, hunit, Char.ofNat_toNat]
  · rename_i hc
    have hhigh := UInt16.toNat_ofNat_of_lt'
      (show 0xD800 + (c.toNat - 0x10000) / 0x400 < UInt16.size by rw [UInt16.size]; omega)
    have hlow := UInt16.toNat_ofNat_of_lt'
      (show 0xDC00 + (c.toNat - 0x10000) % 0x400 < UInt16.size by rw [UInt16.size]; omega)
    have hpair : 0x10000 + (0xD800 + (c.toNat - 0x10000) / 0x400 - 0xD800) * 0x400 +
        (0xDC00 + (c.toNat - 0x10000) % 0x400 - 0xDC00) = c.toNat := by omega
    rw [List.cons_append, List.singleton_append, utf16Decode, hhigh, hlow, if_neg (by omega),
      hpair, Char.ofNat_toNat]

theorem utf16Decode_utf16Encode (cs : List Char) : utf16Decode (utf16Encode cs) = some cs := by
  induction cs with
  | nil => rfl
  | cons c cs ih =>
    have hcons : utf16Encode (c :: cs) = utf16EncodeChar c ++ utf16Encode cs := List.flatMap_cons
    rw [hcons, utf16Decode_append, ih, Option.map_some]

/-! ## Texts with NUL in them -/

theorem utf8EncodeChar_nul : String.utf8EncodeChar '\x00' = [0] := rfl

theorem ne_zero_of_mem_utf8EncodeChar {c : Char} (hc : c ≠ '\x00') :
    ∀ b ∈ String.utf8EncodeChar c, b ≠ 0 := by
  have hpos : c.val.toNat ≠ 0 := fun h => hc (Char.ext (UInt32.toNat.inj h))
  have hbyte (n : ℕ) (hn : 0 < n % 256) : UInt8.ofNat n ≠ 0 := by
    intro h
    have hzero := congrArg UInt8.toNat h
    rw [UInt8.toNat_ofNat'] at hzero
    exact absurd hzero (Nat.ne_of_gt hn)
  intro b hb
  simp only [String.utf8EncodeChar] at hb
  split_ifs at hb
  · obtain rfl := List.mem_singleton.mp hb
    exact hbyte _ (by omega)
  -- the other forms have bytes of at least 0x80
  · simp only [List.mem_cons, List.not_mem_nil, or_false] at hb
    rcases hb with rfl | rfl <;> exact hbyte _ (by omega)
  · simp only [List.mem_cons, List.not_mem_nil, or_false] at hb
    rcases hb with rfl | rfl | rfl <;> exact hbyte _ (by omega)
  · simp only [List.mem_cons, List.not_mem_nil, or_false] at hb
    rcases hb with rfl | rfl | rfl | rfl <;> exact hbyte _ (by omega)

theorem takeWhile_utf8Encode (cs : List Char) : (utf8Encode cs).takeWhile (· ≠ 0) =
    utf8Encode (cs.takeWhile (· ≠ '\x00')) := by
  induction cs with
  | nil => rfl
  | cons c cs ih =>
    have hcons (cs : List Char) :
        utf8Encode (c :: cs) = String.utf8EncodeChar c ++ utf8Encode cs := List.flatMap_cons
    by_cases hc : c = '\x00'
    · subst hc
      rw [hcons, utf8EncodeChar_nul]
      rfl
    · have hkeep : List.takeWhile (· ≠ '\x00') (c :: cs) = c :: cs.takeWhile (· ≠ '\x00') :=
        List.takeWhile_cons_of_pos (decide_eq_true hc)
      have hbytes : ∀ b ∈ String.utf8EncodeChar c, decide (b ≠ 0) = true := fun b hb =>
        decide_eq_true (ne_zero_of_mem_utf8EncodeChar hc b hb)
      rw [hcons, List.takeWhile_append_of_pos hbytes, ih, hkeep, hcons]

end Text
