import Mathlib.Data.List.TakeWhile
import V8InspectorMinimal.Inspector.StringView
import V8InspectorMinimal.SoyV8.Values

/-! `GetString` and `EnumString`, which pass a `std::string` to V8 and back. Both go through a
`const char*`, whose text ends at the first NUL. -/

namespace V8Min.SoyV8
open Text

/-- What the two functions use of `v8::String`. Of a string that is too long no handle is made, and
of a value that has no text no bytes. -/
structure V8Strings where
  kMaxLength : ℕ
  newFromUtf8 : List UInt8 → Option (List UInt16)
  utf8Value : List UInt16 → Option (List UInt8)
  newFromUtf8_eq : ∀ cs, (utf16Encode cs).length ≤ kMaxLength →
    newFromUtf8 (utf8Encode cs) = some (utf16Encode cs)
  utf8Value_eq : ∀ cs, utf8Value (utf16Encode cs) = some (utf8Encode cs)

def cText (memory : List UInt8) : List UInt8 := memory.takeWhile (· ≠ 0)

def cStr (s : StdString) : List UInt8 := s ++ [0]

def getStringC (v8 : V8Strings) (memory : Option (List UInt8)) : Option Value :=
  -- `NewFromUtf8` is called without a length
  (v8.newFromUtf8 (cText (memory.getD (cStr [])))).map .string

def getString (v8 : V8Strings) (s : StdString) : Option Value := getStringC v8 (some (cStr s))

def asString : Value → Option (List UInt16)
  | .string units => some units
  | _ => none

def nullText : StdString := utf8Encode ['<', 'n', 'u', 'l', 'l', '>']

def enumString (v8 : V8Strings) (h : Heap) (handle : Option Value) : Except Fault StdString :=
  -- nothing may be asked of an empty handle
  match handle with
  | none => .error .undefinedBehaviour
  | some v =>
    match safeCast h .string asString v with
    | .error e => .error e
    | .ok units => .ok (cText (cStr ((v8.utf8Value units).getD nullText)))

/-! ## What a C string keeps -/

theorem takeWhile_concat_of_neg {α : Type*} {p : α → Bool} {a : α} (ha : ¬ p a = true)
    (as : List α) : (as ++ [a]).takeWhile p = as.takeWhile p := by
  induction as with
  | nil => exact List.takeWhile_cons_of_neg ha
  | cons b as ih =>
    rw [List.cons_append, List.takeWhile_cons, List.takeWhile_cons, ih]

theorem cText_cStr (s : StdString) : cText (cStr s) = s.takeWhile (· ≠ 0) :=
  takeWhile_concat_of_neg (by simp) s

theorem cText_cStr_eq_self_iff {s : StdString} : cText (cStr s) = s ↔ 0 ∉ s := by
  rw [cText_cStr, List.takeWhile_eq_self_iff]
  simp only [decide_eq_true_eq]
  exact ⟨fun hall h0 => hall 0 h0 rfl, fun h0 b hb hzero => h0 (hzero ▸ hb)⟩

theorem length_cText_cStr_le (s : StdString) : (cText (cStr s)).length ≤ s.length := by
  rw [cText_cStr]
  exact (List.takeWhile_prefix _).length_le

theorem length_utf16Encode_takeWhile_le (p : Char → Bool) (cs : List Char) :
    (utf16Encode (cs.takeWhile p)).length ≤ (utf16Encode cs).length := by
  have hsplit : utf16Encode cs = utf16Encode (cs.takeWhile p) ++ utf16Encode (cs.dropWhile p) := by
    unfold utf16Encode
    rw [← List.flatMap_append, List.takeWhile_append_dropWhile]
  rw [hsplit, List.length_append]
  exact Nat.le_add_right _ _

section RoundTrip
variable (v8 : V8Strings) (h : Heap) {cs : List Char}

theorem getString_utf8Encode (hmax : (utf16Encode cs).length ≤ v8.kMaxLength) :
    getString v8 (utf8Encode cs) =
      some (.string (utf16Encode (cs.takeWhile (· ≠ '\x00')))) := by
  have htext : cText (cStr (utf8Encode cs)) = utf8Encode (cs.takeWhile (· ≠ '\x00')) :=
    (cText_cStr _).trans (takeWhile_utf8Encode cs)
  have hlength := Nat.le_trans (length_utf16Encode_takeWhile_le (· ≠ '\x00') cs) hmax
  show (v8.newFromUtf8 (cText (cStr (utf8Encode cs)))).map Value.string = _
  rw [htext, v8.newFromUtf8_eq _ hlength, Option.map_some]

theorem enumString_getString (hmax : (utf16Encode cs).length ≤ v8.kMaxLength) :
    enumString v8 h (getString v8 (utf8Encode cs)) =
      .ok ((utf8Encode cs).takeWhile (· ≠ 0)) := by
  have hvalue := v8.utf8Value_eq (cs.takeWhile (· ≠ '\x00'))
  rw [getString_utf8Encode v8 hmax]
  show Except.ok (cText (cStr ((v8.utf8Value (utf16Encode _)).getD nullText))) = _
  rw [hvalue, Option.getD_some, ← takeWhile_utf8Encode, cText_cStr, List.takeWhile_idem]

/-- The exact condition under which a text comes back whole. -/
theorem enumString_getString_iff (s : StdString)
    (hs : ∃ cs, s = utf8Encode cs ∧ (utf16Encode cs).length ≤ v8.kMaxLength) :
    enumString v8 h (getString v8 s) = .ok s ↔ 0 ∉ s := by
  obtain ⟨cs, rfl, hmax⟩ := hs
  rw [enumString_getString v8 h hmax, Except.ok.injEq, ← cText_cStr, cText_cStr_eq_self_iff]

end RoundTrip

def strictV8 : V8Strings where
  kMaxLength := 1073741799
  newFromUtf8 bytes :=
    (bytes.toByteArray.utf8Decode?.map fun cs => utf16Encode cs.toList).filter
      fun units => units.length ≤ 1073741799
  utf8Value units := (utf16Decode units).map utf8Encode
  newFromUtf8_eq cs hmax := by
    have hdecode : (utf8Encode cs).toByteArray.utf8Decode? = some cs.toArray :=
      List.utf8Decode?_utf8Encode
    rw [hdecode, Option.map_some, Option.filter_some, List.toList_toArray,
      if_pos (decide_eq_true hmax)]
  utf8Value_eq cs := by rw [utf16Decode_utf16Encode, Option.map_some]

theorem enumString_getString_hi :
    enumString strictV8 ⟨[], by decide⟩ (getString strictV8 [104, 105]) = .ok [104, 105] :=
  (enumString_getString_iff strictV8 ⟨[], by decide⟩ [104, 105]
    ⟨['h', 'i'], by decide, by decide⟩).mpr (by decide)

theorem enumString_cut_at_nul : utf8Encode ['h', '\x00', 'i'] = [104, 0, 105] ∧
    enumString strictV8 ⟨[], by decide⟩ (getString strictV8 [104, 0, 105]) = .ok [104] ∧
    enumString strictV8 ⟨[], by decide⟩ (getString strictV8 [104, 0, 105]) ≠ .ok [104, 0, 105] := by
  have hbytes : utf8Encode ['h', '\x00', 'i'] = [104, 0, 105] := by decide
  have hmax : (utf16Encode ['h', '\x00', 'i']).length ≤ strictV8.kMaxLength := by decide
  have hcut := enumString_getString strictV8 ⟨[], by decide⟩ hmax
  rw [hbytes] at hcut
  refine ⟨hbytes, hcut, ?_⟩
  rw [hcut]
  decide

end V8Min.SoyV8
