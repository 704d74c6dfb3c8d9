import V8InspectorMinimal.Inspector.StringView

/-! Which texts survive the two conversions. Both handle bytes and code units one by one, so both
are right exactly on ASCII: on any other text the UTF-8 form has more bytes than there are units. -/

namespace V8Min.Inspector
open Text

/-! ## Outgoing -/

def SendsUtf8 (v : StringView) (text : List Char) : Prop :=
  (∀ callId, sendResponse callId v = some (utf8Encode text)) ∧
    sendNotification v = some (utf8Encode text)

theorem utf8Encode_latin1Decode {bs : List UInt8} (h : ∀ b ∈ bs, b.toNat < 0x80) :
    utf8Encode (latin1Decode bs) = bs := by
  have hascii : ∀ c ∈ latin1Decode bs, IsAscii c := by
    intro c hc
    obtain ⟨b, hb, rfl⟩ := List.mem_map.mp hc
    rw [IsAscii, toNat_latin1Char]
    exact h b hb
  rw [utf8Encode_of_isAscii hascii, latin1Decode, List.map_map]
  conv_rhs => rw [← List.map_id bs]
  refine List.map_congr_left fun b _ => ?_
  rw [Function.comp_apply, toNat_latin1Char, UInt8.ofNat_toNat, id]

theorem allAscii_of8 (bs : List UInt8) :
    (StringView.of8 bs).AllAscii ↔ ∀ b ∈ bs, b.toNat < 0x80 := by
  simp only [StringView.AllAscii, StringView.units, List.forall_mem_map]

theorem allAscii_of16 (us : List UInt16) :
    (StringView.of16 us).AllAscii ↔ ∀ u ∈ us, u.toNat < 0x80 := by
  simp only [StringView.AllAscii, StringView.units, List.forall_mem_map]

theorem lowBytes_of8_eq_iff (bs : List UInt8) :
    lowBytes (.of8 bs) = utf8Encode (latin1Decode bs) ↔ (StringView.of8 bs).AllAscii := by
  rw [allAscii_of8]
  constructor
  · intro h b hb
    have hlen : (latin1Decode bs).length = (utf8Encode (latin1Decode bs)).length := by
      rw [← h, latin1Decode, List.length_map, lowBytes]
    have hc := (length_utf8Encode_eq_iff _).mp hlen _ (List.mem_map_of_mem hb)
    rwa [IsAscii, toNat_latin1Char] at hc
  · exact fun h => (utf8Encode_latin1Decode h).symm

theorem lowBytes_of16_eq_iff (text : List Char) :
    lowBytes (.of16 (utf16Encode text)) = utf8Encode text ↔
      (StringView.of16 (utf16Encode text)).AllAscii := by
  rw [allAscii_of16, utf16Encode_lt_iff]
  constructor
  · intro h
    have hlen := congrArg List.length h
    rw [lowBytes, List.length_map] at hlen
    exact isAscii_of_length_utf16Encode hlen
  · intro h
    rw [lowBytes, utf16Encode_of_isAscii h, utf8Encode_of_isAscii h, List.map_map]
    refine List.map_congr_left fun c _ => ?_
    rw [Function.comp_apply, UInt16.toUInt8_ofNat']

theorem sendsUtf8_iff {v : StringView} {text : List Char} (hv : v.Denotes text)
    (hlen : v.length < 2 ^ 30) : SendsUtf8 v text ↔ v.AllAscii := by
  have hlow : lowBytes v = utf8Encode text ↔ v.AllAscii := by
    cases v with
    | of8 bs =>
      obtain rfl : latin1Decode bs = text := hv
      exact lowBytes_of8_eq_iff bs
    | of16 us =>
      obtain rfl : utf16Encode text = us := hv
      exact lowBytes_of16_eq_iff text
  rw [← hlow]
  simp only [SendsUtf8, sendNotification, sendResponse, getString_eq v hlen, Option.some.injEq,
    forall_const, and_self]

/-- The string handed to `mOnResponse` is the UTF-8 of the text exactly when every code unit is
ASCII, and then different texts give different strings. -/
theorem outgoing_text_iff {v : StringView} {text : List Char} (hv : v.Denotes text)
    (hlen : v.length < 2 ^ 30) :
    (SendsUtf8 v text ↔ v.AllAscii) ∧
      ∀ w text', w.Denotes text' → w.length < 2 ^ 30 → v.AllAscii → w.AllAscii → text ≠ text' →
        ∀ callId, sendResponse callId v ≠ sendResponse callId w := by
  refine ⟨sendsUtf8_iff hv hlen, ?_⟩
  intro w text' hw hwlen hvascii hwascii hne callId h
  have h1 := ((sendsUtf8_iff hv hlen).mpr hvascii).1 callId
  have h2 := ((sendsUtf8_iff hw hwlen).mpr hwascii).1 callId
  rw [h1, h2, Option.some.injEq] at h
  exact hne (utf8Encode_injective h)

theorem outgoing_text_hello : SendsUtf8 (.of16 [0x48, 0x69]) ['H', 'i'] := by
  have h := @outgoing_text_iff (.of16 [0x48, 0x69]) ['H', 'i'] rfl (by decide)
  exact h.1.mpr (by decide)

theorem outgoing_text_corrupted :
    ¬ (∀ v text, v.Denotes text → v.length < 2 ^ 30 → SendsUtf8 v text) ∧
      ¬ (∀ v w text text', v.Denotes text → w.Denotes text' → text ≠ text' →
        sendNotification v ≠ sendNotification w) := by
  constructor
  · intro h
    have h1 := (h (.of8 [0xE9]) ['é'] rfl (by decide)).2
    exact absurd h1 (by decide)
  · intro h
    exact h (.of16 [0x41]) (.of16 [0x4E41]) ['A'] ['乁'] rfl rfl (by decide) rfl

/-! ## Incoming -/

theorem latin1Decode_utf8Encode_iff (text : List Char) :
    latin1Decode (utf8Encode text) = text ↔ ∀ c ∈ text, IsAscii c := by
  constructor
  · intro h
    have hlen := congrArg List.length h
    rw [latin1Decode, List.length_map] at hlen
    exact (length_utf8Encode_eq_iff text).mp hlen.symm
  · intro h
    rw [utf8Encode_of_isAscii h, latin1Decode, List.map_map]
    conv_rhs => rw [← List.map_id text]
    refine List.map_congr_left fun c hc => ?_
    have hlt : c.toNat < 0x80 := h c hc
    rw [Function.comp_apply, latin1Char, UInt8.toNat_ofNat_of_lt' (by rw [UInt8.size]; omega),
      Char.ofNat_toNat, id]

section Incoming
variable {stringToArray : StdString → List UInt8}

/-- V8 reads the message as the text that was sent exactly when the text is ASCII. -/
theorem incoming_text_iff (hcopy : ∀ s, stringToArray s = s) (text : List Char) :
    (sendMessageToSession stringToArray (utf8Encode text)).Denotes text ↔
      ∀ c ∈ text, IsAscii c := by
  rw [sendMessageToSession, hcopy]
  exact latin1Decode_utf8Encode_iff text

end Incoming

theorem incoming_text_hello :
    (sendMessageToSession id (utf8Encode ['H', 'i'])).Denotes ['H', 'i'] :=
  (incoming_text_iff (fun _ => rfl) ['H', 'i']).mpr (by simp [IsAscii])

theorem incoming_text_misread :
    ¬ ∀ text, (sendMessageToSession id (utf8Encode text)).Denotes text := by
  intro h
  exact absurd (h ['é']) (by decide)

end V8Min.Inspector
