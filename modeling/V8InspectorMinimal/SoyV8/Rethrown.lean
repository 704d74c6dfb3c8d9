import V8InspectorMinimal.SoyV8.Exceptions

/-! An exception of the program on its way through scripts. `GetException` throws its text into the
script that called the program, a `V8Exception` is made of what that script's caller catches, and
this may go through the next script in the same way. -/

namespace V8Min.SoyV8
open Text

def getException (v8 : V8Strings) (what : StdString) : Option Value :=
  (v8.newFromUtf8 (cText (cStr what))).map .string

def caughtString (v8 : V8Strings) (v : Value) : TryCatch where
  exception := some ⟨v, (asString v).bind v8.utf8Value⟩
  stackTrace := none

/-- The `mError` of the `V8Exception` on the other side of a script. -/
def throughScript (v8 : V8Strings) (what context : StdString) : Option StdString :=
  (getException v8 what).bind fun v =>
    (v8Exception (caughtString v8 v) context 0).map Prod.fst

def throughScripts (v8 : V8Strings) (what : StdString) (contexts : List StdString) :
    Option StdString :=
  contexts.foldlM (throughScript v8) what

/-! ## Texts -/

def missingStackTrace : List Char := "\n<missing stacktrace>".toList

def inContext (text context : List Char) : List Char :=
  context ++ ": ".toList ++ text ++ missingStackTrace

def cut (text : List Char) : List Char := text.takeWhile (· ≠ '\x00')

theorem cut_eq_self_iff {text : List Char} : cut text = text ↔ '\x00' ∉ text := by
  unfold cut
  rw [List.takeWhile_eq_self_iff]
  simp only [decide_eq_true_eq]
  exact ⟨fun hall h0 => hall _ h0 rfl, fun h0 c hc hnul => h0 (hnul ▸ hc)⟩

theorem nul_not_mem_cut (text : List Char) : '\x00' ∉ cut text := by
  intro h
  have hne := List.mem_takeWhile_imp (p := fun c : Char => decide (c ≠ '\x00')) h
  exact of_decide_eq_true hne rfl

theorem nul_mem_inContext {text context : List Char} :
    '\x00' ∈ inContext text context ↔ '\x00' ∈ context ∨ '\x00' ∈ text := by
  have hcolon : '\x00' ∉ ": ".toList := by decide
  have hmissing : '\x00' ∉ missingStackTrace := by decide
  simp only [inContext, List.mem_append, hcolon, hmissing, or_false]

theorem cText_cStr_utf8Encode (text : List Char) :
    cText (cStr (utf8Encode text)) = utf8Encode (cut text) :=
  (cText_cStr _).trans (takeWhile_utf8Encode text)

theorem utf8Encode_append (cs ds : List Char) :
    utf8Encode (cs ++ ds) = utf8Encode cs ++ utf8Encode ds := List.flatMap_append

theorem length_utf16Encode_append (cs ds : List Char) :
    (utf16Encode (cs ++ ds)).length = (utf16Encode cs).length + (utf16Encode ds).length := by
  unfold utf16Encode
  rw [List.flatMap_append, List.length_append]

theorem length_utf16Encode_inContext (text context : List Char) :
    (utf16Encode (inContext text context)).length = (utf16Encode text).length +
      ((utf16Encode context).length + (utf16Encode ": ".toList).length +
        (utf16Encode missingStackTrace).length) := by
  rw [inContext, length_utf16Encode_append, length_utf16Encode_append, length_utf16Encode_append]
  omega

theorem length_utf16Encode_foldl_mono {text text' : List Char}
    (h : (utf16Encode text).length ≤ (utf16Encode text').length) (contexts : List (List Char)) :
    (utf16Encode (contexts.foldl inContext text)).length ≤
      (utf16Encode (contexts.foldl inContext text')).length := by
  induction contexts generalizing text text' with
  | nil => exact h
  | cons context contexts ih =>
    apply ih
    rw [length_utf16Encode_inContext, length_utf16Encode_inContext]
    exact Nat.add_le_add_right h _

theorem length_utf16Encode_le_foldl (text : List Char) (contexts : List (List Char)) :
    (utf16Encode text).length ≤ (utf16Encode (contexts.foldl inContext text)).length := by
  induction contexts generalizing text with
  | nil => exact Nat.le_refl _
  | cons context contexts ih =>
    refine Nat.le_trans ?_ (ih (inContext text context))
    rw [length_utf16Encode_inContext]
    exact Nat.le_add_right _ _

/-! ## Through scripts -/

section Through
variable (v8 : V8Strings) {what : List Char}

theorem throughScript_utf8Encode (context : List Char)
    (hmax : (utf16Encode what).length ≤ v8.kMaxLength) :
    throughScript v8 (utf8Encode what) (utf8Encode context) =
      some (utf8Encode (inContext (cut what) context)) := by
  have hcut : (utf16Encode (cut what)).length ≤ v8.kMaxLength :=
    Nat.le_trans (length_utf16Encode_takeWhile_le _ what) hmax
  have hthrown : getException v8 (utf8Encode what) = some (.string (utf16Encode (cut what))) := by
    rw [getException, cText_cStr_utf8Encode, v8.newFromUtf8_eq _ hcut, Option.map_some]
  have htwice : cText (cStr (utf8Encode (cut what))) = utf8Encode (cut what) := by
    rw [cText_cStr_utf8Encode, cut_eq_self_iff.mpr (nul_not_mem_cut what)]
  have hdescription : description ⟨.string (utf16Encode (cut what)), some (utf8Encode (cut what))⟩ =
      literal ": " ++ utf8Encode (cut what) := congrArg (literal ": " ++ ·) htwice
  rw [throughScript, hthrown, Option.bind_some]
  have hcaught : caughtString v8 (.string (utf16Encode (cut what))) = ⟨some
      ⟨.string (utf16Encode (cut what)), some (utf8Encode (cut what))⟩, none⟩ := by
    rw [caughtString, asString, Option.bind_some, v8.utf8Value_eq]
  rw [hcaught]
  show some (utf8Encode context ++ description _ ++ literal "\n<missing stacktrace>") = _
  rw [hdescription, inContext, utf8Encode_append, utf8Encode_append, utf8Encode_append]
  simp only [List.append_assoc]
  rfl

def reported (what : List Char) (contexts : List (List Char)) : List Char :=
  contexts.foldl (fun text => inContext (cut text)) what

theorem throughScripts_utf8Encode {contexts : List (List Char)}
    (hmax : (utf16Encode (contexts.foldl inContext what)).length ≤ v8.kMaxLength) :
    throughScripts v8 (utf8Encode what) (contexts.map utf8Encode) =
      some (utf8Encode (reported what contexts)) := by
  induction contexts generalizing what with
  | nil => rfl
  | cons context contexts ih =>
    have hwhat := Nat.le_trans (length_utf16Encode_le_foldl what (context :: contexts)) hmax
    have hthrough := throughScript_utf8Encode v8 context hwhat
    -- a text that is cut is no longer, so that the bound holds for what comes after
    have hcut : (utf16Encode (inContext (cut what) context)).length ≤
        (utf16Encode (inContext what context)).length := by
      rw [length_utf16Encode_inContext, length_utf16Encode_inContext]
      exact Nat.add_le_add_right (length_utf16Encode_takeWhile_le _ what) _
    have hrest := ih (Nat.le_trans (length_utf16Encode_foldl_mono hcut contexts) hmax)
    rw [throughScripts, List.map_cons, List.foldlM_cons, hthrough]
    exact hrest

theorem nul_mem_foldl_iff {contexts : List (List Char)} :
    '\x00' ∈ contexts.foldl inContext what ↔ ∃ text ∈ what :: contexts, '\x00' ∈ text := by
  induction contexts generalizing what with
  | nil => simp
  | cons context contexts ih =>
    rw [List.foldl_cons, ih]
    simp only [List.exists_mem_cons_iff, nul_mem_inContext]
    rw [or_assoc, or_left_comm]

theorem reported_of_no_nul {contexts : List (List Char)}
    (h : ∀ text ∈ what :: contexts, '\x00' ∉ text) :
    reported what contexts = contexts.foldl inContext what := by
  induction contexts generalizing what with
  | nil => rfl
  | cons context contexts ih =>
    obtain ⟨hwhat, hcontexts⟩ := List.forall_mem_cons.mp h
    obtain ⟨hcontext, hrest⟩ := List.forall_mem_cons.mp hcontexts
    have hnext : '\x00' ∉ inContext what context := fun hmem =>
      (nul_mem_inContext.mp hmem).elim hcontext hwhat
    show reported (inContext (cut what) context) contexts = _
    rw [cut_eq_self_iff.mpr hwhat]
    exact ih (List.forall_mem_cons.mpr ⟨hnext, hrest⟩)

/-- What is read of an exception after any number of scripts is its text in all the contexts, the
outermost first, exactly if none of the texts has a NUL in it. -/
theorem throughScripts_whole_iff (what : List Char) (contexts : List (List Char))
    (hmax : (utf16Encode (contexts.foldl inContext what)).length ≤ v8.kMaxLength) :
    (throughScripts v8 (utf8Encode what) (contexts.map utf8Encode)).map
        (fun mError => cText (cStr mError)) =
      some (utf8Encode (contexts.foldl inContext what)) ↔
    ∀ text ∈ what :: contexts, '\x00' ∉ text := by
  have hread : (throughScripts v8 (utf8Encode what) (contexts.map utf8Encode)).map
      (fun mError => cText (cStr mError)) = some (utf8Encode (cut (reported what contexts))) := by
    rw [throughScripts_utf8Encode v8 hmax, Option.map_some, cText_cStr_utf8Encode]
  rw [hread, Option.some.injEq, utf8Encode_injective.eq_iff]
  constructor
  · intro hwhole text htext hnul
    have hmem : '\x00' ∈ contexts.foldl inContext what := nul_mem_foldl_iff.mpr ⟨text, htext, hnul⟩
    rw [← hwhole] at hmem
    exact nul_not_mem_cut _ hmem
  · intro hall
    have hno : '\x00' ∉ contexts.foldl inContext what := fun hmem => by
      obtain ⟨text, htext, hnul⟩ := nul_mem_foldl_iff.mp hmem
      exact hall text htext hnul
    rw [reported_of_no_nul hall, cut_eq_self_iff.mpr hno]

end Through

theorem throughScripts_whole_twice :
    (throughScripts strictV8 (utf8Encode ['x']) ([['a'], ['b']].map utf8Encode)).map
        (fun mError => cText (cStr mError)) =
      some (utf8Encode ([['a'], ['b']].foldl inContext ['x'])) :=
  (throughScripts_whole_iff strictV8 ['x'] [['a'], ['b']] (by decide)).mpr (by decide)

end V8Min.SoyV8
