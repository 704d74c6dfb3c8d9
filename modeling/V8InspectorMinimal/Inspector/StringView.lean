import Mathlib.Algebra.Group.Nat.Defs
import Mathlib.Data.Int.Notation
import V8InspectorMinimal.Base.Text

/-! The text that crosses the border between the websocket and the inspector: `StringView` of
v8-inspector.h, and the conversions of TV8Inspector.cpp, TV8Inspector.h and v8Minimal.cpp. -/

namespace V8Min

abbrev StdString := List UInt8

namespace Inspector

inductive StringView where
  | of8 (m_characters8 : List UInt8)
  | of16 (m_characters16 : List UInt16)
  deriving DecidableEq, Repr

namespace StringView

def is8Bit : StringView → Bool
  | of8 _ => true
  | of16 _ => false

def length : StringView → ℕ
  | of8 cs => cs.length
  | of16 us => us.length

/-- The storage read through the 8-bit member of the union, on a little-endian host. -/
def characters8 : StringView → List UInt8
  | of8 cs => cs
  | of16 us => us.flatMap fun u : UInt16 => [u.toUInt8, (u >>> 8).toUInt8]

def units : StringView → List ℕ
  | of8 cs => cs.map UInt8.toNat
  | of16 us => us.map UInt16.toNat

/-- V8 reads 8-bit units as Latin-1 and 16-bit units as UTF-16, so a 16-bit view is well formed
when it denotes some text. -/
def Denotes : StringView → List Char → Prop
  | of8 cs, text => Text.latin1Decode cs = text
  | of16 us, text => Text.utf16Encode text = us

instance (v : StringView) (text : List Char) : Decidable (v.Denotes text) :=
  match v with
  | of8 cs => inferInstanceAs (Decidable (Text.latin1Decode cs = text))
  | of16 us => inferInstanceAs (Decidable (Text.utf16Encode text = us))

def AllAscii (v : StringView) : Prop := ∀ u ∈ v.units, u < 0x80

instance (v : StringView) : Decidable v.AllAscii :=
  inferInstanceAs (Decidable (∀ u ∈ v.units, u < 0x80))

end StringView

/-! ## Outgoing text -/

def charStep (String : StringView) : ℕ := if String.is8Bit then 1 else 2

/-- `Chars[ i * CharStep ]`, a product of two 32-bit `int`s: `none` when it overflows or when the
byte is outside the storage of the view. -/
def readChar (String : StringView) (i : ℕ) : Option UInt8 :=
  if i * charStep String < 2 ^ 31 then String.characters8[i * charStep String]? else none

def getString (String : StringView) : Option StdString :=
  -- going through `char` does not change a byte
  (List.range String.length).mapM (readChar String)

def sendResponse (_callId : ℤ) (message : StringView) : Option StdString := getString message

def sendNotification (message : StringView) : Option StdString := sendResponse (-1) message

/-! ## Incoming text -/

structure TV8StringViewContainer where
  mString : StdString

def TV8StringViewContainer.getStringView (c : TV8StringViewContainer) : StringView :=
  .of8 c.mString

/-- The view that `SendMessageToSession` passes to `dispatchProtocolMessage`, over the bytes that
`Soy::StringToArray` puts into `MessageBuffer`. -/
def sendMessageToSession (stringToArray : StdString → List UInt8) (message : StdString) :
    StringView := .of8 (stringToArray message)

/-! ## What `GetString` computes -/

def lowBytes : StringView → List UInt8
  | .of8 cs => cs
  | .of16 us => us.map UInt16.toUInt8

theorem length_lowBytes (v : StringView) : (lowBytes v).length = v.length := by
  cases v with
  | of8 cs => rfl
  | of16 us => exact List.length_map _

theorem getElem?_flatMap_pair {α β : Type*} (f g : α → β) (as : List α) (i : ℕ) :
    (as.flatMap fun a => [f a, g a])[i * 2]? = (as.map f)[i]? := by
  induction as generalizing i with
  | nil => simp
  | cons a as ih =>
    cases i with
    | zero => rfl
    | succ i => simpa [Nat.succ_mul] using ih i

theorem readChar_eq (v : StringView) {i : ℕ} (hi : i < 2 ^ 30) :
    readChar v i = (lowBytes v)[i]? := by
  cases v with
  | of8 cs =>
    have hstep : i * charStep (.of8 cs) = i := Nat.mul_one i
    rw [readChar, hstep, if_pos (by omega)]
    rfl
  | of16 us =>
    have hstep : i * charStep (.of16 us) = i * 2 := rfl
    rw [readChar, hstep, if_pos (by omega)]
    exact getElem?_flatMap_pair _ _ us i

theorem mapM_range_eq_take {α : Type*} (f : ℕ → Option α) (l : List α) {n : ℕ}
    (hn : n ≤ l.length) (hf : ∀ i < n, f i = l[i]?) :
    (List.range n).mapM f = some (l.take n) := by
  induction n with
  | zero => rfl
  | succ n ih =>
    have hlt : n < l.length := hn
    have htake := ih (Nat.le_of_lt hlt) fun i hi => hf i (Nat.lt_succ_of_lt hi)
    rw [List.range_succ, List.mapM_append, htake, List.mapM_cons, List.mapM_nil,
      hf n n.lt_succ_self, List.getElem?_eq_getElem hlt]
    exact congrArg some (List.take_append_getElem hlt)

theorem getString_eq (v : StringView) (hlen : v.length < 2 ^ 30) :
    getString v = some (lowBytes v) := by
  have hle : v.length ≤ (lowBytes v).length := Nat.le_of_eq (length_lowBytes v).symm
  rw [getString, mapM_range_eq_take (readChar v) (lowBytes v) hle fun i hi =>
    readChar_eq v (Nat.lt_trans hi hlen), ← length_lowBytes, List.take_length]

end Inspector
end V8Min
