import V8InspectorMinimal.Base.Loops
import V8InspectorMinimal.Inspector.StringView

/-! The loop of `GetString(const StringView&)`. It counts in an `int`, it reads a 16-bit text
through the 8-bit member of the union with a step of two, and every byte goes through a `char`. -/

namespace V8Min.Inspector
open Loops Traversal

def readCharAt (String : StringView) (i : Int32) : Option UInt8 :=
  if i < 0 then none else readChar String i.toInt.toNat

/-- One round. A read that is not inside the storage is undefined, here an error. -/
def appendChar (String : StringView) (i : Int32) (StringOut : StdString) :
    StdString × Except Unit Unit :=
  match readCharAt String i with
  | some b =>
    let c : Int8 := b.toInt8
    (StringOut ++ [c.toUInt8], .ok ())
  | none => (StringOut, .error ())

def getStringLoop (String : StringView) (fuel : ℕ) : Option (StdString × Except Unit Unit) :=
  intLoop (fun i _ => toSizeT i < .ofNat String.length)
    (fun i StringOut => some (appendChar String i StringOut)) fuel []

theorem readCharAt_ofNat (v : StringView) {k : ℕ} (hk : k < 2 ^ 31) :
    readCharAt v (.ofNat k) = readChar v k := by
  have hindex : (Int32.ofNat k).toInt = k := Int32.toInt_ofNat_of_lt hk
  have hsign : ¬ Int32.ofNat k < 0 := by
    rw [Int32.lt_iff_toInt_lt, hindex]
    simp
  rw [readCharAt, if_neg hsign, hindex, Int.toNat_natCast]

theorem appendChar_of_readChar {v : StringView} {k : ℕ} (hk : k < 2 ^ 31) {b : UInt8}
    (hb : readChar v k = some b) (out : StdString) :
    appendChar v (.ofNat k) out = (out ++ [b], .ok ()) := by
  have hchar : b.toInt8.toUInt8 = b := b.toUInt8_toInt8
  rw [appendChar, readCharAt_ofNat v hk, hb]
  show (out ++ [b.toInt8.toUInt8], _) = _
  rw [hchar]

theorem forEach_appendChar {v : StringView} {n : ℕ} (hn : n ≤ 2 ^ 31) {s : StdString}
    (hs : (List.range n).mapM (readChar v) = some s) :
    forEach (fun k out => some (appendChar v (.ofNat k) out)) (List.range n) [] =
      some (s, .ok ()) := by
  induction n generalizing s with
  | zero =>
    obtain rfl : [] = s := Option.some.inj hs
    rfl
  | succ n ih =>
    rw [List.range_succ, List.mapM_append, List.mapM_cons, List.mapM_nil] at hs
    obtain ⟨front, hfront, hs⟩ := Option.bind_eq_some_iff.mp hs
    obtain ⟨last, hlast, hs⟩ := Option.bind_eq_some_iff.mp hs
    obtain ⟨b, hb, hlast⟩ := Option.bind_eq_some_iff.mp hlast
    obtain rfl : [b] = last := Option.some.inj hlast
    obtain rfl : front ++ [b] = s := Option.some.inj hs
    have hround := appendChar_of_readChar (Nat.lt_of_succ_le hn) hb front
    rw [List.range_succ, forEach_append_ok (ih (Nat.le_of_succ_le hn) hfront)]
    exact forEach_cons_ok (congrArg some hround)

theorem getStringLoop_returns {v : StringView} (hlen : v.length ≤ 2 ^ 31) {s : StdString}
    (hs : getString v = some s) : Returns (getStringLoop v) (s, .ok ()) := by
  have hlength : (UInt64.ofNat v.length).toNat = v.length :=
    UInt64.toNat_ofNat_of_lt' (Nat.lt_of_le_of_lt hlen (by decide))
  have hrounds : sizeRounds (UInt64.ofNat v.length).toNat = v.length := by
    rw [hlength]
    exact sizeRounds_eq_iff.mpr hlen
  refine ⟨v.length + 1, fun fuel hfuel => ?_⟩
  unfold getStringLoop
  rw [intLoop_sizeT _ (hrounds.symm ▸ hfuel), hrounds]
  exact forEach_appendChar hlen hs

theorem map_toNat_toUInt8 {us : List UInt16} (hus : ∀ u ∈ us, u.toNat < 0x100) :
    (us.map UInt16.toUInt8).map UInt8.toNat = us.map UInt16.toNat := by
  rw [List.map_map]
  refine List.map_congr_left fun u hu => ?_
  rw [Function.comp_apply, UInt16.toNat_toUInt8, Nat.mod_eq_of_lt (hus u hu)]

/-- Both paths give the string of the code units, and a `std::string` comes back from its view. -/
theorem getString_paths_agree :
    (∀ us : List UInt16, (∀ u ∈ us, u.toNat < 0x100) → us.length < 2 ^ 30 →
      ∃ s : StdString, s.map UInt8.toNat = us.map UInt16.toNat ∧
        Returns (getStringLoop (.of16 us)) (s, .ok ()) ∧
        Returns (getStringLoop (.of8 (us.map UInt16.toUInt8))) (s, .ok ())) ∧
    ∀ s : StdString, s.length < 2 ^ 30 →
      Returns (getStringLoop (TV8StringViewContainer.mk s).getStringView) (s, .ok ()) := by
  have hreturns (v : StringView) (hlen : v.length < 2 ^ 30) :
      Returns (getStringLoop v) (lowBytes v, .ok ()) :=
    getStringLoop_returns (Nat.le_trans (Nat.le_of_lt hlen) (by decide)) (getString_eq v hlen)
  constructor
  · intro us hus hlen
    have hlen8 : (StringView.of8 (us.map UInt16.toUInt8)).length < 2 ^ 30 := by
      rw [StringView.length, List.length_map]
      exact hlen
    exact ⟨us.map UInt16.toUInt8, map_toNat_toUInt8 hus, hreturns (.of16 us) hlen,
      hreturns (.of8 (us.map UInt16.toUInt8)) hlen8⟩
  · intro s hlen
    exact hreturns (.of8 s) hlen

theorem getString_paths_agree_e9 :
    (∃ s : StdString, s.map UInt8.toNat = [0x48, 0xE9] ∧
      Returns (getStringLoop (.of16 [0x48, 0xE9])) (s, .ok ()) ∧
      Returns (getStringLoop (.of8 [0x48, 0xE9])) (s, .ok ())) ∧
    Returns (getStringLoop (TV8StringViewContainer.mk [0, 0xFF]).getStringView)
      ([0, 0xFF], .ok ()) :=
  ⟨getString_paths_agree.1 [0x48, 0xE9] (by simp) (by decide),
    getString_paths_agree.2 [0, 0xFF] (by decide)⟩

end V8Min.Inspector
