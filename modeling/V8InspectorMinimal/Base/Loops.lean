import Mathlib.Algebra.Group.Nat.Defs
import Mathlib.Data.List.Range
import V8InspectorMinimal.Base.Traversal

/-! Loops `for ( auto i=0; test; i++ )`, which count in a 32-bit `int`. The counter wraps, and a
test against a wider or an unsigned number sees it converted, so that how many rounds such a loop
makes has to be found out for each kind of test. -/

namespace Loops
open Traversal

section Loop
variable {ι σ φ : Type*}

def loop (test : ι → σ → Bool) (next : ι → ι) (body : ι → σ → Option (σ × Except φ Unit)) :
    ℕ → ι → σ → Option (σ × Except φ Unit)
  | 0, _, _ => none
  | fuel + 1, i, s =>
    if test i s then
      match body i s with
      | some (s', .ok ()) => loop test next body fuel (next i) s'
      | failed => failed
    else some (s, .ok ())

/-- With enough fuel the run gives this result. -/
def Returns {ρ : Type*} (run : ℕ → Option ρ) (r : ρ) : Prop :=
  ∃ fuel, ∀ fuel' ≥ fuel, run fuel' = some r

theorem Returns.unique {ρ : Type*} {run : ℕ → Option ρ} {r r' : ρ} (h : Returns run r)
    (h' : Returns run r') : r = r' := by
  obtain ⟨n, hn⟩ := h
  obtain ⟨m, hm⟩ := h'
  have hr := hn (max n m) (Nat.le_max_left n m)
  have hr' := hm (max n m) (Nat.le_max_right n m)
  exact Option.some.inj (hr.symm.trans hr')

theorem Returns.returns_iff {ρ : Type*} {run : ℕ → Option ρ} {r r' : ρ} (h : Returns run r) :
    Returns run r' ↔ r = r' :=
  ⟨h.unique, fun hr => hr ▸ h⟩

variable {test : ι → σ → Bool} {next : ι → ι} {body : ι → σ → Option (σ × Except φ Unit)}
  {P : σ → Prop} {c : ℕ → ι} {m : ℕ}

theorem loop_eq_forEach_range' (hc : ∀ k, next (c k) = c (k + 1))
    (hkeeps : ∀ i s s', P s → body i s = some (s', .ok ()) → P s')
    (hgo : ∀ k < m, ∀ s, P s → test (c k) s = true) (hstop : ∀ s, P s → test (c m) s = false)
    {k n fuel : ℕ} (hm : k + n = m) (hfuel : n < fuel) {s : σ} (hs : P s) :
    loop test next body fuel (c k) s = forEach (fun k => body (c k)) (List.range' k n) s := by
  induction n generalizing k fuel s with
  | zero =>
    obtain ⟨fuel, rfl⟩ := Nat.exists_eq_add_of_lt hfuel
    obtain rfl : k = m := hm
    rw [loop, hstop s hs]
    rfl
  | succ n ih =>
    obtain ⟨fuel, rfl⟩ := Nat.exists_eq_add_of_lt hfuel
    have hk : k < m := by omega
    rw [loop, if_pos (hgo k hk s hs), List.range'_succ, forEach]
    rcases hbody : body (c k) s with _ | ⟨s', e | _⟩
    · rfl
    · rfl
    · show loop test next body _ (next (c k)) s' = _
      rw [hc]
      exact ih (by omega) (by omega) (hkeeps _ s s' hs hbody)

theorem loop_eq_forEach (hc : ∀ k, next (c k) = c (k + 1))
    (hkeeps : ∀ i s s', P s → body i s = some (s', .ok ()) → P s')
    (hgo : ∀ k < m, ∀ s, P s → test (c k) s = true) (hstop : ∀ s, P s → test (c m) s = false)
    {fuel : ℕ} (hfuel : m < fuel) {s : σ} (hs : P s) :
    loop test next body fuel (c 0) s = forEach (fun k => body (c k)) (List.range m) s := by
  rw [List.range_eq_range']
  exact loop_eq_forEach_range' hc hkeeps hgo hstop (Nat.zero_add m) hfuel hs

theorem forEach_range_error {f : ℕ → σ → Option (σ × Except φ Unit)} {k m : ℕ} (hk : k < m)
    {s s' t : σ} {e : φ} (hbefore : forEach f (List.range k) s = some (s', .ok ()))
    (hfails : f k s' = some (t, .error e)) : forEach f (List.range m) s = some (t, .error e) := by
  have hsplit : List.range m = List.range k ++ k :: (List.range m).drop (k + 1) := by
    have hlength : k < (List.range m).length := by simpa using hk
    have htake : (List.range m).take k = List.range k := by
      rw [List.take_range, Nat.min_eq_left (Nat.le_of_lt hk)]
    have hdrop := List.drop_eq_getElem_cons hlength
    rw [List.getElem_range] at hdrop
    rw [← hdrop, ← htake, List.take_append_drop]
  rw [hsplit, forEach_append_ok hbefore]
  exact forEach_cons_error hfails

end Loop

/-! ## What a test sees of the counter -/

def toSizeT (i : Int32) : UInt64 := i.toInt64.toUInt64

theorem toNat_toSizeT {k : ℕ} (hk : k < 2 ^ 32) :
    (toSizeT (.ofNat k)).toNat = if k < 2 ^ 31 then k else k + (2 ^ 64 - 2 ^ 32) := by
  show ((BitVec.ofNat 32 k).signExtend 64).toNat = _
  rw [BitVec.toNat_signExtend, BitVec.msb_eq_decide, BitVec.toNat_setWidth, BitVec.toNat_ofNat,
    Nat.mod_eq_of_lt hk]
  simp only [decide_eq_true_eq]
  split_ifs <;> omega

theorem toNat_toSizeT_of_lt {k : ℕ} (hk : k < 2 ^ 31) : (toSizeT (.ofNat k)).toNat = k := by
  rw [toNat_toSizeT (Nat.lt_trans hk (by decide)), if_pos hk]

theorem toSizeT_of_lt {k : ℕ} (hk : k < 2 ^ 31) : toSizeT (.ofNat k) = .ofNat k := by
  apply UInt64.toNat_inj.mp
  have hlt : k < UInt64.size := Nat.lt_trans hk (by decide)
  rw [toNat_toSizeT_of_lt hk, UInt64.toNat_ofNat_of_lt' hlt]

theorem toNat_toUInt32 {k : ℕ} (hk : k < 2 ^ 32) : (Int32.ofNat k).toUInt32.toNat = k := by
  rw [Int32.toUInt32_ofNat', UInt32.toNat_ofNat_of_lt' hk]

/-- The rounds of a loop whose counter is compared with the `size_t` `n`. Beyond `2 ^ 31` rounds the
counter is negative, which to the comparison is a number next to `2 ^ 64`. -/
def sizeRounds (n : ℕ) : ℕ := if n ≤ 2 ^ 64 - 2 ^ 31 then min n (2 ^ 31) else n - (2 ^ 64 - 2 ^ 32)

theorem sizeRounds_eq_iff {n : ℕ} : sizeRounds n = n ↔ n ≤ 2 ^ 31 := by
  unfold sizeRounds
  split_ifs <;> omega

theorem sizeRounds_of_le {n : ℕ} (hn : n ≤ 2 ^ 64 - 2 ^ 31) : sizeRounds n = min n (2 ^ 31) :=
  if_pos hn

theorem lt_sizeRounds {n : ℕ} (hn : 2 ^ 64 - 2 ^ 31 < n) : 2 ^ 31 < sizeRounds n := by
  unfold sizeRounds
  split_ifs <;> omega

theorem sizeRounds_lt {n : ℕ} (hn : n < 2 ^ 64) : sizeRounds n < 2 ^ 32 := by
  unfold sizeRounds
  split_ifs <;> omega

section Tests
variable {σ φ : Type*} {body : Int32 → σ → Option (σ × Except φ Unit)} {P : σ → Prop}

def intLoop (test : Int32 → σ → Bool) (body : Int32 → σ → Option (σ × Except φ Unit)) (fuel : ℕ)
    (s : σ) : Option (σ × Except φ Unit) :=
  loop test (· + 1) body fuel 0 s

theorem ofNat_add_one (k : ℕ) : Int32.ofNat k + 1 = .ofNat (k + 1) := (Int32.ofNat_add k 1).symm

theorem intLoop_sizeT (n : UInt64) {fuel : ℕ} (hfuel : sizeRounds n.toNat < fuel) (s : σ) :
    intLoop (fun i _ => toSizeT i < n) body fuel s =
      forEach (fun k => body (.ofNat k)) (List.range (sizeRounds n.toNat)) s := by
  have hn := n.toNat_lt
  refine loop_eq_forEach (P := fun _ => True) (c := Int32.ofNat) ofNat_add_one
    (fun _ _ _ _ _ => trivial) (fun k hk _ _ => ?_) (fun _ _ => ?_) hfuel trivial
  · have hk32 : k < 2 ^ 32 := Nat.lt_trans hk (sizeRounds_lt hn)
    rw [decide_eq_true_eq, UInt64.lt_iff_toNat_lt, toNat_toSizeT hk32]
    unfold sizeRounds at hk
    split_ifs at hk ⊢ <;> omega
  · rw [decide_eq_false_iff_not, UInt64.lt_iff_toNat_lt, toNat_toSizeT (sizeRounds_lt hn)]
    unfold sizeRounds
    split_ifs <;> omega

theorem intLoop_uint32 {bound : σ → UInt32} {n : UInt32} (hbound : ∀ s, P s → bound s = n)
    (hkeeps : ∀ i s s', P s → body i s = some (s', .ok ()) → P s') {fuel : ℕ}
    (hfuel : n.toNat < fuel) {s : σ} (hs : P s) :
    intLoop (fun i s => i.toUInt32 < bound s) body fuel s =
      forEach (fun k => body (.ofNat k)) (List.range n.toNat) s := by
  have hn := n.toNat_lt
  refine loop_eq_forEach (P := P) (c := Int32.ofNat) ofNat_add_one hkeeps
    (fun k hk t ht => ?_) (fun t ht => ?_) hfuel hs
  · rw [decide_eq_true_eq, hbound t ht, UInt32.lt_iff_toNat_lt, toNat_toUInt32 (Nat.lt_trans hk hn)]
    exact hk
  · rw [decide_eq_false_iff_not, hbound t ht, UInt32.lt_iff_toNat_lt, toNat_toUInt32 hn]
    exact Nat.lt_irrefl _

theorem intLoop_int {n fuel : ℕ} (hn : n < 2 ^ 31) (hfuel : n < fuel) (s : σ) :
    intLoop (fun i _ => i < Int32.ofNat n) body fuel s =
      forEach (fun k => body (.ofNat k)) (List.range n) s := by
  have htest {k : ℕ} (hk : k < 2 ^ 31) : Int32.ofNat k < Int32.ofNat n ↔ k < n := by
    rw [Int32.lt_iff_toInt_lt, Int32.toInt_ofNat_of_lt hk, Int32.toInt_ofNat_of_lt hn,
      Int.ofNat_lt]
  refine loop_eq_forEach (P := fun _ => True) (c := Int32.ofNat) ofNat_add_one
    (fun _ _ _ _ _ => trivial) (fun k hk _ _ => ?_) (fun _ _ => ?_) hfuel trivial
  · rw [decide_eq_true_eq, htest (Nat.lt_trans hk hn)]
    exact hk
  · rw [decide_eq_false_iff_not, htest hn]
    exact Nat.lt_irrefl n

section Append
variable {ε : Type*} {out : Int32 → Except φ (List ε)} {n : ℕ}

theorem intLoop_appendOut (out : Int32 → Except φ (List ε)) (hn : n < 2 ^ 31) (s : List ε) :
    Returns (fun fuel => intLoop (fun i _ => i < Int32.ofNat n)
        (fun i s => some (appendOut out i s)) fuel s)
      (visitAll (appendOut fun k => out (.ofNat k)) (List.range n) s) := by
  refine ⟨n + 1, fun fuel hfuel => ?_⟩
  rw [← forEach_visit]
  exact intLoop_int hn hfuel s

theorem isOut_of_returns (hn : n < 2 ^ 31) {s s' : List ε}
    (hreturns : Returns (fun fuel => intLoop (fun i _ => i < Int32.ofNat n)
      (fun i s => some (appendOut out i s)) fuel s) (s', .ok ())) :
    ∀ k < n, isOut out (.ofNat k) = true := by
  have hloop := (intLoop_appendOut out hn s).unique hreturns
  have hall := (visitAll_appendOut_snd _ _).mp (congrArg Prod.snd hloop)
  exact fun k hk => hall k (List.mem_range.mpr hk)

theorem returns_of_out (hn : n < 2 ^ 31) {f : ℕ → List ε}
    (hf : ∀ k < n, out (.ofNat k) = .ok (f k)) (s : List ε) :
    Returns (fun fuel => intLoop (fun i _ => i < Int32.ofNat n)
        (fun i s => some (appendOut out i s)) fuel s)
      (s ++ (List.range n).flatMap f, .ok ()) := by
  have hloop := intLoop_appendOut out hn s
  rw [visitAll_appendOut_of_ok fun k hk => hf k (List.mem_range.mp hk)] at hloop
  exact hloop

end Append

end Tests
end Loops
