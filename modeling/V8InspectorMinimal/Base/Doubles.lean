import Mathlib.Algebra.Field.Rat
import Mathlib.Data.Nat.Log

/-! Double-precision numbers by their sign, significand and exponent, the integers among them, and
the truncation to an integer that C++ makes of them. -/

namespace Doubles

/-- The significand of a normal number has 53 bits. -/
structure Finite where
  negative : Bool
  significand : ℕ
  exponent : ℤ
  significand_lt : significand < 2 ^ 53
  exponent_ge : -1074 ≤ exponent
  exponent_le : exponent ≤ 971
  normal : 2 ^ 52 ≤ significand ∨ exponent = -1074
  deriving DecidableEq

inductive Double where
  | nan
  | infinity (negative : Bool)
  | finite (x : Finite)
  deriving DecidableEq

def Finite.toRat (x : Finite) : ℚ :=
  (if x.negative then -1 else 1) * (x.significand * (2 : ℚ) ^ x.exponent)

def truncate (r : ℚ) : ℤ := r.num.tdiv r.den

theorem truncate_intCast (n : ℤ) : truncate n = n := by
  unfold truncate
  rw [Rat.num_intCast, Rat.den_intCast, Nat.cast_one, Int.tdiv_one]

def shift (n : ℕ) : ℕ := 52 - Nat.log 2 n

theorem log_add_shift {n : ℕ} (h : n < 2 ^ 53) : Nat.log 2 n + shift n = 52 := by
  have hlog : Nat.log 2 n < 53 := Nat.log_lt_of_lt_pow' (by decide) h
  unfold shift
  omega

theorem le_mul_shift {n : ℕ} (h : n < 2 ^ 53) (hn : n ≠ 0) : 2 ^ 52 ≤ n * 2 ^ shift n := by
  have hlow : 2 ^ Nat.log 2 n ≤ n := Nat.pow_log_le_self 2 hn
  calc 2 ^ 52 = 2 ^ Nat.log 2 n * 2 ^ shift n := by rw [← Nat.pow_add, log_add_shift h]
    _ ≤ n * 2 ^ shift n := Nat.mul_le_mul_right _ hlow

theorem mul_shift_lt {n : ℕ} (h : n < 2 ^ 53) : n * 2 ^ shift n < 2 ^ 53 := by
  have hhigh : n < 2 ^ (Nat.log 2 n + 1) := Nat.lt_pow_succ_log_self (by decide) n
  have hpos : 0 < 2 ^ shift n := Nat.two_pow_pos _
  calc n * 2 ^ shift n < 2 ^ (Nat.log 2 n + 1) * 2 ^ shift n :=
      Nat.mul_lt_mul_of_pos_right hhigh hpos
    _ = 2 ^ 53 := by rw [← Nat.pow_add, Nat.add_right_comm, log_add_shift h]

def Finite.ofInt (n : ℤ) (h : n.natAbs < 2 ^ 53) : Finite :=
  if h0 : n.natAbs = 0 then
    ⟨false, 0, -1074, by decide, by decide, by decide, Or.inr rfl⟩
  else
    { negative := n < 0
      significand := n.natAbs * 2 ^ shift n.natAbs
      exponent := -shift n.natAbs
      significand_lt := mul_shift_lt h
      exponent_ge := by
        have hshift : shift n.natAbs ≤ 52 := Nat.sub_le _ _
        omega
      exponent_le := by omega
      normal := Or.inl (le_mul_shift h h0) }

theorem Finite.toRat_ofInt {n : ℤ} (h : n.natAbs < 2 ^ 53) : (Finite.ofInt n h).toRat = n := by
  unfold ofInt
  split
  · rename_i h0
    have hn : n = 0 := Int.natAbs_eq_zero.mp h0
    simp [toRat, hn]
  · have hpow : (2 : ℚ) ^ shift n.natAbs ≠ 0 := pow_ne_zero _ (by decide)
    have habs : ((n.natAbs * 2 ^ shift n.natAbs : ℕ) : ℚ) * (2 : ℚ) ^ (-(shift n.natAbs : ℤ)) =
        n.natAbs := by
      rw [Nat.cast_mul, Nat.cast_pow, Nat.cast_ofNat, zpow_neg, zpow_natCast,
        mul_inv_cancel_right₀ hpow]
    unfold toRat
    rw [habs]
    rcases Int.natAbs_eq n with hn | hn
    · have hsign : ¬ n < 0 := by omega
      simp only [hsign, decide_false, Bool.false_eq_true, if_false, one_mul]
      rw [← Int.cast_natCast, ← hn]
    · rename_i h0
      have hsign : n < 0 := by omega
      simp only [hsign, decide_true, if_true, neg_one_mul]
      rw [← Int.cast_natCast, ← Int.cast_neg, ← hn]

def Double.toRat? : Double → Option ℚ
  | .finite x => some x.toRat
  | _ => none

/-! ## Single precision -/

def Finite.ofScaled (negative : Bool) (n : ℕ) (e : ℤ) (h : n < 2 ^ 53) (hlow : -1022 ≤ e)
    (hhigh : e ≤ 971) : Finite :=
  if h0 : n = 0 then
    ⟨negative, 0, -1074, by decide, by decide, by decide, Or.inr rfl⟩
  else
    { negative
      significand := n * 2 ^ shift n
      exponent := e - shift n
      significand_lt := mul_shift_lt h
      exponent_ge := by
        have hshift : shift n ≤ 52 := Nat.sub_le _ _
        omega
      exponent_le := by omega
      normal := Or.inl (le_mul_shift h h0) }

/-- The significand of the single-precision number with the magnitude bits `b`. The one of a normal
number has 24 bits, of which the highest is not stored. -/
def singleSignificand (b : ℕ) : ℕ := if b / 2 ^ 23 = 0 then b else 2 ^ 23 + b % 2 ^ 23

def singleBiased (b : ℕ) : ℕ := max (b / 2 ^ 23) 1

theorem singleSignificand_lt (b : ℕ) : singleSignificand b < 2 ^ 24 := by
  unfold singleSignificand
  split
  · omega
  · omega

theorem singleBiased_lt {b : ℕ} (h : b < 0x7f800000) : singleBiased b < 255 := by
  unfold singleBiased
  omega

/-- The conversion from single to double precision, which is exact. -/
def Double.ofSingle (negative : Bool) (b : ℕ) : Double :=
  if h : b < 0x7f800000 then
    .finite <| .ofScaled negative (singleSignificand b) (singleBiased b - 150)
      (Nat.lt_trans (singleSignificand_lt b) (by decide)) (by omega)
      (by have hlt := singleBiased_lt h; omega)
  else if b = 0x7f800000 then .infinity negative
  else .nan

end Doubles
