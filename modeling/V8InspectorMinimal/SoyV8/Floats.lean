import V8InspectorMinimal.SoyV8.Numbers

/-! What becomes of the numbers in `EnumArray(ArrayBridge<float>&)`, which has a copy of typed
arrays and a recursion over plain arrays as its sibling for ints has. -/

namespace V8Min.SoyV8
open Bytes Doubles Loops Traversal

def Single.magnitude (s : Single) : ℕ := s.bits.toNat % 2 ^ 31

def Single.isNan (s : Single) : Bool := 0x7f800000 < s.magnitude

def Single.toDouble (s : Single) : Double := .ofSingle (2 ^ 31 ≤ s.bits.toNat) s.magnitude

/-! ## A conversion there and back -/

theorem roundShift_mul (n k : ℕ) : roundShift (n * 2 ^ k) k = n := by
  have hpos := Nat.two_pow_pos k
  have hdiv : n * 2 ^ k / 2 ^ k = n := Nat.mul_div_cancel n hpos
  have hmod : n * 2 ^ k % 2 ^ k = 0 := Nat.mul_mod_left n (2 ^ k)
  unfold roundShift
  rw [hdiv, hmod]
  have hexact : ¬ (2 ^ k < 2 * 0 ∨ 2 ^ k = 2 * 0 ∧ n % 2 = 1) := by omega
  exact if_neg hexact

theorem x86_toFloat_finite (x : Finite) : x86.toFloat (.finite x) =
    ⟨(if x.negative then 0x80000000 else 0) +
      UInt32.ofNat (min (((max (x.exponent + 179) 1).toNat - 1) * 2 ^ 23 +
        roundShift x.significand (max (x.exponent + 179) 1 - (x.exponent + 150)).toNat)
          0x7f800000)⟩ := rfl

section Magnitude
variable {b : ℕ}

theorem max_shifted (hb : singleSignificand b ≠ 0) :
    max ((singleBiased b : ℤ) - 150 - shift (singleSignificand b) + 179) 1 = singleBiased b := by
  unfold singleBiased singleSignificand at *
  -- the leading bit of a subnormal is shifted to where the others have it
  by_cases hsubnormal : b / 2 ^ 23 = 0
  · rw [if_pos hsubnormal] at hb ⊢
    have hlog : Nat.log 2 b < 23 := Nat.log_lt_of_lt_pow hb (by omega)
    unfold shift
    omega
  · rw [if_neg hsubnormal]
    have hlog : Nat.log 2 (2 ^ 23 + b % 2 ^ 23) = 23 :=
      Nat.log_eq_of_pow_le_of_lt_pow (Nat.le_add_right _ _) (by omega)
    unfold shift
    rw [hlog]
    omega

theorem fields_eq (b : ℕ) : (singleBiased b - 1) * 2 ^ 23 + singleSignificand b = b := by
  unfold singleBiased singleSignificand
  split <;> omega

theorem toFloat_ofSingle (negative : Bool) (hb : b < 0x7f800000) :
    x86.toFloat (.ofSingle negative b) =
      ⟨(if negative then 0x80000000 else 0) + UInt32.ofNat b⟩ := by
  rw [Double.ofSingle, dif_pos hb, x86_toFloat_finite]
  unfold Finite.ofScaled
  by_cases h0 : singleSignificand b = 0
  · have hzero : b = 0 := by
      have hfields := fields_eq b
      unfold singleSignificand at h0
      split at h0 <;> omega
    have hround (k : ℕ) : roundShift 0 k = 0 := by simpa using roundShift_mul 0 k
    have hmin : min (((max (-1074 + 179 : ℤ) 1).toNat - 1) * 2 ^ 23 + 0) 0x7f800000 = 0 := by decide
    rw [dif_pos h0, hzero]
    dsimp only
    rw [hround, hmin]
  · have hshift : ((singleBiased b : ℤ) - ((singleBiased b : ℤ) - 150 -
        shift (singleSignificand b) + 150)).toNat = shift (singleSignificand b) := by omega
    rw [dif_neg h0, max_shifted h0, hshift, roundShift_mul, Int.toNat_natCast, fields_eq,
      Nat.min_eq_left (Nat.le_of_lt hb)]

end Magnitude

theorem sign_add_magnitude (s : Single) :
    (if decide (2 ^ 31 ≤ s.bits.toNat) then 0x80000000 else 0) + UInt32.ofNat s.magnitude =
      s.bits := by
  have hbits := s.bits.toNat_lt
  apply UInt32.toNat.inj
  unfold Single.magnitude
  rw [UInt32.toNat_add, UInt32.toNat_ofNat']
  by_cases hnegative : 2 ^ 31 ≤ s.bits.toNat
  · rw [if_pos (decide_eq_true hnegative)]
    show (2 ^ 31 + s.bits.toNat % 2 ^ 31 % 2 ^ 32) % 2 ^ 32 = s.bits.toNat
    omega
  · rw [if_neg (by rw [decide_eq_true_iff]; exact hnegative)]
    show (0 + s.bits.toNat % 2 ^ 31 % 2 ^ 32) % 2 ^ 32 = s.bits.toNat
    omega

theorem toFloat_toDouble {s : Single} (hs : s.isNan = false) : x86.toFloat s.toDouble = s := by
  have hle : s.magnitude ≤ 0x7f800000 := Nat.le_of_not_lt (of_decide_eq_false hs)
  have hsum := congrArg Single.mk (sign_add_magnitude s)
  rcases Nat.lt_or_eq_of_le hle with hlt | heq
  · rw [Single.toDouble, toFloat_ofSingle _ hlt, hsum]
  · rw [heq] at hsum
    rw [Single.toDouble, heq]
    refine Eq.trans ?_ hsum
    cases decide (2 ^ 31 ≤ s.bits.toNat) <;> rfl

/-! ## The numbers of arrays -/

/-- The same bits, or two of the many that are not a number. -/
def SameFloat (x y : Single) : Prop := x = y ∨ x.isNan = true ∧ y.isNan = true

theorem toDouble_of_isNan {s : Single} (hs : s.isNan = true) : s.toDouble = .nan := by
  have hgt : 0x7f800000 < s.magnitude := of_decide_eq_true hs
  rw [Single.toDouble, Double.ofSingle, dif_neg (Nat.not_lt_of_gt hgt), if_neg (Nat.ne_of_gt hgt)]

theorem sameFloat_toFloat_toDouble (s : Single) : SameFloat (x86.toFloat s.toDouble) s := by
  cases hs : s.isNan with
  | false => exact Or.inl (toFloat_toDouble hs)
  | true =>
    rw [toDouble_of_isNan hs]
    exact Or.inr ⟨by decide, hs⟩

theorem SameFloat.toDouble_eq {x y : Single} (h : SameFloat x y) : x.toDouble = y.toDouble := by
  rcases h with rfl | ⟨hx, hy⟩
  · rfl
  · rw [toDouble_of_isNan hx, toDouble_of_isNan hy]

theorem sameFloats_narrowed (values : List Single) :
    List.Forall₂ SameFloat ((values.map Single.toDouble).map x86.toFloat) values := by
  rw [List.map_map, List.forall₂_map_left_iff, List.forall₂_same]
  exact fun s _ => sameFloat_toFloat_toDouble s

theorem toDouble_toFloat_iff {d : Double} :
    (x86.toFloat d).toDouble = d ↔ ∃ s : Single, s.toDouble = d := by
  constructor
  · exact fun hd => ⟨_, hd⟩
  · rintro ⟨s, rfl⟩
    exact (sameFloat_toFloat_toDouble s).toDouble_eq

/-- What the program makes of floats, `EnumArray` turns back into the same floats. Of the numbers of
other arrays it keeps the values that a `float` can have. -/
theorem enumArray_floats_iff (fresh : ℕ → UInt8) (h : Heap) (context : String)
    (array : List Single) :
    (∀ values : List Single, values.length ≤ 2 ^ 31 → ∃ h' v floats,
      Returns (getArrayLoop Single.toDouble h values) (h', .ok v) ∧
        List.Forall₂ SameFloat floats values ∧
        ∀ fuel ≥ 2, enumArray (floatOverload x86 fresh) h' context fuel v array =
          some (array ++ floats, .ok ())) ∧
    ∀ w ds, h.array? w = some (ds.map .number) → ∃ floats : List Single,
      (∀ fuel ≥ 2, enumArray (floatOverload x86 fresh) h context fuel w array =
        some (array ++ floats, .ok ())) ∧
      (floats.map Single.toDouble = ds ↔ ∀ d ∈ ds, ∃ s : Single, s.toDouble = d) := by
  constructor
  · intro values hlength
    refine ⟨_, _, _, getArrayLoop_returns Single.toDouble h hlength, sameFloats_narrowed values,
      fun fuel hfuel => ?_⟩
    exact enumArray_numbers (array?_getArray Single.toDouble h values) context hfuel array
  · intro w ds hw
    refine ⟨ds.map x86.toFloat, fun fuel hfuel => enumArray_numbers hw context hfuel array, ?_⟩
    have hkept : ds.map (Single.toDouble ∘ x86.toFloat) = ds.map id ↔
        ∀ d ∈ ds, ∃ s : Single, s.toDouble = d :=
      List.map_inj_left.trans (forall₂_congr fun d _ => toDouble_toFloat_iff)
    rw [List.map_id] at hkept
    rw [List.map_map]
    exact hkept

theorem enumArray_floats_iff_two : ∃ h' v floats,
    Returns (getArrayLoop Single.toDouble ⟨[], by decide⟩ [⟨0x3fc00000⟩, ⟨0x80000001⟩])
        (h', .ok v) ∧
      List.Forall₂ SameFloat floats [⟨0x3fc00000⟩, ⟨0x80000001⟩] ∧
      enumArray (floatOverload x86 fun _ => 0) h' "" 2 v [] = some (floats, .ok ()) := by
  obtain ⟨h', v, floats, hmade, hsame, henum⟩ :=
    (enumArray_floats_iff (fun _ => 0) ⟨[], by decide⟩ "" []).1 [⟨0x3fc00000⟩, ⟨0x80000001⟩]
      (by decide)
  exact ⟨h', v, floats, hmade, hsame, henum 2 (Nat.le_refl 2)⟩

end V8Min.SoyV8
