import Mathlib.Data.List.Basic
import Mathlib.Data.Nat.Notation
import Mathlib.Logic.Function.Basic

/-! Blocks of one memory that do not overlap, and their owners. An owner may be thought of as
holding an array of its own, as far as what is in the array is known. -/

namespace Blocks
open Function

variable {β ο : Type*}

structure Region where
  start : ℕ
  length : ℕ
  deriving DecidableEq

def Region.Contains (r : Region) (address : ℕ) : Prop :=
  r.start ≤ address ∧ address < r.start + r.length

def Region.Apart (r r' : Region) : Prop :=
  r.start + r.length ≤ r'.start ∨ r'.start + r'.length ≤ r.start

instance (r r' : Region) : Decidable (r.Apart r') :=
  inferInstanceAs (Decidable (_ ∨ _))

theorem Region.contains_add (r : Region) {i : ℕ} (hi : i < r.length) : r.Contains (r.start + i) :=
  ⟨Nat.le_add_right _ _, Nat.add_lt_add_left hi _⟩

theorem Region.Apart.symm {r r' : Region} (h : r.Apart r') : r'.Apart r := Or.symm h

theorem Region.Apart.not_contains {r r' : Region} (h : r.Apart r') {address : ℕ}
    (hr : r.Contains address) : ¬ r'.Contains address := by
  unfold Apart Contains at *
  omega

def overwrite (memory : ℕ → β) (start : ℕ) (bytes : List β) (address : ℕ) : β :=
  if start ≤ address then bytes[address - start]?.getD (memory address) else memory address

theorem overwrite_add {memory : ℕ → β} {start i : ℕ} {bytes : List β} {b : β}
    (hb : bytes[i]? = some b) : overwrite memory start bytes (start + i) = b := by
  rw [overwrite, if_pos (Nat.le_add_right _ _), Nat.add_sub_cancel_left, hb, Option.getD_some]

theorem overwrite_of_not_contains {memory : ℕ → β} {r : Region} {bytes : List β}
    (hlength : bytes.length = r.length) {address : ℕ} (h : ¬ r.Contains address) :
    overwrite memory r.start bytes address = memory address := by
  unfold overwrite
  split
  · rename_i hle
    have hend : bytes.length ≤ address - r.start := by
      unfold Region.Contains at h
      omega
    rw [List.getElem?_eq_none hend, Option.getD_none]
  · rfl

theorem eq_some_of_update_none {γ : Type*} [DecidableEq ο] {f : ο → Option γ} {o o' : ο} {x : γ}
    (h : update f o none o' = some x) : f o' = some x := by
  by_cases heq : o' = o
  · rw [heq, update_self] at h
    cases h
  · rwa [update_of_ne heq] at h

/-- What an owner is known to hold is in its block, and the blocks do not overlap. -/
structure Represents (memory : ℕ → β) (place : ο → Option Region)
    (holds : ο → Option (List (Option β))) : Prop where
  sized : ∀ o, (holds o).map List.length = (place o).map Region.length
  reads : ∀ o r known, place o = some r → holds o = some known →
    ∀ i b, known[i]? = some (some b) → memory (r.start + i) = b
  apart : ∀ o o' r r', place o = some r → place o' = some r' → o ≠ o' → r.Apart r'

namespace Represents
variable {memory memory' : ℕ → β} {place : ο → Option Region}
  {holds : ο → Option (List (Option β))} {o : ο} {r : Region} {known : List (Option β)}

theorem exists_known (h : Represents memory place holds) (ho : place o = some r) :
    ∃ known, holds o = some known ∧ known.length = r.length := by
  have hsized := h.sized o
  rw [ho] at hsized
  exact Option.map_eq_some_iff.mp hsized

theorem frame (h : Represents memory place holds)
    (hframe : ∀ o r address, place o = some r → r.Contains address →
      memory' address = memory address) : Represents memory' place holds where
  sized := h.sized
  reads o r known ho hknown i b hi := by
    obtain ⟨known', hknown', hlength⟩ := h.exists_known ho
    obtain rfl := Option.some.inj (hknown.symm.trans hknown')
    have hlt : i < r.length := hlength ▸ (List.getElem?_eq_some_iff.mp hi).1
    rw [hframe o r _ ho (r.contains_add hlt)]
    exact h.reads o r known ho hknown i b hi
  apart := h.apart

variable [DecidableEq ο]

theorem acquire (h : Represents memory place holds)
    (hr : ∀ o' r', place o' = some r' → r'.Apart r) (hlength : known.length = r.length)
    {bytes : List β} (hbytes : bytes.length = r.length)
    (hknown : ∀ (i : ℕ) (b : β), known[i]? = some (some b) → bytes[i]? = some b) :
    Represents (overwrite memory r.start bytes) (update place o (some r))
      (update holds o (some known)) := by
  have hold : Represents (overwrite memory r.start bytes) place holds :=
    h.frame fun o' r' address ho' hin =>
      overwrite_of_not_contains hbytes ((hr o' r' ho').not_contains hin)
  refine ⟨fun o' => ?_, fun o' r' known' hplace hholds => ?_, fun o₁ o₂ r₁ r₂ h₁ h₂ hne => ?_⟩
  · by_cases heq : o' = o
    · rw [heq, update_self, update_self, Option.map_some, Option.map_some, hlength]
    · rw [update_of_ne heq, update_of_ne heq, hold.sized]
  · by_cases heq : o' = o
    · rw [heq, update_self] at hplace hholds
      obtain rfl := Option.some.inj hplace
      obtain rfl := Option.some.inj hholds
      exact fun i b hi => overwrite_add (hknown i b hi)
    · rw [update_of_ne heq] at hplace hholds
      exact hold.reads o' r' known' hplace hholds
  · by_cases heq₁ : o₁ = o
    · have heq₂ : o₂ ≠ o := fun heq₂ => hne (heq₁.trans heq₂.symm)
      rw [heq₁, update_self] at h₁
      rw [update_of_ne heq₂] at h₂
      exact Option.some.inj h₁ ▸ (hr o₂ r₂ h₂).symm
    · rw [update_of_ne heq₁] at h₁
      by_cases heq₂ : o₂ = o
      · rw [heq₂, update_self] at h₂
        exact Option.some.inj h₂ ▸ hr o₁ r₁ h₁
      · rw [update_of_ne heq₂] at h₂
        exact hold.apart o₁ o₂ r₁ r₂ h₁ h₂ hne

theorem store (h : Represents memory place holds) (ho : place o = some r)
    (hknown : holds o = some known) {i : ℕ} (hi : i < r.length) (b : β) :
    Represents (update memory (r.start + i) b) place
      (update holds o (some (known.set i (some b)))) := by
  refine ⟨fun o' => ?_, fun o' r' known' hplace hholds j b' hj => ?_, h.apart⟩
  · by_cases heq : o' = o
    · rw [heq, update_self, Option.map_some, List.length_set, ← Option.map_some, ← hknown, h.sized]
    · rw [update_of_ne heq, h.sized]
  · by_cases heq : o' = o
    · subst heq
      rw [update_self] at hholds
      obtain rfl := Option.some.inj hholds
      obtain rfl := Option.some.inj (ho.symm.trans hplace)
      rw [List.getElem?_set] at hj
      by_cases hij : i = j
      · subst hij
        rw [if_pos rfl] at hj
        split at hj
        · rw [update_self]
          exact Option.some.inj (Option.some.inj hj)
        · cases hj
      · rw [if_neg hij] at hj
        rw [update_of_ne (by omega)]
        exact h.reads o' r known ho hknown j b' hj
    · rw [update_of_ne heq] at hholds
      obtain ⟨known'', hholds', hlength⟩ := h.exists_known hplace
      obtain rfl := Option.some.inj (hholds.symm.trans hholds')
      have hlt : j < r'.length := hlength ▸ (List.getElem?_eq_some_iff.mp hj).1
      have hout := (h.apart o o' r r' ho hplace (Ne.symm heq)).not_contains (r.contains_add hi)
      have hne : r'.start + j ≠ r.start + i := fun hsame =>
        hout (hsame ▸ r'.contains_add hlt)
      rw [update_of_ne hne]
      exact h.reads o' r' known' hplace hholds j b' hj

theorem release (h : Represents memory place holds) (o : ο) :
    Represents memory (update place o none) (update holds o none) := by
  refine ⟨fun o' => ?_, fun o' r known hplace hholds =>
    h.reads o' r known (eq_some_of_update_none hplace) (eq_some_of_update_none hholds),
    fun o₁ o₂ r₁ r₂ h₁ h₂ =>
      h.apart o₁ o₂ r₁ r₂ (eq_some_of_update_none h₁) (eq_some_of_update_none h₂)⟩
  by_cases heq : o' = o
  · rw [heq, update_self, update_self, Option.map_none, Option.map_none]
  · rw [update_of_ne heq, update_of_ne heq, h.sized]

end Represents
end Blocks
