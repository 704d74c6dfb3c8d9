import Mathlib.Logic.Function.Basic

/-! Storage cells that are given out and taken back, and the owners that refer to them. With one
owner for every cell in use, an owner may be thought of as holding the value itself. -/

namespace Cells
open Function

variable {κ ν ο : Type*}

/-- Every cell in use has one owner, and what an owner holds is what its cell holds. -/
structure Represents (cells : κ → Option ν) (owns : ο → Option κ) (holds : ο → Option ν) :
    Prop where
  reads : ∀ o, (owns o).map cells = (holds o).map some
  owned : ∀ c v, cells c = some v → ∃ o, owns o = some c
  alone : ∀ o o' c, owns o = some c → owns o' = some c → o = o'

section Represents
variable {cells : κ → Option ν} {owns : ο → Option κ} {holds : ο → Option ν} {c : κ} {o : ο}

theorem represents_empty {owns : ο → Option κ} {holds : ο → Option ν} (howns : ∀ o, owns o = none)
    (hholds : ∀ o, holds o = none) : Represents (fun _ => none) owns holds where
  reads o := by rw [howns, hholds, Option.map_none, Option.map_none]
  owned c v hc := nomatch hc
  alone o o' c ho := by
    rw [howns] at ho
    cases ho

theorem Represents.exists_value (h : Represents cells owns holds) (ho : owns o = some c) :
    ∃ v, cells c = some v ∧ holds o = some v := by
  have hreads := h.reads o
  rw [ho] at hreads
  obtain ⟨v, hv, hc⟩ := Option.map_eq_some_iff.mp hreads.symm
  exact ⟨v, hc.symm, hv⟩

theorem Represents.holds_eq_none (h : Represents cells owns holds) (ho : owns o = none) :
    holds o = none := by
  have hreads := h.reads o
  rw [ho] at hreads
  exact Option.map_eq_none_iff.mp hreads.symm

theorem Represents.isSome_iff (h : Represents cells owns holds) :
    (cells c).isSome ↔ ∃ o, owns o = some c := by
  constructor
  · intro hc
    obtain ⟨v, hv⟩ := Option.isSome_iff_exists.mp hc
    exact h.owned c v hv
  · rintro ⟨o, ho⟩
    obtain ⟨v, hv, -⟩ := h.exists_value ho
    exact Option.isSome_iff_exists.mpr ⟨v, hv⟩

variable [DecidableEq ο]

theorem Represents.update_none (h : Represents cells owns holds) (ho : owns o = none) :
    update owns o none = owns ∧ update holds o none = holds :=
  ⟨by rw [← ho, update_eq_self], by rw [← h.holds_eq_none ho, update_eq_self]⟩

variable [DecidableEq κ]

theorem Represents.acquire (h : Represents cells owns holds) (hc : cells c = none)
    (ho : owns o = none) (v : ν) :
    Represents (update cells c (some v)) (update owns o (some c)) (update holds o (some v)) := by
  have hunused (o' : ο) : owns o' ≠ some c := by
    intro ho'
    obtain ⟨w, hw, -⟩ := h.exists_value ho'
    exact Option.some_ne_none w (hw.symm.trans hc)
  refine ⟨fun o' => ?_, fun c' w hw => ?_, fun o₁ o₂ c' h₁ h₂ => ?_⟩
  · by_cases heq : o' = o
    · rw [heq, update_self, update_self, Option.map_some, Option.map_some, update_self]
    · rw [update_of_ne heq, update_of_ne heq, ← h.reads o']
      refine Option.map_congr fun c' hc' => update_of_ne ?_ _ _
      rintro rfl
      exact hunused o' hc'
  · by_cases heq : c' = c
    · exact ⟨o, by rw [heq, update_self]⟩
    · rw [update_of_ne heq] at hw
      obtain ⟨o', ho'⟩ := h.owned c' w hw
      have hne : o' ≠ o := by
        rintro rfl
        exact Option.some_ne_none c' (ho'.symm.trans ho)
      exact ⟨o', by rw [update_of_ne hne, ho']⟩
  · by_cases heq₁ : o₁ = o <;> by_cases heq₂ : o₂ = o
    · rw [heq₁, heq₂]
    · rw [heq₁, update_self] at h₁
      rw [update_of_ne heq₂] at h₂
      exact absurd (h₂.trans h₁.symm) (hunused o₂)
    · rw [heq₂, update_self] at h₂
      rw [update_of_ne heq₁] at h₁
      exact absurd (h₁.trans h₂.symm) (hunused o₁)
    · rw [update_of_ne heq₁] at h₁
      rw [update_of_ne heq₂] at h₂
      exact h.alone o₁ o₂ c' h₁ h₂

theorem Represents.release (h : Represents cells owns holds) (ho : owns o = some c) :
    Represents (update cells c none) (update owns o none) (update holds o none) := by
  refine ⟨fun o' => ?_, fun c' w hw => ?_, fun o₁ o₂ c' h₁ h₂ => ?_⟩
  · by_cases heq : o' = o
    · rw [heq, update_self, update_self, Option.map_none, Option.map_none]
    · rw [update_of_ne heq, update_of_ne heq, ← h.reads o']
      refine Option.map_congr fun c' hc' => update_of_ne ?_ _ _
      rintro rfl
      exact heq (h.alone o' o c' hc' ho)
  · have hne : c' ≠ c := by
      rintro rfl
      rw [update_self] at hw
      cases hw
    rw [update_of_ne hne] at hw
    obtain ⟨o', ho'⟩ := h.owned c' w hw
    have hne' : o' ≠ o := by
      rintro rfl
      exact hne (Option.some.inj (ho'.symm.trans ho))
    exact ⟨o', by rw [update_of_ne hne', ho']⟩
  · have hother {o' : ο} (h' : update owns o none o' = some c') : o' ≠ o := by
      rintro rfl
      rw [update_self] at h'
      cases h'
    have hne₁ := hother h₁
    have hne₂ := hother h₂
    rw [update_of_ne hne₁] at h₁
    rw [update_of_ne hne₂] at h₂
    exact h.alone o₁ o₂ c' h₁ h₂

end Represents
end Cells
