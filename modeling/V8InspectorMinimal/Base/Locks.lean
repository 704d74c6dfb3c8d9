import Mathlib.Data.List.Basic
import Mathlib.Logic.Relation
import Mathlib.Order.Basic

/-! The plain and the recursive mutex of the C++ standard library, seen through their owner.
`lock` is `none` while the caller has to wait, which for the plain mutex includes its own owner.
Threads that request locks in a fixed order never wait for each other in a cycle. -/

namespace Locks

variable {θ : Type*}

structure Mutex (θ : Type*) where
  owner : Option θ := none

def Mutex.lock (m : Mutex θ) (t : θ) : Option (Mutex θ) :=
  match m.owner with
  | none => some ⟨some t⟩
  | some _ => none

def Mutex.unlock (_ : Mutex θ) : Mutex θ := ⟨none⟩

theorem Mutex.lock_eq_some {m m' : Mutex θ} {t : θ} :
    m.lock t = some m' ↔ m.owner = none ∧ m' = ⟨some t⟩ := by
  rcases m with ⟨_ | o⟩
  · simp [lock, eq_comm]
  · simp [lock]

structure RecursiveMutex (θ : Type*) where
  held : Option (θ × ℕ) := none

def RecursiveMutex.lock [DecidableEq θ] (m : RecursiveMutex θ) (t : θ) :
    Option (RecursiveMutex θ) :=
  match m.held with
  | none => some ⟨some (t, 0)⟩
  | some (o, n) => if o = t then some ⟨some (o, n + 1)⟩ else none

def RecursiveMutex.unlock (m : RecursiveMutex θ) : RecursiveMutex θ :=
  match m.held with
  | some (o, n + 1) => ⟨some (o, n)⟩
  | _ => ⟨none⟩

theorem RecursiveMutex.held_of_lock [DecidableEq θ] {m m' : RecursiveMutex θ} {t : θ}
    (free : m.held = none) (h : m.lock t = some m') : m'.held = some (t, 0) := by
  rw [lock, free] at h
  exact Option.some.inj h ▸ rfl

theorem RecursiveMutex.exists_held_of_lock [DecidableEq θ] {m m' : RecursiveMutex θ} {t : θ}
    (h : m.lock t = some m') : ∃ n, m'.held = some (t, n) := by
  unfold lock at h
  split at h
  · exact ⟨0, Option.some.inj h ▸ rfl⟩
  · rename_i o n hm
    split at h
    · rename_i ho
      exact ⟨n + 1, Option.some.inj h ▸ ho ▸ rfl⟩
    · cases h

theorem RecursiveMutex.held_unlock {m : RecursiveMutex θ} {t : θ} (h : m.held = some (t, 0)) :
    m.unlock.held = none := by
  rw [unlock, h]

/-! ## Critical sections -/

section Guards
variable {m m' : RecursiveMutex θ} {inside inside' : θ → Bool} {t u : θ}

/-- The threads inside the critical section are those that hold the lock, each of them once. -/
def RecursiveMutex.Guards (m : RecursiveMutex θ) (inside : θ → Bool) : Prop :=
  ∀ t n, m.held = some (t, n) ↔ inside t = true ∧ n = 0

theorem RecursiveMutex.Guards.held (h : m.Guards inside) (ht : inside t = true) :
    m.held = some (t, 0) := (h t 0).mpr ⟨ht, rfl⟩

theorem RecursiveMutex.Guards.unique (h : m.Guards inside) (ht : inside t = true)
    (hu : inside u = true) : t = u := by
  have heq := (h.held ht).symm.trans (h.held hu)
  exact congrArg Prod.fst (Option.some.inj heq)

theorem RecursiveMutex.guards_of_free (hm : m.held = none) (hin : ∀ u, inside u = false) :
    m.Guards inside := by
  intro u n
  rw [hm, hin u]
  simp

theorem RecursiveMutex.Guards.held_of_lock [DecidableEq θ] (h : m.Guards inside)
    (ht : inside t = false) (hl : m.lock t = some m') : m.held = none := by
  rcases hm : m.held with _ | ⟨o, n⟩
  · rfl
  · have ho := ((h o n).mp hm).1
    have hne : o ≠ t := by
      rintro rfl
      exact Bool.false_ne_true (ht.symm.trans ho)
    rw [lock, hm] at hl
    simp only [if_neg hne] at hl
    cases hl

theorem RecursiveMutex.Guards.lock [DecidableEq θ] (h : m.Guards inside) (ht : inside t = false)
    (hl : m.lock t = some m') (ht' : inside' t = true)
    (hother : ∀ u, u ≠ t → inside' u = inside u) : m'.Guards inside' := by
  have hfree := h.held_of_lock ht hl
  intro u n
  rw [RecursiveMutex.held_of_lock hfree hl, Option.some.injEq, Prod.mk.injEq]
  by_cases hu : u = t
  · subst hu
    rw [ht', eq_comm (a := 0), eq_self u, eq_self true]
  · have hout : ¬ inside' u = true := fun hin =>
      absurd ((h.held ((hother u hu) ▸ hin)).symm.trans hfree) (Option.some_ne_none _)
    exact iff_of_false (fun he => hu he.1.symm) fun hin => hout hin.1

theorem RecursiveMutex.Guards.unlock (h : m.Guards inside) (ht : inside t = true)
    (ht' : inside' t = false) (hother : ∀ u, u ≠ t → inside' u = inside u) :
    m.unlock.Guards inside' := by
  apply RecursiveMutex.guards_of_free (RecursiveMutex.held_unlock (h.held ht))
  intro u
  by_cases hu : u = t
  · rw [hu, ht']
  · rw [hother u hu]
    exact eq_false_of_ne_true fun hin => hu (h.unique hin ht)

end Guards

/-! ## The order of locks -/

section Order
variable {κ ρ : Type*} {requests holds : θ → κ → Prop} {t u : θ}

def WaitsFor (requests holds : θ → κ → Prop) (t u : θ) : Prop := ∃ l, requests t l ∧ holds u l

theorem exists_le_of_waits [Preorder ρ] (rank : κ → ρ)
    (horder : ∀ t l l', requests t l → holds t l' → rank l' < rank l)
    (h : Relation.TransGen (WaitsFor requests holds) t u) :
    ∃ l l', requests t l ∧ holds u l' ∧ rank l ≤ rank l' := by
  induction h with
  | single h =>
    obtain ⟨l, hl, hu⟩ := h
    exact ⟨l, l, hl, hu, le_refl _⟩
  | tail _ hwait ih =>
    obtain ⟨l, l', hl, hl', hle⟩ := ih
    obtain ⟨k, hk, hu⟩ := hwait
    exact ⟨l, k, hl, hu, hle.trans (horder _ k l' hk hl').le⟩

/-- Where every thread only requests locks that come after all those it holds, there is no cycle. -/
theorem not_waits_of_rank [Preorder ρ] (rank : κ → ρ)
    (horder : ∀ t l l', requests t l → holds t l' → rank l' < rank l) (t : θ) :
    ¬ Relation.TransGen (WaitsFor requests holds) t t := by
  intro h
  obtain ⟨l, l', hl, hl', hle⟩ := exists_le_of_waits rank horder h
  exact (horder t l l' hl hl').not_ge hle

end Order

/-! ## Races -/

inductive Access where
  | read
  | write
  deriving DecidableEq, Repr

section Races
variable {α ν κ : Type*} {thread : α → θ} {access : α → List (ν × Access)} {enabled : α → Prop}

/-- Two threads may access the variable at once, and one of them writes it. -/
def Race (thread : α → θ) (access : α → List (ν × Access)) (enabled : α → Prop) (v : ν) : Prop :=
  ∃ a b x y, thread a ≠ thread b ∧ enabled a ∧ enabled b ∧ (v, x) ∈ access a ∧
    (v, y) ∈ access b ∧ (x = .write ∨ y = .write)

theorem not_race_of_holds {holds : θ → κ → Prop} {l : κ} {v : ν}
    (hunique : ∀ t u, holds t l → holds u l → t = u)
    (hguard : ∀ a x, enabled a → (v, x) ∈ access a → holds (thread a) l) :
    ¬ Race thread access enabled v := by
  rintro ⟨a, b, x, y, hne, ha, hb, hx, hy, -⟩
  exact hne (hunique _ _ (hguard a x ha hx) (hguard b y hb hy))

theorem Race.exists_write {v : ν} (h : Race thread access enabled v) : ∃ a b y,
    thread a ≠ thread b ∧ enabled a ∧ enabled b ∧ (v, .write) ∈ access a ∧
      (v, y) ∈ access b := by
  obtain ⟨a, b, x, y, hne, ha, hb, hx, hy, rfl | rfl⟩ := h
  · exact ⟨a, b, y, hne, ha, hb, hx, hy⟩
  · exact ⟨b, a, x, hne.symm, hb, ha, hy, hx⟩

end Races
end Locks
