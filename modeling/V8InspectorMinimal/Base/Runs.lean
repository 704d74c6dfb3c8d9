import Mathlib.Data.List.Basic
import Mathlib.Data.Nat.Notation

/-! Finite runs of a partial step function. An action names which thread moves and what the
environment chooses, so a list of actions is a schedule, and a disabled action ends the run. -/

namespace Runs

variable {σ α τ β : Type*}

def run (step : σ → α → Option σ) : σ → List α → Option σ
  | s, [] => some s
  | s, a :: as => (step s a).bind fun t => run step t as

def AllStates (step : σ → α → Option σ) (P : σ → Prop) : σ → List α → Prop
  | s, [] => P s
  | s, a :: as => P s ∧ ∀ t, step s a = some t → AllStates step P t as

/-- `ok` holds of every step that the schedule takes. -/
def AllSteps (step : σ → α → Option σ) (ok : σ → α → Prop) : σ → List α → Prop
  | _, [] => True
  | s, a :: as => ∀ t, step s a = some t → ok s a ∧ AllSteps step ok t as

section Basic
variable {step : σ → α → Option σ} {P I : σ → Prop} {ok : σ → α → Prop}

theorem run_cons_eq_some {s u : σ} {a : α} {as : List α} :
    run step s (a :: as) = some u ↔ ∃ t, step s a = some t ∧ run step t as = some u :=
  Option.bind_eq_some_iff

theorem run_append (s : σ) (as bs : List α) :
    run step s (as ++ bs) = (run step s as).bind fun t => run step t bs := by
  induction as generalizing s with
  | nil => rfl
  | cons a as ih =>
    simp only [List.cons_append, run, Option.bind_assoc]
    exact congrArg _ (funext fun t => ih t)

theorem run_append_eq_some {s u : σ} {as bs : List α} :
    run step s (as ++ bs) = some u ↔ ∃ t, run step s as = some t ∧ run step t bs = some u := by
  rw [run_append, Option.bind_eq_some_iff]

theorem run_singleton (s : σ) (a : α) : run step s [a] = step s a := by
  rw [run]
  exact Option.bind_fun_some (step s a)

theorem run_concat_eq_some {s u : σ} {as : List α} {a : α} :
    run step s (as ++ [a]) = some u ↔ ∃ t, run step s as = some t ∧ step t a = some u := by
  simp only [run_append_eq_some, run_singleton]

def Reaches (step : σ → α → Option σ) (ok : σ → α → Prop) (s t : σ) : Prop :=
  ∃ as, run step s as = some t ∧ AllSteps step ok s as

theorem Reaches.refl (s : σ) : Reaches step ok s s := ⟨[], rfl, trivial⟩

theorem AllSteps.concat {s t : σ} {as : List α} {a : α} (h : AllSteps step ok s as)
    (hr : run step s as = some t) (ha : ok t a) : AllSteps step ok s (as ++ [a]) := by
  induction as generalizing s with
  | nil =>
    obtain rfl := Option.some.inj hr
    exact fun _ _ => ⟨ha, trivial⟩
  | cons b as ih =>
    intro u hu
    obtain ⟨u', hu', hrun⟩ := run_cons_eq_some.mp hr
    obtain rfl := Option.some.inj (hu.symm.trans hu')
    obtain ⟨hb, hrest⟩ := h u hu
    exact ⟨hb, ih hrest hrun⟩

theorem Reaches.concat {s t u : σ} {a : α} (h : Reaches step ok s t) (ha : ok t a)
    (hu : step t a = some u) : Reaches step ok s u := by
  obtain ⟨as, hr, hok⟩ := h
  exact ⟨as ++ [a], run_concat_eq_some.mpr ⟨t, hr, hu⟩, hok.concat hr ha⟩

theorem AllSteps.append {s t : σ} {as bs : List α} (h : AllSteps step ok s as)
    (hr : run step s as = some t) (hbs : AllSteps step ok t bs) :
    AllSteps step ok s (as ++ bs) := by
  induction as generalizing s with
  | nil =>
    obtain rfl := Option.some.inj hr
    exact hbs
  | cons a as ih =>
    intro u hu
    obtain ⟨u', hu', hrun⟩ := run_cons_eq_some.mp hr
    obtain rfl := Option.some.inj (hu.symm.trans hu')
    obtain ⟨ha, hrest⟩ := h u hu
    exact ⟨ha, ih hrest hrun⟩

theorem Reaches.trans {s t u : σ} (h : Reaches step ok s t) (h' : Reaches step ok t u) :
    Reaches step ok s u := by
  obtain ⟨as, hr, hok⟩ := h
  obtain ⟨bs, hr', hok'⟩ := h'
  exact ⟨as ++ bs, run_append_eq_some.mpr ⟨t, hr, hr'⟩, hok.append hr hok'⟩

theorem Reaches.of_step {s t : σ} {a : α} (ha : ok s a) (ht : step s a = some t) :
    Reaches step ok s t := (Reaches.refl s).concat ha ht

theorem allSteps_iff {s : σ} {as : List α} : AllSteps step ok s as ↔ ∀ pre a post t u,
    as = pre ++ a :: post → run step s pre = some t → step t a = some u → ok t a := by
  induction as generalizing s with
  | nil => exact ⟨fun _ pre a post t u has => by simp at has, fun _ => trivial⟩
  | cons b as ih =>
    constructor
    · intro h pre a post t u has hr hu
      cases pre with
      | nil =>
        obtain ⟨rfl, rfl⟩ := List.cons.inj has
        obtain rfl := Option.some.inj hr
        exact (h u hu).1
      | cons b' pre =>
        obtain ⟨rfl, rfl⟩ := List.cons.inj has
        obtain ⟨v, hv, hrun⟩ := run_cons_eq_some.mp hr
        exact ih.mp (h v hv).2 pre a post t u rfl hrun hu
    · intro h v hv
      refine ⟨h [] b as s v rfl rfl hv, ih.mpr fun pre a post t u has hr hu => ?_⟩
      have hrun : run step s (b :: pre) = some t := run_cons_eq_some.mpr ⟨v, hv, hr⟩
      exact h (b :: pre) a post t u (by rw [has, List.cons_append]) hrun hu

theorem Reaches.invariant (hstep : ∀ s a t, ok s a → I s → step s a = some t → I t) {s t : σ}
    (hs : I s) (h : Reaches step ok s t) : I t := by
  obtain ⟨as, hr, hok⟩ := h
  induction as generalizing s with
  | nil => exact Option.some.inj hr ▸ hs
  | cons a as ih =>
    obtain ⟨u, hu, hrun⟩ := run_cons_eq_some.mp hr
    obtain ⟨ha, hrest⟩ := hok u hu
    exact ih (hstep s a u ha hs hu) hrun hrest

theorem allSteps_of_forall_mem {p : α → Prop} {as : List α} (hp : ∀ a ∈ as, p a) (s : σ) :
    AllSteps step (fun _ => p) s as := by
  induction as generalizing s with
  | nil => trivial
  | cons a as ih =>
    exact fun t _ => ⟨hp a List.mem_cons_self, ih (fun b hb => hp b (List.mem_cons_of_mem a hb)) t⟩

theorem allSteps_of_forall (hok : ∀ s a, ok s a) (s : σ) (as : List α) : AllSteps step ok s as := by
  induction as generalizing s with
  | nil => trivial
  | cons a as ih => exact fun t _ => ⟨hok s a, ih t⟩

theorem AllSteps.and {ok' : σ → α → Prop} {s : σ} {as : List α} (h : AllSteps step ok s as)
    (h' : AllSteps step ok' s as) : AllSteps step (fun s a => ok s a ∧ ok' s a) s as := by
  induction as generalizing s with
  | nil => trivial
  | cons a as ih =>
    intro t ht
    obtain ⟨ha, hrest⟩ := h t ht
    obtain ⟨ha', hrest'⟩ := h' t ht
    exact ⟨⟨ha, ha'⟩, ih hrest hrest'⟩

theorem reaches_of_run {s t : σ} {as : List α} (h : run step s as = some t) :
    Reaches step (fun _ _ => True) s t :=
  ⟨as, h, allSteps_of_forall (fun _ _ => trivial) s as⟩

theorem invariant_of_forall_mem {p : α → Prop}
    (hstep : ∀ s a t, p a → I s → step s a = some t → I t) {s t : σ} {as : List α}
    (hp : ∀ a ∈ as, p a) (hs : I s) (h : run step s as = some t) : I t :=
  Reaches.invariant hstep hs ⟨as, h, allSteps_of_forall_mem hp s⟩

theorem invariant (hstep : ∀ s a t, I s → step s a = some t → I t) {s t : σ} {as : List α}
    (hs : I s) (h : run step s as = some t) : I t :=
  invariant_of_forall_mem (fun s a t (_ : True) => hstep s a t) (fun _ _ => trivial) hs h

theorem AllSteps.imp {ok' : σ → α → Prop}
    (hstep : ∀ s a t, ok s a → I s → step s a = some t → I t ∧ ok' s a) {s : σ} {as : List α}
    (hs : I s) (h : AllSteps step ok s as) : AllSteps step ok' s as := by
  induction as generalizing s with
  | nil => trivial
  | cons a as ih =>
    intro t ht
    obtain ⟨ha, hrest⟩ := h t ht
    obtain ⟨hI, hok⟩ := hstep s a t ha hs ht
    exact ⟨hok, ih hI hrest⟩

theorem AllStates.head {s : σ} {as : List α} (h : AllStates step P s as) : P s := by
  cases as with
  | nil => exact h
  | cons a as => exact h.1

/-- The exact condition for a property of all states. Steps that meet `ok` keep an invariant that
gives `P`, and a step that does not meet it breaks `P` at once. -/
theorem allStates_iff_allSteps (hP : ∀ s, I s → P s)
    (hok : ∀ s a t, I s → ok s a → step s a = some t → I t)
    (hbad : ∀ s a t, I s → ¬ ok s a → step s a = some t → ¬ P t) {s : σ} (hs : I s)
    (as : List α) : AllStates step P s as ↔ AllSteps step ok s as := by
  induction as generalizing s with
  | nil => exact ⟨fun _ => trivial, fun _ => hP s hs⟩
  | cons a as ih =>
    constructor
    · rintro ⟨-, h⟩ t ht
      have ha : ok s a := by
        by_contra hn
        exact hbad s a t hs hn ht (h t ht).head
      exact ⟨ha, (ih (hok s a t hs ha ht)).mp (h t ht)⟩
    · intro h
      refine ⟨hP s hs, fun t ht => ?_⟩
      obtain ⟨ha, hrest⟩ := h t ht
      exact (ih (hok s a t hs ha ht)).mpr hrest

end Basic

section Progress
variable {step : σ → α → Option σ} {ok : σ → α → Prop} {I G : σ → Prop}

theorem exists_reaches_of_rank {rank : σ → ℕ} (hstep : ∀ s, I s → ¬ G s →
    ∃ a t, ok s a ∧ step s a = some t ∧ I t ∧ rank t < rank s) {s : σ} (hs : I s) :
    ∃ t, Reaches step ok s t ∧ G t := by
  induction h : rank s using Nat.strongRecOn generalizing s with
  | ind n ih =>
    by_cases hG : G s
    · exact ⟨s, .refl s, hG⟩
    · obtain ⟨a, t, ha, ht, hI, hlt⟩ := hstep s hs hG
      obtain ⟨u, hu, hG'⟩ := ih (rank t) (h ▸ hlt) hI rfl
      exact ⟨u, (Reaches.of_step ha ht).trans hu, hG'⟩

end Progress

section Guarded
variable {step : σ → α → Option σ} {ok : σ → α → Prop} [∀ s, DecidablePred (ok s)]

def guarded (step : σ → α → Option σ) (ok : σ → α → Prop) [∀ s, DecidablePred (ok s)] (s : σ)
    (a : α) : Option σ := if ok s a then step s a else none

theorem guarded_eq_some {s t : σ} {a : α} :
    guarded step ok s a = some t ↔ ok s a ∧ step s a = some t := by
  rw [guarded]
  split
  · rename_i ha
    exact (and_iff_right ha).symm
  · rename_i ha
    exact iff_of_false nofun fun h => ha h.1

theorem run_guarded {s t : σ} {as : List α} (h : run (guarded step ok) s as = some t) :
    run step s as = some t ∧ AllSteps step ok s as := by
  induction as generalizing s with
  | nil => exact ⟨h, trivial⟩
  | cons a as ih =>
    obtain ⟨u, hu, hrun⟩ := run_cons_eq_some.mp h
    obtain ⟨ha, hstep⟩ := guarded_eq_some.mp hu
    obtain ⟨hr, hok⟩ := ih hrun
    refine ⟨run_cons_eq_some.mpr ⟨u, hstep, hr⟩, fun v hv => ?_⟩
    obtain rfl := Option.some.inj (hstep.symm.trans hv)
    exact ⟨ha, hok⟩

theorem reaches_of_run_guarded {s t : σ} {as : List α} (h : run (guarded step ok) s as = some t) :
    Reaches step ok s t := ⟨as, run_guarded h⟩

end Guarded

section Outputs
variable {step : σ → α → Option σ} {I : σ → Prop}

theorem seen_eq_append {f : σ → List β} {g : α → Option β}
    (hI : ∀ s a t, I s → step s a = some t → I t)
    (hseen : ∀ s a t, I s → step s a = some t → f t = f s ++ (g a).toList) {s t : σ} {as : List α}
    (hs : I s) (h : run step s as = some t) : f t = f s ++ as.filterMap g := by
  induction as generalizing s with
  | nil =>
    obtain rfl := Option.some.inj h
    exact (List.append_nil _).symm
  | cons a as ih =>
    obtain ⟨u, hu, hrun⟩ := run_cons_eq_some.mp h
    have hout : (g a).toList ++ as.filterMap g = (a :: as).filterMap g := by
      rw [List.filterMap_cons]
      cases g a <;> rfl
    rw [ih (hI s a u hs hu) hrun, hseen s a u hs hu, List.append_assoc, hout]

def outputs (step : σ → α → Option σ) (g : σ → α → Option β) : σ → List α → List β
  | _, [] => []
  | s, a :: as =>
    match step s a with
    | none => []
    | some t => (g s a).toList ++ outputs step g t as

theorem seen_eq_outputs {γ : Type*} {ok : σ → α → Prop} {f : σ → List γ} {g : σ → α → Option β}
    {h : β → Option γ}
    (hstep : ∀ s a t, ok s a → I s → step s a = some t →
      I t ∧ f t = f s ++ (g s a).toList.filterMap h) {s t : σ} {as : List α} (hs : I s)
    (hok : AllSteps step ok s as) (hr : run step s as = some t) :
    I t ∧ f t = f s ++ (outputs step g s as).filterMap h := by
  induction as generalizing s with
  | nil =>
    obtain rfl := Option.some.inj hr
    exact ⟨hs, (List.append_nil _).symm⟩
  | cons a as ih =>
    obtain ⟨u, hu, hrun⟩ := run_cons_eq_some.mp hr
    obtain ⟨ha, hrest⟩ := hok u hu
    obtain ⟨hI, hf⟩ := hstep s a u ha hs hu
    obtain ⟨ht, hrest⟩ := ih hI hrest hrun
    refine ⟨ht, ?_⟩
    rw [hrest, hf, outputs, hu, List.append_assoc, ← List.filterMap_append]

theorem outputs_sublist {g : σ → α → Option α} (hg : ∀ s a b, g s a = some b → b = a) (s : σ)
    (as : List α) : (outputs step g s as).Sublist as := by
  induction as generalizing s with
  | nil => exact List.Sublist.refl []
  | cons a as ih =>
    rw [outputs]
    cases step s a with
    | none => exact List.nil_sublist _
    | some t =>
      cases hb : g s a with
      | none => exact (ih t).cons a
      | some b =>
        obtain rfl := hg s a b hb
        exact (ih t).cons_cons b

theorem map_outputs {γ : Type*} {ok : σ → α → Prop} {g : σ → α → Option β} {f : β → γ}
    {g' : α → Option γ} (hstep : ∀ s a t, ok s a → I s → step s a = some t →
      I t ∧ (g s a).map f = g' a) {s t : σ} {as : List α} (hs : I s)
    (hok : AllSteps step ok s as) (hr : run step s as = some t) :
    (outputs step g s as).map f = as.filterMap g' := by
  induction as generalizing s with
  | nil => rfl
  | cons a as ih =>
    obtain ⟨u, hu, hrun⟩ := run_cons_eq_some.mp hr
    obtain ⟨ha, hrest⟩ := hok u hu
    obtain ⟨hI, hg⟩ := hstep s a u ha hs hu
    rw [outputs, hu, List.map_append, ih hI hrest hrun, List.filterMap_cons, ← hg]
    cases g s a <;> rfl

theorem read_eq_getLast {read : σ → Option β} {write : σ → α → Option β}
    (hI : ∀ s a t, I s → step s a = some t → I t)
    (hread : ∀ s a t, I s → step s a = some t → read t = (write s a).or (read s)) {s t : σ}
    {as : List α} (hs : I s) (h : run step s as = some t) :
    read t = (outputs step write s as).getLast?.or (read s) := by
  induction as generalizing s with
  | nil => exact congrArg read (Option.some.inj h).symm
  | cons a as ih =>
    obtain ⟨u, hu, hrun⟩ := run_cons_eq_some.mp h
    have hlast : (write s a).toList.getLast? = write s a := by
      cases write s a <;> rfl
    rw [ih (hI s a u hs hu) hrun, hread s a u hs hu, outputs, hu, List.getLast?_append, hlast,
      Option.or_assoc]

end Outputs

section Cost
variable {step : σ → α → Option σ}

def totalCost (step : σ → α → Option σ) (cost : σ → α → ℕ) : σ → List α → ℕ
  | _, [] => 0
  | s, a :: as =>
    match step s a with
    | none => 0
    | some t => cost s a + totalCost step cost t as

theorem totalCost_le {cost : σ → α → ℕ} {rank : σ → ℕ} {I R : σ → Prop}
    (hI : ∀ s a t, I s → R s → step s a = some t → I t)
    (hrank : ∀ s a t, I s → R s → step s a = some t → R t → cost s a + rank t ≤ rank s) {s : σ}
    {as : List α} (hs : I s) (hR : AllStates step R s as) : totalCost step cost s as ≤ rank s := by
  induction as generalizing s with
  | nil => exact Nat.zero_le _
  | cons a as ih =>
    rw [totalCost]
    cases ht : step s a with
    | none => exact Nat.zero_le _
    | some t =>
      have hrest := hR.2 t ht
      have hstep := hrank s a t hs hR.head ht hrest.head
      have hsum := Nat.add_le_add_left (ih (hI s a t hs hR.head ht) hrest) (cost s a)
      exact Nat.le_trans hsum hstep

end Cost

section Simulation
variable {step : σ → α → Option σ} {stepτ : τ → β → Option τ} {ok : σ → α → Prop}
  {okτ : τ → β → Prop} {R : σ → τ → Prop}

/-- From related states, a step of the first system is a step of the second or is not seen there. -/
def Simulates (step : σ → α → Option σ) (ok : σ → α → Prop) (stepτ : τ → β → Option τ)
    (okτ : τ → β → Prop) (R : σ → τ → Prop) : Prop :=
  ∀ s a t x, R s x → ok s a → step s a = some t →
    R t x ∨ ∃ b y, okτ x b ∧ stepτ x b = some y ∧ R t y

theorem Simulates.concat (hsim : Simulates step ok stepτ okτ R) {s t : σ} {a : α} {x₀ x : τ}
    (hx : Reaches stepτ okτ x₀ x) (hR : R s x) (ha : ok s a) (ht : step s a = some t) :
    ∃ y, Reaches stepτ okτ x₀ y ∧ R t y := by
  rcases hsim s a t x hR ha ht with hR | ⟨b, y, hb, hy, hR⟩
  · exact ⟨x, hx, hR⟩
  · exact ⟨y, hx.concat hb hy, hR⟩

theorem exists_run_of_simulates {γ : Type*} {f : σ → τ} {I : σ → Prop} {g : σ → α → Option γ}
    {gτ : τ → β → Option γ} (hI : ∀ s a t, ok s a → I s → step s a = some t → I t)
    (hsim : ∀ s a t, ok s a → I s → step s a = some t → f t = f s ∧ g s a = none ∨
      ∃ b, okτ (f s) b ∧ stepτ (f s) b = some (f t) ∧ gτ (f s) b = g s a)
    {s t : σ} {as : List α} (hs : I s) (hok : AllSteps step ok s as) (hr : run step s as = some t) :
    ∃ bs, run stepτ (f s) bs = some (f t) ∧ AllSteps stepτ okτ (f s) bs ∧
      outputs stepτ gτ (f s) bs = outputs step g s as := by
  induction as generalizing s with
  | nil =>
    obtain rfl := Option.some.inj hr
    exact ⟨[], rfl, trivial, rfl⟩
  | cons a as ih =>
    obtain ⟨u, hu, hrun⟩ := run_cons_eq_some.mp hr
    obtain ⟨ha, hrest⟩ := hok u hu
    obtain ⟨bs, hbs, hokτ, hout⟩ := ih (hI s a u ha hs hu) hrest hrun
    rcases hsim s a u ha hs hu with ⟨hf, hg⟩ | ⟨b, hb, hy, hg⟩
    · refine ⟨bs, hf ▸ hbs, hf ▸ hokτ, ?_⟩
      rw [← hf, hout, outputs, hu, hg]
      rfl
    · refine ⟨b :: bs, run_cons_eq_some.mpr ⟨f u, hy, hbs⟩, fun y hy' => ?_, ?_⟩
      · obtain rfl := Option.some.inj (hy.symm.trans hy')
        exact ⟨hb, hokτ⟩
      · rw [outputs, outputs, hy, hu, hg]
        exact congrArg _ hout

/-- Where a step that gives nothing is not seen through `f`, and one that gives an action of the
second system is that action there, what the steps give is the run that is seen. -/
theorem run_outputs {f : σ → τ} {I : σ → Prop} {g : σ → α → Option β}
    (hI : ∀ s a t, I s → step s a = some t → I t)
    (hf : ∀ s a t, I s → step s a = some t → g s a = none ∧ f t = f s ∨
      ∃ b, g s a = some b ∧ stepτ (f s) b = some (f t))
    {s t : σ} {as : List α} (hs : I s) (hr : run step s as = some t) :
    run stepτ (f s) (outputs step g s as) = some (f t) := by
  induction as generalizing s with
  | nil =>
    obtain rfl := Option.some.inj hr
    rfl
  | cons a as ih =>
    obtain ⟨u, hu, hrun⟩ := run_cons_eq_some.mp hr
    have hrest := ih (hI s a u hs hu) hrun
    rcases hf s a u hs hu with ⟨hg, hsame⟩ | ⟨b, hg, hb⟩
    · rw [outputs, hu, hg, ← hsame]
      exact hrest
    · rw [outputs, hu, hg]
      exact run_cons_eq_some.mpr ⟨f u, hb, hrest⟩

end Simulation

section Refinement
variable {ε : Type*} {step : σ → α → Option (Except ε σ)} {stepτ : τ → α → Option τ}
  {ok : σ → α → Prop} {R : σ → τ → Prop}

def untilError (step : σ → α → Option (Except ε σ)) : Except ε σ → α → Option (Except ε σ)
  | .error _, _ => none
  | .ok s, a => step s a

def OfState (ok : σ → α → Prop) : Except ε σ → α → Prop
  | .error _, _ => True
  | .ok s, a => ok s a

instance [∀ s, DecidablePred (ok s)] : ∀ r : Except ε σ, DecidablePred (OfState ok r)
  | .error _, _ => .isTrue trivial
  | .ok s, a => inferInstanceAs (Decidable (ok s a))

theorem run_refines (hstep : ∀ s x a r, ok s a → R s x → step s a = some r →
      ∃ t y, r = .ok t ∧ stepτ x a = some y ∧ R t y) {s : σ} {x : τ} (h : R s x) {as : List α}
    (hok : AllSteps (untilError step) (OfState ok) (.ok s) as) {r : Except ε σ}
    (hrun : run (untilError step) (.ok s) as = some r) :
    ∃ t y, r = .ok t ∧ run stepτ x as = some y ∧ R t y := by
  induction as generalizing s x with
  | nil => exact ⟨s, x, (Option.some.inj hrun).symm, rfl, h⟩
  | cons a as ih =>
    obtain ⟨u, hu, hrest⟩ := run_cons_eq_some.mp hrun
    obtain ⟨ha, has⟩ := hok u hu
    obtain ⟨t, y, rfl, hy, hR⟩ := hstep s x a u ha h hu
    obtain ⟨t', y', hr, hy', hR'⟩ := ih hR has hrest
    exact ⟨t', y', hr, run_cons_eq_some.mpr ⟨y, hy, hy'⟩, hR'⟩

end Refinement
end Runs
