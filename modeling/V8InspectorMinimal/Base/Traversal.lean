import Mathlib.Data.Fintype.Card
import Mathlib.Data.Set.Finite.Basic
import Mathlib.Logic.Relation

/-! A recursive walk over a graph, without a set of visited nodes. The walk goes through the
children of a node in order, does something at each leaf, and ends early when that fails. `fuel`
bounds the depth of the recursion. -/

namespace Traversal
open Relation

variable {α σ φ : Type*}

section Walk

def forEach (f : α → σ → Option (σ × Except φ Unit)) : List α → σ → Option (σ × Except φ Unit)
  | [], s => some (s, .ok ())
  | x :: xs, s =>
    match f x s with
    | some (s', .ok ()) => forEach f xs s'
    | failed => failed

def walk (children : α → Option (List α)) (visit : α → σ → σ × Except φ Unit) :
    ℕ → α → σ → Option (σ × Except φ Unit)
  | 0, _, _ => none
  | fuel + 1, x, s =>
    match children x with
    | some xs => forEach (walk children visit fuel) xs s
    | none => some (visit x s)

variable {children : α → Option (List α)} {visit : α → σ → σ × Except φ Unit}
  {f g : α → σ → Option (σ × Except φ Unit)}

theorem forEach_cons_ok {x : α} {xs : List α} {s s' : σ} (hx : f x s = some (s', .ok ())) :
    forEach f (x :: xs) s = forEach f xs s' := by
  rw [forEach, hx]

theorem forEach_cons_error {x : α} {xs : List α} {s s' : σ} {e : φ}
    (hx : f x s = some (s', .error e)) : forEach f (x :: xs) s = some (s', .error e) := by
  rw [forEach, hx]

theorem forEach_cons_none {x : α} {xs : List α} {s : σ} (hx : f x s = none) :
    forEach f (x :: xs) s = none := by
  rw [forEach, hx]

theorem forEach_append_ok {xs ys : List α} {s s' : σ} (hxs : forEach f xs s = some (s', .ok ())) :
    forEach f (xs ++ ys) s = forEach f ys s' := by
  induction xs generalizing s with
  | nil =>
    obtain rfl : s = s' := congrArg Prod.fst (Option.some.inj hxs)
    rfl
  | cons x xs ih =>
    rw [List.cons_append]
    rcases hx : f x s with _ | ⟨t, _ | ⟨⟩⟩
    · rw [forEach_cons_none hx] at hxs
      exact absurd hxs (Option.some_ne_none _).symm
    · rw [forEach_cons_error hx] at hxs
      exact absurd (congrArg Prod.snd (Option.some.inj hxs)) (by simp)
    · rw [forEach_cons_ok hx] at hxs ⊢
      exact ih hxs

theorem forEach_append_error {xs ys : List α} {s s' : σ} {e : φ}
    (hxs : forEach f xs s = some (s', .error e)) :
    forEach f (xs ++ ys) s = some (s', .error e) := by
  induction xs generalizing s with
  | nil => exact absurd (congrArg Prod.snd (Option.some.inj hxs)) (by simp)
  | cons x xs ih =>
    rw [List.cons_append]
    rcases hx : f x s with _ | ⟨t, e' | ⟨⟩⟩
    · rw [forEach_cons_none hx] at hxs
      exact absurd hxs (Option.some_ne_none _).symm
    · rw [forEach_cons_error hx] at hxs ⊢
      exact hxs
    · rw [forEach_cons_ok hx] at hxs ⊢
      exact ih hxs

theorem forEach_mono (hfg : ∀ x s r, f x s = some r → g x s = some r) {xs : List α} {s : σ}
    {r : σ × Except φ Unit} (hxs : forEach f xs s = some r) : forEach g xs s = some r := by
  induction xs generalizing s with
  | nil => exact hxs
  | cons x xs ih =>
    rcases hx : f x s with _ | ⟨t, e | ⟨⟩⟩
    · rw [forEach_cons_none hx] at hxs
      exact absurd hxs (Option.some_ne_none _).symm
    · rw [forEach_cons_error hx] at hxs
      rw [forEach_cons_error (hfg x s _ hx)]
      exact hxs
    · rw [forEach_cons_ok hx] at hxs
      rw [forEach_cons_ok (hfg x s _ hx)]
      exact ih hxs

theorem forEach_map {β : Type*} (g : β → α) (xs : List β) (s : σ) :
    forEach f (xs.map g) s = forEach (fun x => f (g x)) xs s := by
  induction xs generalizing s with
  | nil => rfl
  | cons x xs ih =>
    rw [List.map_cons, forEach, forEach]
    rcases f (g x) s with _ | ⟨s', e | _⟩
    · rfl
    · rfl
    · exact ih s'

theorem forEach_congr {P : σ → Prop} {xs : List α} (hfg : ∀ x ∈ xs, ∀ s, P s → f x s = g x s)
    (hkeeps : ∀ x s s', P s → f x s = some (s', .ok ()) → P s') {s : σ} (hs : P s) :
    forEach f xs s = forEach g xs s := by
  induction xs generalizing s with
  | nil => rfl
  | cons x xs ih =>
    obtain ⟨hx, hxs⟩ := List.forall_mem_cons.mp hfg
    rw [forEach, forEach, ← hx s hs]
    rcases hf : f x s with _ | ⟨s', e | _⟩
    · rfl
    · rfl
    · exact ih hxs (hkeeps x s s' hs hf)

theorem walk_node {x : α} {xs : List α} (hx : children x = some xs) (fuel : ℕ) (s : σ) :
    walk children visit (fuel + 1) x s = forEach (walk children visit fuel) xs s := by
  rw [walk, hx]

theorem walk_leaf {x : α} (hx : children x = none) (fuel : ℕ) (s : σ) :
    walk children visit (fuel + 1) x s = some (visit x s) := by
  rw [walk, hx]

theorem walk_succ {fuel : ℕ} {x : α} {s : σ} {r : σ × Except φ Unit}
    (h : walk children visit fuel x s = some r) :
    walk children visit (fuel + 1) x s = some r := by
  induction fuel generalizing x s r with
  | zero => exact absurd h (Option.some_ne_none _).symm
  | succ fuel ih =>
    cases hx : children x with
    | none =>
      rw [walk_leaf hx] at h ⊢
      exact h
    | some xs =>
      rw [walk_node hx] at h ⊢
      exact forEach_mono (fun y t r hy => ih hy) h

theorem walk_mono {fuel fuel' : ℕ} (hle : fuel ≤ fuel') {x : α} {s : σ} {r : σ × Except φ Unit}
    (h : walk children visit fuel x s = some r) : walk children visit fuel' x s = some r := by
  induction hle with
  | refl => exact h
  | step _ ih => exact walk_succ ih

end Walk

/-! ## The leaves, from left to right -/

section Leaves
variable (children : α → Option (List α))

/-- The leaves under a list of nodes, depth first. -/
inductive Leaves : List α → List α → Prop where
  | nil : Leaves [] []
  | leaf {x : α} {xs leaves : List α} (hx : children x = none) (hxs : Leaves xs leaves) :
      Leaves (x :: xs) (x :: leaves)
  | node {x : α} {ys xs leaves leaves' : List α} (hx : children x = some ys)
      (hys : Leaves ys leaves) (hxs : Leaves xs leaves') : Leaves (x :: xs) (leaves ++ leaves')

def IsChild (y x : α) : Prop := ∃ xs, children x = some xs ∧ y ∈ xs

def Acyclic (x : α) : Prop := Acc (IsChild children) x

variable {children}

theorem acyclic_of_leaf {x : α} (hx : children x = none) : Acyclic children x :=
  .intro x fun _ ⟨_, hxs, _⟩ => absurd (hx.symm.trans hxs) (Option.some_ne_none _).symm

theorem acyclic_of_node {x : α} {xs : List α} (hx : children x = some xs)
    (hxs : ∀ y ∈ xs, Acyclic children y) : Acyclic children x := by
  refine .intro x ?_
  rintro y ⟨ys, hys, hy⟩
  obtain rfl := Option.some.inj (hx.symm.trans hys)
  exact hxs y hy

theorem exists_leaves_of_forall {xs : List α}
    (h : ∀ x ∈ xs, ∃ leaves, Leaves children [x] leaves) : ∃ leaves, Leaves children xs leaves := by
  induction xs with
  | nil => exact ⟨[], .nil⟩
  | cons x xs ih =>
    obtain ⟨leaves, hleaves⟩ := ih fun y hy => h y (List.mem_cons_of_mem x hy)
    obtain ⟨_, hx⟩ := h x List.mem_cons_self
    cases hx with
    | leaf hx => exact ⟨_, .leaf hx hleaves⟩
    | node hx hys => exact ⟨_, .node hx hys hleaves⟩

theorem Acyclic.exists_leaves {x : α} (h : Acyclic children x) :
    ∃ leaves, Leaves children [x] leaves := by
  induction h with
  | intro x _ ih =>
    cases hx : children x with
    | none => exact ⟨_, .leaf hx .nil⟩
    | some xs =>
      obtain ⟨leaves, hleaves⟩ := exists_leaves_of_forall fun y hy => ih y ⟨xs, hx, hy⟩
      exact ⟨_, .node hx hleaves .nil⟩

end Leaves

section Visits
variable {children : α → Option (List α)} {visit : α → σ → σ × Except φ Unit}

def visitAll (visit : α → σ → σ × Except φ Unit) : List α → σ → σ × Except φ Unit
  | [], s => (s, .ok ())
  | x :: xs, s =>
    match visit x s with
    | (s', .ok ()) => visitAll visit xs s'
    | failed => failed

theorem forEach_visit (xs : List α) (s : σ) :
    forEach (fun x s => some (visit x s)) xs s = some (visitAll visit xs s) := by
  induction xs generalizing s with
  | nil => rfl
  | cons x xs ih =>
    rw [forEach, visitAll]
    rcases visit x s with ⟨s', e | ⟨⟩⟩
    · rfl
    · exact ih s'

theorem visitAll_congr {visit' : α → σ → σ × Except φ Unit} {xs : List α}
    (hvisit : ∀ x ∈ xs, visit x = visit' x) (s : σ) :
    visitAll visit xs s = visitAll visit' xs s := by
  have hsame : forEach (fun x s => some (visit x s)) xs s =
      forEach (fun x s => some (visit' x s)) xs s :=
    forEach_congr (P := fun _ => True) (fun x hx s _ => by rw [hvisit x hx])
      (fun _ _ _ _ _ => trivial) trivial
  rw [forEach_visit, forEach_visit] at hsame
  exact Option.some.inj hsame

theorem forEach_walk_of_leaf {x : α} {xs leaves : List α} {fuel : ℕ} (hx : children x = none)
    (hxs : ∀ s, forEach (walk children visit fuel) xs s = some (visitAll visit leaves s)) (s : σ) :
    forEach (walk children visit (fuel + 1)) (x :: xs) s =
      some (visitAll visit (x :: leaves) s) := by
  have hrest (s : σ) :
      forEach (walk children visit (fuel + 1)) xs s = some (visitAll visit leaves s) :=
    forEach_mono (fun _ _ _ h => walk_succ h) (hxs s)
  have hwalk : walk children visit (fuel + 1) x s = some (visit x s) := walk_leaf hx fuel s
  rw [visitAll]
  rcases hvisit : visit x s with ⟨s', e | ⟨⟩⟩
  · rw [hvisit] at hwalk
    exact forEach_cons_error hwalk
  · rw [hvisit] at hwalk
    rw [forEach_cons_ok hwalk]
    exact hrest s'

theorem forEach_walk_of_node {x : α} {ys xs leaves leaves' : List α} {fuel : ℕ}
    (hx : children x = some ys)
    (hys : ∀ s, forEach (walk children visit fuel) ys s = some (visitAll visit leaves s))
    (hxs : ∀ s, forEach (walk children visit fuel) xs s = some (visitAll visit leaves' s)) (s : σ) :
    forEach (walk children visit (fuel + 1)) (x :: xs) s =
      some (visitAll visit (leaves ++ leaves') s) := by
  have hrest (s : σ) :
      forEach (walk children visit (fuel + 1)) xs s = some (visitAll visit leaves' s) :=
    forEach_mono (fun _ _ _ h => walk_succ h) (hxs s)
  have hwalk : walk children visit (fuel + 1) x s = some (visitAll visit leaves s) :=
    (walk_node hx fuel s).trans (hys s)
  have hvisits : forEach (fun x s => some (visit x s)) leaves s = some (visitAll visit leaves s) :=
    forEach_visit leaves s
  rw [← forEach_visit]
  rcases hall : visitAll visit leaves s with ⟨s', e | ⟨⟩⟩
  · rw [hall] at hwalk hvisits
    rw [forEach_cons_error hwalk, forEach_append_error hvisits]
  · rw [hall] at hwalk hvisits
    rw [forEach_cons_ok hwalk, forEach_append_ok hvisits, hrest, forEach_visit]

theorem forEach_walk_of_leaves {xs leaves : List α} (h : Leaves children xs leaves) :
    ∃ fuel, ∀ s, forEach (walk children visit fuel) xs s = some (visitAll visit leaves s) := by
  induction h with
  | nil => exact ⟨0, fun s => rfl⟩
  | leaf hx _ ih =>
    obtain ⟨fuel, hfuel⟩ := ih
    exact ⟨fuel + 1, forEach_walk_of_leaf hx hfuel⟩
  | node hx _ _ ihys ihxs =>
    obtain ⟨n, hn⟩ := ihys
    obtain ⟨m, hm⟩ := ihxs
    refine ⟨max n m + 1, forEach_walk_of_node hx (fun s => ?_) fun s => ?_⟩
    · exact forEach_mono (fun _ _ _ h => walk_mono (Nat.le_max_left n m) h) (hn s)
    · exact forEach_mono (fun _ _ _ h => walk_mono (Nat.le_max_right n m) h) (hm s)

theorem walk_of_leaves {x : α} {leaves : List α} (h : Leaves children [x] leaves) :
    ∃ fuel, ∀ fuel' ≥ fuel, ∀ s,
      walk children visit fuel' x s = some (visitAll visit leaves s) := by
  obtain ⟨fuel, hfuel⟩ : ∃ fuel, ∀ s, forEach (walk children visit fuel) [x] s =
      some (visitAll visit leaves s) := forEach_walk_of_leaves h
  refine ⟨fuel, fun fuel' hle s => walk_mono hle ?_⟩
  have hsingle := hfuel s
  rcases hx : walk children visit fuel x s with _ | ⟨s', e | ⟨⟩⟩
  · rw [forEach_cons_none hx] at hsingle
    exact absurd hsingle (Option.some_ne_none _).symm
  · rw [forEach_cons_error hx] at hsingle
    exact hsingle
  · rw [forEach_cons_ok hx] at hsingle
    exact hsingle

end Visits

/-! ## Visits that append to a list -/

section Append
variable {ε : Type*} {out : α → Except φ (List ε)}

def appendOut (out : α → Except φ (List ε)) (x : α) (s : List ε) : List ε × Except φ Unit :=
  match out x with
  | .ok ys => (s ++ ys, .ok ())
  | .error e => (s, .error e)

def isOut (out : α → Except φ (List ε)) (x : α) : Bool := (out x).isOk

def outOf (out : α → Except φ (List ε)) (x : α) : List ε := (out x).toOption.getD []

theorem visitAll_appendOut_fst (xs : List α) (s : List ε) :
    (visitAll (appendOut out) xs s).1 = s ++ (xs.takeWhile (isOut out)).flatMap (outOf out) := by
  induction xs generalizing s with
  | nil => exact (List.append_nil s).symm
  | cons x xs ih =>
    rw [visitAll, appendOut]
    cases hx : out x with
    | error e =>
      have hfails : isOut out x = false := by rw [isOut, hx]; rfl
      rw [List.takeWhile_cons_of_neg (by rw [hfails]; simp)]
      exact (List.append_nil s).symm
    | ok ys =>
      have hpasses : isOut out x = true := by rw [isOut, hx]; rfl
      have hout : outOf out x = ys := by rw [outOf, hx]; rfl
      rw [List.takeWhile_cons_of_pos hpasses, List.flatMap_cons, hout, ← List.append_assoc]
      exact ih (s ++ ys)

theorem visitAll_appendOut_snd (xs : List α) (s : List ε) :
    (visitAll (appendOut out) xs s).2 = .ok () ↔ ∀ x ∈ xs, isOut out x = true := by
  induction xs generalizing s with
  | nil => exact ⟨fun _ x hx => absurd hx List.not_mem_nil, fun _ => rfl⟩
  | cons x xs ih =>
    rw [visitAll, appendOut, List.forall_mem_cons]
    cases hx : out x with
    | error e =>
      have hfails : isOut out x = false := by rw [isOut, hx]; rfl
      simp [hfails]
    | ok ys =>
      have hpasses : isOut out x = true := by rw [isOut, hx]; rfl
      rw [ih, and_iff_right hpasses]

theorem visitAll_appendOut_of_ok {f : α → List ε} {xs : List α}
    (hf : ∀ x ∈ xs, out x = .ok (f x)) (s : List ε) :
    visitAll (appendOut out) xs s = (s ++ xs.flatMap f, .ok ()) := by
  induction xs generalizing s with
  | nil => rw [visitAll, List.flatMap_nil, List.append_nil]
  | cons x xs ih =>
    obtain ⟨hx, hxs⟩ := List.forall_mem_cons.mp hf
    rw [visitAll, appendOut, hx, List.flatMap_cons, ← List.append_assoc]
    exact ih hxs (s ++ f x)

end Append

/-! ## When the walk ends -/

section Termination
variable (children : α → Option (List α)) (passes : α → Prop)

inductive Passes : α → Prop where
  | leaf {x : α} (hx : children x = none) (hok : passes x) : Passes x
  | node {x : α} {xs : List α} (hx : children x = some xs) (hxs : ∀ y ∈ xs, Passes y) : Passes x

def Enters (x y : α) : Prop :=
  ∃ before after, children x = some (before ++ y :: after) ∧ ∀ z ∈ before, Passes children passes z

/-- The walk of `x` comes to a node from which it comes to the same node again. -/
def Trapped (x : α) : Prop :=
  ∃ y, ReflTransGen (Enters children passes) x y ∧ TransGen (Enters children passes) y y

variable {children passes}

theorem Trapped.exists_enters {x : α} (h : Trapped children passes x) :
    ∃ y, Enters children passes x y ∧ Trapped children passes y := by
  obtain ⟨y, hxy, hyy⟩ := h
  rcases hxy.cases_head with rfl | ⟨z, hxz, hzy⟩
  · obtain ⟨z, hxz, hzx⟩ := TransGen.head'_iff.mp hyy
    exact ⟨z, hxz, x, hzx, hyy⟩
  · exact ⟨z, hxz, y, hzy, hyy⟩

variable {visit : α → σ → σ × Except φ Unit} {f : α → σ → Option (σ × Except φ Unit)}

theorem forEach_ok {xs : List α} (hf : ∀ x ∈ xs, ∀ s r, f x s = some r → r.2 = .ok ()) {s : σ}
    {r : σ × Except φ Unit} (h : forEach f xs s = some r) : r.2 = .ok () := by
  induction xs generalizing s with
  | nil => exact Option.some.inj h ▸ rfl
  | cons x xs ih =>
    rcases hx : f x s with _ | ⟨s', e | ⟨⟩⟩
    · rw [forEach_cons_none hx] at h
      exact absurd h (Option.some_ne_none _).symm
    · exact absurd (hf x List.mem_cons_self s _ hx) (by simp)
    · rw [forEach_cons_ok hx] at h
      exact ih (fun y hy => hf y (List.mem_cons_of_mem x hy)) h

theorem forEach_none {before after : List α} {y : α}
    (hbefore : ∀ x ∈ before, ∀ s r, f x s = some r → r.2 = .ok ()) (hy : ∀ s, f y s = none)
    (s : σ) : forEach f (before ++ y :: after) s = none := by
  induction before generalizing s with
  | nil => exact forEach_cons_none (hy s)
  | cons x before ih =>
    rw [List.cons_append]
    rcases hx : f x s with _ | ⟨s', e | ⟨⟩⟩
    · exact forEach_cons_none hx
    · exact absurd (hbefore x List.mem_cons_self s _ hx) (by simp)
    · rw [forEach_cons_ok hx]
      exact ih (fun z hz => hbefore z (List.mem_cons_of_mem x hz)) s'

theorem Passes.walk_ok (hpasses : ∀ x s, (visit x s).2 = .ok () ↔ passes x) {x : α}
    (h : Passes children passes x) {fuel : ℕ} {s : σ} {r : σ × Except φ Unit}
    (hr : walk children visit fuel x s = some r) : r.2 = .ok () := by
  induction h generalizing fuel s r with
  | leaf hx hok =>
    cases fuel with
    | zero => exact absurd hr (Option.some_ne_none _).symm
    | succ fuel =>
      rw [walk_leaf hx] at hr
      obtain rfl := Option.some.inj hr
      exact (hpasses _ s).mpr hok
  | node hx _ ih =>
    cases fuel with
    | zero => exact absurd hr (Option.some_ne_none _).symm
    | succ fuel =>
      rw [walk_node hx] at hr
      exact forEach_ok (fun y hy s r hwalk => ih y hy hwalk) hr

theorem passes_of_forEach {xs : List α} {s s' : σ}
    (hf : ∀ x s s', f x s = some (s', .ok ()) → Passes children passes x)
    (h : forEach f xs s = some (s', .ok ())) : ∀ x ∈ xs, Passes children passes x := by
  induction xs generalizing s with
  | nil => exact fun x hx => absurd hx List.not_mem_nil
  | cons x xs ih =>
    rcases hx : f x s with _ | ⟨t, e | ⟨⟩⟩
    · rw [forEach_cons_none hx] at h
      exact absurd h (Option.some_ne_none _).symm
    · rw [forEach_cons_error hx] at h
      exact absurd (congrArg Prod.snd (Option.some.inj h)) (by simp)
    · rw [forEach_cons_ok hx] at h
      exact List.forall_mem_cons.mpr ⟨hf x s t hx, ih h⟩

theorem passes_of_walk (hpasses : ∀ x s, (visit x s).2 = .ok () ↔ passes x) {fuel : ℕ} {x : α}
    {s s' : σ} (h : walk children visit fuel x s = some (s', .ok ())) :
    Passes children passes x := by
  induction fuel generalizing x s s' with
  | zero => exact absurd h (Option.some_ne_none _).symm
  | succ fuel ih =>
    cases hx : children x with
    | none =>
      rw [walk_leaf hx] at h
      have hok := congrArg Prod.snd (Option.some.inj h)
      exact .leaf hx ((hpasses x s).mp hok)
    | some xs =>
      rw [walk_node hx] at h
      exact .node hx (passes_of_forEach (fun y t t' hy => ih hy) h)

theorem Trapped.walk_eq_none (hpasses : ∀ x s, (visit x s).2 = .ok () ↔ passes x) {x : α}
    (h : Trapped children passes x) (fuel : ℕ) (s : σ) : walk children visit fuel x s = none := by
  induction fuel generalizing x s with
  | zero => rfl
  | succ fuel ih =>
    obtain ⟨y, ⟨before, after, hx, hbefore⟩, hy⟩ := h.exists_enters
    rw [walk_node hx]
    exact forEach_none (fun z hz t r hr => (hbefore z hz).walk_ok hpasses hr) (ih hy) s

theorem exists_fuel_forEach (hpasses : ∀ x s, (visit x s).2 = .ok () ↔ passes x) {x : α}
    (hends : ∀ y, Enters children passes x y → ∃ fuel, ∀ s, (walk children visit fuel y s).isSome)
    {before after : List α} (hx : children x = some (before ++ after))
    (hbefore : ∀ z ∈ before, Passes children passes z) :
    ∃ fuel, ∀ s, (forEach (walk children visit fuel) after s).isSome := by
  induction after generalizing before with
  | nil => exact ⟨0, fun s => rfl⟩
  | cons y after ih =>
    obtain ⟨n, hn⟩ := hends y ⟨before, after, hx, hbefore⟩
    by_cases hy : Passes children passes y
    · have hbefore' : ∀ z ∈ before ++ [y], Passes children passes z := by
        intro z hz
        rcases List.mem_append.mp hz with hz | hz
        · exact hbefore z hz
        · exact List.mem_singleton.mp hz ▸ hy
      obtain ⟨m, hm⟩ := ih (List.append_cons before y after ▸ hx) hbefore'
      refine ⟨max n m, fun s => ?_⟩
      obtain ⟨⟨s', r⟩, hwalk⟩ := Option.isSome_iff_exists.mp (hn s)
      obtain rfl : r = .ok () := hy.walk_ok hpasses hwalk
      obtain ⟨t, ht⟩ := Option.isSome_iff_exists.mp (hm s')
      rw [forEach_cons_ok (walk_mono (Nat.le_max_left n m) hwalk),
        forEach_mono (fun _ _ _ h => walk_mono (Nat.le_max_right n m) h) ht]
      rfl
    · refine ⟨n, fun s => ?_⟩
      obtain ⟨⟨s', e | ⟨⟩⟩, hwalk⟩ := Option.isSome_iff_exists.mp (hn s)
      · rw [forEach_cons_error hwalk]
        rfl
      · exact absurd (passes_of_walk hpasses hwalk) hy

theorem exists_fuel_of_not_trapped (hpasses : ∀ x s, (visit x s).2 = .ok () ↔ passes x)
    (hfinite : {x | (children x).isSome}.Finite) {x : α} (h : ¬ Trapped children passes x) :
    ∃ fuel, ∀ s, (walk children visit fuel x s).isSome := by
  let Below := {y // ReflTransGen (Enters children passes) x y ∧ (children y).isSome}
  let r (y z : Below) : Prop := TransGen (Enters children passes) z.1 y.1
  have : Finite Below := (hfinite.subset fun y hy => hy.2).to_subtype
  have : IsTrans Below r := ⟨fun _ _ _ hab hbc => hbc.trans hab⟩
  have : Std.Irrefl r := ⟨fun y hy => h ⟨y.1, y.2.1, hy⟩⟩
  have hwf : WellFounded r := Finite.wellFounded_of_trans_of_irrefl r
  have hleaf (y : α) (hy : children y = none) :
      ∃ fuel, ∀ s, (walk children visit fuel y s).isSome := by
    refine ⟨1, fun s => ?_⟩
    rw [walk_leaf hy]
    rfl
  have hnode (y : Below) : ∃ fuel, ∀ s, (walk children visit fuel y.1 s).isSome := by
    induction y using hwf.induction with
    | _ y ih =>
      obtain ⟨xs, hxs⟩ := Option.isSome_iff_exists.mp y.2.2
      have hends (z : α) (hz : Enters children passes y.1 z) :
          ∃ fuel, ∀ s, (walk children visit fuel z s).isSome := by
        cases hc : children z with
        | none => exact hleaf z hc
        | some zs => exact ih ⟨z, y.2.1.tail hz, hc ▸ rfl⟩ (.single hz)
      have hsplit : children y.1 = some ([] ++ xs) := hxs
      obtain ⟨fuel, hfuel⟩ := exists_fuel_forEach hpasses hends hsplit
        fun z hz => absurd hz List.not_mem_nil
      refine ⟨fuel + 1, fun s => ?_⟩
      rw [walk_node hxs]
      exact hfuel s
  cases hx : children x with
  | none => exact hleaf x hx
  | some xs => exact hnode ⟨x, .refl, hx ▸ rfl⟩

/-- The walk of a finite graph ends exactly where it comes to no cycle. -/
theorem walk_ends_iff (hpasses : ∀ x s, (visit x s).2 = .ok () ↔ passes x)
    (hfinite : {x | (children x).isSome}.Finite) (x : α) (s : σ) :
    (∃ fuel, (walk children visit fuel x s).isSome) ↔ ¬ Trapped children passes x := by
  constructor
  · rintro ⟨fuel, hfuel⟩ h
    rw [h.walk_eq_none hpasses] at hfuel
    exact absurd hfuel (by simp)
  · intro h
    obtain ⟨fuel, hfuel⟩ := exists_fuel_of_not_trapped hpasses hfinite h
    exact ⟨fuel, hfuel s⟩

end Termination
end Traversal
