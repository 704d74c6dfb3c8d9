import Mathlib.Data.List.Basic

/-! Histories: lists of events, oldest first, that grow at the end. `EachAfter P` says that every
event satisfies `P` against the events before it. -/

namespace History

variable {ε β : Type*}

def EachAfter (P : List ε → ε → Prop) (log : List ε) : Prop :=
  ∀ pre e post, log = pre ++ e :: post → P pre e

theorem eachAfter_nil (P : List ε → ε → Prop) : EachAfter P [] := by
  intro pre e post h
  simp at h

theorem eachAfter_concat {P : List ε → ε → Prop} {log : List ε} {e : ε} :
    EachAfter P (log ++ [e]) ↔ EachAfter P log ∧ P log e := by
  constructor
  · intro h
    refine ⟨fun pre x post hx => h pre x (post ++ [e]) ?_, h log e [] rfl⟩
    rw [hx, List.append_assoc, List.cons_append]
  · rintro ⟨hlog, he⟩ pre x post hx
    rcases List.eq_nil_or_concat post with rfl | ⟨post, y, rfl⟩
    · obtain ⟨rfl, hxe⟩ := List.append_inj' hx rfl
      rw [List.cons.injEq] at hxe
      exact hxe.1 ▸ he
    · have hsplit : log ++ [e] = (pre ++ x :: post) ++ [y] := by
        rw [hx, List.concat_eq_append, List.append_assoc, List.cons_append]
      exact hlog pre x post (List.append_inj' hsplit rfl).1

theorem EachAfter.concat {P : List ε → ε → Prop} {log : List ε} {e : ε} (h : EachAfter P log)
    (he : P log e) : EachAfter P (log ++ [e]) := eachAfter_concat.mpr ⟨h, he⟩

/-- What each event gives against the events before it. -/
def filterMapAfter (f : List ε → ε → Option β) : List ε → List ε → List β
  | _, [] => []
  | pre, e :: post => (f pre e).toList ++ filterMapAfter f (pre ++ [e]) post

theorem filterMapAfter_concat (f : List ε → ε → Option β) (pre log : List ε) (e : ε) :
    filterMapAfter f pre (log ++ [e]) =
      filterMapAfter f pre log ++ (f (pre ++ log) e).toList := by
  induction log generalizing pre with
  | nil =>
    rw [List.append_nil]
    exact List.append_nil _
  | cons x log ih =>
    rw [List.cons_append, filterMapAfter, ih, filterMapAfter, List.append_assoc, List.append_assoc]
    rfl

theorem filterMap_concat (f : ε → Option β) (log : List ε) (e : ε) :
    (log ++ [e]).filterMap f = log.filterMap f ++ (f e).toList := by
  rw [List.filterMap_append]
  apply congrArg
  cases h : f e with
  | none => exact List.filterMap_cons_none h
  | some b => exact List.filterMap_cons_some h

theorem filterMap_concat_of_none {f : ε → Option β} {e : ε} (h : f e = none) (log : List ε) :
    (log ++ [e]).filterMap f = log.filterMap f := by
  rw [filterMap_concat, h, Option.toList_none, List.append_nil]

/-- The value that the latest event with one carries. -/
def lastOf (f : ε → Option β) (log : List ε) : Option β := (log.filterMap f).getLast?

theorem lastOf_concat_some {f : ε → Option β} {log : List ε} {e : ε} {b : β} (h : f e = some b) :
    lastOf f (log ++ [e]) = some b := by
  unfold lastOf
  rw [filterMap_concat, h, Option.toList_some, List.getLast?_concat]

theorem lastOf_concat_none {f : ε → Option β} {log : List ε} {e : ε} (h : f e = none) :
    lastOf f (log ++ [e]) = lastOf f log := by
  unfold lastOf
  rw [filterMap_concat_of_none h]

theorem mem_of_lastOf_append {f : ε → Option β} {pre post : List ε} {e : ε} {b c : β}
    (he : f e = some c) (h : lastOf f (pre ++ e :: post) = some b) :
    b = c ∨ ∃ x ∈ post, f x = some b := by
  have hb : b ∈ c :: post.filterMap f := by
    have hlast : (c :: post.filterMap f).getLast? = some b := by
      rw [← h, lastOf, List.filterMap_append, List.filterMap_cons, he]
      exact (List.getLast?_append_cons _ _ _).symm
    exact List.mem_of_getLast? hlast
  rcases List.mem_cons.mp hb with h | h
  · exact Or.inl h
  · exact Or.inr (List.mem_filterMap.mp h)

theorem exists_event_of_filterMap {f : ε → Option β} {log : List ε} {before after : List β} {b : β}
    (h : log.filterMap f = before ++ b :: after) : ∃ pre e post,
      log = pre ++ e :: post ∧ f e = some b ∧ pre.filterMap f = before := by
  obtain ⟨pre, rest, rfl, hpre, hrest⟩ := List.filterMap_eq_append_iff.mp h
  obtain ⟨skipped, e, post, rfl, hskipped, he, -⟩ := List.filterMap_eq_cons_iff.mp hrest
  refine ⟨pre ++ skipped, e, post, (List.append_assoc _ _ _).symm, he, ?_⟩
  rw [List.filterMap_append, hpre, List.filterMap_eq_nil_iff.mpr hskipped, List.append_nil]

theorem lastOf_ne_none {f : ε → Option β} {log : List ε} {e : ε} (he : e ∈ log) (hf : f e ≠ none) :
    lastOf f log ≠ none := by
  obtain ⟨b, hb⟩ := Option.ne_none_iff_exists'.mp hf
  intro h
  have hmem : b ∈ log.filterMap f := List.mem_filterMap.mpr ⟨e, he, hb⟩
  rw [List.getLast?_eq_none_iff.mp h] at hmem
  exact List.not_mem_nil hmem

end History
