import Mathlib.Data.List.Induction

/-! Messages cut into fragments, where `fin` marks the last fragment of each message. A sequence of
fragments is a sequence of complete messages and one unfinished rest. -/

namespace Framing

variable {φ : Type*} (fin : φ → Bool)

def feed (st : List (List φ) × List φ) (f : φ) : List (List φ) × List φ :=
  if fin f then (st.1 ++ [st.2 ++ [f]], []) else (st.1, st.2 ++ [f])

def complete (fs : List φ) : List (List φ) := (fs.foldl (feed fin) ([], [])).1

def unfinished (fs : List φ) : List φ := (fs.foldl (feed fin) ([], [])).2

@[simp] theorem unfinished_nil : unfinished fin [] = [] := rfl

theorem complete_concat (fs : List φ) (f : φ) : complete fin (fs ++ [f]) =
    if fin f then complete fin fs ++ [unfinished fin fs ++ [f]] else complete fin fs := by
  simp only [complete, unfinished, List.foldl_append, List.foldl_cons, List.foldl_nil, feed]
  split <;> rfl

theorem unfinished_concat (fs : List φ) (f : φ) : unfinished fin (fs ++ [f]) =
    if fin f then [] else unfinished fin fs ++ [f] := by
  simp only [unfinished, List.foldl_append, List.foldl_cons, List.foldl_nil, feed]
  split <;> rfl

theorem flatten_complete_append (fs : List φ) :
    (complete fin fs).flatten ++ unfinished fin fs = fs := by
  induction fs using List.reverseRecOn with
  | nil => rfl
  | append_singleton fs f ih =>
    rw [complete_concat, unfinished_concat]
    cases fin f with
    | true =>
      rw [if_pos rfl, if_pos rfl, List.flatten_append, List.flatten_singleton, List.append_nil,
        ← List.append_assoc, ih]
    | false =>
      rw [if_neg Bool.false_ne_true, if_neg Bool.false_ne_true, ← List.append_assoc, ih]

theorem fin_of_mem_unfinished {fs : List φ} {f : φ} (h : f ∈ unfinished fin fs) :
    fin f = false := by
  induction fs using List.reverseRecOn with
  | nil => simp at h
  | append_singleton fs g ih =>
    rw [unfinished_concat] at h
    split at h
    · simp at h
    · rename_i hg
      rcases List.mem_append.mp h with h | h
      · exact ih h
      · rw [List.mem_singleton.mp h]
        exact eq_false_of_ne_true hg

theorem mem_of_mem_unfinished {fs : List φ} {f : φ} (h : f ∈ unfinished fin fs) : f ∈ fs := by
  rw [← flatten_complete_append fin fs]
  exact List.mem_append_right _ h

end Framing
