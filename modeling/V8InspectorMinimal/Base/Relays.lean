import Mathlib.Data.List.Range
import Mathlib.Logic.Function.Basic
import V8InspectorMinimal.Base.Runs

/-! A relay between clients and one server. A client is known by a reference, and the text that it
says waits in a queue until the server takes it. What the server answers goes to the reference of
the client that was noted last. This is the right client if the clients take turns. -/

namespace Relays
open Function Runs

/-- What a client says. It is noted as the speaker before its text is in the queue. -/
inductive Saying (μ : Type*) where
  | nothing
  | said (m : μ)
  | noted (m : μ)
  deriving DecidableEq

structure Client (ρ μ : Type*) where
  ref : ρ
  ready : Bool := false
  saying : Saying μ := .nothing
  answers : List μ := []

inductive Answer (ρ μ : Type*) where
  | none
  | given (m : μ)
  | addressed (c : ρ) (m : μ)
  | lost

@[ext] structure Relay (ρ μ : Type*) where
  client : ℕ → Client ρ μ
  arrived : ℕ := 0
  joined : ℕ := 0
  speaker : ρ
  -- the texts with those who said them, of which the server has taken the first `taken`
  posted : List (ℕ × μ) := []
  taken : ℕ := 0
  draining : Bool := false
  jammed : Bool := false
  busy : Bool := false
  answer : Answer ρ μ := .none

inductive RelayAct (ρ μ : Type*) where
  | arrive (c : ρ)
  | join
  | ready (k : ℕ)
  | say (k : ℕ) (m : μ)
  | note (k : ℕ)
  | post (k : ℕ)
  -- a text that does not get into the queue, and closes it
  | jam (k : ℕ)
  | drain
  | take
  | finish
  | leave
  | give (m : μ)
  | address
  | deliver

namespace Relay
variable {ρ μ : Type*}

def start (c : ρ) : Relay ρ μ := { client := fun _ => { ref := c }, speaker := c }

def setClient (x : Relay ρ μ) (k : ℕ) (v : Client ρ μ) : Relay ρ μ :=
  { x with client := update x.client k v }

def setSaying (x : Relay ρ μ) (k : ℕ) (saying : Saying μ) : Relay ρ μ :=
  x.setClient k { x.client k with saying }

def pushAnswer (x : Relay ρ μ) (k : ℕ) (m : μ) : Relay ρ μ :=
  x.setClient k { x.client k with answers := (x.client k).answers ++ [m] }

def current (x : Relay ρ μ) : Option (ℕ × μ) := if x.busy then x.posted[x.taken - 1]? else none

/-- The first client with the reference, if it can be answered. -/
def addressee [DecidableEq ρ] (x : Relay ρ μ) (c : ρ) : Option ℕ :=
  ((List.range x.joined).find? fun k => (x.client k).ref = c).filter fun k => (x.client k).ready

end Relay

section Definitions
variable {ρ μ : Type*}

def relayStep [DecidableEq ρ] (x : Relay ρ μ) : RelayAct ρ μ → Option (Relay ρ μ)
  | .arrive c =>
    if x.joined = x.arrived then
      some { x.setClient x.arrived { ref := c } with arrived := x.arrived + 1 }
    else none
  | .join => if x.joined < x.arrived then some { x with joined := x.joined + 1 } else none
  | .ready k =>
    if k < x.arrived then some (x.setClient k { x.client k with ready := true }) else none
  | .say k m =>
    match (x.client k).saying with
    | .nothing => if k < x.arrived then some (x.setSaying k (.said m)) else none
    | _ => none
  | .note k =>
    match (x.client k).saying with
    | .said m => some { x.setSaying k (.noted m) with speaker := (x.client k).ref }
    | _ => none
  | .post k =>
    match (x.client k).saying with
    | .noted m =>
      if x.draining = false ∧ x.jammed = false then
        some { x.setSaying k .nothing with posted := x.posted ++ [(k, m)] }
      else none
    | _ => none
  | .jam k =>
    match (x.client k).saying with
    | .noted _ =>
      if x.draining = false ∧ x.jammed = false then
        some { x.setSaying k .nothing with jammed := true }
      else none
    | _ => none
  | .drain =>
    if x.draining = false ∧ x.jammed = false then some { x with draining := true } else none
  | .take =>
    if x.draining = true ∧ x.busy = false ∧ x.taken < x.posted.length then
      some { x with taken := x.taken + 1, busy := true }
    else none
  | .finish =>
    match x.answer with
    | .none => if x.busy = true then some { x with busy := false } else none
    | _ => none
  | .leave =>
    if x.draining = true ∧ x.busy = false ∧ x.taken = x.posted.length then
      some { x with draining := false }
    else none
  | .give m =>
    match x.answer with
    | .none => some { x with answer := .given m }
    | _ => none
  | .address =>
    match x.answer with
    | .given m => some { x with answer := .addressed x.speaker m }
    | _ => none
  | .deliver =>
    match x.answer with
    | .addressed c m =>
      match x.addressee c with
      | some k => some { x.pushAnswer k m with answer := .none }
      | none => some { x with answer := .lost }
    | _ => none

/-! ## Taking turns -/

structure Relay.Idle (x : Relay ρ μ) : Prop where
  quiet : ∀ k, (x.client k).saying = .nothing
  free : x.busy = false
  done : x.taken = x.posted.length

structure Relay.Serves (x : Relay ρ μ) (k : ℕ) : Prop where
  joined : k < x.joined
  ready : (x.client k).ready = true

/-- A reference means one client, a client that can be answered speaks when nothing is on its way,
and the server answers while it works on a text. -/
def TakesTurns (x : Relay ρ μ) : RelayAct ρ μ → Prop
  | .arrive c => ∀ k < x.arrived, (x.client k).ref ≠ c
  | .say k _ => x.Idle ∧ x.Serves k
  | .give _ => x.busy = true
  | _ => True

def given (x : Relay ρ μ) : RelayAct ρ μ → Option (ℕ × μ)
  | .give m => x.current.map fun r => (r.1, m)
  | _ => none

def forClient (k : ℕ) (r : ℕ × μ) : Option μ := if r.1 = k then some r.2 else none

def Relay.pending (x : Relay ρ μ) (k : ℕ) : List μ :=
  match x.answer with
  | .given m | .addressed _ m => (x.current.bind fun r => forClient k (r.1, m)).toList
  | _ => []

def Relay.received (x : Relay ρ μ) (k : ℕ) : List μ := (x.client k).answers ++ x.pending k

end Definitions

section Turn
variable {ρ μ : Type*} {x y : Relay ρ μ} {k : ℕ}

def Relay.AnswerFor (x : Relay ρ μ) (k : ℕ) : Prop :=
  match x.answer with
  | .none | .given _ => True
  | .addressed c _ => c = (x.client k).ref
  | .lost => False

structure Speaking (x : Relay ρ μ) (k : ℕ) : Prop where
  serves : x.Serves k
  others : ∀ j, j ≠ k → (x.client j).saying = .nothing
  noted : ∀ m, (x.client k).saying = .noted m → x.speaker = (x.client k).ref
  free : x.busy = false
  done : x.taken = x.posted.length
  answer : x.answer = .none

structure Waiting (x : Relay ρ μ) (k : ℕ) : Prop where
  serves : x.Serves k
  quiet : ∀ j, (x.client j).saying = .nothing
  speaker : x.speaker = (x.client k).ref
  posted : ∃ before m, x.posted = before ++ [(k, m)] ∧ x.taken = before.length
  free : x.busy = false
  answer : x.answer = .none

structure Working (x : Relay ρ μ) (k : ℕ) : Prop where
  serves : x.Serves k
  quiet : ∀ j, (x.client j).saying = .nothing
  speaker : x.speaker = (x.client k).ref
  posted : ∃ before m, x.posted = before ++ [(k, m)] ∧ x.taken = before.length + 1
  busy : x.busy = true
  answer : x.AnswerFor k

inductive Turn (x : Relay ρ μ) : Prop where
  | idle (idle : x.Idle) (answer : x.answer = .none)
  | speaking (k : ℕ) (speaking : Speaking x k)
  | waiting (k : ℕ) (waiting : Waiting x k)
  | working (k : ℕ) (working : Working x k)

theorem Turn.speaking_of_ne (h : Turn x) (hk : (x.client k).saying ≠ .nothing) :
    Speaking x k := by
  cases h with
  | idle idle answer => exact absurd (idle.quiet k) hk
  | speaking j speaking =>
    by_cases hj : k = j
    · exact hj ▸ speaking
    · exact absurd (speaking.others k hj) hk
  | waiting j waiting => exact absurd (waiting.quiet k) hk
  | working j working => exact absurd (working.quiet k) hk

theorem Turn.exists_working (h : Turn x) (hbusy : x.busy = true) : ∃ k, Working x k := by
  have hfree : x.busy ≠ false := by rw [hbusy]; exact Bool.noConfusion
  cases h with
  | idle idle answer => exact absurd idle.free hfree
  | speaking k speaking => exact absurd speaking.free hfree
  | waiting k waiting => exact absurd waiting.free hfree
  | working k working => exact ⟨k, working⟩

theorem Turn.answer_eq_none (h : Turn x) (hfree : x.busy = false) : x.answer = .none := by
  cases h with
  | idle idle answer => exact answer
  | speaking k speaking => exact speaking.answer
  | waiting k waiting => exact waiting.answer
  | working k working => cases hfree.symm.trans working.busy

theorem Turn.working_of_answer (h : Turn x) (hanswer : x.answer ≠ .none) : ∃ k, Working x k := by
  refine h.exists_working ?_
  by_contra hfree
  exact hanswer (h.answer_eq_none (Bool.eq_false_iff.mpr hfree))

theorem Turn.exists_waiting (h : Turn x) (hfree : x.busy = false)
    (htaken : x.taken < x.posted.length) : ∃ k, Waiting x k := by
  cases h with
  | idle idle answer => exact absurd idle.done (Nat.ne_of_lt htaken)
  | speaking k speaking => exact absurd speaking.done (Nat.ne_of_lt htaken)
  | waiting k waiting => exact ⟨k, waiting⟩
  | working k working => cases hfree.symm.trans working.busy

theorem Working.current_eq (h : Working x k) : ∃ m, x.current = some (k, m) := by
  obtain ⟨before, m, hposted, htaken⟩ := h.posted
  refine ⟨m, ?_⟩
  rw [Relay.current, if_pos h.busy, hposted, htaken, Nat.add_sub_cancel,
    List.getElem?_append_right (Nat.le_refl _), Nat.sub_self]
  rfl

/-! ## One step -/

theorem Relay.setClient_apply {γ : Type*} (f : Client ρ μ → γ) {v : Client ρ μ}
    (hv : f v = f (x.client k)) (j : ℕ) : f ((x.setClient k v).client j) = f (x.client j) := by
  show f (update x.client k v j) = f (x.client j)
  by_cases hj : j = k
  · rw [hj, update_self, hv]
  · rw [update_of_ne hj]

theorem Relay.setClient_self (x : Relay ρ μ) (k : ℕ) (v : Client ρ μ) :
    (x.setClient k v).client k = v := update_self ..

theorem Relay.setClient_of_ne {j : ℕ} (hj : j ≠ k) (x : Relay ρ μ) (v : Client ρ μ) :
    (x.setClient k v).client j = x.client j := update_of_ne hj ..

structure SameTurn (x y : Relay ρ μ) : Prop where
  joined_le : x.joined ≤ y.joined
  ref : ∀ k < x.joined, (y.client k).ref = (x.client k).ref
  ready : ∀ k < x.joined, (x.client k).ready = true → (y.client k).ready = true
  saying : ∀ k, (y.client k).saying = (x.client k).saying
  speaker : y.speaker = x.speaker
  posted : y.posted = x.posted
  taken : y.taken = x.taken
  busy : y.busy = x.busy
  answer : y.answer = x.answer

theorem SameTurn.serves (same : SameTurn x y) (h : x.Serves k) : y.Serves k :=
  ⟨Nat.lt_of_lt_of_le h.joined same.joined_le, same.ready k h.joined h.ready⟩

theorem Turn.congr (h : Turn x) (same : SameTurn x y) : Turn y := by
  have hquiet (hx : ∀ j, (x.client j).saying = .nothing) (j : ℕ) :
      (y.client j).saying = .nothing := (same.saying j).trans (hx j)
  have hspeaker {k : ℕ} (hk : x.Serves k) (hx : x.speaker = (x.client k).ref) :
      y.speaker = (y.client k).ref := by rw [same.speaker, hx, same.ref k hk.joined]
  have hdone (hx : x.taken = x.posted.length) : y.taken = y.posted.length := by
    rw [same.taken, same.posted, hx]
  cases h with
  | idle idle answer =>
    exact .idle ⟨hquiet idle.quiet, same.busy.trans idle.free, hdone idle.done⟩
      (same.answer.trans answer)
  | speaking k h =>
    refine .speaking k ⟨same.serves h.serves, fun j hj => (same.saying j).trans (h.others j hj),
      fun m hm => hspeaker h.serves (h.noted m ((same.saying k).symm.trans hm)),
      same.busy.trans h.free, hdone h.done, same.answer.trans h.answer⟩
  | waiting k h =>
    refine .waiting k ⟨same.serves h.serves, hquiet h.quiet, hspeaker h.serves h.speaker, ?_,
      same.busy.trans h.free, same.answer.trans h.answer⟩
    rw [same.posted, same.taken]
    exact h.posted
  | working k h =>
    refine .working k ⟨same.serves h.serves, hquiet h.quiet, hspeaker h.serves h.speaker, ?_,
      same.busy.trans h.busy, ?_⟩
    · rw [same.posted, same.taken]
      exact h.posted
    · unfold Relay.AnswerFor
      rw [same.answer, same.ref k h.serves.joined]
      exact h.answer

structure TurnInv (x : Relay ρ μ) : Prop where
  distinct : ∀ j < x.arrived, ∀ k < x.arrived, (x.client j).ref = (x.client k).ref → j = k
  fresh : ∀ k, x.arrived ≤ k → ∃ c, x.client k = { ref := c }
  joined_le : x.joined ≤ x.arrived
  turn : Turn x

theorem turnInv_start (c : ρ) : TurnInv (Relay.start (μ := μ) c) where
  distinct _ hj := absurd hj (Nat.not_lt_zero _)
  fresh _ _ := ⟨c, rfl⟩
  joined_le := Nat.le_refl _
  turn := .idle ⟨fun _ => rfl, rfl, rfl⟩ rfl

theorem TurnInv.lt_of_ne (h : TurnInv x) (hk : (x.client k).saying ≠ .nothing) :
    k < x.arrived := by
  by_contra hge
  obtain ⟨c, hc⟩ := h.fresh k (Nat.le_of_not_lt hge)
  rw [hc] at hk
  exact hk rfl

theorem TurnInv.move (h : TurnInv x) (client : y.client = x.client)
    (arrived : y.arrived = x.arrived) (joined : y.joined = x.joined) (turn : Turn y) :
    TurnInv y where
  distinct j hj k hk href := by
    rw [arrived] at hj hk
    rw [client] at href
    exact h.distinct j hj k hk href
  fresh k hk := by
    rw [arrived] at hk
    rw [client]
    exact h.fresh k hk
  joined_le := by
    rw [arrived, joined]
    exact h.joined_le
  turn := turn

theorem TurnInv.setClient (h : TurnInv x) (hk : k < x.arrived) {v : Client ρ μ}
    (hv : v.ref = (x.client k).ref) (client : y.client = (x.setClient k v).client)
    (arrived : y.arrived = x.arrived) (joined : y.joined = x.joined) (turn : Turn y) :
    TurnInv y where
  distinct j hj j' hj' href := by
    have hrefs := Relay.setClient_apply Client.ref hv
    rw [arrived] at hj hj'
    rw [client, hrefs, hrefs] at href
    exact h.distinct j hj j' hj' href
  fresh j hj := by
    rw [arrived] at hj
    have hne : j ≠ k := Nat.ne_of_gt (Nat.lt_of_lt_of_le hk hj)
    rw [client, Relay.setClient_of_ne hne]
    exact h.fresh j hj
  joined_le := by
    rw [arrived, joined]
    exact h.joined_le
  turn := turn

/-! ## Every step -/

def Kept (x : Relay ρ μ) (a : RelayAct ρ μ) (y : Relay ρ μ) : Prop :=
  TurnInv y ∧ ∀ k, y.received k = x.received k ++ (given x a).toList.filterMap (forClient k)

theorem Kept.quiet {a : RelayAct ρ μ} (turn : TurnInv y) (hgiven : given x a = none)
    (received : ∀ k, y.received k = x.received k) : Kept x a y := by
  refine ⟨turn, fun k => ?_⟩
  rw [received, hgiven]
  exact (List.append_nil _).symm

theorem received_of_none (h : x.answer = .none) (k : ℕ) :
    x.received k = (x.client k).answers := by
  rw [Relay.received, Relay.pending, h]
  exact List.append_nil _

theorem pending_length (x : Relay ρ μ) (k : ℕ) :
    (x.pending k).length ≤ 1 ∧ (x.answer = .none → x.pending k = []) := by
  unfold Relay.pending
  constructor
  · split
    · exact Option.length_toList_le
    · exact Option.length_toList_le
    · exact Nat.zero_le _
  · intro hanswer
    rw [hanswer]

theorem received_congr (answers : ∀ k, (y.client k).answers = (x.client k).answers)
    (answer : y.answer = x.answer) (current : y.current = x.current) (k : ℕ) :
    y.received k = x.received k := by
  rw [Relay.received, Relay.received, Relay.pending, Relay.pending, answers, answer, current]

theorem SameTurn.current_eq (same : SameTurn x y) : y.current = x.current := by
  rw [Relay.current, Relay.current, same.busy, same.posted, same.taken]

theorem Relay.setSaying_apply {γ : Type*} (f : Client ρ μ → γ)
    (hf : ∀ v saying, f { v with saying } = f v) (saying : Saying μ) (j : ℕ) :
    f ((x.setSaying k saying).client j) = f (x.client j) :=
  Relay.setClient_apply f (hf (x.client k) saying) j

theorem Relay.Serves.setSaying (h : x.Serves k) (saying : Saying μ) :
    (x.setSaying k saying).Serves k :=
  ⟨h.joined, (Relay.setSaying_apply Client.ready (fun _ _ => rfl) saying k).trans h.ready⟩

theorem quiet_setSaying (h : ∀ j, j ≠ k → (x.client j).saying = .nothing) (j : ℕ) :
    ((x.setSaying k .nothing).client j).saying = .nothing := by
  by_cases hj : j = k
  · rw [hj]
    exact congrArg Client.saying (Relay.setClient_self ..)
  · exact (congrArg Client.saying (Relay.setClient_of_ne hj ..)).trans (h j hj)

theorem kept_arrive (h : TurnInv x) {c : ρ} (hjoined : x.joined = x.arrived)
    (hok : ∀ k < x.arrived, (x.client k).ref ≠ c) :
    Kept x (.arrive c) { x.setClient x.arrived { ref := c } with arrived := x.arrived + 1 } := by
  obtain ⟨c', hc'⟩ := h.fresh x.arrived (Nat.le_refl _)
  have hlt {k : ℕ} (hk : k < x.arrived) (v : Client ρ μ) :
      (x.setClient x.arrived v).client k = x.client k := Relay.setClient_of_ne (Nat.ne_of_lt hk) ..
  have hnew : (x.setClient x.arrived { ref := c }).client x.arrived = { ref := c } :=
    Relay.setClient_self ..
  have hsaying := Relay.setClient_apply (x := x) (k := x.arrived) (v := { ref := c })
    Client.saying (by rw [hc'])
  have hanswers := Relay.setClient_apply (x := x) (k := x.arrived) (v := { ref := c })
    Client.answers (by rw [hc'])
  have same : SameTurn x
      { x.setClient x.arrived { ref := c } with arrived := x.arrived + 1 } := {
    joined_le := Nat.le_refl _
    ref := fun k hk => congrArg Client.ref (hlt (hjoined ▸ hk) _)
    ready := fun k hk hready => (congrArg Client.ready (hlt (hjoined ▸ hk) _)).trans hready
    saying := hsaying
    speaker := rfl
    posted := rfl
    taken := rfl
    busy := rfl
    answer := rfl }
  refine .quiet ⟨fun j hj k hk href => ?_, fun k hk => ?_, ?_, h.turn.congr same⟩ rfl
    (received_congr hanswers rfl same.current_eq)
  · rcases Nat.lt_succ_iff_lt_or_eq.mp hj with hj | rfl <;>
      rcases Nat.lt_succ_iff_lt_or_eq.mp hk with hk | rfl
    · rw [hlt hj, hlt hk] at href
      exact h.distinct j hj k hk href
    · rw [hlt hj, hnew] at href
      exact absurd href (hok j hj)
    · rw [hlt hk, hnew] at href
      exact absurd href.symm (hok k hk)
    · rfl
  · rw [show _ = x.client k from Relay.setClient_of_ne (Nat.ne_of_gt hk) ..]
    exact h.fresh k (Nat.le_of_succ_le hk)
  · exact Nat.le_succ_of_le h.joined_le

theorem TurnInv.setSaying (h : TurnInv x) (hk : k < x.arrived) {saying : Saying μ}
    (client : y.client = (x.setSaying k saying).client) (arrived : y.arrived = x.arrived)
    (joined : y.joined = x.joined) (turn : Turn y) : TurnInv y :=
  h.setClient hk (v := { x.client k with saying }) rfl client arrived joined turn

theorem setSaying_answers (saying : Saying μ) (j : ℕ) :
    ((x.setSaying k saying).client j).answers = (x.client j).answers :=
  Relay.setSaying_apply Client.answers (fun _ _ => rfl) saying j

theorem setSaying_ref (saying : Saying μ) (j : ℕ) :
    ((x.setSaying k saying).client j).ref = (x.client j).ref :=
  Relay.setSaying_apply Client.ref (fun _ _ => rfl) saying j

theorem setSaying_saying (saying : Saying μ) :
    ((x.setSaying k saying).client k).saying = saying :=
  congrArg Client.saying (Relay.setClient_self ..)

theorem setSaying_saying_of_ne {j : ℕ} (hj : j ≠ k) (saying : Saying μ) :
    ((x.setSaying k saying).client j).saying = (x.client j).saying :=
  congrArg Client.saying (Relay.setClient_of_ne hj ..)

theorem kept_say (h : TurnInv x) {m : μ} (hk : k < x.arrived) (hidle : x.Idle)
    (hserves : x.Serves k) : Kept x (.say k m) (x.setSaying k (.said m)) := by
  have hanswer := h.turn.answer_eq_none hidle.free
  have hspeaking : Speaking (x.setSaying k (.said m)) k := {
    serves := hserves.setSaying _
    others := fun j hj => (setSaying_saying_of_ne hj _).trans (hidle.quiet j)
    noted := fun m' hm' => nomatch (setSaying_saying (x := x) (k := k) (.said m)).symm.trans hm'
    free := hidle.free
    done := hidle.done
    answer := hanswer }
  exact .quiet (h.setSaying hk rfl rfl rfl (.speaking k hspeaking)) rfl
    (received_congr (setSaying_answers _) rfl rfl)

theorem kept_note (h : TurnInv x) {m : μ} (hk : (x.client k).saying = .said m) :
    Kept x (.note k) { x.setSaying k (.noted m) with speaker := (x.client k).ref } := by
  have hne : (x.client k).saying ≠ .nothing := by rw [hk]; exact nofun
  have hx := h.turn.speaking_of_ne hne
  have hspeaking : Speaking
      { x.setSaying k (.noted m) with speaker := (x.client k).ref } k := {
    serves := ⟨hx.serves.joined, (hx.serves.setSaying (.noted m)).ready⟩
    others := fun j hj => (setSaying_saying_of_ne hj _).trans (hx.others j hj)
    noted := fun _ _ => (setSaying_ref _ k).symm
    free := hx.free
    done := hx.done
    answer := hx.answer }
  exact .quiet (h.setSaying (h.lt_of_ne hne) rfl rfl rfl (.speaking k hspeaking)) rfl
    (received_congr (setSaying_answers _) rfl rfl)

theorem kept_post (h : TurnInv x) {m : μ} (hk : (x.client k).saying = .noted m) :
    Kept x (.post k) { x.setSaying k .nothing with posted := x.posted ++ [(k, m)] } := by
  have hne : (x.client k).saying ≠ .nothing := by rw [hk]; exact nofun
  have hx := h.turn.speaking_of_ne hne
  have hwaiting : Waiting { x.setSaying k .nothing with posted := x.posted ++ [(k, m)] } k := {
    serves := ⟨hx.serves.joined, (hx.serves.setSaying .nothing).ready⟩
    quiet := quiet_setSaying hx.others
    speaker := (hx.noted m hk).trans (setSaying_ref _ k).symm
    posted := ⟨x.posted, m, rfl, hx.done⟩
    free := hx.free
    answer := hx.answer }
  refine .quiet (h.setSaying (h.lt_of_ne hne) rfl rfl rfl (.waiting k hwaiting)) rfl fun j => ?_
  rw [received_of_none hx.answer, received_of_none hwaiting.answer]
  exact setSaying_answers _ j

theorem kept_jam (h : TurnInv x) {m : μ} (hk : (x.client k).saying = .noted m) :
    Kept x (.jam k) { x.setSaying k .nothing with jammed := true } := by
  have hne : (x.client k).saying ≠ .nothing := by rw [hk]; exact nofun
  have hx := h.turn.speaking_of_ne hne
  have hturn : Turn { x.setSaying k .nothing with jammed := true } :=
    .idle ⟨quiet_setSaying hx.others, hx.free, hx.done⟩ hx.answer
  exact .quiet (h.setSaying (h.lt_of_ne hne) rfl rfl rfl hturn) rfl
    (received_congr (setSaying_answers _) rfl rfl)

theorem kept_take (h : TurnInv x) (hfree : x.busy = false) (htaken : x.taken < x.posted.length) :
    Kept x .take { x with taken := x.taken + 1, busy := true } := by
  -- only the text of the client whose turn it is can be taken
  obtain ⟨k, hx⟩ := h.turn.exists_waiting hfree htaken
  obtain ⟨before, m, hposted, hbefore⟩ := hx.posted
  have hanswer : x.AnswerFor k := by
    unfold Relay.AnswerFor
    rw [hx.answer]
    trivial
  have hworking : Working { x with taken := x.taken + 1, busy := true } k :=
    ⟨⟨hx.serves.joined, hx.serves.ready⟩, hx.quiet, hx.speaker,
      ⟨before, m, hposted, congrArg (· + 1) hbefore⟩, rfl, hanswer⟩
  refine .quiet (h.move rfl rfl rfl (.working k hworking)) rfl fun j => ?_
  rw [received_of_none hx.answer]
  exact received_of_none (x := { x with taken := x.taken + 1, busy := true }) hx.answer j

theorem kept_finish (h : TurnInv x) (hanswer : x.answer = .none) (hbusy : x.busy = true) :
    Kept x .finish { x with busy := false } := by
  obtain ⟨k, hx⟩ := h.turn.exists_working hbusy
  obtain ⟨before, m, hposted, htaken⟩ := hx.posted
  have hdone : x.taken = x.posted.length := by
    rw [htaken, hposted, List.length_append, List.length_singleton]
  have hturn : Turn { x with busy := false } := .idle ⟨hx.quiet, rfl, hdone⟩ hanswer
  refine .quiet (h.move rfl rfl rfl hturn) rfl fun j => ?_
  rw [received_of_none hanswer]
  exact received_of_none (x := { x with busy := false }) hanswer j

theorem kept_give (h : TurnInv x) {m : μ} (hanswer : x.answer = .none) (hbusy : x.busy = true) :
    Kept x (.give m) { x with answer := .given m } := by
  obtain ⟨k, hx⟩ := h.turn.exists_working hbusy
  obtain ⟨text, hcurrent⟩ := hx.current_eq
  have hworking : Working { x with answer := .given m } k :=
    ⟨⟨hx.serves.joined, hx.serves.ready⟩, hx.quiet, hx.speaker, hx.posted, hx.busy, trivial⟩
  refine ⟨h.move rfl rfl rfl (.working k hworking), fun j => ?_⟩
  have hgiven : given x (.give m) = some (k, m) := by rw [given, hcurrent]; rfl
  have hafter : ({ x with answer := .given m } : Relay ρ μ).received j =
      (x.client j).answers ++ (x.current.bind fun r => forClient j (r.1, m)).toList := rfl
  rw [hafter, hcurrent, received_of_none hanswer, hgiven]
  apply congrArg
  show (forClient j (k, m)).toList = [(k, m)].filterMap (forClient j)
  rw [List.filterMap_cons]
  cases forClient j (k, m) <;> rfl

theorem kept_address (h : TurnInv x) {m : μ} (hanswer : x.answer = .given m) :
    Kept x .address { x with answer := .addressed x.speaker m } := by
  obtain ⟨k, hx⟩ := h.turn.working_of_answer (by rw [hanswer]; exact nofun)
  have hworking : Working { x with answer := .addressed x.speaker m } k :=
    ⟨⟨hx.serves.joined, hx.serves.ready⟩, hx.quiet, hx.speaker, hx.posted, hx.busy, hx.speaker⟩
  refine .quiet (h.move rfl rfl rfl (.working k hworking)) rfl fun j => ?_
  rw [Relay.received, Relay.received, Relay.pending, Relay.pending, hanswer]
  rfl

theorem TurnInv.addressee_eq [DecidableEq ρ] (h : TurnInv x) (hk : x.Serves k) :
    x.addressee (x.client k).ref = some k := by
  -- no other client has the reference, so that the first one with it is `k`
  have hfind : (List.range x.joined).find? (fun j => (x.client j).ref = (x.client k).ref) =
      some k := by
    rw [List.find?_range_eq_some]
    refine ⟨decide_eq_true rfl, List.mem_range.mpr hk.joined, fun j hj => ?_⟩
    have hlt := Nat.lt_of_lt_of_le hk.joined h.joined_le
    have hne : (x.client j).ref ≠ (x.client k).ref := fun href =>
      Nat.ne_of_lt hj (h.distinct j (Nat.lt_trans hj hlt) k hlt href)
    simpa using hne
  rw [Relay.addressee, hfind, Option.filter_some, if_pos hk.ready]

theorem Turn.exists_addressed (h : Turn x) {c : ρ} {m : μ} (hanswer : x.answer = .addressed c m) :
    ∃ k, Working x k ∧ c = (x.client k).ref := by
  obtain ⟨k, hx⟩ := h.working_of_answer (by rw [hanswer]; exact nofun)
  have hfor := hx.answer
  unfold Relay.AnswerFor at hfor
  rw [hanswer] at hfor
  exact ⟨k, hx, hfor⟩

theorem Relay.pushAnswer_apply {γ : Type*} (f : Client ρ μ → γ)
    (hf : ∀ v answers, f { v with answers } = f v) (m : μ) (j : ℕ) :
    f ((x.pushAnswer k m).client j) = f (x.client j) :=
  Relay.setClient_apply f (hf (x.client k) _) j

theorem kept_deliver (h : TurnInv x) {m : μ} (hx : Working x k)
    (hanswer : x.answer = .addressed (x.client k).ref m) :
    Kept x .deliver { x.pushAnswer k m with answer := .none } := by
  obtain ⟨text, hcurrent⟩ := hx.current_eq
  have href := Relay.pushAnswer_apply (x := x) (k := k) Client.ref (fun _ _ => rfl) m
  have hready := Relay.pushAnswer_apply (x := x) (k := k) Client.ready (fun _ _ => rfl) m
  have hsaying := Relay.pushAnswer_apply (x := x) (k := k) Client.saying (fun _ _ => rfl) m
  have hworking : Working { x.pushAnswer k m with answer := .none } k := {
    serves := ⟨hx.serves.joined, (hready k).trans hx.serves.ready⟩
    quiet := fun j => (hsaying j).trans (hx.quiet j)
    speaker := hx.speaker.trans (href k).symm
    posted := hx.posted
    busy := hx.busy
    answer := trivial }
  have hk := Nat.lt_of_lt_of_le hx.serves.joined h.joined_le
  refine .quiet (h.setClient hk (v := { x.client k with answers := (x.client k).answers ++ [m] })
    rfl rfl rfl rfl (.working k hworking)) rfl fun j => ?_
  have hbefore : x.received j = (x.client j).answers ++ (forClient j (k, m)).toList := by
    rw [Relay.received, Relay.pending, hanswer, hcurrent]
    rfl
  rw [hbefore, received_of_none (x := { x.pushAnswer k m with answer := .none }) rfl]
  -- what was on its way to `k` is now among its answers
  by_cases hj : j = k
  · subst hj
    rw [forClient, if_pos rfl]
    exact congrArg Client.answers (Relay.setClient_self ..)
  · rw [forClient, if_neg (Ne.symm hj)]
    exact (congrArg Client.answers (Relay.setClient_of_ne hj ..)).trans (List.append_nil _).symm

theorem SameTurn.kept (h : TurnInv x) {a : RelayAct ρ μ} (same : SameTurn x y)
    (client : y.client = x.client) (arrived : y.arrived = x.arrived)
    (joined_le : y.joined ≤ x.arrived) (hgiven : given x a = none) : Kept x a y := by
  refine .quiet ⟨?_, ?_, ?_, h.turn.congr same⟩ hgiven
    (received_congr (fun k => by rw [client]) same.answer same.current_eq)
  · rw [arrived, client]
    exact h.distinct
  · rw [arrived, client]
    exact h.fresh
  · rw [arrived]
    exact joined_le

theorem kept_ready (h : TurnInv x) (hk : k < x.arrived) :
    Kept x (.ready k) (x.setClient k { x.client k with ready := true }) := by
  have same : SameTurn x (x.setClient k { x.client k with ready := true }) := {
    joined_le := Nat.le_refl _
    ref := fun j _ => Relay.setClient_apply Client.ref (by rfl) j
    ready := fun j _ hj => by
      by_cases heq : j = k
      · rw [heq, Relay.setClient_self]
      · rwa [Relay.setClient_of_ne heq]
    saying := fun j => Relay.setClient_apply Client.saying (by rfl) j
    speaker := rfl
    posted := rfl
    taken := rfl
    busy := rfl
    answer := rfl }
  exact .quiet (h.setClient hk (v := { x.client k with ready := true }) rfl rfl rfl rfl
    (h.turn.congr same)) rfl
    (received_congr (fun j => Relay.setClient_apply Client.answers (by rfl) j) rfl rfl)

theorem kept_step [DecidableEq ρ] (h : TurnInv x) {a : RelayAct ρ μ} (hok : TakesTurns x a)
    (hstep : relayStep x a = some y) : Kept x a y := by
  cases a with
  | arrive c =>
    obtain ⟨hjoined, hstep⟩ := Option.ite_none_right_eq_some.mp hstep
    exact Option.some.inj hstep ▸ kept_arrive h hjoined hok
  | join =>
    obtain ⟨hjoined, hstep⟩ := Option.ite_none_right_eq_some.mp hstep
    obtain rfl := Option.some.inj hstep
    exact SameTurn.kept h ⟨Nat.le_succ _, fun _ _ => rfl, fun _ _ => id, fun _ => rfl, rfl, rfl,
      rfl, rfl, rfl⟩ rfl rfl hjoined rfl
  | ready k =>
    obtain ⟨hk, hstep⟩ := Option.ite_none_right_eq_some.mp hstep
    exact Option.some.inj hstep ▸ kept_ready h hk
  | say k m =>
    simp only [relayStep] at hstep
    split at hstep
    · obtain ⟨hk, hstep⟩ := Option.ite_none_right_eq_some.mp hstep
      exact Option.some.inj hstep ▸ kept_say h hk hok.1 hok.2
    · cases hstep
  | note k =>
    simp only [relayStep] at hstep
    split at hstep
    · rename_i m hk
      exact Option.some.inj hstep ▸ kept_note h hk
    · cases hstep
  | post k =>
    simp only [relayStep] at hstep
    split at hstep
    · rename_i m hk
      obtain ⟨-, hstep⟩ := Option.ite_none_right_eq_some.mp hstep
      exact Option.some.inj hstep ▸ kept_post h hk
    · cases hstep
  | jam k =>
    simp only [relayStep] at hstep
    split at hstep
    · rename_i m hk
      obtain ⟨-, hstep⟩ := Option.ite_none_right_eq_some.mp hstep
      exact Option.some.inj hstep ▸ kept_jam h hk
    · cases hstep
  | drain =>
    obtain ⟨-, hstep⟩ := Option.ite_none_right_eq_some.mp hstep
    obtain rfl := Option.some.inj hstep
    exact SameTurn.kept h ⟨Nat.le_refl _, fun _ _ => rfl, fun _ _ => id, fun _ => rfl, rfl, rfl,
      rfl, rfl, rfl⟩ rfl rfl h.joined_le rfl
  | take =>
    obtain ⟨⟨-, hfree, htaken⟩, hstep⟩ := Option.ite_none_right_eq_some.mp hstep
    exact Option.some.inj hstep ▸ kept_take h hfree htaken
  | finish =>
    simp only [relayStep] at hstep
    split at hstep
    · rename_i hanswer
      obtain ⟨hbusy, hstep⟩ := Option.ite_none_right_eq_some.mp hstep
      exact Option.some.inj hstep ▸ kept_finish h hanswer hbusy
    · cases hstep
  | leave =>
    obtain ⟨-, hstep⟩ := Option.ite_none_right_eq_some.mp hstep
    obtain rfl := Option.some.inj hstep
    exact SameTurn.kept h ⟨Nat.le_refl _, fun _ _ => rfl, fun _ _ => id, fun _ => rfl, rfl, rfl,
      rfl, rfl, rfl⟩ rfl rfl h.joined_le rfl
  | give m =>
    simp only [relayStep] at hstep
    split at hstep
    · rename_i hanswer
      exact Option.some.inj hstep ▸ kept_give h hanswer hok
    · cases hstep
  | address =>
    simp only [relayStep] at hstep
    split at hstep
    · rename_i m hanswer
      exact Option.some.inj hstep ▸ kept_address h hanswer
    · cases hstep
  | deliver =>
    simp only [relayStep] at hstep
    split at hstep
    · rename_i c m hanswer
      obtain ⟨k, hx, rfl⟩ := h.turn.exists_addressed hanswer
      rw [h.addressee_eq hx.serves] at hstep
      exact Option.some.inj hstep ▸ kept_deliver h hx hanswer
    · cases hstep

/-! ## Every run -/

section Run
variable [DecidableEq ρ] {as : List (RelayAct ρ μ)} {c : ρ}

theorem kept_run (hr : run relayStep (.start c) as = some x)
    (hok : AllSteps relayStep TakesTurns (.start c) as) :
    TurnInv x ∧ ∀ k, x.received k =
      (outputs relayStep given (.start c) as).filterMap (forClient k) := by
  have hstep (k : ℕ) := seen_eq_outputs (f := (Relay.received · k)) (h := forClient k)
    (fun _ _ _ hok h hstep => (kept_step h hok hstep).imp_right (· k)) (turnInv_start c) hok hr
  exact ⟨(hstep 0).1, fun k => (hstep k).2⟩

/-- If the clients take turns, every client gets the answers to its own texts, and no answer is
lost. -/
theorem received_eq_given (hr : run relayStep (.start c) as = some x)
    (hok : AllSteps relayStep TakesTurns (.start c) as) :
    x.answer ≠ .lost ∧ ∀ k, x.received k =
      (outputs relayStep given (.start c) as).filterMap (forClient k) := by
  obtain ⟨h, hreceived⟩ := kept_run hr hok
  refine ⟨fun hlost => ?_, hreceived⟩
  obtain ⟨k, hk⟩ := h.turn.working_of_answer (by rw [hlost]; exact nofun)
  have hfor := hk.answer
  unfold Relay.AnswerFor at hfor
  rw [hlost] at hfor
  exact hfor

end Run
end Turn
end Relays
