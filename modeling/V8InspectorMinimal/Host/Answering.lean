import V8InspectorMinimal.Host.Clients
import V8InspectorMinimal.Host.Queue

/-! Whether a client whose message came in can be answered. The threads of a peer start in its
constructor, before `AddClient` puts the peer into `mClients`, so that it depends on which of the
accept thread and the read thread is first. -/

namespace V8Min
open Runs Socket

def Delivered (s : Host) (p : PeerId) : Prop := ∃ c m, Event.textMessage p c m ∈ s.log

/-- Every connected client that has spoken is found, so that a `SendResponse` to it is not stopped
in `GetClient`. -/
structure Answerable (s : Host) : Prop where
  found : ∀ p, s.live p = true → Delivered s p →
    ∃ q, s.mWebsocketServer.getClient (s.peer p).mConnectionRef = .ok q
  answered : ∀ p site m, s.live p = true → Delivered s p →
    s.main = .inV8 site (.getClient (s.peer p).mConnectionRef m) →
    ∃ q t, mainStep s .next = some t ∧
      t.main = .inV8 site (.unlockClients (s.peer p).mConnectionRef m q)

/-- The step does not deliver a text message of a connected client before `AddClient` has inserted
a peer with its reference. -/
def InsertedFirst (s : Host) (a : Act) : Prop := ∀ p ra b, a = .reader p ra →
  (s.peer p).reader = .callHandler .text b → s.live p = true →
    ∃ q ∈ s.mWebsocketServer.mClients, (s.peer q).mConnectionRef = (s.peer p).mConnectionRef

structure AnswerInv (s : Host) : Prop where
  server : ServerInv s
  delivered_lt : ∀ p, Delivered s p → p < s.mWebsocketServer.next
  found : ∀ p, s.live p = true → Delivered s p →
    ∃ q, s.mWebsocketServer.getClient (s.peer p).mConnectionRef = .ok q

theorem answerInv_init : AnswerInv {} where
  server := serverInv_init
  delivered_lt _ h := by
    obtain ⟨c, m, hm⟩ := h
    cases hm
  found _ h := absurd h Bool.false_ne_true

section Answer
variable {soy : MessageBufferLib} {s t : Host} {a : Act}

theorem AnswerInv.answerable (h : AnswerInv s) : Answerable s where
  found := h.found
  answered p site m hlive hdel pc := by
    obtain ⟨q, hq⟩ := h.found p hlive hdel
    refine ⟨q, { s with main := .inV8 site (.unlockClients (s.peer p).mConnectionRef m q) }, ?_,
      rfl⟩
    simp only [mainStep, pc, hq]

theorem HostStep.delivered (h : HostStep soy s a t) {p : PeerId} (hp : Delivered t p) :
    Delivered s p ∨ ∃ ra b, a = .reader p ra ∧ (s.peer p).reader = .callHandler .text b ∧
      p < s.mWebsocketServer.next := by
  obtain ⟨c, m, hm⟩ := hp
  have hmem : ∀ e, Event.textMessage p c m ∈ s.log ++ [e] → e ≠ .textMessage p c m →
      Delivered s p := fun e hin hne => by
    rcases List.mem_append.mp hin with hin | hin
    · exact ⟨c, m, hin⟩
    · exact absurd (List.mem_singleton.mp hin).symm hne
  cases h with
  | main a t step =>
    rcases step.log_eq with hlog | ⟨e, hlog, he⟩
    · exact Or.inl ⟨c, m, hlog ▸ hm⟩
    · refine Or.inl (hmem e (hlog ▸ hm) ?_)
      rintro rfl
      exact he
  | callText p' a b m' q made step pc data =>
    rcases List.mem_append.mp hm with hin | hin
    · exact Or.inl ⟨c, m, hin⟩
    · obtain ⟨rfl, -, -⟩ := Event.textMessage.inj (List.mem_singleton.mp hin)
      exact Or.inr ⟨a, b, rfl, pc, made⟩
  | record p' c' m' pc => exact Or.inl (hmem _ hm Event.noConfusion)
  | lock p' c' m' pc free => exact Or.inl (hmem _ hm Event.noConfusion)
  | pushBack p' c' m' pc => exact Or.inl (hmem _ hm Event.noConfusion)
  | _ => exact Or.inl ⟨c, m, hm⟩

theorem HostStep.live_eq (h : HostStep soy s a t) {p : PeerId} (hp : t.live p = true) :
    s.live p = true ∨ p = s.mWebsocketServer.next := by
  cases h with
  | main a t step => exact Or.inl (step.mainFrame.live ▸ hp)
  | construct c pc =>
    by_cases hpp : p = s.mWebsocketServer.next
    · exact Or.inr hpp
    · have hp : Function.update s.live s.mWebsocketServer.next true p = true := hp
      rw [Function.update_of_ne hpp] at hp
      exact Or.inl hp
  | disconnect p' connected =>
    have hp : Function.update s.live p' false p = true := hp
    by_cases hpp : p = p'
    · rw [hpp, Function.update_self] at hp
      cases hp
    · rw [Function.update_of_ne hpp] at hp
      exact Or.inl hp
  | _ => exact Or.inl hp

theorem answerInv_step (h : AnswerInv s) (hok : InsertedFirst s a) (hstep : step soy s a = some t) :
    AnswerInv t := by
  have hs := step_cases hstep
  refine ⟨serverInv_step h.server hstep, fun p hp => ?_, fun p hlive hp => ?_⟩
  · rcases hs.delivered hp with hold | ⟨ra, b, -, -, hlt⟩
    · exact Nat.lt_of_lt_of_le (h.delivered_lt p hold) hs.sameRefs.next_le
    · exact Nat.lt_of_lt_of_le hlt hs.sameRefs.next_le
  · have hlt : p < s.mWebsocketServer.next := by
      rcases hs.delivered hp with hold | ⟨ra, b, -, -, hlt⟩
      · exact h.delivered_lt p hold
      · exact hlt
    have hlive' : s.live p = true := (hs.live_eq hlive).resolve_right (Nat.ne_of_lt hlt)
    have hfound : ∃ q, s.mWebsocketServer.getClient (s.peer p).mConnectionRef = .ok q := by
      rcases hs.delivered hp with hold | ⟨ra, b, rfl, pc, -⟩
      · exact h.found p hlive' hold
      · obtain ⟨q, hq, href⟩ := hok p ra b rfl pc hlive'
        exact Server.exists_getClient hq href
    obtain ⟨q, hq⟩ := hfound
    rw [hs.sameRefs.ref p hlt]
    exact ⟨q, getClient_step h.server hstep hq⟩

theorem not_answerable_of_early (h : AnswerInv s) (hbad : ¬ InsertedFirst s a)
    (hstep : step soy s a = some t) : ¬ Answerable t := by
  unfold InsertedFirst at hbad
  push Not at hbad
  obtain ⟨p, ra, b, rfl, pc, hlive, hnone⟩ := hbad
  intro ht
  have hs := step_cases hstep
  have href := hs.sameRefs.ref
  cases hs with
  | reader _ _ q made step outside => exact (outside _ b).1 pc
  | callText _ _ b' m q made step pc' data =>
    obtain ⟨q', hq'⟩ := ht.found p hlive ⟨_, m, List.mem_append_right _ List.mem_cons_self⟩
    obtain ⟨hmem, heq⟩ := Server.getClient_spec hq'
    exact hnone q' hmem
      ((href q' (h.server.clients_lt q' hmem)).symm.trans (heq.trans (href p made)))
  | callBinary _ _ b' q made step pc' =>
    rw [pc] at pc'
    cases pc'
  | handlerReturns _ k b' q made step pc' returned =>
    rw [pc] at pc'
    cases pc'
  | handlerThrows _ k b' q made step pc' threw =>
    rw [pc] at pc'
    cases pc'

/-- Over every run: a connected client that has spoken can be answered, exactly as long as no text
message of one is delivered before `AddClient` has inserted its peer. -/
theorem answerable_iff (soy : MessageBufferLib) (acts : List Act) :
    AllStates (step soy) Answerable {} acts ↔ AllSteps (step soy) InsertedFirst {} acts :=
  allStates_iff_allSteps (fun _ h => h.answerable) (fun _ _ _ => answerInv_step)
    (fun _ _ _ => not_answerable_of_early) answerInv_init acts

def early : List Act := [.connect 1, .accept] ++ handshakes 0 ++ textArrives 0 [7]

theorem client_not_found : ¬ ∀ soy acts s, run (step soy) {} acts = some s → Answerable s := by
  intro h
  have hs : (run (step firstOpcodeBuffer) {} early).map
      (fun s => (s.live 0, s.log, s.mWebsocketServer.mClients)) =
        some (true, [.textMessage 0 1 [7]], []) := by decide +kernel
  obtain ⟨s, hs, heq⟩ := Option.map_eq_some_iff.mp hs
  obtain ⟨hlive, hlog, hclients⟩ : s.live 0 = true ∧ s.log = [.textMessage 0 1 [7]] ∧
      s.mWebsocketServer.mClients = [] := by simpa using heq
  obtain ⟨q, hq⟩ := (h _ _ s hs).found 0 hlive ⟨1, [7], hlog ▸ List.mem_cons_self⟩
  have hmem := (Server.getClient_spec hq).1
  rw [hclients] at hmem
  exact List.not_mem_nil hmem

end Answer
end V8Min
