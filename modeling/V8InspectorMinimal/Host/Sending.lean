import V8InspectorMinimal.Base.History
import V8InspectorMinimal.Host.Clients

/-! The way of a response from `SendResponse` to a write queue: through `Send` and `GetClient` of
the server and `Send` of a peer, with other threads moving at every step. -/

namespace V8Min
open Runs History Socket

/-! ## What the log says about sending -/

def sendCall : Event → Option (SoyRef × StdString)
  | .sent _ c m => some (c, m)
  | _ => none

def queuedOn (p : PeerId) : Event → Option StdString
  | .queued p' _ m => if p' = p then some m else none
  | _ => none

def messageText : Packet → Option StdString
  | .message m => some m
  | .reply _ => none

/-- What is queued is what `Send` was called with last. -/
def QueuedAsSent (pre : List Event) (e : Event) : Prop :=
  ∀ p c m, e = .queued p c m → lastOf sendCall pre = some (c, m)

/-! ## The invariant -/

def MainPc.sending : MainPc → Option (SoyRef × StdString)
  | .inV8 _ (.lockClients c m) | .inV8 _ (.getClient c m) | .inV8 _ (.unlockClients c m _)
  | .inV8 _ (.isCompleted c m _) | .inV8 _ (.push c m _) => some (c, m)
  | _ => none

def MainPc.target : MainPc → Option (SoyRef × PeerId)
  | .inV8 _ (.unlockClients c _ p) | .inV8 _ (.isCompleted c _ p) | .inV8 _ (.push c _ p) =>
    some (c, p)
  | _ => none

structure TargetInv (s : Host) : Prop where
  sending : ∀ x, s.main.sending = some x → lastOf sendCall s.log = some x
  target : ∀ c p, s.main.target = some (c, p) →
    p < s.mWebsocketServer.next ∧ (s.peer p).mConnectionRef = c
  queued : EachAfter QueuedAsSent s.log
  queuedRef : ∀ p c m, Event.queued p c m ∈ s.log →
    p < s.mWebsocketServer.next ∧ (s.peer p).mConnectionRef = c
  queues : ∀ p, (s.peer p).writeQueue.filterMap messageText = s.log.filterMap (queuedOn p)

theorem targetInv_init : TargetInv {} where
  sending _ h := nomatch h
  target _ _ h := nomatch h
  queued := eachAfter_nil _
  queuedRef _ _ _ h := nomatch h
  queues _ := rfl

def Event.OffSend : Event → Prop
  | .sent .. | .queued .. => False
  | _ => True

section Target
variable {soy : MessageBufferLib} {s t : Host} {a : Act}

theorem Event.OffSend.concat {e : Event} (he : e.OffSend) (log : List Event) :
    sendCall e = none ∧ QueuedAsSent log e ∧ (∀ p, queuedOn p e = none) ∧
      ∀ p c m, e ≠ .queued p c m := by
  cases e <;> first
    | exact absurd he not_false
    | exact ⟨rfl, nofun, fun _ => rfl, nofun⟩

theorem SameRefs.keeps (h : SameRefs s t) {p : PeerId} {c : SoyRef}
    (hp : p < s.mWebsocketServer.next ∧ (s.peer p).mConnectionRef = c) :
    p < t.mWebsocketServer.next ∧ (t.peer p).mConnectionRef = c :=
  ⟨Nat.lt_of_lt_of_le hp.1 h.next_le, (h.ref p hp.1).trans hp.2⟩

theorem TargetInv.quiet (h : TargetInv s) (refs : SameRefs s t)
    (queues : ∀ p, (t.peer p).writeQueue.filterMap messageText = s.log.filterMap (queuedOn p))
    (log : t.log = s.log ∨ ∃ e, t.log = s.log ++ [e] ∧ e.OffSend)
    (sending : ∀ x, t.main.sending = some x → s.main.sending = some x)
    (target : ∀ x, t.main.target = some x → s.main.target = some x) : TargetInv t := by
  rcases log with log | ⟨e, log, he⟩
  · exact {
      sending := fun x hx => log ▸ h.sending x (sending x hx)
      target := fun c p hp => refs.keeps (h.target c p (target _ hp))
      queued := log ▸ h.queued
      queuedRef := fun p c m hm => refs.keeps (h.queuedRef p c m (log ▸ hm))
      queues := fun p => by rw [queues, log] }
  · obtain ⟨hcall, hqueued, hon, hne⟩ := he.concat s.log
    exact {
      sending := fun x hx => by rw [log, lastOf_concat_none hcall, h.sending x (sending x hx)]
      target := fun c p hp => refs.keeps (h.target c p (target _ hp))
      queued := log ▸ h.queued.concat hqueued
      queuedRef := fun p c m hm => by
        rw [log] at hm
        rcases List.mem_append.mp hm with hm | hm
        · exact refs.keeps (h.queuedRef p c m hm)
        · exact absurd (List.mem_singleton.mp hm).symm (hne p c m)
      queues := fun p => by
        rw [queues, log, List.filterMap_append, List.filterMap_cons, hon, List.filterMap_nil,
          List.append_nil] }

theorem TargetInv.move (h : TargetInv s) {pc pc' : MainPc}
    (server : t.mWebsocketServer = s.mWebsocketServer)
    (log : t.log = s.log ∨ ∃ e, t.log = s.log ++ [e] ∧ e.OffSend) (hs : s.main = pc)
    (ht : t.main = pc') (sending : ∀ x, pc'.sending = some x → pc.sending = some x)
    (target : ∀ x, pc'.target = some x → pc.target = some x) : TargetInv t := by
  subst hs ht
  have hpeer : t.peer = s.peer := by
    funext p
    rw [Host.peer, server]
    rfl
  have refs : SameRefs s t := ⟨Nat.le_of_eq (by rw [server]), fun _ _ => by rw [hpeer]⟩
  exact h.quiet refs (fun p => by rw [hpeer, h.queues p]) log sending target

theorem TargetInv.other (h : TargetInv s) (refs : SameRefs s t) (main : t.main = s.main)
    (queues : ∀ p, (t.peer p).writeQueue.filterMap messageText = s.log.filterMap (queuedOn p))
    (log : t.log = s.log ∨ ∃ e, t.log = s.log ++ [e] ∧ e.OffSend) : TargetInv t :=
  h.quiet refs queues log (fun _ hx => main ▸ hx) (fun _ hx => main ▸ hx)

theorem targetInv_mainStep {a : MainAct} (h : TargetInv s) (hserver : ServerInv s)
    (refs : SameRefs s t) (hstep : MainStep s a t) : TargetInv t := by
  cases hstep with
  | startup pc => exact h.move rfl (Or.inl rfl) pc rfl nofun nofun
  | returns site pc =>
    cases site with
    | helloWorld => exact h.move rfl (Or.inl rfl) pc rfl nofun nofun
    | task => exact h.move rfl (Or.inl rfl) pc rfl nofun nofun
    | dispatch => exact h.move rfl (Or.inl rfl) pc rfl nofun nofun
  | pause site pc => exact h.move rfl (Or.inr ⟨_, rfl, trivial⟩) pc rfl nofun nofun
  | pauseReturns site pc => exact h.move rfl (Or.inr ⟨_, rfl, trivial⟩) pc rfl nofun nofun
  | quit site pc => exact h.move rfl (Or.inr ⟨_, rfl, trivial⟩) pc pc nofun nofun
  | respond site callId message m pc text => exact h.move rfl (Or.inl rfl) pc rfl nofun nofun
  | send site m pc =>
    exact {
      sending := fun x hx => lastOf_concat_some hx
      target := nofun
      queued := h.queued.concat nofun
      queuedRef := fun p c m hm => by
        rcases List.mem_append.mp hm with hm | hm
        · exact h.queuedRef p c m hm
        · cases List.mem_singleton.mp hm
      queues := fun p => by
        show (s.peer p).writeQueue.filterMap messageText = _
        rw [h.queues p]
        exact (List.filterMap_append.trans (List.append_nil _)).symm }
  | lockClients site c m l pc lock => exact h.move rfl (Or.inl rfl) pc rfl (fun _ => id) nofun
  | found site c m p pc client =>
    obtain ⟨hmem, href⟩ := Server.getClient_spec client
    exact {
      sending := fun x hx => h.sending x (by rw [pc]; exact hx)
      target := fun c' p' hx => by
        cases hx
        exact ⟨hserver.clients_lt p hmem, href⟩
      queued := h.queued
      queuedRef := h.queuedRef
      queues := h.queues }
  | notFound site c m e pc client => exact h.move rfl (Or.inl rfl) pc rfl nofun nofun
  | unlockClients site c m p pc => exact h.move rfl (Or.inl rfl) pc rfl (fun _ => id) (fun _ => id)
  | passed site c m p pc completed =>
    exact h.move rfl (Or.inl rfl) pc rfl (fun _ => id) (fun _ => id)
  | refused site c m p pc incomplete => exact h.move rfl (Or.inl rfl) pc rfl nofun nofun
  | push site c m p pc =>
    have hcall : lastOf sendCall s.log = some (c, m) := h.sending _ (by rw [pc]; rfl)
    have hp := h.target c p (by rw [pc]; rfl)
    have hqueued : QueuedAsSent s.log (.queued p c m) := by
      intro p' c' m' he
      obtain ⟨rfl, rfl, rfl⟩ := Event.queued.inj he
      exact hcall
    exact {
      sending := nofun
      target := nofun
      queued := h.queued.concat hqueued
      queuedRef := fun p' c' m' hm => by
        rcases List.mem_append.mp hm with hm | hm
        · exact refs.keeps (h.queuedRef p' c' m' hm)
        · obtain ⟨rfl, rfl, rfl⟩ := Event.queued.inj (List.mem_singleton.mp hm)
          exact refs.keeps hp
      queues := fun p' => by
        show ((s.setPeer p ((s.peer p).push (.message m))).peer p').writeQueue.filterMap
            messageText = (s.log ++ [Event.queued p c m]).filterMap (queuedOn p')
        rw [List.filterMap_append, ← h.queues p']
        by_cases hpp : p' = p
        · subst hpp
          rw [Host.setPeer_peer, Peer.push, List.filterMap_append]
          simp [messageText, queuedOn]
        · rw [Host.setPeer_peer_of_ne hpp]
          simp [queuedOn, Ne.symm hpp] }
  | onlyMessages pc only => exact h.move rfl (Or.inl rfl) pc rfl nofun nofun
  | enterPump pc all => exact h.move rfl (Or.inr ⟨_, rfl, trivial⟩) pc rfl nofun nofun
  | task pc => exact h.move rfl (Or.inr ⟨_, rfl, trivial⟩) pc rfl nofun nofun
  | noTask pc => exact h.move rfl (Or.inl rfl) pc rfl nofun nofun
  | lockMessages pc free => exact h.move rfl (Or.inr ⟨_, rfl, trivial⟩) pc rfl nofun nofun
  | noMessage pc empty => exact h.move rfl (Or.inl rfl) pc rfl nofun nofun
  | someMessage pc nonempty => exact h.move rfl (Or.inl rfl) pc rfl nofun nofun
  | popMessage m rest pc popped => exact h.move rfl (Or.inr ⟨_, rfl, trivial⟩) pc rfl nofun nofun
  | unlockMessages pc => exact h.move rfl (Or.inr ⟨_, rfl, trivial⟩) pc rfl nofun nofun
  | sleep pc => exact h.move rfl (Or.inl rfl) pc rfl nofun nofun

theorem messages_eq_of_readerStep {p q : Peer} {a : ReaderAct} (h : ReaderStep soy p a q) :
    q.writeQueue.filterMap messageText = p.writeQueue.filterMap messageText := by
  cases h with
  | alloc pc => simp
  | pushReply r pc =>
    rw [Peer.push, List.filterMap_append]
    exact List.append_nil _
  | _ => rfl

theorem TargetInv.reader (h : TargetInv s) (refs : SameRefs s t) {p : PeerId} {a : ReaderAct}
    {q : Peer} (hq : readerStep soy (s.peer p) a = some q) (hpeer : t.peer = (s.setPeer p q).peer)
    (main : t.main = s.main) (log : t.log = s.log ∨ ∃ e, t.log = s.log ++ [e] ∧ e.OffSend) :
    TargetInv t := by
  refine h.other refs main (fun p' => ?_) log
  rw [hpeer, ← h.queues p']
  by_cases hp : p' = p
  · rw [hp, Host.setPeer_peer, messages_eq_of_readerStep (readerStep_cases hq)]
  · rw [Host.setPeer_peer_of_ne hp]

theorem TargetInv.queues_nil (h : TargetInv s) {p : PeerId} (hp : ¬ p < s.mWebsocketServer.next) :
    s.log.filterMap (queuedOn p) = [] := by
  rw [List.filterMap_eq_nil_iff]
  intro e he
  cases e with
  | queued p' c m =>
    have hne : p' ≠ p := by
      rintro rfl
      exact hp (h.queuedRef p' c m he).1
    rw [queuedOn, if_neg hne]
  | _ => rfl

theorem targetInv_step (h : TargetInv s) (hserver : ServerInv s) (hstep : step soy s a = some t) :
    TargetInv t := by
  have hs := step_cases hstep
  have refs := hs.sameRefs
  cases hs with
  | main a t step => exact targetInv_mainStep h hserver refs step
  | reader p a q made step outside => exact h.reader refs step rfl rfl (Or.inl rfl)
  | callText p a b m q made step pc data =>
    exact h.reader refs step rfl rfl (Or.inr ⟨_, rfl, trivial⟩)
  | callBinary p a b q made step pc => exact h.reader refs step rfl rfl (Or.inl rfl)
  | handlerReturns p k b q made step pc returned => exact h.reader refs step rfl rfl (Or.inl rfl)
  | handlerThrows p k b q made step pc threw => exact h.reader refs step rfl rfl (Or.inl rfl)
  | record p c m pc => exact h.other refs rfl h.queues (Or.inr ⟨_, rfl, trivial⟩)
  | lock p c m pc free => exact h.other refs rfl h.queues (Or.inr ⟨_, rfl, trivial⟩)
  | pushBack p c m pc => exact h.other refs rfl h.queues (Or.inr ⟨_, rfl, trivial⟩)
  | construct c pc =>
    refine h.other refs rfl (fun p => ?_) (Or.inl rfl)
    show ((s.mWebsocketServer.newPeer c).peers p).writeQueue.filterMap messageText = _
    by_cases hp : p = s.mWebsocketServer.next
    · subst hp
      rw [Server.newPeer_peers_next, h.queues_nil (Nat.lt_irrefl _)]
      rfl
    · rw [Server.newPeer_peers_of_ne hp, ← h.queues p]
      rfl
  | _ => exact h.other refs rfl h.queues (Or.inl rfl)

end Target
end V8Min
