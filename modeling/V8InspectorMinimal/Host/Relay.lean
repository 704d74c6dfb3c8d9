import V8InspectorMinimal.Base.Relays
import V8InspectorMinimal.Host.Atomic
import V8InspectorMinimal.Host.Orderly

/-! What the program is for: a relay between the clients and V8. Of all that its threads do, the
relay knows the texts and the answers, and every run of the threads is one of the relay. There it
shows when the reference that `OnTextMessage` records is the right one to answer. -/

namespace V8Min
open Locks Runs Socket
open Relays (Answer Client Relay RelayAct Saying relayStep)

def HandlerPc.saying : HandlerPc → Saying StdString
  | .record _ m => .said m
  | .lock _ m | .pushBack _ m => .noted m
  | _ => .nothing

def MainPc.answer : MainPc → Answer SoyRef StdString
  | .inV8 _ (.sendResponse m) => .given m
  | .inV8 _ (.lockClients c m) | .inV8 _ (.getClient c m) | .inV8 _ (.unlockClients c m _)
  | .inV8 _ (.isCompleted c m _) | .inV8 _ (.push c m _) => .addressed c m
  | .threw _ _ => .lost
  | _ => .none

def MainPc.dispatching : MainPc → Bool
  | .inV8 site _ | .threw site _ => site == .dispatch
  | _ => false

namespace Host

def clientOf (s : Host) (p : PeerId) : Client SoyRef StdString where
  ref := s.refOf p
  ready := (s.peer p).isCompleted
  saying := (s.handlers p).saying
  answers := (s.peer p).writeQueue.filterMap messageText

def jammed (s : Host) : Bool :=
  match s.messagesLock.owner with
  | some (.reader p) => (s.handlers p).locked.isNone
  | _ => false

def relay (s : Host) : Relay SoyRef StdString where
  client := s.clientOf
  arrived := s.mWebsocketServer.next
  joined := s.mWebsocketServer.mClients.length
  speaker := s.mWebsocketClient
  posted := (pushes s.log).map fun r => (r.1, textOf r)
  taken := (dispatches s.log).length
  draining := s.messagesLock.owner == some .main
  jammed := s.jammed
  busy := s.main.dispatching
  answer := s.main.answer

def current (s : Host) : Option Received :=
  if s.main.dispatching then (pushes s.log)[(dispatches s.log).length - 1]? else none

/-- A response, with the peer whose message V8 has. -/
def given (s : Host) (a : Act) : Option (PeerId × StdString) :=
  (response a).bind fun m => s.current.map fun r => (r.1, m)

def Quiet (s : Host) : Prop :=
  (∀ p < s.mWebsocketServer.next, (s.handlers p).saying = .nothing) ∧ s.messages = [] ∧
    s.main.dispatching = false

instance (s : Host) : Decidable s.Quiet := inferInstanceAs (Decidable (_ ∧ _ ∧ _))

end Host

/-- References tell connections apart, clients whose connections are set up speak in turn, and V8
answers them from `dispatchProtocolMessage`. -/
def InTurn (s : Host) : Act → Prop
  | .connect c => c ∉ s.connections
  | .reader p _ => (s.peer p).reader.tells = true → s.Quiet ∧
      p ∈ s.mWebsocketServer.mClients ∧ (s.peer p).mHasSentAcceptReply = true
  | .main (.sendResponse _ _) => s.main.dispatching = true
  | _ => True

instance (s : Host) : DecidablePred (InTurn s)
  | .connect c => inferInstanceAs (Decidable (c ∉ s.connections))
  | .reader p _ => inferInstanceAs (Decidable ((s.peer p).reader.tells = true → s.Quiet ∧
      p ∈ s.mWebsocketServer.mClients ∧ (s.peer p).mHasSentAcceptReply = true))
  | .main (.sendResponse _ _) => inferInstanceAs (Decidable (s.main.dispatching = true))
  | .main .next | .main (.pumpMessageLoop _) | .main .runMessageLoopOnPause
  | .main .quitMessageLoopOnPause | .main .returns | .handler _ | .pushBackThrows _ | .accept
  | .disconnect _ => .isTrue trivial

theorem relay_init : Host.relay {} = Relay.start 0 := rfl

/-! ## What the relay sees -/

section Step
variable {soy : MessageBufferLib} {s t : Host} {a : Act}

theorem current_relay (s : Host) :
    s.relay.current = s.current.map fun r => (r.1, textOf r) := by
  unfold Relay.current Host.current
  rw [apply_ite (Option.map _), Option.map_none, ← List.getElem?_map]
  rfl

/-- A step that the relay sees, or one that changes nothing there. -/
def Relayed (s : Host) (a : Act) (t : Host) : Prop :=
  (t.relay = s.relay ∧ s.given a = none) ∨ ∃ b, relayStep s.relay b = some t.relay ∧
    Relays.given s.relay b = s.given a ∧
    (s.connections.Nodup → InTurn s a → Relays.TakesTurns s.relay b)

structure RelayInv (s : Host) : Prop where
  queue : QueueInv s
  send : SendInv s
  record : RecordInv s
  noted : ∀ p c m, s.handlers p = .record c m → c = s.refOf p

theorem relay_of_main (same : MainFrame s t) (server : t.mWebsocketServer = s.mWebsocketServer)
    (lock : t.messagesLock = s.messagesLock) (pushed : pushes t.log = pushes s.log)
    (dispatched : dispatches t.log = dispatches s.log) :
    t.relay = { s.relay with busy := t.main.dispatching, answer := t.main.answer } := by
  have hpeer : t.peer = s.peer := by
    unfold Host.peer
    rw [server]
  unfold Host.relay Host.clientOf Host.refOf Host.jammed
  rw [hpeer, server, lock, same.handlers, same.mWebsocketClient, pushed, dispatched]

theorem Relayed.quiet (h : t.relay = s.relay) (hnone : response a = none) : Relayed s a t := by
  refine Or.inl ⟨h, ?_⟩
  rw [Host.given, hnone]
  rfl

theorem Relayed.act {b : RelayAct SoyRef StdString} (h : relayStep s.relay b = some t.relay)
    (hgiven : Relays.given s.relay b = none) (hnone : response a = none)
    (hok : s.connections.Nodup → InTurn s a → Relays.TakesTurns s.relay b) : Relayed s a t := by
  refine Or.inr ⟨b, h, ?_, hok⟩
  rw [hgiven, Host.given, hnone]
  rfl

theorem offQueue_log (log : t.log = s.log ∨ ∃ e, t.log = s.log ++ [e] ∧ pushing e = none ∧
      dispatching e = none) :
    pushes t.log = pushes s.log ∧ dispatches t.log = dispatches s.log := by
  rcases log with log | ⟨e, log, hpush, hdispatch⟩
  · rw [log]
    exact ⟨rfl, rfl⟩
  · rw [log, pushes_concat, dispatches_concat, hpush, hdispatch]
    exact ⟨List.append_nil _, List.append_nil _⟩

theorem relay_of_move {pc pc' : MainPc} (same : MainFrame s t)
    (server : t.mWebsocketServer = s.mWebsocketServer) (lock : t.messagesLock = s.messagesLock)
    (log : t.log = s.log ∨ ∃ e, t.log = s.log ++ [e] ∧ pushing e = none ∧ dispatching e = none)
    (hs : s.main = pc) (ht : t.main = pc') :
    t.relay = { s.relay with busy := pc'.dispatching, answer := pc'.answer } ∧
      s.relay = { s.relay with busy := pc.dispatching, answer := pc.answer } := by
  obtain ⟨pushed, dispatched⟩ := offQueue_log log
  subst hs ht
  exact ⟨relay_of_main same server lock pushed dispatched, rfl⟩

/-! ## Whom the relay finds -/

theorem find?_relay (h : Inserted s) (c : SoyRef) :
    ((List.range s.relay.joined).find? fun k => (s.relay.client k).ref = c) =
      s.mWebsocketServer.mClients.find? fun p =>
        (s.mWebsocketServer.peers p).mConnectionRef = c := by
  show (List.range s.mWebsocketServer.mClients.length).find? _ = _
  rw [← h.mClients_eq]
  rfl

theorem addressee_of_ok (h : Inserted s) {c : SoyRef} {p : PeerId}
    (hp : s.mWebsocketServer.getClient c = .ok p) :
    s.relay.addressee c = if (s.peer p).isCompleted then some p else none := by
  rw [Server.getClient_eq_ok, ← Server.find?_mClients] at hp
  rw [Relay.addressee, find?_relay h, hp, Option.filter_some]
  rfl

theorem addressee_of_error (h : Inserted s) {c : SoyRef} {e : AssertException}
    (hp : s.mWebsocketServer.getClient c = .error e) : s.relay.addressee c = none := by
  have hnil := (Server.getClient_eq_error.mp hp).1
  rw [Relay.addressee, find?_relay h, Server.find?_mClients, hnil]
  rfl

theorem deliver_of_none {c : SoyRef} {m : StdString} (hanswer : s.main.answer = .addressed c m)
    (hnone : s.relay.addressee c = none) :
    relayStep s.relay .deliver = some { s.relay with answer := .lost } := by
  have hrelay : s.relay.answer = .addressed c m := hanswer
  simp only [relayStep, hrelay, hnone]

theorem deliver_of_some {c : SoyRef} {m : StdString} {p : PeerId}
    (hanswer : s.main.answer = .addressed c m) (hsome : s.relay.addressee c = some p) :
    relayStep s.relay .deliver = some { s.relay.pushAnswer p m with answer := .none } := by
  have hrelay : s.relay.answer = .addressed c m := hanswer
  simp only [relayStep, hrelay, hsome]

theorem clientOf_eq_update {p : PeerId} {v : Client SoyRef StdString} (hp : t.clientOf p = v)
    (hother : ∀ p', p' ≠ p → t.clientOf p' = s.clientOf p') :
    t.clientOf = Function.update s.clientOf p v := by
  rw [Function.eq_update_iff]
  exact ⟨hp, hother⟩

structure SameClient (q q' : Peer) : Prop where
  ref : q'.mConnectionRef = q.mConnectionRef
  ready : q'.isCompleted = q.isCompleted
  answers : q'.writeQueue.filterMap messageText = q.writeQueue.filterMap messageText

theorem SameClient.refl (q : Peer) : SameClient q q := ⟨rfl, rfl, rfl⟩

theorem clientOf_congr {p : PeerId} (hpeer : SameClient (s.peer p) (t.peer p)) :
    t.clientOf p = { s.clientOf p with saying := (t.handlers p).saying } := by
  unfold Host.clientOf Host.refOf
  rw [hpeer.ref, hpeer.ready, hpeer.answers]

theorem clientOf_handler {p : PeerId} (pc : HandlerPc)
    (handlers : t.handlers = Function.update s.handlers p pc)
    (peers : ∀ p', SameClient (s.peer p') (t.peer p')) :
    t.clientOf = (s.relay.setSaying p pc.saying).client := by
  refine clientOf_eq_update ?_ fun p' hp => ?_
  · rw [clientOf_congr (peers p), handlers, Function.update_self]
    rfl
  · rw [clientOf_congr (peers p'), handlers, Function.update_of_ne hp]
    rfl

theorem clientOf_still (handlers : ∀ p, (t.handlers p).saying = (s.handlers p).saying)
    (peers : ∀ p, SameClient (s.peer p) (t.peer p)) : t.clientOf = s.clientOf := by
  funext p
  rw [clientOf_congr (peers p), handlers]
  rfl

theorem sameClient_setPeer {p : PeerId} {q : Peer} (hpeer : t.peer = (s.setPeer p q).peer)
    (hq : SameClient (s.peer p) q) (p' : PeerId) : SameClient (s.peer p') (t.peer p') := by
  rw [hpeer]
  by_cases hp : p' = p
  · rw [hp, Host.setPeer_peer]
    exact hq
  · rw [Host.setPeer_peer_of_ne hp]
    exact .refl _

theorem posted_concat {e : Event} (he : pushing e = none) :
    (pushes (s.log ++ [e])).map (fun r => (r.1, textOf r)) = s.relay.posted := by
  rw [pushes_concat, he]
  exact congrArg (List.map _) (List.append_nil _)

theorem taken_concat {e : Event} (he : dispatching e = none) :
    (dispatches (s.log ++ [e])).length = s.relay.taken := by
  rw [dispatches_concat, he]
  exact congrArg List.length (List.append_nil _)

theorem relay_push {site : Site} {c : SoyRef} {m : StdString} {p : PeerId}
    (pc : s.main = .inV8 site (.push c m p)) :
    ({ (s.setPeer p ((s.peer p).push (.message m))).emit (.queued p c m) with
      main := .inV8 site .script } : Host).relay =
      { s.relay.pushAnswer p m with answer := .none } := by
  let t : Host := { (s.setPeer p ((s.peer p).push (.message m))).emit (.queued p c m) with
    main := .inV8 site .script }
  have hpeer : t.peer p = (s.peer p).push (.message m) := Function.update_self ..
  have hclient : t.clientOf = (s.relay.pushAnswer p m).client := by
    refine clientOf_eq_update ?_ fun p' hp => ?_
    · unfold Host.clientOf Host.refOf
      rw [hpeer, Peer.push, List.filterMap_append]
      rfl
    · have hother : t.peer p' = s.peer p' := Function.update_of_ne hp ..
      unfold Host.clientOf Host.refOf
      rw [hother]
      rfl
  have hbusy : s.relay.busy = (site == .dispatch) := congrArg MainPc.dispatching pc
  exact Relay.ext hclient rfl rfl rfl (posted_concat rfl) (taken_concat rfl) rfl rfl hbusy.symm rfl

theorem posted_length (h : QueueInv s) :
    s.relay.posted.length = s.relay.taken + s.messages.length := by
  have hlength := congrArg List.length h.kept
  rw [List.length_append, List.length_map] at hlength
  exact (List.length_map ..).trans hlength.symm

theorem relay_of_free (h : s.messagesLock.owner = none) :
    s.relay.draining = false ∧ s.relay.jammed = false := by
  have hdraining : s.relay.draining = (s.messagesLock.owner == some .main) := rfl
  have hjammed : s.relay.jammed = s.jammed := rfl
  rw [hdraining, hjammed, Host.jammed, h]
  exact ⟨rfl, rfl⟩

theorem relay_of_drained (h : s.messagesLock.owner = some .main) :
    s.relay.draining = true ∧ s.relay.jammed = false := by
  have hdraining : s.relay.draining = (s.messagesLock.owner == some .main) := rfl
  have hjammed : s.relay.jammed = s.jammed := rfl
  rw [hdraining, hjammed, Host.jammed, h]
  exact ⟨rfl, rfl⟩

/-! ## The main thread -/

theorem relayed_mainStep {a : MainAct} (h : RelayInv s) (hstep : MainStep s a t) :
    Relayed s (.main a) t := by
  have same := hstep.mainFrame
  have hmove {pc pc' : MainPc} (server : t.mWebsocketServer = s.mWebsocketServer)
      (lock : t.messagesLock = s.messagesLock)
      (log : t.log = s.log ∨ ∃ e, t.log = s.log ++ [e] ∧ pushing e = none ∧ dispatching e = none)
      (hs : s.main = pc) (ht : t.main = pc') := relay_of_move same server lock log hs ht
  -- where the relay sees nothing of the main thread, or sees where it is with an answer
  have hstill {pc pc' : MainPc} (server : t.mWebsocketServer = s.mWebsocketServer)
      (lock : t.messagesLock = s.messagesLock)
      (log : t.log = s.log ∨ ∃ e, t.log = s.log ++ [e] ∧ pushing e = none ∧ dispatching e = none)
      (hs : s.main = pc) (ht : t.main = pc') (hbusy : pc'.dispatching = pc.dispatching)
      (hanswer : pc'.answer = pc.answer) : t.relay = s.relay := by
    obtain ⟨htr, hsr⟩ := relay_of_move same server lock log hs ht
    rw [htr, hbusy, hanswer]
    exact hsr.symm
  cases hstep with
  | startup pc => exact .quiet (hstill rfl rfl (Or.inl rfl) pc rfl rfl rfl) rfl
  | returns site pc =>
    obtain ⟨htr, hsr⟩ := hmove rfl rfl (Or.inl rfl) pc rfl
    -- V8 has a text only where it was dispatched one
    cases site with
    | helloWorld => exact .quiet (htr.trans hsr.symm) rfl
    | task => exact .quiet (htr.trans hsr.symm) rfl
    | dispatch =>
      refine .act (b := .finish) ?_ rfl rfl fun _ _ => trivial
      rw [hsr, htr]
      rfl
  | pause site pc =>
    exact .quiet (hstill rfl rfl (Or.inr ⟨_, rfl, rfl, rfl⟩) pc rfl rfl rfl) rfl
  | pauseReturns site pc =>
    exact .quiet (hstill rfl rfl (Or.inr ⟨_, rfl, rfl, rfl⟩) pc rfl rfl rfl) rfl
  | quit site pc =>
    exact .quiet (hstill rfl rfl (Or.inr ⟨_, rfl, rfl, rfl⟩) pc pc rfl rfl) rfl
  | respond site callId message m pc text =>
    obtain ⟨htr, hsr⟩ := hmove rfl rfl (Or.inl rfl) pc rfl
    refine Or.inr ⟨.give m, ?_, ?_, fun _ hok => hok⟩
    · rw [hsr, htr]
      rfl
    · have hresponse : response (.main (.sendResponse callId message)) = some m := text
      rw [Host.given, hresponse, Relays.given, current_relay, Option.map_map]
      rfl
  | send site m pc =>
    obtain ⟨htr, hsr⟩ := hmove rfl rfl (Or.inr ⟨_, rfl, rfl, rfl⟩) pc rfl
    refine .act (b := .address) ?_ rfl rfl fun _ _ => trivial
    rw [hsr, htr]
    rfl
  | lockClients site c m l pc lock =>
    exact .quiet (hstill rfl rfl (Or.inl rfl) pc rfl rfl rfl) rfl
  | found site c m p pc client => exact .quiet (hstill rfl rfl (Or.inl rfl) pc rfl rfl rfl) rfl
  -- the exception takes the answer with it
  | notFound site c m e pc client =>
    obtain ⟨htr, -⟩ := hmove rfl rfl (Or.inl rfl) pc rfl
    refine .act (b := .deliver) ?_ rfl rfl fun _ _ => trivial
    have hnone := addressee_of_error h.send.found.inserted client
    have hbusy : s.relay.busy = (site == .dispatch) := congrArg MainPc.dispatching pc
    rw [deliver_of_none (c := c) (m := m) (by rw [pc]; rfl) hnone, htr]
    exact congrArg some (Relay.ext rfl rfl rfl rfl rfl rfl rfl rfl hbusy rfl)
  | unlockClients site c m p pc =>
    exact .quiet (hstill rfl rfl (Or.inl rfl) pc rfl rfl rfl) rfl
  | passed site c m p pc completed =>
    exact .quiet (hstill rfl rfl (Or.inl rfl) pc rfl rfl rfl) rfl
  | refused site c m p pc incomplete =>
    obtain ⟨htr, -⟩ := hmove rfl rfl (Or.inl rfl) pc rfl
    refine .act (b := .deliver) ?_ rfl rfl fun _ _ => trivial
    have hclient := h.send.found.target c p (by rw [pc]; rfl)
    have hnone := addressee_of_ok h.send.found.inserted hclient
    rw [if_neg (by rw [Peer.isCompleted, incomplete]; exact Bool.noConfusion)] at hnone
    have hbusy : s.relay.busy = (site == .dispatch) := congrArg MainPc.dispatching pc
    rw [deliver_of_none (c := c) (m := m) (by rw [pc]; rfl) hnone, htr]
    exact congrArg some (Relay.ext rfl rfl rfl rfl rfl rfl rfl rfl hbusy rfl)
  | push site c m p pc =>
    refine .act (b := .deliver) ?_ rfl rfl fun _ _ => trivial
    have hclient := h.send.found.target c p (by rw [pc]; rfl)
    have hsome := addressee_of_ok h.send.found.inserted hclient
    rw [if_pos (h.send.completed site c m p pc)] at hsome
    rw [deliver_of_some (c := c) (m := m) (by rw [pc]; rfl) hsome]
    exact congrArg some (relay_push pc).symm
  | onlyMessages pc only => exact .quiet (hstill rfl rfl (Or.inl rfl) pc rfl rfl rfl) rfl
  | enterPump pc all =>
    exact .quiet (hstill rfl rfl (Or.inr ⟨_, rfl, rfl, rfl⟩) pc rfl rfl rfl) rfl
  | task pc => exact .quiet (hstill rfl rfl (Or.inr ⟨_, rfl, rfl, rfl⟩) pc rfl rfl rfl) rfl
  | noTask pc => exact .quiet (hstill rfl rfl (Or.inl rfl) pc rfl rfl rfl) rfl
  | lockMessages pc free =>
    refine .act (b := .drain) ?_ rfl rfl fun _ _ => trivial
    obtain ⟨hdraining, hjammed⟩ := relay_of_free free
    have hbusy : s.relay.busy = false := congrArg MainPc.dispatching pc
    have hanswer : s.relay.answer = .none := congrArg MainPc.answer pc
    rw [relayStep, if_pos ⟨hdraining, hjammed⟩]
    exact congrArg some (Relay.ext rfl rfl rfl rfl (posted_concat rfl).symm
      (taken_concat rfl).symm rfl hjammed hbusy hanswer)
  | noMessage pc empty => exact .quiet (hstill rfl rfl (Or.inl rfl) pc rfl rfl rfl) rfl
  | someMessage pc nonempty => exact .quiet (hstill rfl rfl (Or.inl rfl) pc rfl rfl rfl) rfl
  | popMessage m rest pc popped =>
    refine .act (b := .take) ?_ rfl rfl fun _ _ => trivial
    obtain ⟨hdraining, -⟩ := relay_of_drained (h.queue.mainOwns (by rw [pc]; rfl))
    have hbusy : s.relay.busy = false := congrArg MainPc.dispatching pc
    have hanswer : s.relay.answer = .none := congrArg MainPc.answer pc
    have htaken : s.relay.taken < s.relay.posted.length := by
      have hposted := posted_length h.queue
      rw [popped, List.length_cons] at hposted
      omega
    rw [relayStep, if_pos ⟨hdraining, hbusy, htaken⟩]
    have hnext : (dispatches (s.log ++ [.dispatched m])).length = s.relay.taken + 1 := by
      rw [dispatches_concat, List.length_append]
      rfl
    exact congrArg some (Relay.ext rfl rfl rfl rfl (posted_concat rfl).symm hnext.symm rfl rfl rfl
      hanswer)
  | unlockMessages pc =>
    refine .act (b := .leave) ?_ rfl rfl fun _ _ => trivial
    obtain ⟨hdraining, hjammed⟩ := relay_of_drained (h.queue.mainOwns (by rw [pc]; rfl))
    have hbusy : s.relay.busy = false := congrArg MainPc.dispatching pc
    have hanswer : s.relay.answer = .none := congrArg MainPc.answer pc
    have hdone : s.relay.taken = s.relay.posted.length := by
      have hposted := posted_length h.queue
      rw [h.queue.empty pc] at hposted
      exact hposted.symm
    rw [relayStep, if_pos ⟨hdraining, hbusy, hdone⟩]
    exact congrArg some (Relay.ext rfl rfl rfl rfl (posted_concat rfl).symm
      (taken_concat rfl).symm rfl hjammed hbusy hanswer)
  | sleep pc => exact .quiet (hstill rfl rfl (Or.inl rfl) pc rfl rfl rfl) rfl

/-! ## The other threads -/

theorem jammed_congr (lock : t.messagesLock = s.messagesLock)
    (locked : ∀ p, (t.handlers p).locked = (s.handlers p).locked) : t.jammed = s.jammed := by
  unfold Host.jammed
  rw [lock]
  split
  · rw [locked]
  · rfl

theorem relayed_reader {p : PeerId} {ra : ReaderAct} {q : Peer} (made : p < s.mWebsocketServer.next)
    (hstep : readerStep soy (s.peer p) ra = some q) : Relayed s (.reader p ra) (s.setPeer p q) := by
  have hread := readerStep_cases hstep
  have href : q.mConnectionRef = (s.peer p).mConnectionRef := hread.mConnectionRef_eq
  have hanswers := messages_eq_of_readerStep hread
  -- the relay sees of a read thread that its handshake is completed, and no more
  by_cases hsame : q.isCompleted = (s.peer p).isCompleted
  · have hclient : (s.setPeer p q).clientOf = s.clientOf :=
      clientOf_still (fun _ => rfl) (sameClient_setPeer rfl ⟨href, hsame, hanswers⟩)
    exact .quiet (Relay.ext hclient rfl rfl rfl rfl rfl rfl rfl rfl rfl) rfl
  · have hready : q.isCompleted = true := by
      cases hp : (s.peer p).isCompleted with
      | false => exact eq_true_of_ne_false fun hq => hsame (hq.trans hp.symm)
      | true => exact isCompleted_readerStep hread hp
    refine .act (b := .ready p) ?_ rfl rfl fun _ _ => trivial
    have hclient : (s.setPeer p q).clientOf =
        (s.relay.setClient p { s.relay.client p with ready := true }).client := by
      refine clientOf_eq_update ?_ fun p' hp => ?_
      · unfold Host.clientOf Host.refOf
        rw [Host.setPeer_peer, href, hready, hanswers]
        rfl
      · unfold Host.clientOf Host.refOf
        rw [Host.setPeer_peer_of_ne hp]
        rfl
    have harrived : p < s.relay.arrived := made
    rw [relayStep, if_pos harrived]
    exact congrArg some (Relay.ext hclient.symm rfl rfl rfl rfl rfl rfl rfl rfl rfl)

theorem saying_eq_nothing (h : HandlersInside s) {p : PeerId} (hp : ¬ p < s.mWebsocketServer.next) :
    (s.handlers p).saying = .nothing := by
  have hidle : s.handlers p = .idle := by
    by_contra hne
    exact hp (h p hne).1
  rw [hidle]
  rfl

theorem idle_of_quiet (h : QueueInv s) (hquiet : s.Quiet) : s.relay.Idle where
  quiet p := by
    by_cases hp : p < s.mWebsocketServer.next
    · exact hquiet.1 p hp
    · exact saying_eq_nothing h.inside hp
  free := hquiet.2.2
  done := by
    have hposted := posted_length h
    rw [hquiet.2.1] at hposted
    exact hposted.symm

theorem Inserted.of_pc (h : Inserted s) {pc : AcceptPc} (hpc : s.accept = pc) :
    s.mWebsocketServer.mClients ++ pc.inHand = List.range s.mWebsocketServer.next := hpc ▸ h

theorem Inserted.lt_joined (h : Inserted s) {p : PeerId} (hp : p ∈ s.mWebsocketServer.mClients) :
    p < s.relay.joined := by
  rw [h.mClients_eq] at hp
  exact List.mem_range.mp hp

theorem relayed_callText {p : PeerId} {ra : ReaderAct} {b : BufferId} {m : StdString} {q : Peer}
    (h : RelayInv s) (made : p < s.mWebsocketServer.next)
    (hstep : readerStep soy (s.peer p) ra = some q)
    (pc : (s.peer p).reader = .callHandler .text b) : Relayed s (.reader p ra)
      (((s.setPeer p q).setHandler p (.record (s.peer p).mConnectionRef m)).emit
        (.textMessage p (s.peer p).mConnectionRef m)) := by
  have hidle : s.handlers p = .idle := h.queue.inside.idle_of_pc fun k b' => by
    rw [pc]
    exact ReaderPc.noConfusion
  have hq : SameClient (s.peer p) q := by
    rw [(readerStep_callHandler pc hstep).2]
    exact ⟨rfl, rfl, rfl⟩
  let t : Host := ((s.setPeer p q).setHandler p (.record (s.peer p).mConnectionRef m)).emit
    (.textMessage p (s.peer p).mConnectionRef m)
  have hclient : t.clientOf = (s.relay.setSaying p (.said m)).client :=
    clientOf_handler (.record (s.peer p).mConnectionRef m) rfl (sameClient_setPeer rfl hq)
  have hjammed : t.jammed = s.jammed :=
    jammed_congr rfl (locked_update (p := p) rfl (by rw [hidle]; rfl) rfl)
  have hsaying : (s.relay.client p).saying = .nothing := congrArg HandlerPc.saying hidle
  have harrived : p < s.relay.arrived := made
  refine .act (b := .say p m) ?_ rfl rfl fun _ hok => ?_
  · simp only [relayStep, hsaying, if_pos harrived]
    exact congrArg some (Relay.ext hclient.symm rfl rfl rfl (posted_concat rfl).symm
      (taken_concat rfl).symm rfl hjammed.symm rfl rfl)
  · obtain ⟨hquiet, hmem, hsent⟩ := hok (by rw [pc]; rfl)
    exact ⟨idle_of_quiet h.queue hquiet, h.send.found.inserted.lt_joined hmem, hsent⟩

theorem relay_of_owned {p : PeerId} {pc : HandlerPc} (h : QueueInv s) (hpc : s.handlers p = pc)
    (hlocked : pc.locked ≠ none) : s.relay.draining = false ∧ s.relay.jammed = false := by
  have howner := h.owner_of_locked hpc hlocked
  have hdraining : s.relay.draining = (s.messagesLock.owner == some .main) := rfl
  have hjammed : s.relay.jammed = s.jammed := rfl
  rw [hdraining, hjammed, Host.jammed, howner]
  refine ⟨rfl, ?_⟩
  rw [← Bool.not_eq_true, Option.isNone_iff_eq_none, hpc]
  exact hlocked

theorem relayed_record {p : PeerId} {c : SoyRef} {m : StdString} (h : RelayInv s)
    (pc : s.handlers p = .record c m) : Relayed s (.handler p)
      { (s.setHandler p (.lock c m)).emit (.recorded p c m) with mWebsocketClient := c } := by
  let t : Host := { (s.setHandler p (.lock c m)).emit (.recorded p c m) with mWebsocketClient := c }
  have hclient : t.clientOf = (s.relay.setSaying p (.noted m)).client :=
    clientOf_handler (.lock c m) rfl fun _ => .refl _
  have hjammed : t.jammed = s.jammed :=
    jammed_congr rfl (locked_update (p := p) rfl (by rw [pc]; rfl) rfl)
  have hsaying : (s.relay.client p).saying = .said m := congrArg HandlerPc.saying pc
  have href : (s.relay.client p).ref = c := (h.noted p c m pc).symm
  refine .act (b := .note p) ?_ rfl rfl fun _ _ => trivial
  simp only [relayStep, hsaying]
  exact congrArg some (Relay.ext hclient.symm rfl rfl href (posted_concat rfl).symm
    (taken_concat rfl).symm rfl hjammed.symm rfl rfl)

theorem relayed_pushBack {p : PeerId} {c : SoyRef} {m : StdString} (h : RelayInv s)
    (pc : s.handlers p = .pushBack c m) : Relayed s (.handler p)
      { (s.setHandler p .unlock).emit (.pushed p c m) with messages := s.messages ++ [m] } := by
  let t : Host :=
    { (s.setHandler p .unlock).emit (.pushed p c m) with messages := s.messages ++ [m] }
  have hopen := relay_of_owned h.queue pc (Option.some_ne_none _)
  have hclient : t.clientOf = (s.relay.setSaying p .nothing).client :=
    clientOf_handler .unlock rfl fun _ => .refl _
  have hjammed : t.jammed = s.relay.jammed := by
    rw [hopen.2, Host.jammed, show t.messagesLock.owner = some (.reader p) from
      h.queue.owner_of_locked pc (Option.some_ne_none _)]
    show ((s.setHandler p .unlock).handlers p).locked.isNone = false
    rw [Host.setHandler_handlers]
    rfl
  have hposted : t.relay.posted = s.relay.posted ++ [(p, m)] := by
    show (pushes (s.log ++ [.pushed p c m])).map _ = _
    rw [pushes_concat, List.map_append]
    rfl
  have hsaying : (s.relay.client p).saying = .noted m := congrArg HandlerPc.saying pc
  refine .act (b := .post p) ?_ rfl rfl fun _ _ => trivial
  simp only [relayStep, hsaying, if_pos hopen]
  exact congrArg some (Relay.ext hclient.symm rfl rfl rfl hposted.symm
    (taken_concat rfl).symm rfl hjammed.symm rfl rfl)

theorem relayed_pushBackThrows {p : PeerId} {c : SoyRef} {m : StdString} (h : RelayInv s)
    (pc : s.handlers p = .pushBack c m) :
    Relayed s (.pushBackThrows p) (s.setHandler p .threw) := by
  have hopen := relay_of_owned h.queue pc (Option.some_ne_none _)
  have hclient : (s.setHandler p .threw).clientOf = (s.relay.setSaying p .nothing).client :=
    clientOf_handler .threw rfl fun _ => .refl _
  -- the lock is left with a thread whose handler is gone
  have hjammed : (s.setHandler p .threw).jammed = true := by
    rw [Host.jammed, show (s.setHandler p .threw).messagesLock.owner = some (.reader p) from
      h.queue.owner_of_locked pc (Option.some_ne_none _)]
    show ((s.setHandler p .threw).handlers p).locked.isNone = true
    rw [Host.setHandler_handlers]
    rfl
  have hsaying : (s.relay.client p).saying = .noted m := congrArg HandlerPc.saying pc
  refine .act (b := .jam p) ?_ rfl rfl fun _ _ => trivial
  simp only [relayStep, hsaying, if_pos hopen]
  exact congrArg some (Relay.ext hclient.symm rfl rfl rfl rfl rfl rfl hjammed.symm rfl rfl)

theorem relayed_lock {p : PeerId} {c : SoyRef} {m : StdString} (pc : s.handlers p = .lock c m)
    (free : s.messagesLock.owner = none) : Relayed s (.handler p)
      { (s.setHandler p (.pushBack c m)).emit (.acquired p c m) with
        messagesLock := ⟨some (.reader p)⟩ } := by
  let t : Host := { (s.setHandler p (.pushBack c m)).emit (.acquired p c m) with
    messagesLock := ⟨some (.reader p)⟩ }
  obtain ⟨hdraining, hjammed⟩ := relay_of_free free
  have hclient : t.clientOf = s.clientOf :=
    clientOf_still (apply_handlers_update HandlerPc.saying (p := p) rfl pc rfl) fun _ => .refl _
  have ht : t.jammed = false := by
    show ((s.setHandler p (.pushBack c m)).handlers p).locked.isNone = false
    rw [Host.setHandler_handlers]
    rfl
  exact .quiet (Relay.ext hclient rfl rfl rfl (posted_concat rfl) (taken_concat rfl) hdraining.symm
    (ht.trans hjammed.symm) rfl rfl) rfl

theorem relayed_unlock {p : PeerId} (h : RelayInv s) (pc : s.handlers p = .unlock) :
    Relayed s (.handler p)
      { s.setHandler p .returned with messagesLock := s.messagesLock.unlock } := by
  obtain ⟨hdraining, hjammed⟩ := relay_of_owned h.queue pc (Option.some_ne_none _)
  have hclient : (s.setHandler p .returned).clientOf = s.clientOf :=
    clientOf_still (apply_handlers_update HandlerPc.saying (p := p) rfl pc rfl) fun _ => .refl _
  exact .quiet (Relay.ext hclient rfl rfl rfl rfl rfl hdraining.symm hjammed.symm rfl rfl) rfl

theorem relayed_handling {p : PeerId} {ra : ReaderAct} {pc pc' : HandlerPc} {q : Peer}
    (hpc : s.handlers p = pc) (saying : pc'.saying = pc.saying) (before : pc.locked = none)
    (after : pc'.locked = none) (hq : SameClient (s.peer p) q) :
    Relayed s (.reader p ra) ((s.setPeer p q).setHandler p pc') := by
  have hclient : ((s.setPeer p q).setHandler p pc').clientOf = s.clientOf :=
    clientOf_still (apply_handlers_update HandlerPc.saying (p := p) rfl hpc saying)
      (sameClient_setPeer rfl hq)
  have hjammed : ((s.setPeer p q).setHandler p pc').jammed = s.jammed :=
    jammed_congr rfl (locked_update (p := p) rfl (by rw [hpc]; exact before) after)
  exact .quiet (Relay.ext hclient rfl rfl rfl rfl rfl rfl hjammed rfl rfl) rfl

theorem sameClient_of_handling {p : PeerId} {ra : ReaderAct} {k : Kind} {b : BufferId} {q : Peer}
    (hstep : readerStep soy (s.peer p) ra = some q) (pc : (s.peer p).reader = .handling k b) :
    SameClient (s.peer p) q := by
  have hread := readerStep_cases hstep
  refine ⟨hread.mConnectionRef_eq, ?_, messages_eq_of_readerStep hread⟩
  cases hread with
  | setHasSent r pc' => cases pc.symm.trans pc'
  | alloc pc' => cases pc.symm.trans pc'
  | _ => rfl

theorem relayed_construct {c : SoyRef} (h : RelayInv s) (pc : s.accept = .construct c) :
    Relayed s .accept { s with
      mWebsocketServer := s.mWebsocketServer.newPeer c
      live := Function.update s.live s.mWebsocketServer.next true
      accept := .lockClients s.mWebsocketServer.next } := by
  let t : Host := { s with
    mWebsocketServer := s.mWebsocketServer.newPeer c
    live := Function.update s.live s.mWebsocketServer.next true
    accept := .lockClients s.mWebsocketServer.next }
  have hclient : t.clientOf = (s.relay.setClient s.mWebsocketServer.next { ref := c }).client := by
    refine clientOf_eq_update ?_ fun p hp => ?_
    · have hpeer : t.peer s.mWebsocketServer.next = { mConnectionRef := c } :=
        Server.newPeer_peers_next _ c
      have hsaying := saying_eq_nothing h.queue.inside (Nat.lt_irrefl s.mWebsocketServer.next)
      unfold Host.clientOf Host.refOf
      rw [hpeer, hsaying]
      rfl
    · have hpeer : t.peer p = s.peer p := Server.newPeer_peers_of_ne hp
      unfold Host.clientOf Host.refOf
      rw [hpeer]
  -- one thread runs `AddClient`, so that all peers before are in `mClients`
  have hjoined : s.relay.joined = s.relay.arrived := by
    have hall : s.mWebsocketServer.mClients ++ [] = List.range s.mWebsocketServer.next :=
      h.send.found.inserted.of_pc pc
    have hlength := congrArg List.length hall
    rw [List.append_nil, List.length_range] at hlength
    exact hlength
  refine .act (b := .arrive c) ?_ rfl rfl fun hfresh _ => ?_
  · rw [relayStep, if_pos hjoined]
    exact congrArg some (Relay.ext hclient.symm rfl rfl rfl rfl rfl rfl rfl rfl rfl)
  · intro p hp href
    rw [Host.connections, pc] at hfresh
    have hdisjoint := (List.nodup_append.mp hfresh).2.2
    exact hdisjoint _ (List.mem_map_of_mem (List.mem_range.mpr hp)) c (List.mem_singleton_self c)
      href

theorem relayed_pushClient {p : PeerId} (h : RelayInv s) (pc : s.accept = .pushBack p) :
    Relayed s .accept
      { s with mWebsocketServer := s.mWebsocketServer.pushClient p, accept := .unlockClients } := by
  have hnew : (s.mWebsocketServer.mClients ++ [p]).length = s.relay.joined + 1 :=
    List.length_append
  have hjoined : s.relay.joined < s.relay.arrived := by
    have hlength := congrArg List.length (h.send.found.inserted.of_pc pc)
    rw [List.length_range] at hlength
    exact Nat.lt_of_succ_le (Nat.le_of_eq (hnew.symm.trans hlength))
  refine .act (b := .join) ?_ rfl rfl fun _ _ => trivial
  rw [relayStep, if_pos hjoined]
  exact congrArg some (Relay.ext rfl rfl hnew.symm rfl rfl rfl rfl rfl rfl rfl)

theorem relayed_step (h : RelayInv s) (hstep : step soy s a = some t) : Relayed s a t := by
  cases step_cases hstep with
  | main a t step => exact relayed_mainStep h step
  | reader p a q made step outside => exact relayed_reader made step
  | callText p a b m q made step pc data => exact relayed_callText h made step pc
  | callBinary p a b q made step pc =>
    have hidle : s.handlers p = .idle := h.queue.inside.idle_of_pc fun k b' => by
      rw [pc]
      exact ReaderPc.noConfusion
    refine relayed_handling hidle rfl rfl rfl ?_
    rw [(readerStep_callHandler pc step).2]
    exact ⟨rfl, rfl, rfl⟩
  | handlerReturns p k b q made step pc returned =>
    exact relayed_handling returned rfl rfl rfl (sameClient_of_handling step pc)
  | handlerThrows p k b q made step pc threw =>
    exact relayed_handling threw rfl rfl rfl (sameClient_of_handling step pc)
  | record p c m pc => exact relayed_record h pc
  | lock p c m pc free => exact relayed_lock pc free
  | pushBack p c m pc => exact relayed_pushBack h pc
  | unlock p pc => exact relayed_unlock h pc
  | pushBackThrows p c m pc => exact relayed_pushBackThrows h pc
  | connect c pc => exact .quiet rfl rfl
  | construct c pc => exact relayed_construct h pc
  | lockClients p l pc lock => exact .quiet rfl rfl
  | pushClient p pc => exact relayed_pushClient h pc
  | unlockClients pc => exact .quiet rfl rfl
  | disconnect p connected => exact .quiet rfl rfl

theorem relayInv_init : RelayInv {} where
  queue := queueInv_init
  send := sendInv_init
  record := recordInv_init
  noted _ _ _ h := nomatch h

theorem relayInv_step (h : RelayInv s) (hstep : step soy s a = some t) : RelayInv t where
  queue := queueInv_step h.queue hstep
  send := sendInv_step h.send hstep
  record := recordInv_step h.record h.queue hstep
  noted p c m ht := by
    have hs := step_cases hstep
    have href {p : PeerId} (hp : p < s.mWebsocketServer.next) : t.refOf p = s.refOf p :=
      hs.sameRefs.ref p hp
    rcases hs.record_cases ht with hrecord | ⟨b, rfl, -, rfl⟩
    · have hlt := (h.queue.inside p (by rw [hrecord]; exact nofun)).1
      exact (h.noted p c m hrecord).trans (href hlt).symm
    · have made : p < s.mWebsocketServer.next := by
        by_contra hn
        rw [step, readerThreadStep, if_neg hn] at hstep
        cases hstep
      exact (href made).symm

end Step

/-! ## Every run -/

section Run
variable {soy : MessageBufferLib} {acts : List Act} {s : Host}

/-- Every run of the threads is a run of the relay, in which V8 gives the same answers. -/
theorem refines_relay (h : run (step soy) {} acts = some s) : ∃ relayActs,
    run relayStep (Relay.start 0) relayActs = some s.relay ∧
      outputs relayStep Relays.given (Relay.start 0) relayActs =
        outputs (step soy) Host.given {} acts := by
  have hsim : ∀ (s : Host) (a : Act) (t : Host), True → RelayInv s → step soy s a = some t →
      t.relay = s.relay ∧ s.given a = none ∨ ∃ b, True ∧ relayStep s.relay b = some t.relay ∧
        Relays.given s.relay b = s.given a := fun s a t _ hs ht =>
    (relayed_step hs ht).imp_right fun ⟨b, hb, hgiven, _⟩ => ⟨b, trivial, hb, hgiven⟩
  have hall : AllSteps (step soy) (fun _ _ => True) {} acts :=
    allSteps_of_forall_mem (p := fun _ => True) (fun _ _ => trivial) _
  obtain ⟨relayActs, hrun, -, hout⟩ : ∃ relayActs,
      run relayStep (Host.relay {}) relayActs = some s.relay ∧
        AllSteps relayStep (fun _ _ => True) (Host.relay {}) relayActs ∧
        outputs relayStep Relays.given (Host.relay {}) relayActs =
          outputs (step soy) Host.given {} acts :=
    exists_run_of_simulates (fun _ _ _ _ hs ht => relayInv_step hs ht) hsim relayInv_init hall h
  exact ⟨relayActs, hrun, hout⟩

structure TurnsInv (s : Host) : Prop where
  relay : RelayInv s
  fresh : s.connections.Nodup

theorem turnsInv_step {t : Host} {a : Act} (h : TurnsInv s) (hok : InTurn s a)
    (hstep : step soy s a = some t) : TurnsInv t where
  relay := relayInv_step h.relay hstep
  fresh := fresh_step h.fresh (fun c ha => by subst ha; exact hok) hstep

theorem given_snd {t : Host} {a : Act} (h : RelayInv s) (hok : InTurn s a)
    (hstep : step soy s a = some t) : (s.given a).map Prod.snd = response a := by
  cases hresponse : response a with
  | none =>
    rw [Host.given, hresponse]
    rfl
  | some m =>
    obtain ⟨callId, message, rfl⟩ : ∃ callId message, a = .main (.sendResponse callId message) := by
      unfold response at hresponse
      split at hresponse
      · exact ⟨_, _, rfl⟩
      · cases hresponse
    have hbusy : s.main.dispatching = true := hok
    cases mainStep_cases hstep with
    | respond site _ _ m' pc text =>
      have hsite : site = .dispatch := by
        rw [pc] at hbusy
        exact eq_of_beq hbusy
      have hne := h.record.dispatching (by rw [pc, hsite]; rfl)
      -- the message that V8 has is the last one dispatched, and it was pushed
      have hlt : (dispatches s.log).length - 1 < (pushes s.log).length := by
        have hlength := congrArg List.length h.queue.kept
        rw [List.length_append, List.length_map] at hlength
        have hpos := List.length_pos_iff.mpr hne
        omega
      have hcurrent : s.current = some (pushes s.log)[(dispatches s.log).length - 1] :=
        (if_pos hbusy).trans (List.getElem?_eq_getElem hlt)
      rw [Host.given, hresponse, hcurrent]
      rfl

/-- If the clients take turns, `SendResponse` never throws, each response is given while V8 has a
message, and goes into the write queue of the peer whose message this is. -/
theorem answers_in_turn (h : run (step soy) {} acts = some s)
    (hok : AllSteps (step soy) InTurn {} acts) :
    (∀ site e, s.main ≠ .threw site e) ∧
      (outputs (step soy) Host.given {} acts).map Prod.snd = acts.filterMap response ∧
      ∀ p, ∃ left, (outputs (step soy) Host.given {} acts).filterMap (Relays.forClient p) =
        (s.peer p).writeQueue.filterMap messageText ++ left ∧
        left.length ≤ 1 ∧ (s.main.answer = .none → left = []) := by
  have hinit : TurnsInv {} := ⟨relayInv_init, List.nodup_nil⟩
  have hsim : ∀ (s : Host) (a : Act) (t : Host), InTurn s a → TurnsInv s → step soy s a = some t →
      t.relay = s.relay ∧ s.given a = none ∨ ∃ b, Relays.TakesTurns s.relay b ∧
        relayStep s.relay b = some t.relay ∧ Relays.given s.relay b = s.given a :=
    fun s a t ha hs ht => (relayed_step hs.relay ht).imp_right fun ⟨b, hb, hgiven, hturn⟩ =>
      ⟨b, hturn hs.fresh ha, hb, hgiven⟩
  obtain ⟨relayActs, hrun, hturns, hout⟩ := exists_run_of_simulates
    (fun _ _ _ ha hs ht => turnsInv_step hs ha ht) hsim hinit hok h
  rw [relay_init] at hrun hturns hout
  obtain ⟨hlost, hreceived⟩ := Relays.received_eq_given hrun hturns
  refine ⟨fun site e pc => hlost (congrArg MainPc.answer pc), ?_, fun p => ?_⟩
  · have hgiven : ∀ (s : Host) (a : Act) (t : Host), InTurn s a → TurnsInv s →
        step soy s a = some t → TurnsInv t ∧ (s.given a).map Prod.snd = response a :=
      fun s a t ha hs ht => ⟨turnsInv_step hs ha ht, given_snd hs.relay ha ht⟩
    exact map_outputs hgiven hinit hok h
  · have hp := hreceived p
    rw [hout] at hp
    exact ⟨s.relay.pending p, hp.symm, Relays.pending_length s.relay p⟩

end Run

def answersOne (m : List UInt8) : List Act :=
  [.main .next, .main .next, .main (.sendResponse 0 (.of8 m)), .main .next, .main .next,
    .main .next, .main .next, .main .next, .main .next, .main .returns, .main .next, .main .next,
    .main .next]

def twoTurns : List Act :=
  -- two clients, of which the second speaks when the first was answered
  clientConnects 1 ++ handshakes 0 ++ clientConnects 2 ++ handshakes 1 ++ textArrives 0 [7] ++
    onTextMessage 0 ++ mainDrains ++ answersOne [9] ++ textArrives 1 [8] ++ onTextMessage 1 ++
    [.main .next, .main (.pumpMessageLoop false), .main .next] ++ answersOne [6]

theorem refines_relay_twoTurns : ∃ s relayActs,
    run (step firstOpcodeBuffer) {} twoTurns = some s ∧
      run relayStep (Relay.start 0) relayActs = some s.relay ∧
      s.relay.posted = [(0, [7]), (1, [8])] := by
  have hrun : (run (step firstOpcodeBuffer) {} twoTurns).map (fun s => s.relay.posted) =
      some [(0, [7]), (1, [8])] := by decide +kernel
  obtain ⟨s, hs, hposted⟩ := Option.map_eq_some_iff.mp hrun
  obtain ⟨relayActs, hrelay, -⟩ := refines_relay hs
  exact ⟨s, relayActs, hs, hrelay, hposted⟩

theorem answers_in_turn_two : ∃ s, run (step firstOpcodeBuffer) {} twoTurns = some s ∧
    (s.peer 0).writeQueue.filterMap messageText = [[9]] ∧
    (s.peer 1).writeQueue.filterMap messageText = [[6]] := by
  have hrun : (run (guarded (step firstOpcodeBuffer) InTurn) {} twoTurns).map
      (fun s => s.main) = some .testOnlyMessages := by decide +kernel
  have hgiven : outputs (step firstOpcodeBuffer) Host.given {} twoTurns = [(0, [9]), (1, [6])] := by
    decide +kernel
  obtain ⟨s, hs, hmain⟩ := Option.map_eq_some_iff.mp hrun
  obtain ⟨hstep, hturns⟩ := run_guarded hs
  obtain ⟨-, -, hanswers⟩ := answers_in_turn hstep hturns
  have hqueue (p : PeerId) : [(0, [9]), (1, [6])].filterMap (Relays.forClient p) =
      (s.peer p).writeQueue.filterMap messageText := by
    obtain ⟨left, hleft, -, hnone⟩ := hanswers p
    rw [hnone (by rw [hmain]; rfl), List.append_nil, hgiven] at hleft
    exact hleft
  exact ⟨s, hstep, (hqueue 0).symm, (hqueue 1).symm⟩

end V8Min
