import V8InspectorMinimal.Base.Runs
import V8InspectorMinimal.Socket.Peer

/-! Everything that one step of a peer can do, taken apart once. Each invariant of the peer is then
a case analysis over these steps and never unfolds the step functions. -/

namespace V8Min.Socket
open Locks

section Reader
variable {soy : MessageBufferLib} {p q : Peer} {a : ReaderAct}

inductive ReaderStep (soy : MessageBufferLib) (p : Peer) : ReaderAct → Peer → Prop where
  | lockAlloc (l : RecursiveMutex PeerThread) (pc : p.reader = .idle)
      (lock : p.mCurrentMessageLock.lock .reader = some l) :
      ReaderStep soy p .next { p with mCurrentMessageLock := l, reader := .allocProtocol }
  | alloc (pc : p.reader = .allocProtocol) :
      ReaderStep soy p .next { p.allocProtocol.1 with reader := .unlockAlloc p.allocProtocol.2 }
  | unlockAlloc (b : BufferId) (pc : p.reader = .unlockAlloc b) :
      ReaderStep soy p .next
        { p.emit (.allocated b (p.buffers b)) with
          mCurrentMessageLock := p.mCurrentMessageLock.unlock, reader := .decoding b }
  | decodedNone (b : BufferId) (reply : Option StdString) (pc : p.reader = .decoding b) :
      ReaderStep soy p (.decoded reply none) { p with reader := .onDataRecieved ⟨reply, some b⟩ }
  | decodedSome (b : BufferId) (reply : Option StdString) (f : Fragment)
      (pc : p.reader = .decoding b) :
      ReaderStep soy p (.decoded reply (some f))
        { (p.decodeInto b f).emit (.decoded b f) with reader := .onDataRecieved ⟨reply, some b⟩ }
  | replyAgain (r : StdString) (m : Option BufferId) (pc : p.reader = .onDataRecieved ⟨some r, m⟩)
      (sent : p.mHasSentAcceptReply = true) :
      ReaderStep soy p .next { p.emit (.threw .alreadySentReply) with reader := .threw }
  | replyFirst (r : StdString) (m : Option BufferId) (pc : p.reader = .onDataRecieved ⟨some r, m⟩)
      (unsent : p.mHasSentAcceptReply = false) :
      ReaderStep soy p .next { p with reader := .setHasSent r }
  | noMessage (pc : p.reader = .onDataRecieved ⟨none, none⟩) :
      ReaderStep soy p .next { p with reader := .idle }
  | hasMessage (b : BufferId) (pc : p.reader = .onDataRecieved ⟨none, some b⟩) :
      ReaderStep soy p .next { p with reader := .testComplete .text b }
  | setHasSent (r : StdString) (pc : p.reader = .setHasSent r) :
      ReaderStep soy p .next { p with mHasSentAcceptReply := true, reader := .pushReply r }
  | pushReply (r : StdString) (pc : p.reader = .pushReply r) :
      ReaderStep soy p .next { p.push (.reply r) with reader := .idle }
  | isComplete (k : Kind) (b : BufferId) (pc : p.reader = .testComplete k b)
      (complete : soy.isComplete k (p.buffers b) = true) :
      ReaderStep soy p .next { p with reader := .callHandler k b }
  | notComplete (k : Kind) (b : BufferId) (pc : p.reader = .testComplete k b)
      (incomplete : soy.isComplete k (p.buffers b) = false) :
      ReaderStep soy p .next { p with reader := nextKind k b }
  | callHandler (k : Kind) (b : BufferId) (pc : p.reader = .callHandler k b) :
      ReaderStep soy p .next
        { p.emit (.delivered k (soy.data k (p.buffers b))) with reader := .handling k b }
  | handlerReturns (k : Kind) (b : BufferId) (pc : p.reader = .handling k b) :
      ReaderStep soy p .handlerReturns { p with reader := .lockReset k b }
  | handlerThrows (k : Kind) (b : BufferId) (pc : p.reader = .handling k b) :
      ReaderStep soy p .handlerThrows { p with reader := .threw }
  | lockReset (k : Kind) (b : BufferId) (l : RecursiveMutex PeerThread)
      (pc : p.reader = .lockReset k b) (lock : p.mCurrentMessageLock.lock .reader = some l) :
      ReaderStep soy p .next { p with mCurrentMessageLock := l, reader := .reset k b }
  | reset (k : Kind) (b : BufferId) (pc : p.reader = .reset k b) :
      ReaderStep soy p .next { p with mCurrentMessage := none, reader := .unlockReset k b }
  | unlockReset (k : Kind) (b : BufferId) (pc : p.reader = .unlockReset k b) :
      ReaderStep soy p .next
        { p with mCurrentMessageLock := p.mCurrentMessageLock.unlock, reader := nextKind k b }
  | readsOn (pc : p.reader = .threw) (survives : soy.readsOn = true) :
      ReaderStep soy p .next { p with reader := .idle }

theorem readerStep_cases (h : readerStep soy p a = some q) : ReaderStep soy p a q := by
  unfold readerStep at h
  split at h
  case h_1 pc =>
    obtain ⟨l, hl, rfl⟩ := Option.map_eq_some_iff.mp h
    exact .lockAlloc l pc hl
  case h_2 pc => exact Option.some.inj h ▸ .alloc pc
  case h_3 b pc => exact Option.some.inj h ▸ .unlockAlloc b pc
  case h_4 b reply pc => exact Option.some.inj h ▸ .decodedNone b reply pc
  case h_5 b reply f pc => exact Option.some.inj h ▸ .decodedSome b reply f pc
  case h_6 r m pc =>
    split at h
    · rename_i sent
      exact Option.some.inj h ▸ .replyAgain r m pc sent
    · rename_i unsent
      exact Option.some.inj h ▸ .replyFirst r m pc (eq_false_of_ne_true unsent)
  case h_7 pc => exact Option.some.inj h ▸ .noMessage pc
  case h_8 b pc => exact Option.some.inj h ▸ .hasMessage b pc
  case h_9 r pc => exact Option.some.inj h ▸ .setHasSent r pc
  case h_10 r pc => exact Option.some.inj h ▸ .pushReply r pc
  case h_11 k b pc =>
    split at h
    · rename_i complete
      exact Option.some.inj h ▸ .isComplete k b pc complete
    · rename_i incomplete
      exact Option.some.inj h ▸ .notComplete k b pc (eq_false_of_ne_true incomplete)
  case h_12 k b pc => exact Option.some.inj h ▸ .callHandler k b pc
  case h_13 k b pc => exact Option.some.inj h ▸ .handlerReturns k b pc
  case h_14 k b pc => exact Option.some.inj h ▸ .handlerThrows k b pc
  case h_15 k b pc =>
    obtain ⟨l, hl, rfl⟩ := Option.map_eq_some_iff.mp h
    exact .lockReset k b l pc hl
  case h_16 k b pc => exact Option.some.inj h ▸ .reset k b pc
  case h_17 k b pc => exact Option.some.inj h ▸ .unlockReset k b pc
  case h_18 pc =>
    split at h
    · rename_i survives
      exact Option.some.inj h ▸ .readsOn pc survives
    · cases h
  case h_19 => cases h

theorem readerStep_callHandler {k : Kind} {b : BufferId} (pc : p.reader = .callHandler k b)
    (h : readerStep soy p a = some q) : a = .next ∧
      q = { p.emit (.delivered k (soy.data k (p.buffers b))) with reader := .handling k b } := by
  cases a with
  | next =>
    simp only [readerStep, pc] at h
    exact ⟨rfl, (Option.some.inj h).symm⟩
  | _ =>
    simp only [readerStep, pc] at h
    cases h

theorem ReaderStep.mConnectionRef_eq (h : ReaderStep soy p a q) :
    q.mConnectionRef = p.mConnectionRef := by
  cases h with
  | alloc pc => exact p.allocProtocol_mConnectionRef
  | _ => rfl

end Reader

section Peer
variable {soy : MessageBufferLib} {s t : PeerSystem} {a : PeerAct}

inductive PeerStep (soy : MessageBufferLib) (s : PeerSystem) : PeerAct → PeerSystem → Prop where
  | reader (a : ReaderAct) (p : Peer) (step : ReaderStep soy s.peer a p) :
      PeerStep soy s (.reader a) { s with peer := p }
  | call (t : ℕ) (m : StdString) : PeerStep soy s (.send t m) (s.setSender t (.isCompleted m))
  | passed (t : ℕ) (m : StdString) (pc : s.senders t = .isCompleted m)
      (completed : s.peer.mHasSentAcceptReply = true) :
      PeerStep soy s (.sender t) (s.setSender t (.push m))
  | refused (t : ℕ) (m : StdString) (pc : s.senders t = .isCompleted m)
      (incomplete : s.peer.mHasSentAcceptReply = false) :
      PeerStep soy s (.sender t) (s.setSender t (.threw .sendBeforeHandshake))
  | pushed (t : ℕ) (m : StdString) (pc : s.senders t = .push m) :
      PeerStep soy s (.sender t) { s.setSender t .idle with peer := s.peer.push (.message m) }

theorem peerStep_cases (h : peerStep soy s a = some t) : PeerStep soy s a t := by
  cases a with
  | reader a =>
    obtain ⟨p, hp, rfl⟩ := Option.map_eq_some_iff.mp h
    exact .reader a p (readerStep_cases hp)
  | send t m =>
    simp only [peerStep] at h
    split at h
    · exact Option.some.inj h ▸ .call t m
    · exact Option.some.inj h ▸ .call t m
    · cases h
    · cases h
  | sender t =>
    simp only [peerStep] at h
    split at h
    · rename_i m pc
      split at h
      · rename_i completed
        exact Option.some.inj h ▸ .passed t m pc completed
      · rename_i incomplete
        exact Option.some.inj h ▸ .refused t m pc (eq_false_of_ne_true incomplete)
    · rename_i m pc
      exact Option.some.inj h ▸ .pushed t m pc
    · cases h
    · cases h

theorem PeerStep.peer_cases (h : PeerStep soy s a t) :
    (∃ b, a = .reader b ∧ ReaderStep soy s.peer b t.peer) ∨
      ∃ queue, t.peer = { s.peer with writeQueue := queue } := by
  cases h with
  | reader b p step => exact Or.inl ⟨b, rfl, step⟩
  | call u m => exact Or.inr ⟨_, rfl⟩
  | passed u m pc completed => exact Or.inr ⟨_, rfl⟩
  | refused u m pc incomplete => exact Or.inr ⟨_, rfl⟩
  | pushed u m pc => exact Or.inr ⟨_, rfl⟩

theorem setSender_eq_push {u u' : ℕ} {pc : SendPc} {m : StdString}
    (h : (s.setSender u pc).senders u' = .push m) :
    (u' = u ∧ pc = .push m) ∨ s.senders u' = .push m := by
  rw [PeerSystem.setSender_senders] at h
  by_cases hu : u' = u
  · subst hu
    rw [Function.update_self] at h
    exact Or.inl ⟨rfl, h⟩
  · rw [Function.update_of_ne hu] at h
    exact Or.inr h

def afterSend (s : PeerSystem) (u : ℕ) (m : StdString) : PeerSystem :=
  match s.peer.send m with
  | (p, .ok ()) => { s.setSender u .idle with peer := p }
  | (p, .error e) => { s.setSender u (.threw e) with peer := p }

/-- With no step of another thread in between, the steps of `Send` compute `Peer.send`. -/
theorem exists_run_send (soy : MessageBufferLib) (s : PeerSystem) (u : ℕ) (m : StdString)
    (pc : s.senders u = .idle) :
    ∃ acts, Runs.run (peerStep soy) s acts = some (afterSend s u m) := by
  cases sent : s.peer.mHasSentAcceptReply with
  | true =>
    refine ⟨[.send u m, .sender u, .sender u], ?_⟩
    simp [Runs.run, peerStep, pc, PeerSystem.setSender, Peer.isCompleted, sent, Peer.send,
      afterSend]
  | false =>
    refine ⟨[.send u m, .sender u], ?_⟩
    simp [Runs.run, peerStep, pc, PeerSystem.setSender, Peer.isCompleted, sent, Peer.send,
      afterSend]

end Peer
end V8Min.Socket
