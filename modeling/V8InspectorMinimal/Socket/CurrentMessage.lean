import V8InspectorMinimal.Base.Runs
import V8InspectorMinimal.Socket.PeerSteps

/-! `mCurrentMessage` and its lock. No thread but the read thread locks it, and from `AllocProtocol`
until a handler returns the buffer that the read thread works on is the current message. -/

namespace V8Min.Socket
open Locks Runs

section CurrentMessage
variable {soy : MessageBufferLib} {p q : Peer} {a : ReaderAct}

@[simp] theorem Peer.allocProtocol_mCurrentMessageLock (p : Peer) :
    p.allocProtocol.1.mCurrentMessageLock = p.mCurrentMessageLock := by
  rw [allocProtocol]
  split <;> rfl

@[simp] theorem Peer.allocProtocol_mCurrentMessage (p : Peer) :
    p.allocProtocol.1.mCurrentMessage = some p.allocProtocol.2 := by
  rw [allocProtocol]
  split
  · rename_i b current
    exact current
  · rfl

theorem Peer.allocProtocol_of_current {b : BufferId} (h : p.mCurrentMessage = some b) :
    p.allocProtocol = (p, b) := by
  rw [allocProtocol, h]

/-! ## The lock -/

def ReaderPc.locksCurrent : ReaderPc → Bool
  | .allocProtocol | .unlockAlloc _ | .reset .. | .unlockReset .. => true
  | _ => false

theorem locksCurrent_nextKind (k : Kind) (b : BufferId) : (nextKind k b).locksCurrent = false := by
  cases k <;> rfl

def LocksInside (p : Peer) : Prop :=
  p.mCurrentMessageLock.held = if p.reader.locksCurrent then some (.reader, 0) else none

theorem locksInside_init (c : SoyRef) : LocksInside (PeerSystem.init c).peer := rfl

theorem LocksInside.move {pc pc' : ReaderPc} (h : LocksInside p)
    (lock : q.mCurrentMessageLock = p.mCurrentMessageLock) (hp : p.reader = pc)
    (hq : q.reader = pc') (hpc : pc'.locksCurrent = pc.locksCurrent) : LocksInside q := by
  unfold LocksInside at h ⊢
  rw [lock, h, hp, hq, hpc]

theorem LocksInside.lock {l : RecursiveMutex PeerThread} (h : LocksInside p)
    (hp : p.reader.locksCurrent = false) (hl : p.mCurrentMessageLock.lock .reader = some l)
    (lock : q.mCurrentMessageLock = l) (hq : q.reader.locksCurrent = true) : LocksInside q := by
  unfold LocksInside at h ⊢
  rw [hp, if_neg Bool.false_ne_true] at h
  rw [hq, if_pos rfl, lock]
  exact RecursiveMutex.held_of_lock h hl

theorem LocksInside.unlock (h : LocksInside p) (hp : p.reader.locksCurrent = true)
    (lock : q.mCurrentMessageLock = p.mCurrentMessageLock.unlock)
    (hq : q.reader.locksCurrent = false) : LocksInside q := by
  unfold LocksInside at h ⊢
  rw [hp, if_pos rfl] at h
  rw [hq, if_neg Bool.false_ne_true, lock]
  exact RecursiveMutex.held_unlock h

theorem locksInside_reader (h : LocksInside p) (hstep : ReaderStep soy p a q) :
    LocksInside q := by
  cases hstep with
  | lockAlloc l pc lock => exact h.lock (by rw [pc]; rfl) lock rfl rfl
  | alloc pc => exact h.move p.allocProtocol_mCurrentMessageLock pc rfl rfl
  | unlockAlloc b pc => exact h.unlock (by rw [pc]; rfl) rfl rfl
  | lockReset k b l pc lock => exact h.lock (by rw [pc]; rfl) lock rfl rfl
  | unlockReset k b pc => exact h.unlock (by rw [pc]; rfl) rfl (locksCurrent_nextKind k b)
  | notComplete k b pc incomplete => exact h.move rfl pc rfl (locksCurrent_nextKind k b)
  | decodedNone b reply pc | decodedSome b reply f pc | replyAgain r m pc sent
  | replyFirst r m pc unsent | noMessage pc | hasMessage b pc | setHasSent r pc | pushReply r pc
  | isComplete k b pc complete | callHandler k b pc | handlerReturns k b pc
  | handlerThrows k b pc | reset k b pc | readsOn pc survives => exact h.move rfl pc rfl rfl

theorem locksInside_step {s t : PeerSystem} {a : PeerAct} (h : LocksInside s.peer)
    (hstep : peerStep soy s a = some t) : LocksInside t.peer := by
  rcases (peerStep_cases hstep).peer_cases with ⟨b, -, hread⟩ | ⟨queue, ht⟩
  · exact locksInside_reader h hread
  · rw [ht]
    exact h

/-! ## The message -/

variable (soy) in
/-- What is known of the message that the read thread works on. The reset for a text message comes
before the test for a binary one, of the same buffer. -/
def CurrentAt (p : Peer) : ReaderPc → Prop
  | .unlockAlloc b | .decoding b => p.mCurrentMessage = some b
  | .onDataRecieved d => ∀ b, d.mMessage = some b → p.mCurrentMessage = some b
  | .testComplete k b => p.mCurrentMessage = some b ∨
      k = .binary ∧ soy.isComplete .text (p.buffers b) = true
  | .callHandler k b | .handling k b => soy.isComplete k (p.buffers b) = true ∧
      (p.mCurrentMessage = some b ∨ k = .binary ∧ soy.isComplete .text (p.buffers b) = true)
  | .lockReset k b | .reset k b | .unlockReset k b => soy.isComplete k (p.buffers b) = true
  | .idle | .allocProtocol | .setHasSent _ | .pushReply _ | .threw => True

theorem currentAt_init (c : SoyRef) :
    CurrentAt soy (PeerSystem.init c).peer (PeerSystem.init c).peer.reader := trivial

theorem currentAt_reader (h : CurrentAt soy p p.reader) (hstep : ReaderStep soy p a q) :
    CurrentAt soy q q.reader := by
  have here : ∀ pc, p.reader = pc → CurrentAt soy p pc := fun pc hpc => hpc ▸ h
  cases hstep with
  | lockAlloc l pc lock => trivial
  | alloc pc => exact p.allocProtocol_mCurrentMessage
  | unlockAlloc b pc => exact here _ pc
  | decodedNone b reply pc => exact fun _ hb => Option.some.inj hb ▸ here _ pc
  | decodedSome b reply f pc => exact fun _ hb => Option.some.inj hb ▸ here _ pc
  | replyAgain r m pc sent => trivial
  | replyFirst r m pc unsent => trivial
  | noMessage pc => trivial
  | hasMessage b pc => exact Or.inl (here _ pc b rfl)
  | setHasSent r pc => trivial
  | pushReply r pc => trivial
  | isComplete k b pc complete => exact ⟨complete, here _ pc⟩
  | notComplete k b pc incomplete =>
    cases k with
    | text => exact (here _ pc).imp_right fun hk => nomatch hk.1
    | binary => trivial
  | callHandler k b pc => exact here _ pc
  | handlerReturns k b pc => exact (here _ pc).1
  | handlerThrows k b pc => trivial
  | lockReset k b l pc lock => exact here _ pc
  | reset k b pc => exact here _ pc
  | unlockReset k b pc =>
    cases k with
    | text => exact Or.inr ⟨rfl, here _ pc⟩
    | binary => trivial
  | readsOn pc survives => trivial

theorem currentAt_step {s t : PeerSystem} {a : PeerAct} (h : CurrentAt soy s.peer s.peer.reader)
    (hstep : peerStep soy s a = some t) : CurrentAt soy t.peer t.peer.reader := by
  rcases (peerStep_cases hstep).peer_cases with ⟨b, -, hread⟩ | ⟨queue, ht⟩
  · exact currentAt_reader h hread
  · rw [ht]
    show CurrentAt soy { s.peer with writeQueue := queue } s.peer.reader
    revert h
    cases s.peer.reader <;> exact id

end CurrentMessage
end V8Min.Socket
