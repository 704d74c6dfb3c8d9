import V8InspectorMinimal.Socket.PeerSteps

/-! The handshake reply and the messages of one peer. `OnDataRecieved` opens the gate of `Send` one
statement before it pushes the reply, and what comes first in the write queue depends on exactly
whether some thread goes through the gate in between. -/

namespace V8Min.Socket
open Runs

def Replied (queue : List Packet) : Prop := ∃ r ms, queue = .reply r :: List.map Packet.message ms

/-- Nothing comes before the reply, no second reply comes after it, and a `Send` that has not been
refused finds it in the queue already. -/
def HandshakeFirst (s : PeerSystem) : Prop :=
  (s.peer.writeQueue = [] ∨ Replied s.peer.writeQueue) ∧
    ∀ u m, s.senders u = .push m → Replied s.peer.writeQueue

/-- The step is not a test of `IsCompleted()` between the two statements of the read thread. -/
def TestsOutsideWindow (s : PeerSystem) (a : PeerAct) : Prop :=
  ∀ u m r, a = .sender u → s.senders u = .isCompleted m → s.peer.reader ≠ .pushReply r

theorem Replied.push {queue : List Packet} (h : Replied queue) (m : StdString) :
    Replied (queue ++ [.message m]) := by
  obtain ⟨r, ms, rfl⟩ := h
  exact ⟨r, ms ++ [m], by rw [List.map_append, List.cons_append, List.map_singleton]⟩

theorem not_replied_nil : ¬ Replied [] := by
  rintro ⟨r, ms, h⟩
  cases h

structure HandshakeInv (s : PeerSystem) : Prop where
  unsent : s.peer.mHasSentAcceptReply = false → s.peer.writeQueue = []
  setting : ∀ r, s.peer.reader = .setHasSent r → s.peer.mHasSentAcceptReply = false
  pushing : ∀ r, s.peer.reader = .pushReply r →
    s.peer.mHasSentAcceptReply = true ∧ s.peer.writeQueue = []
  sent : s.peer.mHasSentAcceptReply = true →
    (∃ r, s.peer.reader = .pushReply r) ∨ Replied s.peer.writeQueue
  passed : ∀ u m, s.senders u = .push m → Replied s.peer.writeQueue

theorem handshakeInv_init (c : SoyRef) : HandshakeInv (.init c) where
  unsent _ := rfl
  setting _ h := nomatch h
  pushing _ h := nomatch h
  sent h := nomatch h
  passed _ _ h := nomatch h

theorem HandshakeInv.handshakeFirst {s : PeerSystem} (h : HandshakeInv s) : HandshakeFirst s := by
  refine ⟨?_, h.passed⟩
  cases hf : s.peer.mHasSentAcceptReply with
  | false => exact Or.inl (h.unsent hf)
  | true =>
    rcases h.sent hf with ⟨r, hr⟩ | hq
    · exact Or.inl (h.pushing r hr).2
    · exact Or.inr hq

theorem HandshakeInv.quiet {s : PeerSystem} {p : Peer} (h : HandshakeInv s)
    (hflag : p.mHasSentAcceptReply = s.peer.mHasSentAcceptReply)
    (hqueue : p.writeQueue = s.peer.writeQueue) (hold : ∀ r, s.peer.reader ≠ .pushReply r)
    (hset : ∀ r, p.reader ≠ .setHasSent r) (hpush : ∀ r, p.reader ≠ .pushReply r) :
    HandshakeInv { s with peer := p } where
  unsent hf := hqueue.trans (h.unsent (hflag ▸ hf))
  setting r hr := absurd hr (hset r)
  pushing r hr := absurd hr (hpush r)
  sent hf := by
    rcases h.sent (hflag ▸ hf) with ⟨r, hr⟩ | hq
    · exact absurd hr (hold r)
    · exact Or.inr (hqueue ▸ hq)
  passed u m hu := hqueue ▸ h.passed u m hu

theorem nextKind_ne_setHasSent (k : Kind) (b : BufferId) (r : StdString) :
    nextKind k b ≠ .setHasSent r := by
  cases k <;> intro h <;> cases h

theorem nextKind_ne_pushReply (k : Kind) (b : BufferId) (r : StdString) :
    nextKind k b ≠ .pushReply r := by
  cases k <;> intro h <;> cases h

theorem handshakeInv_reader {soy : MessageBufferLib} {s : PeerSystem} {p : Peer} {a : ReaderAct}
    (h : HandshakeInv s) (hstep : ReaderStep soy s.peer a p) :
    HandshakeInv { s with peer := p } := by
  cases hstep with
  | replyFirst r m pc unsent =>
    exact {
      unsent := h.unsent
      setting := fun _ _ => unsent
      pushing := fun _ hr => nomatch hr
      sent := fun hf => absurd (unsent.symm.trans hf) Bool.false_ne_true
      passed := h.passed }
  | setHasSent r pc =>
    have hq := h.unsent (h.setting r pc)
    exact {
      unsent := fun hf => nomatch hf
      setting := fun _ hr => nomatch hr
      pushing := fun _ _ => ⟨rfl, hq⟩
      sent := fun _ => Or.inl ⟨r, rfl⟩
      passed := h.passed }
  | pushReply r pc =>
    obtain ⟨hf, hq⟩ := h.pushing r pc
    have hreplied : Replied (s.peer.push (.reply r)).writeQueue :=
      ⟨r, [], by rw [Peer.push, hq]; rfl⟩
    exact {
      unsent := fun hn => absurd (hn.symm.trans hf) Bool.false_ne_true
      setting := fun _ hr => nomatch hr
      pushing := fun _ hr => nomatch hr
      sent := fun _ => Or.inr hreplied
      passed := fun _ _ _ => hreplied }
  | notComplete k b pc incomplete =>
    exact h.quiet rfl rfl (by simp [pc]) (nextKind_ne_setHasSent k b) (nextKind_ne_pushReply k b)
  | unlockReset k b pc =>
    exact h.quiet rfl rfl (by simp [pc]) (nextKind_ne_setHasSent k b) (nextKind_ne_pushReply k b)
  | alloc pc => exact h.quiet (by simp) (by simp) (by simp [pc]) (by simp) (by simp)
  | lockAlloc l pc lock => exact h.quiet rfl rfl (by simp [pc]) (by simp) (by simp)
  | unlockAlloc b pc => exact h.quiet rfl rfl (by simp [pc]) (by simp) (by simp)
  | decodedNone b reply pc => exact h.quiet rfl rfl (by simp [pc]) (by simp) (by simp)
  | decodedSome b reply f pc => exact h.quiet rfl rfl (by simp [pc]) (by simp) (by simp)
  | replyAgain r m pc sent => exact h.quiet rfl rfl (by simp [pc]) (by simp) (by simp)
  | noMessage pc => exact h.quiet rfl rfl (by simp [pc]) (by simp) (by simp)
  | hasMessage b pc => exact h.quiet rfl rfl (by simp [pc]) (by simp) (by simp)
  | isComplete k b pc complete => exact h.quiet rfl rfl (by simp [pc]) (by simp) (by simp)
  | callHandler k b pc => exact h.quiet rfl rfl (by simp [pc]) (by simp) (by simp)
  | handlerReturns k b pc => exact h.quiet rfl rfl (by simp [pc]) (by simp) (by simp)
  | handlerThrows k b pc => exact h.quiet rfl rfl (by simp [pc]) (by simp) (by simp)
  | lockReset k b l pc lock => exact h.quiet rfl rfl (by simp [pc]) (by simp) (by simp)
  | reset k b pc => exact h.quiet rfl rfl (by simp [pc]) (by simp) (by simp)
  | readsOn pc survives => exact h.quiet rfl rfl (by simp [pc]) (by simp) (by simp)

theorem HandshakeInv.setSender {s : PeerSystem} (h : HandshakeInv s) {u : ℕ} {pc : SendPc}
    (hpc : ∀ m, pc = .push m → Replied s.peer.writeQueue) : HandshakeInv (s.setSender u pc) where
  unsent := h.unsent
  setting := h.setting
  pushing := h.pushing
  sent := h.sent
  passed u' m hu := by
    rcases setSender_eq_push hu with ⟨-, he⟩ | hold
    · exact hpc m he
    · exact h.passed u' m hold

theorem handshakeInv_step {soy : MessageBufferLib} {s t : PeerSystem} {a : PeerAct}
    (h : HandshakeInv s) (hok : TestsOutsideWindow s a) (hstep : peerStep soy s a = some t) :
    HandshakeInv t := by
  cases peerStep_cases hstep with
  | reader a p step => exact handshakeInv_reader h step
  | call u m => exact h.setSender fun _ hm => nomatch hm
  | refused u m pc incomplete => exact h.setSender fun _ hm => nomatch hm
  | passed u m pc completed =>
    refine h.setSender fun _ _ => ?_
    rcases h.sent completed with ⟨r, hr⟩ | hq
    · exact absurd hr (hok u m r rfl pc)
    · exact hq
  | pushed u m pc =>
    have hq : Replied (s.peer.push (.message m)).writeQueue := (h.passed u m pc).push m
    exact {
      unsent := fun hf => absurd (h.unsent hf ▸ h.passed u m pc) not_replied_nil
      setting := h.setting
      pushing := fun r hr => absurd ((h.pushing r hr).2 ▸ h.passed u m pc) not_replied_nil
      sent := fun _ => Or.inr hq
      passed := fun _ _ _ => hq }

theorem not_handshakeFirst_of_window {soy : MessageBufferLib} {s t : PeerSystem} {a : PeerAct}
    (h : HandshakeInv s) (hbad : ¬ TestsOutsideWindow s a) (hstep : peerStep soy s a = some t) :
    ¬ HandshakeFirst t := by
  simp only [TestsOutsideWindow, not_forall, not_not] at hbad
  obtain ⟨u, m, r, rfl, hm, hr⟩ := hbad
  obtain ⟨hf, hq⟩ := h.pushing r hr
  cases peerStep_cases hstep with
  | passed u m' pc completed =>
    intro hfirst
    have hreplied := hfirst.2 u m' (Function.update_self ..)
    rw [PeerSystem.setSender_peer, hq] at hreplied
    exact not_replied_nil hreplied
  | refused u m' pc incomplete => exact absurd (hf.symm.trans incomplete) (by decide)
  | pushed u m' pc => exact absurd (hm.symm.trans pc) (by simp)

/-- Over every schedule of the read thread and any number of senders: the handshake comes first
exactly when no `Send` tests the flag after it is set and before the reply is pushed. -/
theorem handshake_first_iff (soy : MessageBufferLib) (c : SoyRef) (acts : List PeerAct) :
    AllStates (peerStep soy) HandshakeFirst (.init c) acts ↔
      AllSteps (peerStep soy) TestsOutsideWindow (.init c) acts :=
  allStates_iff_allSteps (fun _ h => h.handshakeFirst) (fun _ _ _ => handshakeInv_step)
    (fun _ _ _ => not_handshakeFirst_of_window) (handshakeInv_init c) acts

def overtaking : List PeerAct :=
  -- the read thread stops in the window, and a message goes out before the reply
  [.reader .next, .reader .next, .reader .next, .reader (.decoded (some [1]) none), .reader .next,
    .reader .next, .send 0 [2], .sender 0, .sender 0]

theorem handshake_overtaken : ¬ ∀ soy c acts s,
    run (peerStep soy) (.init c) acts = some s → HandshakeFirst s := by
  intro h
  obtain ⟨hq | ⟨r, ms, hq⟩, -⟩ := h ⟨fun _ _ => false, fun _ _ => [], true⟩ 1 overtaking _ rfl
  · exact List.cons_ne_nil _ _ hq
  · exact Packet.noConfusion (List.cons.inj hq).1

end V8Min.Socket
