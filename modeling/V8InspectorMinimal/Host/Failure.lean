import V8InspectorMinimal.Host.Peers
import V8InspectorMinimal.Host.Queue
import V8InspectorMinimal.Socket.CurrentMessage

/-! What an exception from the handler of a complete message leaves behind. `OnDataRecieved` resets
`mCurrentMessage` after the call of the handler, and `OnMessage` unlocks `MessagesLock` by hand
after `PushBack`, so that the exception passes both by. -/

namespace V8Min.Socket
open Runs

/-- What should hold of a peer once the exception of the handler for the message in `b` has left
`OnDataRecieved`. -/
structure Peer.Recovered (p : Peer) (b : BufferId) : Prop where
  unlocked : ∀ n, p.mCurrentMessageLock.held ≠ some (.reader, n)
  released : p.mCurrentMessage ≠ some b
  fresh : p.allocProtocol.2 ≠ b ∧ p.allocProtocol.1.buffers p.allocProtocol.2 = []

structure Peer.Poisoned (soy : MessageBufferLib) (p : Peer) (k : Kind) (b : BufferId) : Prop where
  unlocked : p.mCurrentMessageLock.held = none
  current : p.mCurrentMessage = some b
  handed : p.allocProtocol = (p, b)
  complete : soy.isComplete k (p.buffers b) = true

theorem Peer.Poisoned.not_recovered {soy : MessageBufferLib} {p : Peer} {k : Kind} {b : BufferId}
    (h : p.Poisoned soy k b) : ¬ p.Recovered b := fun hr => hr.released h.current

section Peer
variable {soy : MessageBufferLib}

theorem poisoned_of_handlerThrows
    (hsoy : ∀ fs, soy.isComplete .text fs = true → soy.isComplete .binary fs = false) {p q : Peer}
    {k : Kind} {b : BufferId} (hlock : LocksInside p) (hat : CurrentAt soy p p.reader)
    (pc : p.reader = .handling k b) (hstep : readerStep soy p .handlerThrows = some q) :
    q.Poisoned soy k b := by
  rw [pc] at hat
  obtain ⟨hcomplete, hcurrent⟩ := hat
  have hbuffer : p.mCurrentMessage = some b := by
    apply hcurrent.resolve_right
    rintro ⟨rfl, htext⟩
    exact absurd ((hsoy _ htext).symm.trans hcomplete) Bool.false_ne_true
  have hfree : p.mCurrentMessageLock.held = none := by
    unfold LocksInside at hlock
    rw [hlock, pc]
    rfl
  simp only [readerStep, pc] at hstep
  obtain rfl := Option.some.inj hstep
  exact ⟨hfree, hbuffer, Peer.allocProtocol_of_current hbuffer, hcomplete⟩

theorem peer_poisoned
    (hsoy : ∀ fs, soy.isComplete .text fs = true → soy.isComplete .binary fs = false) {c : SoyRef}
    {s t : PeerSystem} {ok : PeerSystem → PeerAct → Prop} {k : Kind} {b : BufferId}
    (h : Reaches (peerStep soy) ok (.init c) s) (pc : s.peer.reader = .handling k b)
    (hstep : peerStep soy s (.reader .handlerThrows) = some t) : t.peer.Poisoned soy k b := by
  have hlock := h.invariant (fun _ _ _ _ hs => locksInside_step hs) (locksInside_init c)
  have hat := h.invariant (fun _ _ _ _ hs => currentAt_step hs) (currentAt_init c)
  obtain ⟨q, hq, rfl⟩ := Option.map_eq_some_iff.mp hstep
  exact poisoned_of_handlerThrows hsoy hlock hat pc hq

end Peer
end V8Min.Socket

namespace V8Min
open Locks Runs Socket

/-! ## The host -/

/-- A client's message is still queued, and with the payload of its own fragments. -/
def StillQueues (soy : MessageBufferLib) (s : Host) : Prop :=
  ∀ acts u, (∀ a ∈ acts, DecodesData a) → run (step soy) s acts = some u →
    ∀ q c m, u.handlers q = .lock c m →
      (Socket.messages soy (u.peer q).log).getLast? = some (.text, m) ∧
        ∃ more v, run (step soy) u more = some v ∧
          (q, c, m) ∈ (pushes v.log).drop (pushes u.log).length

structure Host.Recovered (soy : MessageBufferLib) (s : Host) (p : PeerId) (b : BufferId) :
    Prop where
  messagesUnlocked : s.messagesLock.owner ≠ some (.reader p)
  peer : (s.peer p).Recovered b
  queued : StillQueues soy s

/-- The read thread of `p` keeps `MessagesLock`, and no client's message is ever queued again. -/
structure Host.Poisoned (soy : MessageBufferLib) (s : Host) (p : PeerId) (k : Kind)
    (b : BufferId) : Prop where
  peer : (s.peer p).Poisoned soy k b
  locked : ∀ acts u, run (step soy) s acts = some u →
    u.messagesLock.owner = some (.reader p) ∧ pushes u.log = pushes s.log

section Host
variable {soy : MessageBufferLib} {s t : Host} {a : Act} {p : PeerId}

structure Stuck (p : PeerId) (s : Host) : Prop where
  owner : s.messagesLock.owner = some (.reader p)
  outside : (s.handlers p).locked = none

theorem Stuck.quiet (h : Stuck p s) (lock : t.messagesLock = s.messagesLock)
    (locked : (t.handlers p).locked = (s.handlers p).locked) : Stuck p t where
  owner := by rw [lock, h.owner]
  outside := by rw [locked, h.outside]

theorem Stuck.not_owns (h : Stuck p s) (hq : QueueInv s) {p' : PeerId} {pc : HandlerPc}
    (hpc : s.handlers p' = pc) : pc.locked = none := by
  by_contra hlocked
  have howner := h.owner.symm.trans (hq.owner_of_locked hpc hlocked)
  obtain rfl := Thread.reader.inj (Option.some.inj howner)
  exact hlocked (hpc ▸ h.outside)

theorem Stuck.not_draining (h : Stuck p s) (hq : QueueInv s) : ¬ s.main.draining = true := by
  apply hq.not_draining
  rw [h.owner]
  simp

theorem stuck_step (hq : QueueInv s) (h : Stuck p s) (hstep : step soy s a = some t) :
    Stuck p t ∧ pushes t.log = pushes s.log := by
  cases (step_cases hstep).queueStep hq.inside with
  | quiet _ _ messages lock locked log draining rank empty pop =>
    refine ⟨h.quiet lock (locked p), ?_⟩
    rcases log with log | ⟨e, log, he⟩
    · rw [log]
    · rw [log]
      exact (he.concat s.log).2.1
  | enter _ outside free handlers messages lock log main =>
    rw [h.owner] at free
    cases free
  | pop _ m pc messages handlers lock log main =>
    exact absurd (by rw [pc]; rfl) (h.not_draining hq)
  | leave _ pc handlers messages lock log main =>
    exact absurd (by rw [pc]; rfl) (h.not_draining hq)
  | acquire _ p' c m pc free handlers messages lock log main =>
    rw [h.owner] at free
    cases free
  | push _ p' c m pc handlers messages lock log main => cases h.not_owns hq pc
  | release _ p' pc handlers messages lock log main => cases h.not_owns hq pc
  | fail _ p' c m pc handlers messages lock log main => cases h.not_owns hq pc

theorem stuck_run {acts : List Act} (hq : QueueInv s) (h : Stuck p s)
    (hr : run (step soy) s acts = some t) : Stuck p t ∧ pushes t.log = pushes s.log := by
  have hstep : ∀ u a v, QueueInv u ∧ Stuck p u ∧ pushes u.log = pushes s.log →
      step soy u a = some v → QueueInv v ∧ Stuck p v ∧ pushes v.log = pushes s.log := by
    rintro u a v ⟨hu, hstuck, hlog⟩ hv
    obtain ⟨hstuck', hlog'⟩ := stuck_step hu hstuck hv
    exact ⟨queueInv_step hu hv, hstuck', hlog'.trans hlog⟩
  exact (invariant hstep ⟨hq, h, rfl⟩ hr).2

/-! ## The exception of `PushBack` -/

theorem owner_reader_cases (hq : QueueInv s) (hstep : step soy s a = some t)
    (howner : t.messagesLock.owner = some (.reader p)) :
    (s.messagesLock.owner = some (.reader p) ∧
      ((t.handlers p).locked = (s.handlers p).locked ∨ t.handlers p = .unlock ∨
        a = .pushBackThrows p)) ∨
    ∃ c m, t.handlers p = .pushBack c m := by
  cases (step_cases hstep).queueStep hq.inside with
  | quiet _ _ messages lock locked log draining rank empty pop =>
    exact Or.inl ⟨lock ▸ howner, Or.inl (locked p)⟩
  | enter _ outside free handlers messages lock log main =>
    rw [lock] at howner
    cases howner
  | pop _ m pc messages handlers lock log main =>
    exact Or.inl ⟨lock ▸ howner, Or.inl (by rw [handlers])⟩
  | leave _ pc handlers messages lock log main =>
    rw [lock] at howner
    cases howner
  | acquire _ p' c m pc free handlers messages lock log main =>
    rw [lock] at howner
    cases howner
    exact Or.inr ⟨c, m, by rw [handlers, Function.update_self]⟩
  | push _ p' c m pc handlers messages lock log main =>
    have howner' := hq.owner_of_locked pc (Option.some_ne_none _)
    rw [lock, howner'] at howner
    cases howner
    exact Or.inl ⟨howner', Or.inr (Or.inl (by rw [handlers, Function.update_self]))⟩
  | release _ p' pc handlers messages lock log main =>
    rw [lock] at howner
    cases howner
  | fail _ p' c m pc handlers messages lock log main =>
    have howner' := hq.owner_of_locked pc (Option.some_ne_none _)
    rw [lock, howner'] at howner
    cases howner
    exact Or.inl ⟨howner', Or.inr (Or.inr rfl)⟩

theorem stuck_of_step (hq : QueueInv s) (hstep : step soy s a = some t) (h : Stuck p t) :
    Stuck p s ∨ a = .pushBackThrows p := by
  have houtside := h.outside
  rcases owner_reader_cases hq hstep h.owner with ⟨howner, hlocked | hunlock | rfl⟩ | ⟨c, m, hpush⟩
  · exact Or.inl ⟨howner, hlocked.symm.trans houtside⟩
  · rw [hunlock] at houtside
    cases houtside
  · exact Or.inr rfl
  · rw [hpush] at houtside
    cases houtside

theorem stuck_of_pushBackThrows (hq : QueueInv s)
    (hstep : step soy s (.pushBackThrows p) = some t) : Stuck p t := by
  cases step_cases hstep with
  | pushBackThrows _ c m pc =>
    have houtside : ((s.setHandler p .threw).handlers p).locked = none := by
      rw [Host.setHandler_handlers]
      rfl
    exact ⟨hq.owner_of_locked pc (Option.some_ne_none _), houtside⟩

theorem stuck_iff {acts : List Act} (hr : run (step soy) {} acts = some s) :
    Stuck p s ↔ .pushBackThrows p ∈ acts := by
  induction acts using List.reverseRecOn generalizing s with
  | nil =>
    obtain rfl := Option.some.inj hr
    exact iff_of_false (fun h => nomatch h.owner) List.not_mem_nil
  | append_singleton acts a ih =>
    obtain ⟨u, hu, hstep⟩ := run_concat_eq_some.mp hr
    have hq : QueueInv u := invariant (fun _ _ _ hs ht => queueInv_step hs ht) queueInv_init hu
    rw [List.mem_append, List.mem_singleton, ← ih hu]
    constructor
    · intro h
      exact (stuck_of_step hq hstep h).imp_right Eq.symm
    · rintro (h | rfl)
      · exact (stuck_step hq h hstep).1
      · exact stuck_of_pushBackThrows hq hstep

def ThrewLocked (s : Host) : Prop := ∀ p, s.handlers p = .threw → Stuck p s

theorem threwLocked_init : ThrewLocked {} := fun _ h => nomatch h

theorem threwLocked_step (hq : QueueInv s) (h : ThrewLocked s) (hstep : step soy s a = some t) :
    ThrewLocked t := by
  intro p hp
  rcases (step_cases hstep).handlerMove p with hsame | hmove
  · exact (stuck_step hq (h p (hsame.symm.trans hp)) hstep).1
  · rw [hp] at hmove
    cases hmove with
    | pushBackThrows c m pc => exact stuck_of_pushBackThrows hq hstep

theorem handlerThrows_eq {k : Kind} {b : BufferId} (pc : (s.peer p).reader = .handling k b)
    (hstep : step soy s (.reader p .handlerThrows) = some t) : s.handlers p = .threw ∧
      ∃ q, readerStep soy (s.peer p) .handlerThrows = some q ∧
        t = (s.setPeer p q).setHandler p .idle := by
  cases step_cases hstep with
  | reader _ _ q made step outside => exact absurd pc (outside k b).2
  | callText _ _ b' m q made step pc' data => rw [pc] at pc'; cases pc'
  | callBinary _ _ b' q made step pc' => rw [pc] at pc'; cases pc'
  | handlerThrows _ k' b' q made step pc' threw => exact ⟨threw, q, step, rfl⟩

theorem host_poisoned
    (hsoy : ∀ fs, soy.isComplete .text fs = true → soy.isComplete .binary fs = false)
    {acts : List Act} {k : Kind} {b : BufferId} (hr : run (step soy) {} acts = some s)
    (pc : (s.peer p).reader = .handling k b)
    (hstep : step soy s (.reader p .handlerThrows) = some t) : t.Poisoned soy p k b := by
  obtain ⟨hq, hthrew⟩ := invariant (I := fun s => QueueInv s ∧ ThrewLocked s)
    (fun _ _ _ hs ht => ⟨queueInv_step hs.1 ht, threwLocked_step hs.1 hs.2 ht⟩)
    ⟨queueInv_init, threwLocked_init⟩ hr
  obtain ⟨threw, q, hread, rfl⟩ := handlerThrows_eq pc hstep
  have hpeer : ((s.setPeer p q).setHandler p .idle).peer p = q := Host.setPeer_peer s p q
  have hp : p < s.mWebsocketServer.next := (hq.inside p (by rw [threw]; nofun)).1
  obtain ⟨c, x, hx, hview⟩ := (peers_reached lifts_true (reaches_of_run hr)).reached p hp
  have hstuck : Stuck p ((s.setPeer p q).setHandler p .idle) :=
    ⟨(hthrew p threw).owner, by rw [Host.setHandler_handlers]; rfl⟩
  refine ⟨?_, fun more u hu => ?_⟩
  · rw [hpeer]
    have hpc : x.peer.reader = .handling k b := hview.peer ▸ pc
    exact peer_poisoned hsoy hx hpc (by rw [peerStep, hview.peer, hread]; rfl)
  · obtain ⟨hstuck', hlog⟩ := stuck_run (queueInv_step hq hstep) hstuck hu
    exact ⟨hstuck'.owner, hlog⟩

/-- For every point of every run at which a handler throws. -/
theorem failed_delivery_poisons
    (hsoy : ∀ fs, soy.isComplete .text fs = true → soy.isComplete .binary fs = false) :
    (∀ c acts s k b t, run (peerStep soy) (.init c) acts = some s →
      s.peer.reader = .handling k b → peerStep soy s (.reader .handlerThrows) = some t →
        ¬ t.peer.Recovered b ∧ t.peer.Poisoned soy k b) ∧
    ∀ acts s p k b t, run (step soy) {} acts = some s → (s.peer p).reader = .handling k b →
      step soy s (.reader p .handlerThrows) = some t →
        ¬ t.Recovered soy p b ∧ t.Poisoned soy p k b := by
  constructor
  · intro c acts s k b t hr pc hstep
    have hpoisoned := peer_poisoned hsoy (reaches_of_run hr) pc hstep
    exact ⟨hpoisoned.not_recovered, hpoisoned⟩
  · intro acts s p k b t hr pc hstep
    have hpoisoned := host_poisoned hsoy hr pc hstep
    exact ⟨fun h => hpoisoned.peer.not_recovered h.peer, hpoisoned⟩

end Host

def pushBackFails : List Act :=
  -- two clients connect, and `PushBack` throws on the text of the first
  clientConnects 1 ++ clientConnects 2 ++ handshakes 0 ++ handshakes 1 ++ textArrives 0 [7] ++
    [.handler 0, .handler 0, .pushBackThrows 0]

def messageArrives (opcode : Opcode) : List PeerAct :=
  [.reader .next, .reader .next, .reader .next, .reader (.decoded (some [1]) none), .reader .next,
    .reader .next, .reader .next, .reader .next, .reader .next, .reader .next,
    .reader (.decoded none (some ⟨opcode, true, [7]⟩)), .reader .next]

def binaryHandled : List PeerAct := [.reader .next, .reader .next, .reader .next]

theorem failed_delivery_poisons_both : ∃ s t u v,
    run (peerStep firstOpcodeBuffer) (.init 1) (messageArrives .binary ++ binaryHandled) = some s ∧
      peerStep firstOpcodeBuffer s (.reader .handlerThrows) = some t ∧
      (¬ t.peer.Recovered 0 ∧ t.peer.Poisoned firstOpcodeBuffer .binary 0) ∧
      run (step firstOpcodeBuffer) {} pushBackFails = some u ∧
      step firstOpcodeBuffer u (.reader 0 .handlerThrows) = some v ∧
      ¬ v.Recovered firstOpcodeBuffer 0 0 ∧ v.Poisoned firstOpcodeBuffer 0 .text 0 := by
  have hs : (run (peerStep firstOpcodeBuffer) (.init 1)
      (messageArrives .binary ++ binaryHandled)).map (fun s =>
        (s.peer.reader, (peerStep firstOpcodeBuffer s (.reader .handlerThrows)).isSome)) =
      some (.handling .binary 0, true) := by
    decide +kernel
  have hu : (run (step firstOpcodeBuffer) {} pushBackFails).map (fun s =>
      ((s.peer 0).reader, (step firstOpcodeBuffer s (.reader 0 .handlerThrows)).isSome)) =
      some (.handling .text 0, true) := by
    decide +kernel
  obtain ⟨s, hruns, hs⟩ := Option.map_eq_some_iff.mp hs
  obtain ⟨hpcs, hthrows⟩ := Prod.mk.inj hs
  obtain ⟨t, ht⟩ := Option.isSome_iff_exists.mp hthrows
  obtain ⟨u, hrunu, hu⟩ := Option.map_eq_some_iff.mp hu
  obtain ⟨hpcu, hthrowu⟩ := Prod.mk.inj hu
  obtain ⟨v, hv⟩ := Option.isSome_iff_exists.mp hthrowu
  obtain ⟨hpeer, hhost⟩ := failed_delivery_poisons firstOpcodeBuffer_lawful.exclusive
  exact ⟨s, t, u, v, hruns, ht, hpeer 1 _ s .binary 0 t hruns hpcs ht, hrunu, hv,
    hhost _ u 0 .text 0 v hrunu hpcu hv⟩

def exceptionLeaves : List Act := pushBackFails ++ [.reader 0 .handlerThrows]

def secondClientSends : List Act := textArrives 1 [8] ++ [.handler 1]

def throwsAndSendsAgain : List PeerAct :=
  [.reader .next, .reader .next, .reader .handlerThrows, .reader .next, .reader .next,
    .reader .next, .reader .next, .reader (.decoded none (some ⟨.text, true, [8]⟩)),
    .reader .next, .reader .next, .reader .next]

theorem failed_delivery_spoils_later :
    (∃ t u, run (step firstOpcodeBuffer) {} exceptionLeaves = some t ∧
      ¬ t.Recovered firstOpcodeBuffer 0 0 ∧
      run (step firstOpcodeBuffer) t secondClientSends = some u ∧
      u.handlers 1 = .lock 2 [8] ∧ step firstOpcodeBuffer u (.handler 1) = none) ∧
    (run (peerStep firstOpcodeBuffer) (.init 1) (messageArrives .text ++ throwsAndSendsAgain)).map
      (fun s => deliveries s.peer.log) = some [(.text, [7]), (.text, [7, 8])] := by
  refine ⟨?_, by decide +kernel⟩
  have ht : (run (step firstOpcodeBuffer) {} exceptionLeaves).map (fun t =>
      (t.messagesLock.owner, (run (step firstOpcodeBuffer) t secondClientSends).map fun u =>
        (u.handlers 1, (step firstOpcodeBuffer u (.handler 1)).isNone))) =
      some (some (.reader 0), some (.lock 2 [8], true)) := by
    decide +kernel
  obtain ⟨t, hrun, ht⟩ := Option.map_eq_some_iff.mp ht
  obtain ⟨howner, hu⟩ := Prod.mk.inj ht
  obtain ⟨u, hrun', hu⟩ := Option.map_eq_some_iff.mp hu
  obtain ⟨hwaits, hblocked⟩ := Prod.mk.inj hu
  exact ⟨t, u, hrun, fun h => h.messagesUnlocked howner, hrun', hwaits,
    Option.isNone_iff_eq_none.mp hblocked⟩

end V8Min
