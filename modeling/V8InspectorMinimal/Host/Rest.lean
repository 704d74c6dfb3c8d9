import Mathlib.Algebra.Order.BigOperators.Group.Finset
import V8InspectorMinimal.Host.Races

/-! How the program comes to rest when nobody speaks any more. Wherever an orderly run has come to,
its own threads and a V8 that only returns can dispatch every message on its way, unless a read
thread has gone with `MessagesLock`. -/

namespace V8Min
open Locks Runs Socket

/-- The main thread sleeps with nothing to dispatch, and no read thread has a message for it. -/
structure Host.AtRest (s : Host) : Prop where
  main : s.main = .sleep
  messages : s.messages = []
  free : s.messagesLock.owner = none
  handlers : ∀ p, s.handlers p = .idle ∨ s.handlers p = .returned

/-- A statement of the program, or V8 coming back with nothing more to do. -/
def Act.Finishes : Act → Prop
  | .main .next | .main .returns | .main (.pumpMessageLoop false) | .handler _ | .accept => True
  | _ => False

/-! ## How far it is -/

def Frame.steps : Frame → ℕ
  | .script => 1
  | .runMessageLoopOnPause | .push _ _ _ => 2
  | .isCompleted _ _ _ => 3
  | .unlockClients _ _ _ => 4
  | .getClient _ _ => 5
  | .lockClients _ _ => 6
  | .sendResponse _ => 7

def MainPc.steps (empty : Bool) : MainPc → ℕ
  | .startup => 9
  | .inV8 .helloWorld frame => 7 + frame.steps
  | .inV8 .task frame => 6 + frame.steps
  | .inV8 .dispatch frame => 4 + frame.steps
  | .threw _ _ => 0
  | .sleep => if empty then 0 else 8
  | .testOnlyMessages => 7
  | .pumpMessageLoop => 6
  | .lockMessages => 5
  | .testMessages => 4
  | .popMessage => 3
  | .unlockMessages => 1

theorem MainPc.steps_inV8_lt (site : Site) {frame frame' : Frame} (h : frame'.steps < frame.steps)
    (empty : Bool) :
    (MainPc.inV8 site frame').steps empty < (MainPc.inV8 site frame).steps empty := by
  cases site <;> exact Nat.add_lt_add_left h _

def HandlerPc.steps : HandlerPc → ℕ
  | .record _ _ => 4
  | .lock _ _ => 3
  | .pushBack _ _ => 2
  | .unlock => 1
  | .idle | .returned | .threw => 0

def AcceptPc.steps : AcceptPc → ℕ
  | .pushBack _ => 2
  | .unlockClients => 1
  | _ => 0

namespace Host

def mainSteps (s : Host) : ℕ := 3 * s.messages.length + s.main.steps s.messages.isEmpty

def handlerSteps (s : Host) : ℕ :=
  ∑ p ∈ Finset.range s.mWebsocketServer.next, (s.handlers p).steps

def stepsToRest (s : Host) : ℕ := 12 * s.handlerSteps + s.mainSteps + s.accept.steps

end Host

section Main
variable {s t : Host}

structure MainFree (s : Host) : Prop where
  messages : s.main = .lockMessages → s.messagesLock.owner = none
  unlocked : ∀ site c m, s.main = .inV8 site (.lockClients c m) → s.mClientsLock.held = none
  takes : ∀ c m, s.main.sending = some (c, m) → ∃ p, s.Takes c p
  target : ∀ c p, s.main.target = some (c, p) → Settled (s.peer p)

def MainMoves (s : Host) : Prop := ∃ a t, Act.Finishes (.main a) ∧ mainStep s a = some t ∧
  t.handlers = s.handlers ∧ t.accept = s.accept ∧
    t.mWebsocketServer.next = s.mWebsocketServer.next ∧ t.mainSteps < s.mainSteps

theorem MainMoves.of_step {a : MainAct} (hstep : MainStep s a t) (ha : Act.Finishes (.main a))
    (hsteps : t.mainSteps < s.mainSteps) : MainMoves s := by
  have hnext : t.mWebsocketServer.next = s.mWebsocketServer.next := by
    cases hstep <;> rfl
  exact ⟨a, t, ha, hstep.eq_some, hstep.mainFrame.handlers, hstep.mainFrame.accept, hnext, hsteps⟩

theorem MainMoves.move {a : MainAct} {pc pc' : MainPc} (hstep : MainStep s a t)
    (ha : Act.Finishes (.main a)) (messages : t.messages = s.messages) (hs : s.main = pc)
    (ht : t.main = pc') (hsteps : ∀ b, pc'.steps b < pc.steps b) : MainMoves s := by
  refine .of_step hstep ha ?_
  rw [Host.mainSteps, Host.mainSteps, messages, hs, ht]
  exact Nat.add_lt_add_left (hsteps _) _

theorem MainMoves.moveInV8 {a : MainAct} {site : Site} {frame frame' : Frame}
    (hstep : MainStep s a t) (ha : Act.Finishes (.main a)) (messages : t.messages = s.messages)
    (hs : s.main = .inV8 site frame) (ht : t.main = .inV8 site frame')
    (hsteps : frame'.steps < frame.steps) : MainMoves s :=
  .move hstep ha messages hs ht fun b => MainPc.steps_inV8_lt site hsteps b

theorem mainMoves_inV8 (h : MainFree s) {site : Site} {frame : Frame}
    (pc : s.main = .inV8 site frame) : MainMoves s := by
  cases frame with
  | script =>
    refine .move (.returns site pc) trivial rfl pc rfl fun b => ?_
    cases site <;> exact Nat.lt_succ_self _
  | runMessageLoopOnPause =>
    exact .moveInV8 (.pauseReturns site pc) trivial rfl pc rfl (Nat.lt_succ_self 1)
  | sendResponse m => exact .moveInV8 (.send site m pc) trivial rfl pc rfl (Nat.lt_succ_self 6)
  | lockClients c m =>
    have hlock : s.mClientsLock.lock .main = some ⟨some (.main, 0)⟩ := by
      rw [RecursiveMutex.lock, h.unlocked site c m pc]
    exact .moveInV8 (.lockClients site c m _ pc hlock) trivial rfl pc rfl (Nat.lt_succ_self 5)
  | getClient c m =>
    obtain ⟨p, hclient, -⟩ := h.takes c m (by rw [pc]; rfl)
    exact .moveInV8 (.found site c m p pc hclient) trivial rfl pc rfl (Nat.lt_succ_self 4)
  | unlockClients c m p =>
    exact .moveInV8 (.unlockClients site c m p pc) trivial rfl pc rfl (Nat.lt_succ_self 3)
  | isCompleted c m p =>
    have hsent := (h.target c p (by rw [pc]; rfl)).sent
    exact .moveInV8 (.passed site c m p pc hsent) trivial rfl pc rfl (Nat.lt_succ_self 2)
  | push c m p => exact .moveInV8 (.push site c m p pc) trivial rfl pc rfl (Nat.lt_succ_self 1)

theorem mainMoves_popMessage {m : StdString} {rest : List StdString} (pc : s.main = .popMessage)
    (popped : s.messages = m :: rest) : MainMoves s := by
  refine .of_step (.popMessage m rest pc popped) trivial ?_
  simp only [Host.mainSteps, pc, popped, MainPc.steps, Frame.steps, List.length_cons]
  omega

theorem mainMoves (h : MainFree s) (hthrew : ∀ site e, s.main ≠ .threw site e)
    (hpop : s.main = .popMessage → s.messages ≠ [])
    (hempty : s.main = .unlockMessages → s.messages = [])
    (hawake : s.main = .sleep → s.messages ≠ []) : MainMoves s := by
  cases pc : s.main with
  | startup => exact .move (.startup pc) trivial rfl pc rfl fun _ => Nat.lt_succ_self 8
  | inV8 site frame => exact mainMoves_inV8 h pc
  | threw site e => exact absurd pc (hthrew site e)
  | testOnlyMessages =>
    cases honly : s.runOnlyMessagesInLoop with
    | true =>
      exact .move (.onlyMessages pc honly) trivial rfl pc rfl fun _ => by simp [MainPc.steps]
    | false => exact .move (.enterPump pc honly) trivial rfl pc rfl fun _ => Nat.lt_succ_self 6
  | pumpMessageLoop => exact .move (.noTask pc) trivial rfl pc rfl fun _ => Nat.lt_succ_self 5
  | lockMessages =>
    have hfree : s.messagesLock.owner = none := h.messages pc
    exact .move (.lockMessages pc hfree) trivial rfl pc rfl fun _ => Nat.lt_succ_self 4
  | testMessages =>
    by_cases hmessages : s.messages = []
    · exact .move (.noMessage pc hmessages) trivial rfl pc rfl fun _ => by simp [MainPc.steps]
    · exact .move (.someMessage pc hmessages) trivial rfl pc rfl fun _ => Nat.lt_succ_self 3
  | popMessage =>
    obtain ⟨m, rest, popped⟩ := List.exists_cons_of_ne_nil (hpop pc)
    exact mainMoves_popMessage pc popped
  | unlockMessages =>
    have hmessages := hempty pc
    refine .of_step (.unlockMessages pc) trivial ?_
    simp [Host.mainSteps, Host.emit, pc, hmessages, MainPc.steps]
  | sleep =>
    obtain ⟨m, rest, hmessages⟩ := List.exists_cons_of_ne_nil (hawake pc)
    refine .of_step (.sleep pc) trivial ?_
    simp [Host.mainSteps, pc, hmessages, MainPc.steps]

end Main

/-! ## The other threads -/

section Moves
variable {soy : MessageBufferLib} {s t : Host} {a : Act} {p : PeerId}

theorem handlerSteps_lt {pc : HandlerPc} (hp : p < s.mWebsocketServer.next)
    (next : t.mWebsocketServer.next = s.mWebsocketServer.next)
    (handlers : t.handlers = Function.update s.handlers p pc)
    (hsteps : pc.steps < (s.handlers p).steps) : t.handlerSteps < s.handlerSteps := by
  rw [Host.handlerSteps, Host.handlerSteps, next, handlers]
  refine Finset.sum_lt_sum (fun q _ => ?_) ⟨p, Finset.mem_range.mpr hp, ?_⟩
  · by_cases hq : q = p
    · rw [hq, Function.update_self]
      exact Nat.le_of_lt hsteps
    · rw [Function.update_of_ne hq]
  · rwa [Function.update_self]

theorem mainSteps_le (main : t.main = s.main)
    (messages : t.messages.length ≤ s.messages.length + 1) : t.mainSteps ≤ s.mainSteps + 11 := by
  -- a message costs a round, and if it wakes the main thread the way to the queue
  have hround : ∀ b b', s.main.steps b ≤ s.main.steps b' + 8 := by
    intro b b'
    cases s.main with
    | sleep => cases b <;> cases b' <;> decide
    | inV8 site frame => cases site <;> exact Nat.le_add_right _ _
    | _ => exact Nat.le_add_right _ _
  have hbound := hround t.messages.isEmpty s.messages.isEmpty
  rw [Host.mainSteps, Host.mainSteps, main]
  omega

theorem stepsToRest_lt_of_handler {pc pc' : HandlerPc} (hp : p < s.mWebsocketServer.next)
    (hs : s.handlers p = pc) (handlers : t.handlers = Function.update s.handlers p pc')
    (hsteps : pc'.steps < pc.steps) (next : t.mWebsocketServer.next = s.mWebsocketServer.next)
    (main : t.main = s.main) (accept : t.accept = s.accept)
    (messages : t.messages.length ≤ s.messages.length + 1) : t.stepsToRest < s.stepsToRest := by
  have hhandlers := handlerSteps_lt hp next handlers (hs ▸ hsteps)
  have hmain := mainSteps_le main messages
  rw [Host.stepsToRest, Host.stepsToRest, accept]
  omega

theorem exists_handlerStep (hp : p < s.mWebsocketServer.next) (hsteps : (s.handlers p).steps ≠ 0)
    (free : ∀ c m, s.handlers p = .lock c m → s.messagesLock.owner = none) :
    ∃ t, step soy s (.handler p) = some t ∧ t.stepsToRest < s.stepsToRest := by
  have henabled : (step soy s (.handler p)).isSome = true := by
    cases pc : s.handlers p with
    | record c m => simp only [step, handlerStep, pc, Option.isSome_some]
    | lock c m =>
      simp only [step, handlerStep, pc, Mutex.lock_eq_some.mpr ⟨free c m pc, rfl⟩,
        Option.map_some, Option.isSome_some]
    | pushBack c m => simp only [step, handlerStep, pc, Option.isSome_some]
    | unlock => simp only [step, handlerStep, pc, Option.isSome_some]
    | idle => exact absurd (by rw [pc]; rfl) hsteps
    | returned => exact absurd (by rw [pc]; rfl) hsteps
    | threw => exact absurd (by rw [pc]; rfl) hsteps
  obtain ⟨t, ht⟩ := Option.isSome_iff_exists.mp henabled
  refine ⟨t, ht, ?_⟩
  cases step_cases ht with
  | record _ c m pc =>
    exact stepsToRest_lt_of_handler hp pc rfl (Nat.lt_succ_self 3) rfl rfl rfl (Nat.le_succ _)
  | lock _ c m pc free =>
    exact stepsToRest_lt_of_handler hp pc rfl (Nat.lt_succ_self 2) rfl rfl rfl (Nat.le_succ _)
  | pushBack _ c m pc =>
    exact stepsToRest_lt_of_handler hp pc rfl (Nat.lt_succ_self 1) rfl rfl rfl
      (Nat.le_of_eq List.length_append)
  | unlock _ pc =>
    exact stepsToRest_lt_of_handler hp pc rfl Nat.zero_lt_one rfl rfl rfl (Nat.le_succ _)

theorem exists_acceptStep (soy : MessageBufferLib) (h : s.accept.holdsClients = true) :
    ∃ t, step soy s .accept = some t ∧ t.stepsToRest < s.stepsToRest := by
  cases pc : s.accept with
  | pushBack p =>
    refine ⟨_, by simp only [step, acceptStep, pc]; rfl, ?_⟩
    rw [Host.stepsToRest, Host.stepsToRest, pc]
    exact Nat.lt_succ_self _
  | unlockClients =>
    refine ⟨_, by simp only [step, acceptStep, pc]; rfl, ?_⟩
    rw [Host.stepsToRest, Host.stepsToRest, pc]
    exact Nat.lt_succ_self _
  | idle => cases pc ▸ h
  | construct c => cases pc ▸ h
  | lockClients p => cases pc ▸ h

theorem owner_ne_accept_step (hq : QueueInv s) (h : s.messagesLock.owner ≠ some .accept)
    (hstep : step soy s a = some t) : t.messagesLock.owner ≠ some .accept := by
  cases (step_cases hstep).queueStep hq.inside with
  | quiet _ _ messages lock locked log draining rank empty pop => rwa [lock]
  | enter _ outside free handlers messages lock log main =>
    rw [lock]
    nofun
  | pop _ m pc messages handlers lock log main => rwa [lock]
  | leave _ pc handlers messages lock log main =>
    rw [lock]
    nofun
  | acquire _ p c m pc free handlers messages lock log main =>
    rw [lock]
    nofun
  | push _ p c m pc handlers messages lock log main => rwa [lock]
  | release _ p pc handlers messages lock log main =>
    rw [lock]
    nofun
  | fail _ p c m pc handlers messages lock log main => rwa [lock]

end Moves

/-! ## Every orderly run -/

structure RestInv (soy : MessageBufferLib) (s : Host) : Prop where
  orderly : OrderlyInv s
  guard : GuardInv soy s
  main : MainHolds s
  threw : ThrewLocked s
  owner : s.messagesLock.owner ≠ some .accept

section Rest
variable {soy : MessageBufferLib} {s t : Host} {a : Act}

theorem restInv_init (soy : MessageBufferLib) : RestInv soy {} where
  orderly := orderlyInv_init
  guard := guardInv_init soy
  main := (lockInv_init soy).main
  threw := threwLocked_init
  owner := nofun

theorem restInv_step (h : RestInv soy s) (hok : Orderly s a) (hstep : step soy s a = some t) :
    RestInv soy t where
  orderly := orderlyInv_step h.orderly hok hstep
  guard := guardInv_step h.guard hstep
  main := mainHolds_step h.guard.queue h.main hstep
  threw := threwLocked_step h.guard.queue h.threw hstep
  owner := owner_ne_accept_step h.guard.queue h.owner hstep

theorem Act.Finishes.orderly (h : a.Finishes) (s : Host) : Orderly s a := by
  cases a with
  | main b =>
    cases b with
    | sendResponse callId message => exact absurd h not_false
    | _ => trivial
  | reader p b => exact absurd h not_false
  | connect c => exact absurd h not_false
  | _ => trivial

theorem Act.Finishes.unstuck (hq : QueueInv s) (h : a.Finishes) (hstep : step soy s a = some t)
    (hs : ∀ p, ¬ Stuck p s) (p : PeerId) : ¬ Stuck p t := by
  intro hstuck
  rcases stuck_of_step hq hstep hstuck with hold | rfl
  · exact hs p hold
  · exact h

theorem RestInv.owner_eq_none (h : RestInv soy s) (hmain : ¬ s.main.holdsMessages = true)
    (hreader : ∀ p, s.messagesLock.owner ≠ some (.reader p)) : s.messagesLock.owner = none := by
  cases howner : s.messagesLock.owner with
  | none => rfl
  | some u =>
    cases u with
    | main => exact absurd (h.main.mp howner) hmain
    | accept => exact absurd howner h.owner
    | reader p => exact absurd howner (hreader p)

theorem RestInv.mainFree (h : RestInv soy s) (haccept : ¬ s.accept.holdsClients = true)
    (hreader : ∀ p, s.messagesLock.owner ≠ some (.reader p)) : MainFree s where
  messages pc := h.owner_eq_none (by rw [pc]; exact Bool.noConfusion) hreader
  unlocked site c m pc := by
    rcases hheld : s.mClientsLock.held with _ | ⟨u, n⟩
    · rfl
    · have hin := ((h.guard.clients u n).mp hheld).1
      cases u with
      | main =>
        rw [Host.insideClients, pc] at hin
        cases hin
      | accept => exact absurd hin haccept
      | reader p => cases hin
  takes c m sending := by
    obtain ⟨left, -, hleft⟩ := h.orderly.answered
    obtain ⟨p, -, htakes⟩ := hleft.2 c m sending
    exact ⟨p, htakes⟩
  target c p target := h.orderly.settled_of_target target

theorem HandlerPc.steps_ne_zero {pc : HandlerPc} (hout : ¬ (pc = .idle ∨ pc = .returned))
    (hthrew : pc ≠ .threw) : pc.steps ≠ 0 := by
  cases pc with
  | idle => exact absurd (Or.inl rfl) hout
  | returned => exact absurd (Or.inr rfl) hout
  | threw => exact absurd rfl hthrew
  | _ => exact Nat.succ_ne_zero _

theorem RestInv.exists_handlerStep (h : RestInv soy s) (hs : ∀ p, ¬ Stuck p s) {p : PeerId}
    (hout : ¬ (s.handlers p = .idle ∨ s.handlers p = .returned))
    (free : ∀ c m, s.handlers p = .lock c m → s.messagesLock.owner = none) :
    ∃ t, step soy s (.handler p) = some t ∧ t.stepsToRest < s.stepsToRest := by
  have hp := (h.guard.queue.inside p fun hidle => hout (Or.inl hidle)).1
  exact V8Min.exists_handlerStep hp
    (HandlerPc.steps_ne_zero hout fun hthrew => hs p (h.threw p hthrew)) free

theorem exists_step_to_rest (h : RestInv soy s) (hs : ∀ p, ¬ Stuck p s) (hrest : ¬ s.AtRest) :
    ∃ a t, a.Finishes ∧ step soy s a = some t ∧ t.stepsToRest < s.stepsToRest := by
  -- whoever holds a lock goes first
  by_cases haccept : s.accept.holdsClients = true
  · obtain ⟨t, ht, hlt⟩ := exists_acceptStep soy haccept
    exact ⟨.accept, t, trivial, ht, hlt⟩
  by_cases hreader : ∃ p, s.messagesLock.owner = some (.reader p)
  · obtain ⟨p, howner⟩ := hreader
    have hlocked : (s.handlers p).locked ≠ none := fun hout => hs p ⟨howner, hout⟩
    have hout : ¬ (s.handlers p = .idle ∨ s.handlers p = .returned) := by
      rintro (hpc | hpc)
      · exact hlocked (by rw [hpc]; rfl)
      · exact hlocked (by rw [hpc]; rfl)
    obtain ⟨t, ht, hlt⟩ := h.exists_handlerStep hs hout fun c m pc =>
      absurd (by rw [pc]; rfl) hlocked
    exact ⟨.handler p, t, trivial, ht, hlt⟩
  rw [not_exists] at hreader
  have hfree := h.mainFree haccept hreader
  by_cases hmain : s.main = .sleep ∧ s.messages = []
  · obtain ⟨hsleep, hmessages⟩ := hmain
    have howner := h.owner_eq_none (by rw [hsleep]; exact Bool.noConfusion) hreader
    -- the main thread sleeps, and what is left is a handler
    obtain ⟨p, hout⟩ : ∃ p, ¬ (s.handlers p = .idle ∨ s.handlers p = .returned) := by
      by_contra hall
      rw [not_exists] at hall
      simp only [not_not] at hall
      exact hrest ⟨hsleep, hmessages, howner, fun p => hall p⟩
    obtain ⟨t, ht, hlt⟩ := h.exists_handlerStep hs hout fun _ _ _ => howner
    exact ⟨.handler p, t, trivial, ht, hlt⟩
  · obtain ⟨a, t, ha, ht, handlers, accept, next, hlt⟩ := mainMoves hfree
      (fun site e pc => h.orderly.kept (by rw [pc]; rfl)) h.guard.queue.pop h.guard.queue.empty
      fun hsleep hmessages => hmain ⟨hsleep, hmessages⟩
    refine ⟨.main a, t, ha, ht, ?_⟩
    rw [Host.stepsToRest, Host.stepsToRest, accept, Host.handlerSteps, Host.handlerSteps, next,
      handlers]
    omega

/-- From wherever an orderly run has come to, the threads can bring the program to rest with every
message dispatched, exactly as long as no read thread is stuck with `MessagesLock`. -/
theorem rests_iff (h : Reaches (step soy) Orderly {} s) :
    (∃ t, Reaches (step soy) (fun _ => Act.Finishes) s t ∧ t.AtRest ∧
      dispatches t.log = (pushes t.log).map textOf) ↔ ∀ p, ¬ Stuck p s := by
  have hinv : RestInv soy s :=
    h.invariant (fun _ _ _ hok hs ht => restInv_step hs hok ht) (restInv_init soy)
  constructor
  · rintro ⟨t, ⟨acts, hrun, -⟩, hrest, -⟩ p hstuck
    cases (stuck_run hinv.guard.queue hstuck hrun).1.owner.symm.trans hrest.free
  · intro hs
    have hstep : ∀ u, RestInv soy u ∧ (∀ p, ¬ Stuck p u) → ¬ u.AtRest → ∃ a v,
        Act.Finishes a ∧ step soy u a = some v ∧ (RestInv soy v ∧ ∀ p, ¬ Stuck p v) ∧
          v.stepsToRest < u.stepsToRest := by
      rintro u ⟨hu, hsu⟩ hrest
      obtain ⟨a, v, ha, hv, hlt⟩ := exists_step_to_rest hu hsu hrest
      exact ⟨a, v, ha, hv, ⟨restInv_step hu (ha.orderly u) hv, ha.unstuck hu.guard.queue hv hsu⟩,
        hlt⟩
    obtain ⟨t, ht, hrest⟩ := exists_reaches_of_rank hstep ⟨hinv, hs⟩
    have hqueue : QueueInv t := ht.invariant (fun _ _ _ _ hs ht => queueInv_step hs ht)
      hinv.guard.queue
    have hkept := hqueue.kept
    rw [hrest.messages, List.append_nil] at hkept
    exact ⟨t, ht, hrest, hkept⟩

end Rest

def oneQueued : List Act :=
  -- the text of a client is in the queue while the main thread has not started
  clientConnects 1 ++ handshakes 0 ++ textArrives 0 [7] ++ onTextMessage 0

theorem rests_iff_one : ∃ s, Reaches (step firstOpcodeBuffer) Orderly {} s ∧ s.messages = [[7]] ∧
    ∃ t, Reaches (step firstOpcodeBuffer) (fun _ => Act.Finishes) s t ∧ t.AtRest ∧
      dispatches t.log = (pushes t.log).map textOf := by
  have hrun : (run (guarded (step firstOpcodeBuffer) Orderly) {} oneQueued).map
      (fun s => (s.messages, s.messagesLock.owner)) = some ([[7]], none) := by
    decide +kernel
  obtain ⟨s, hs, heq⟩ := Option.map_eq_some_iff.mp hrun
  obtain ⟨hmessages, hfree⟩ := Prod.mk.inj heq
  have hreaches := reaches_of_run_guarded hs
  exact ⟨s, hreaches, hmessages,
    (rests_iff hreaches).mpr fun p hstuck => nomatch hfree.symm.trans hstuck.owner⟩

end V8Min
