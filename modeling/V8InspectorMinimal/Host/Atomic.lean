import V8InspectorMinimal.Host.Connections
import V8InspectorMinimal.Host.Locking

/-! `Send` of the server as one step. The main thread takes six steps for it and the other threads
move between them, but every run is one in which it is called and done with at once. -/

namespace V8Min
open Locks Runs Socket

def Host.sendAtOnce (s : Host) (site : Site) (c : SoyRef) (m : StdString) : Host :=
  match s.mWebsocketServer.send c m with
  | (server, .error e) => { s with mWebsocketServer := server, main := .threw site e }
  | (server, .ok ()) =>
    let queued := (s.mWebsocketServer.getClient c).toOption.map (Event.queued · c m)
    { s with mWebsocketServer := server, main := .inV8 site .script, log := s.log ++ queued.toList }

def atomicMainStep (s : Host) (a : MainAct) : Option Host :=
  match s.main, a with
  | .inV8 site (.lockClients c m), .next => some (s.sendAtOnce site c m)
  | _, _ => mainStep s a

def atomicStep (soy : MessageBufferLib) (s : Host) : Act → Option Host
  | .main a => atomicMainStep s a
  | a => step soy s a

/-- The steps of the main thread inside `Send` are left out, but for the one that ends the call. -/
def endsSend (s : Host) : Act → Option Act
  | .main a =>
    if s.main.sending.isSome && (mainStep s a).any (·.main.sending.isSome) then none
    else some (.main a)
  | a => some a

/-- A call of `Send` that has begun has done nothing yet. -/
def MainPc.atCall : MainPc → MainPc
  | .inV8 site (.getClient c m) | .inV8 site (.unlockClients c m _)
  | .inV8 site (.isCompleted c m _) | .inV8 site (.push c m _) => .inV8 site (.lockClients c m)
  | pc => pc

def withoutMain (l : RecursiveMutex Thread) : RecursiveMutex Thread :=
  match l.held with
  | some (.main, _) => {}
  | _ => l

def Host.withMain (s : Host) (l : RecursiveMutex Thread) (pc : MainPc) : Host :=
  { s with mClientsLock := l, main := pc }

def Host.atCall (s : Host) : Host := s.withMain (withoutMain s.mClientsLock) s.main.atCall

section Step
variable {soy : MessageBufferLib} {s t : Host} {a : Act}

/-! ## The other threads -/

theorem readerThreadStep_withMain (s : Host) (p : PeerId) (a : ReaderAct)
    (l : RecursiveMutex Thread) (pc : MainPc) :
    readerThreadStep soy (s.withMain l pc) p a =
      (readerThreadStep soy s p a).map (·.withMain l pc) := by
  have hpeer : (s.withMain l pc).peer p = s.peer p := rfl
  have hhandlers : (s.withMain l pc).handlers = s.handlers := rfl
  have hnext : (s.withMain l pc).mWebsocketServer.next = s.mWebsocketServer.next := rfl
  unfold readerThreadStep
  rw [hpeer, hhandlers, hnext, apply_ite (Option.map _), Option.map_none]
  congr 1
  cases readerStep soy (s.peer p) a with
  | none => rfl
  | some q =>
    dsimp only
    split
    · rfl
    · rfl
    · rw [apply_ite (Option.map _)]
      rfl
    · rw [apply_ite (Option.map _)]
      rfl
    · rfl

theorem handlerStep_withMain (s : Host) (p : PeerId) (l : RecursiveMutex Thread) (pc : MainPc) :
    handlerStep (s.withMain l pc) p = (handlerStep s p).map (·.withMain l pc) := by
  have hhandlers : (s.withMain l pc).handlers = s.handlers := rfl
  unfold handlerStep
  rw [hhandlers]
  split
  · rfl
  · rw [Option.map_map]
    rfl
  all_goals rfl

theorem step_withMain (hmain : ∀ b, a ≠ .main b) (haccept : a ≠ .accept)
    (l : RecursiveMutex Thread) (pc : MainPc) :
    step soy (s.withMain l pc) a = (step soy s a).map (·.withMain l pc) := by
  cases a with
  | main b => exact absurd rfl (hmain b)
  | accept => exact absurd rfl haccept
  | reader p a => exact readerThreadStep_withMain s p a l pc
  | handler p => exact handlerStep_withMain s p l pc
  | pushBackThrows p =>
    have hhandlers : (s.withMain l pc).handlers = s.handlers := rfl
    simp only [step, pushBackThrows, hhandlers]
    split <;> rfl
  | connect c =>
    have hidle : (s.withMain l pc).accept = s.accept := rfl
    simp only [step, hidle]
    split <;> rfl
  | disconnect p =>
    simp only [step]
    rw [apply_ite (Option.map _)]
    rfl

theorem HostStep.withMain_eq (h : HostStep soy s a t) (hmain : ∀ b, a ≠ .main b)
    (haccept : a ≠ .accept) :
    t.withMain (withoutMain s.mClientsLock) s.main.atCall = t.atCall := by
  cases h with
  | main b t step => exact absurd rfl (hmain b)
  | construct c pc => exact absurd rfl haccept
  | lockClients p l pc lock => exact absurd rfl haccept
  | pushClient p pc => exact absurd rfl haccept
  | unlockClients pc => exact absurd rfl haccept
  | _ => rfl

theorem withoutMain_of_accept {l : RecursiveMutex Thread} {n : ℕ}
    (h : l.held = some (.accept, n)) : withoutMain l = l := by
  unfold withoutMain
  rw [h]

theorem withoutMain_of_free {l : RecursiveMutex Thread} (h : l.held = none) :
    withoutMain l = l := by
  unfold withoutMain
  rw [h]

theorem withoutMain_of_main {l : RecursiveMutex Thread} {n : ℕ} (h : l.held = some (.main, n)) :
    withoutMain l = {} := by
  unfold withoutMain
  rw [h]

theorem acceptStep_atCall (h : ClientsGuarded s) (hstep : step soy s .accept = some t) :
    step soy s.atCall .accept = some t.atCall := by
  have haccept : s.atCall.accept = s.accept := rfl
  cases step_cases hstep with
  | construct c pc =>
    simp only [step, acceptStep, haccept, pc]
    rfl
  | lockClients p l pc lock =>
    have hout : s.insideClients .accept = false := congrArg AcceptPc.holdsClients pc
    have hfree := h.held_of_lock hout lock
    have hheld := RecursiveMutex.held_of_lock hfree lock
    simp only [step, acceptStep, Host.atCall, Host.withMain, pc, withoutMain_of_free hfree, lock,
      Option.map_some, withoutMain_of_accept hheld]
  | pushClient p pc =>
    simp only [step, acceptStep, haccept, pc]
    rfl
  | unlockClients pc =>
    have hin : s.insideClients .accept = true := congrArg AcceptPc.holdsClients pc
    have hheld := h.held hin
    have hfree := RecursiveMutex.held_unlock hheld
    simp only [step, acceptStep, Host.atCall, Host.withMain, pc, withoutMain_of_accept hheld,
      withoutMain_of_free hfree]

theorem otherStep_atCall (h : ClientsGuarded s) (hmain : ∀ b, a ≠ .main b)
    (hstep : step soy s a = some t) : atomicStep soy s.atCall a = some t.atCall := by
  have hsame : atomicStep soy s.atCall a = step soy s.atCall a := by
    cases a with
    | main b => exact absurd rfl (hmain b)
    | _ => rfl
  rw [hsame]
  by_cases haccept : a = .accept
  · subst haccept
    exact acceptStep_atCall h hstep
  · rw [Host.atCall, step_withMain hmain haccept, hstep, Option.map_some,
      (step_cases hstep).withMain_eq hmain haccept]

/-! ## The main thread -/

structure SendInv (s : Host) : Prop where
  found : FoundInv s
  clients : ClientsGuarded s
  completed : ∀ site c m p, s.main = .inV8 site (.push c m p) → (s.peer p).isCompleted = true

theorem mainStep_withMain {a : MainAct} (hs : s.main.sending = none) (hstep : MainStep s a t)
    (l : RecursiveMutex Thread) : MainStep (s.withMain l s.main) a (t.withMain l t.main) := by
  cases hstep with
  | startup pc => exact .startup pc
  | returns site pc => exact .returns site pc
  | pause site pc => exact .pause site pc
  | pauseReturns site pc => exact .pauseReturns site pc
  | quit site pc => exact .quit site pc
  | respond site callId message m pc text => exact .respond site callId message m pc text
  | send site m pc => exact .send site m pc
  | onlyMessages pc only => exact .onlyMessages pc only
  | enterPump pc all => exact .enterPump pc all
  | task pc => exact .task pc
  | noTask pc => exact .noTask pc
  | lockMessages pc free => exact .lockMessages pc free
  | noMessage pc empty => exact .noMessage pc empty
  | someMessage pc nonempty => exact .someMessage pc nonempty
  | popMessage m rest pc popped => exact .popMessage m rest pc popped
  | unlockMessages pc => exact .unlockMessages pc
  | sleep pc => exact .sleep pc
  | _ => simp_all [MainPc.sending]

theorem atCall_of_sending {pc : MainPc} (h : pc.sending = none) : pc.atCall = pc := by
  cases pc with
  | inV8 site frame =>
    cases frame with
    | getClient c m => cases h
    | unlockClients c m p => cases h
    | isCompleted c m p => cases h
    | push c m p => cases h
    | _ => rfl
  | _ => rfl

theorem outsideStep_atCall {a : MainAct} (hs : s.main.sending = none) (hstep : MainStep s a t) :
    atomicMainStep s.atCall a = some t.atCall := by
  have hmain : s.atCall.main = s.main := atCall_of_sending hs
  have hsame : atomicMainStep s.atCall a = mainStep s.atCall a := by
    unfold atomicMainStep
    rw [hmain]
    split
    · rename_i site c m pc
      rw [pc] at hs
      cases hs
    · rfl
  have hlock : t.mClientsLock = s.mClientsLock := by
    cases hstep with
    | lockClients site c m l pc lock => exact absurd (pc ▸ hs) (Option.some_ne_none _)
    | notFound site c m e pc client => exact absurd (pc ▸ hs) (Option.some_ne_none _)
    | unlockClients site c m p pc => exact absurd (pc ▸ hs) (Option.some_ne_none _)
    | _ => rfl
  have htarget : t.main.atCall = t.main := by
    cases hstep with
    | returns site pc => cases site <;> rfl
    | quit site pc => exact hmain
    | found site c m p pc client => exact absurd (pc ▸ hs) (Option.some_ne_none _)
    | lockClients site c m l pc lock => exact absurd (pc ▸ hs) (Option.some_ne_none _)
    | unlockClients site c m p pc => exact absurd (pc ▸ hs) (Option.some_ne_none _)
    | passed site c m p pc completed => exact absurd (pc ▸ hs) (Option.some_ne_none _)
    | _ => rfl
  have hstep' := mainStep_withMain hs hstep (withoutMain s.mClientsLock)
  rw [hsame, Host.atCall, Host.atCall, htarget, hlock, atCall_of_sending hs]
  exact hstep'.eq_some

theorem sendAtOnce_of_error {site : Site} {c : SoyRef} {m : StdString} {e : AssertException}
    (h : s.mWebsocketServer.getClient c = .error e) :
    s.sendAtOnce site c m = { s with main := .threw site e } := by
  unfold Host.sendAtOnce
  rw [Server.send_of_getClient_error h]

theorem sendAtOnce_of_incomplete {site : Site} {c : SoyRef} {m : StdString} {p : PeerId}
    (h : s.mWebsocketServer.getClient c = .ok p) (hp : (s.peer p).isCompleted = false) :
    s.sendAtOnce site c m = { s with main := .threw site .sendBeforeHandshake } := by
  have hsend : (s.mWebsocketServer.peers p).send m = (s.peer p, .error .sendBeforeHandshake) :=
    if_neg (Bool.eq_false_iff.mp hp)
  have hserver : s.mWebsocketServer.setPeer p (s.peer p) = s.mWebsocketServer := by
    unfold Server.setPeer Host.peer
    rw [Function.update_eq_self]
  unfold Host.sendAtOnce Server.send
  simp only [h, hsend, hserver]

theorem sendAtOnce_of_completed {site : Site} {c : SoyRef} {m : StdString} {p : PeerId}
    (h : s.mWebsocketServer.getClient c = .ok p) (hp : (s.peer p).isCompleted = true) :
    s.sendAtOnce site c m = { (s.setPeer p ((s.peer p).push (.message m))).emit (.queued p c m) with
      main := .inV8 site .script } := by
  have hsend : (s.mWebsocketServer.peers p).send m = ((s.peer p).push (.message m), .ok ()) :=
    if_pos hp
  unfold Host.sendAtOnce Server.send
  simp only [h, hsend]
  rfl

theorem endsSend_of_outside {a : MainAct} (hs : s.main.sending = none) :
    endsSend s (.main a) = some (.main a) := by
  rw [endsSend, hs]
  rfl

theorem endsSend_of_goes_on {a : MainAct} {x y : SoyRef × StdString} (hstep : MainStep s a t)
    (hs : s.main.sending = some x) (ht : t.main.sending = some y) :
    endsSend s (.main a) = none := by
  rw [endsSend, hs, hstep.eq_some, Option.any_some, ht]
  rfl

theorem endsSend_of_ends {a : MainAct} (hstep : MainStep s a t) (ht : t.main.sending = none) :
    endsSend s (.main a) = some (.main a) := by
  rw [endsSend, hstep.eq_some, Option.any_some, ht, Option.isSome_none, Bool.and_false]
  rfl

theorem mainStep_atCall (h : SendInv s) {a : MainAct} (hstep : MainStep s a t) :
    endsSend s (.main a) = none ∧ t.atCall = s.atCall ∨
      endsSend s (.main a) = some (.main a) ∧ atomicMainStep s.atCall a = some t.atCall := by
  have hheld {pc : MainPc} (hpc : s.main = pc) (hin : pc.holdsClients = true) :
      s.mClientsLock.held = some (.main, 0) := by
    subst hpc
    have hinside : s.insideClients .main = true := hin
    exact h.clients.held hinside
  have hcall {site : Site} {c : SoyRef} {m : StdString}
      (hpc : s.main.atCall = .inV8 site (.lockClients c m)) :
      atomicMainStep s.atCall .next = some (s.atCall.sendAtOnce site c m) := by
    unfold atomicMainStep
    rw [show s.atCall.main = _ from hpc]
  by_cases hs : s.main.sending = none
  · exact Or.inr ⟨endsSend_of_outside hs, outsideStep_atCall hs hstep⟩
  cases hstep with
  | lockClients site c m l pc lock =>
    have hout : s.insideClients .main = false := congrArg MainPc.holdsClients pc
    have hfree := h.clients.held_of_lock hout lock
    -- the lock is taken, and nothing has happened that another thread could see
    have hnone : s.mClientsLock = {} := congrArg RecursiveMutex.mk hfree
    refine Or.inl ⟨endsSend_of_goes_on (.lockClients site c m l pc lock) (by rw [pc]; rfl) rfl, ?_⟩
    have hheld := RecursiveMutex.held_of_lock hfree lock
    simp only [Host.atCall, Host.withMain, pc, withoutMain_of_main hheld, hnone, MainPc.atCall]
    rfl
  | found site c m p pc client =>
    refine Or.inl ⟨endsSend_of_goes_on (.found site c m p pc client) (by rw [pc]; rfl) rfl, ?_⟩
    simp only [Host.atCall, pc]
    rfl
  | notFound site c m e pc client =>
    have hfree := RecursiveMutex.held_unlock (hheld pc rfl)
    have hnone : s.mClientsLock.unlock = {} := congrArg RecursiveMutex.mk hfree
    refine Or.inr ⟨endsSend_of_ends (.notFound site c m e pc client) rfl, ?_⟩
    rw [hcall (by rw [pc]; rfl), sendAtOnce_of_error (s := s.atCall) client]
    simp only [Host.atCall, Host.withMain, withoutMain_of_main (hheld pc rfl), hnone,
      MainPc.atCall]
    rfl
  | unlockClients site c m p pc =>
    have hfree := RecursiveMutex.held_unlock (hheld pc rfl)
    have hnone : s.mClientsLock.unlock = {} := congrArg RecursiveMutex.mk hfree
    refine Or.inl ⟨endsSend_of_goes_on (.unlockClients site c m p pc) (by rw [pc]; rfl) rfl, ?_⟩
    simp only [Host.atCall, Host.withMain, pc, withoutMain_of_main (hheld pc rfl), hnone,
      MainPc.atCall]
    rfl
  | passed site c m p pc completed =>
    refine Or.inl
      ⟨endsSend_of_goes_on (.passed site c m p pc completed) (by rw [pc]; rfl) rfl, ?_⟩
    simp only [Host.atCall, pc]
    rfl
  | refused site c m p pc incomplete =>
    -- the call ends here, and from its start on it finds the same client
    have hclient := h.found.target c p (by rw [pc]; rfl)
    refine Or.inr ⟨endsSend_of_ends (.refused site c m p pc incomplete) rfl, ?_⟩
    rw [hcall (by rw [pc]; rfl), sendAtOnce_of_incomplete (s := s.atCall) hclient incomplete]
    rfl
  | push site c m p pc =>
    have hclient := h.found.target c p (by rw [pc]; rfl)
    have hcompleted := h.completed site c m p pc
    refine Or.inr ⟨endsSend_of_ends (.push site c m p pc) rfl, ?_⟩
    rw [hcall (by rw [pc]; rfl), sendAtOnce_of_completed (s := s.atCall) hclient hcompleted]
    rfl
  | _ => simp_all [MainPc.sending]

/-! ## A completed handshake stays completed -/

theorem isCompleted_readerStep {p q : Peer} {b : ReaderAct} (h : ReaderStep soy p b q)
    (hp : p.isCompleted = true) : q.isCompleted = true := by
  cases h with
  | alloc pc => exact p.allocProtocol_mHasSentAcceptReply.trans hp
  | setHasSent r pc => rfl
  | _ => exact hp

theorem HostStep.isCompleted (h : HostStep soy s a t) {p : PeerId}
    (hp : p < s.mWebsocketServer.next) (hc : (s.peer p).isCompleted = true) :
    (t.peer p).isCompleted = true := by
  rcases h.peer_cases hp with heq | ⟨b, -, hread⟩ | ⟨m, heq⟩
  · rwa [heq]
  · exact isCompleted_readerStep hread hc
  · rw [heq]
    exact hc

theorem HostStep.push_cases (h : HostStep soy s a t) {site : Site} {c : SoyRef} {m : StdString}
    {p : PeerId} (ht : t.main = .inV8 site (.push c m p)) :
    s.main = .inV8 site (.push c m p) ∨ (s.peer p).isCompleted = true ∧ t.peer p = s.peer p := by
  cases h with
  | main b t step =>
    cases step with
    | passed site' c' m' p' pc completed =>
      cases ht
      exact Or.inr ⟨completed, rfl⟩
    | returns site' pc => cases site' <;> cases ht
    | quit site' pc => exact Or.inl ht
    | _ => cases ht
  | _ => exact Or.inl ht

theorem sendInv_init : SendInv {} where
  found := foundInv_init
  clients := RecursiveMutex.guards_of_free rfl fun u => by cases u <;> rfl
  completed _ _ _ _ h := nomatch h

theorem sendInv_step (h : SendInv s) (hstep : step soy s a = some t) : SendInv t where
  found := foundInv_step h.found hstep
  clients := clientsGuarded_step h.clients hstep
  completed site c m p ht := by
    rcases (step_cases hstep).push_cases ht with hs | ⟨hcompleted, hpeer⟩
    · have hclient := h.found.target c p (by rw [hs]; rfl)
      have hlt := h.found.server.clients_lt p (Server.getClient_spec hclient).1
      exact (step_cases hstep).isCompleted hlt (h.completed site c m p hs)
    · rw [hpeer, hcompleted]

theorem step_atCall (h : SendInv s) (hstep : step soy s a = some t) :
    endsSend s a = none ∧ t.atCall = s.atCall ∨
      ∃ b, endsSend s a = some b ∧ atomicStep soy s.atCall b = some t.atCall := by
  cases a with
  | main b =>
    rcases mainStep_atCall h (mainStep_cases hstep) with hleft | hends
    · exact Or.inl hleft
    · exact Or.inr ⟨.main b, hends⟩
  | _ => exact Or.inr ⟨_, rfl, otherStep_atCall h.clients nofun hstep⟩

theorem eq_of_endsSend {b : Act} (h : endsSend s a = some b) : b = a := by
  unfold endsSend at h
  split at h
  · split at h
    · cases h
    · exact (Option.some.inj h).symm
  · exact (Option.some.inj h).symm

end Step

/-- Whatever the threads do between the steps of `Send`, leaving out those that do not end its call
gives a run in which every `Send` is done at once, with the same messages, queues, log and
exceptions. -/
theorem send_atomic (soy : MessageBufferLib) (acts : List Act) (s : Host)
    (h : run (step soy) {} acts = some s) :
    (outputs (step soy) endsSend {} acts).Sublist acts ∧
      run (atomicStep soy) {} (outputs (step soy) endsSend {} acts) = some s.atCall :=
  ⟨outputs_sublist (fun _ _ _ hb => eq_of_endsSend hb) _ acts,
    run_outputs (f := Host.atCall) (fun _ _ _ hs ht => sendInv_step hs ht)
      (fun _ _ _ hs ht => step_atCall hs ht) sendInv_init h⟩

def joinsMeanwhile : List Act :=
  -- while the main thread answers the client with reference 1, another client is added
  clientConnects 1 ++ handshakes 0 ++ textArrives 0 [7] ++ [.handler 0, .main .next,
    .main (.sendResponse 0 (.of8 [9])), .main .next, .connect 2, .accept, .main .next, .main .next,
    .main .next, .accept, .main .next, .accept, .main .next, .accept]

theorem send_atomic_joinsMeanwhile : ∃ s calls,
    run (step firstOpcodeBuffer) {} joinsMeanwhile = some s ∧
      (s.main, s.log.getLast?) = (.inV8 .helloWorld .script, some (.queued 0 1 [9])) ∧
      calls = outputs (step firstOpcodeBuffer) endsSend {} joinsMeanwhile ∧
      calls.length + 4 = joinsMeanwhile.length ∧ calls.Sublist joinsMeanwhile ∧
      run (atomicStep firstOpcodeBuffer) {} calls = some s.atCall := by
  have hrun : (run (step firstOpcodeBuffer) {} joinsMeanwhile).map
      (fun s => (s.main, s.log.getLast?)) =
        some (.inV8 .helloWorld .script, some (.queued 0 1 [9])) := by decide +kernel
  obtain ⟨s, hs, heq⟩ := Option.map_eq_some_iff.mp hrun
  obtain ⟨hsub, hcalls⟩ := send_atomic firstOpcodeBuffer joinsMeanwhile s hs
  exact ⟨s, _, hs, heq, rfl, by decide +kernel, hsub, hcalls⟩

end V8Min
