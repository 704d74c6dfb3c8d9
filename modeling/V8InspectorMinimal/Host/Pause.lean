import V8InspectorMinimal.Base.History
import V8InspectorMinimal.Base.Runs
import V8InspectorMinimal.Host.Steps

/-! The pause protocol of `InspectorClientImpl`. `RunMessageLoop` sets a flag that the main loop
tests once for each round, and returns. What V8 may rely on follows from these two facts. -/

namespace V8Min
open Runs History Socket

inductive PauseCall where
  | run
  | quit
  deriving DecidableEq, Repr

def pauseCall : Event → Option PauseCall
  | .paused => some .run
  | .quit => some .quit
  | _ => none

def pauseCallInPump : Event → Option (Option PauseCall)
  | .paused => some (some .run)
  | .quit => some (some .quit)
  | .pumpEntered => some none
  | _ => none

def Event.Plain : Event → Prop
  | .paused | .pauseReturned | .quit | .pumpEntered | .taskStarted => False
  | _ => True

def MainPc.pauseActive : MainPc → Bool
  | .inV8 _ .runMessageLoopOnPause => true
  | _ => false

def MainPc.inPump : MainPc → Bool
  | .pumpMessageLoop => true
  | .inV8 site _ => site == .task
  | _ => false

theorem MainPc.pauseActive_eq_true {pc : MainPc} (h : pc.pauseActive = true) :
    ∃ site, pc = .inV8 site .runMessageLoopOnPause := by
  unfold pauseActive at h
  split at h
  · exact ⟨_, rfl⟩
  · cases h

/-! ## What a step does to the pause state -/

inductive PauseStep (s : Host) : Act → Host → Prop where
  | quiet (a : Act) (t : Host) (flag : t.runOnlyMessagesInLoop = s.runOnlyMessagesInLoop)
      (log : t.log = s.log ∨ ∃ e, t.log = s.log ++ [e] ∧ e.Plain)
      (active : t.main.pauseActive = s.main.pauseActive)
      (pump : t.main.inPump = true → s.main.inPump = true) : PauseStep s a t
  | pause (t : Host) (flag : t.runOnlyMessagesInLoop = true) (log : t.log = s.log ++ [.paused])
      (active : t.main.pauseActive = true) (pump : t.main.inPump = true → s.main.inPump = true) :
      PauseStep s (.main .runMessageLoopOnPause) t
  | pauseReturns (t : Host) (flag : t.runOnlyMessagesInLoop = s.runOnlyMessagesInLoop)
      (log : t.log = s.log ++ [.pauseReturned]) (before : s.main.pauseActive = true)
      (after : t.main.pauseActive = false) (pump : t.main.inPump = true → s.main.inPump = true) :
      PauseStep s (.main .next) t
  | quit (t : Host) (flag : t.runOnlyMessagesInLoop = false) (log : t.log = s.log ++ [.quit])
      (active : t.main.pauseActive = false) (pump : t.main.inPump = true → s.main.inPump = true) :
      PauseStep s (.main .quitMessageLoopOnPause) t
  | enterPump (t : Host) (all : s.runOnlyMessagesInLoop = false)
      (flag : t.runOnlyMessagesInLoop = s.runOnlyMessagesInLoop)
      (log : t.log = s.log ++ [.pumpEntered])
      (active : t.main.pauseActive = s.main.pauseActive) : PauseStep s (.main .next) t
  | task (t : Host) (flag : t.runOnlyMessagesInLoop = s.runOnlyMessagesInLoop)
      (log : t.log = s.log ++ [.taskStarted])
      (active : t.main.pauseActive = s.main.pauseActive) (pump : s.main.inPump = true) :
      PauseStep s (.main (.pumpMessageLoop true)) t

section PauseStep
variable {s t : Host}

theorem PauseStep.move {a : Act} {pc pc' : MainPc}
    (flag : t.runOnlyMessagesInLoop = s.runOnlyMessagesInLoop)
    (log : t.log = s.log ∨ ∃ e, t.log = s.log ++ [e] ∧ e.Plain) (hs : s.main = pc)
    (ht : t.main = pc') (active : pc'.pauseActive = pc.pauseActive)
    (pump : pc'.inPump = true → pc.inPump = true) : PauseStep s a t := by
  subst hs ht
  exact .quiet a t flag log active pump

theorem MainStep.pauseStep {a : MainAct} (h : MainStep s a t) : PauseStep s (.main a) t := by
  cases h with
  | startup pc => exact .move rfl (Or.inl rfl) pc rfl rfl id
  | returns site pc =>
    cases site with
    | helloWorld => exact .move rfl (Or.inl rfl) pc rfl rfl id
    | task => exact .move rfl (Or.inl rfl) pc rfl rfl id
    | dispatch => exact .move rfl (Or.inl rfl) pc rfl rfl id
  | pause site pc => exact .pause _ rfl rfl rfl (by rw [pc]; exact id)
  | pauseReturns site pc =>
    exact .pauseReturns _ rfl rfl (by rw [pc]; rfl) rfl (by rw [pc]; exact id)
  | quit site pc => exact .quit _ rfl rfl (by show s.main.pauseActive = false; rw [pc]; rfl) id
  | respond site callId message m pc text => exact .move rfl (Or.inl rfl) pc rfl rfl id
  | send site m pc => exact .move rfl (Or.inr ⟨_, rfl, trivial⟩) pc rfl rfl id
  | lockClients site c m l pc lock => exact .move rfl (Or.inl rfl) pc rfl rfl id
  | found site c m p pc client => exact .move rfl (Or.inl rfl) pc rfl rfl id
  | notFound site c m e pc client =>
    exact .move rfl (Or.inl rfl) pc rfl rfl (fun h => absurd h Bool.false_ne_true)
  | unlockClients site c m p pc => exact .move rfl (Or.inl rfl) pc rfl rfl id
  | passed site c m p pc completed => exact .move rfl (Or.inl rfl) pc rfl rfl id
  | refused site c m p pc incomplete =>
    exact .move rfl (Or.inl rfl) pc rfl rfl (fun h => absurd h Bool.false_ne_true)
  | push site c m p pc => exact .move rfl (Or.inr ⟨_, rfl, trivial⟩) pc rfl rfl id
  | onlyMessages pc only => exact .move rfl (Or.inl rfl) pc rfl rfl id
  | enterPump pc all => exact .enterPump _ all rfl rfl (by rw [pc]; rfl)
  | task pc => exact .task _ rfl rfl (by rw [pc]; rfl) (by rw [pc]; rfl)
  | noTask pc =>
    exact .move rfl (Or.inl rfl) pc rfl rfl (fun h => absurd h Bool.false_ne_true)
  | lockMessages pc free => exact .move rfl (Or.inr ⟨_, rfl, trivial⟩) pc rfl rfl id
  | noMessage pc empty => exact .move rfl (Or.inl rfl) pc rfl rfl id
  | someMessage pc nonempty => exact .move rfl (Or.inl rfl) pc rfl rfl id
  | popMessage m rest pc popped => exact .move rfl (Or.inr ⟨_, rfl, trivial⟩) pc rfl rfl id
  | unlockMessages pc => exact .move rfl (Or.inr ⟨_, rfl, trivial⟩) pc rfl rfl id
  | sleep pc => exact .move rfl (Or.inl rfl) pc rfl rfl id

theorem Event.plain_of_not_byMain {e : Event} (h : ¬ e.ByMain) : e.Plain := by
  cases e <;> first | trivial | exact absurd trivial h

theorem HostStep.pauseStep {soy : MessageBufferLib} {a : Act} (h : HostStep soy s a t) :
    PauseStep s a t := by
  by_cases ha : ∃ b, a = .main b
  · obtain ⟨b, rfl⟩ := ha
    cases h with
    | main b t step => exact step.pauseStep
  · have hsame := h.sameMain fun b hb => ha ⟨b, hb⟩
    refine .quiet a t hsame.runOnlyMessagesInLoop ?_ (by rw [hsame.main])
      (by rw [hsame.main]; exact id)
    rcases hsame.log with hlog | ⟨e, hlog, he⟩
    · exact Or.inl hlog
    · exact Or.inr ⟨e, hlog, Event.plain_of_not_byMain he⟩

end PauseStep

/-! ## The call that asks for a message loop -/

/-- A call of `runMessageLoopOnPause` returns only when `quitMessageLoopOnPause` has been called
since it began. -/
def ReturnsAfterQuit (pre : List Event) (e : Event) : Prop :=
  e = .pauseReturned → lastOf pauseCall pre = some .quit

structure PauseProtocol (s : Host) : Prop where
  returns : EachAfter ReturnsAfterQuit s.log
  flag : s.runOnlyMessagesInLoop = s.main.pauseActive

def StaysPaused (s : Host) (a : Act) : Prop := s.main.pauseActive = true → a ≠ .main .next

section Pause
variable {soy : MessageBufferLib} {s t : Host} {a : Act}

theorem Event.Plain.ne {e e' : Event} (h : e.Plain) (h' : ¬ e'.Plain) : e ≠ e' := by
  rintro rfl
  exact h' h

theorem pauseProtocol_step (h : PauseProtocol s) (hok : StaysPaused s a)
    (hstep : step soy s a = some t) : PauseProtocol t := by
  cases (step_cases hstep).pauseStep with
  | quiet _ _ flag log active pump =>
    refine ⟨?_, (flag.trans h.flag).trans active.symm⟩
    rcases log with log | ⟨e, log, he⟩
    · exact log ▸ h.returns
    · exact log ▸ h.returns.concat fun heq => absurd heq (he.ne not_false)
  | pause _ flag log active pump =>
    exact ⟨log ▸ h.returns.concat nofun, flag.trans active.symm⟩
  | pauseReturns _ flag log before after pump => exact absurd rfl (hok before)
  | quit _ flag log active pump =>
    exact ⟨log ▸ h.returns.concat nofun, flag.trans active.symm⟩
  | enterPump _ all flag log active =>
    exact ⟨log ▸ h.returns.concat nofun,
      (flag.trans h.flag).trans active.symm⟩
  | task _ flag log active pump =>
    exact ⟨log ▸ h.returns.concat nofun,
      (flag.trans h.flag).trans active.symm⟩

theorem not_pauseProtocol_of_return (h : PauseProtocol s) (hbad : ¬ StaysPaused s a)
    (hstep : step soy s a = some t) : ¬ PauseProtocol t := by
  unfold StaysPaused at hbad
  push Not at hbad
  obtain ⟨hactive, rfl⟩ := hbad
  obtain ⟨site, pc⟩ := MainPc.pauseActive_eq_true hactive
  have ht : { s.emit .pauseReturned with main := .inV8 site .script } = t := by
    simp only [step, mainStep, pc] at hstep
    exact Option.some.inj hstep
  subst ht
  intro ht
  have hflag : s.runOnlyMessagesInLoop = false := ht.flag
  exact absurd (hflag.symm.trans (h.flag.trans hactive)) Bool.false_ne_true

/-- Over every run and whatever V8 calls: the pause protocol is kept exactly as long as no call of
`runMessageLoopOnPause` returns. -/
theorem pause_protocol_iff (soy : MessageBufferLib) (acts : List Act) :
    AllStates (step soy) PauseProtocol {} acts ↔ AllSteps (step soy) StaysPaused {} acts :=
  allStates_iff_allSteps (fun _ h => h) (fun _ _ _ => pauseProtocol_step)
    (fun _ _ _ => not_pauseProtocol_of_return) ⟨eachAfter_nil _, rfl⟩ acts

theorem pause_returns_at_once : ¬ ∀ soy acts s,
    run (step soy) {} acts = some s → PauseProtocol s := by
  intro h
  have hp := h ⟨fun _ _ => false, fun _ _ => [], true⟩
    [.main .next, .main .runMessageLoopOnPause, .main .next] _ rfl
  exact absurd hp.flag (by decide)

end Pause

/-! ## Running only messages -/

def NoTaskWhilePaused (pre : List Event) (e : Event) : Prop :=
  e = .taskStarted → lastOf pauseCall pre ≠ some .run

def OnlyMessages (s : Host) : Prop := EachAfter NoTaskWhilePaused s.log

/-- The pump loop finds no task once one of its tasks has left the host paused. -/
def NoTaskAfterPause (s : Host) (a : Act) : Prop :=
  a = .main (.pumpMessageLoop true) → lastOf pauseCallInPump s.log ≠ some (some .run)

structure OnlyMessagesInv (s : Host) : Prop where
  kept : OnlyMessages s
  flag : s.runOnlyMessagesInLoop = true ↔ lastOf pauseCall s.log = some .run
  pump : s.main.inPump = true →
    (lastOf pauseCall s.log = some .run ↔ lastOf pauseCallInPump s.log = some (some .run))

theorem onlyMessagesInv_init : OnlyMessagesInv {} where
  kept := eachAfter_nil _
  flag := by decide
  pump h := absurd h Bool.false_ne_true

section OnlyMessages
variable {soy : MessageBufferLib} {s t : Host} {a : Act}

theorem OnlyMessages.concat {e : Event} (h : OnlyMessages s) (log : t.log = s.log ++ [e])
    (he : e ≠ .taskStarted) : OnlyMessages t := by
  rw [OnlyMessages, log]
  exact EachAfter.concat h fun heq => absurd heq he

theorem OnlyMessagesInv.quiet (h : OnlyMessagesInv s) (hkept : OnlyMessages t)
    (flag : t.runOnlyMessagesInLoop = s.runOnlyMessagesInLoop)
    (hcall : lastOf pauseCall t.log = lastOf pauseCall s.log)
    (hpump : lastOf pauseCallInPump t.log = lastOf pauseCallInPump s.log)
    (pump : t.main.inPump = true → s.main.inPump = true) : OnlyMessagesInv t where
  kept := hkept
  flag := by rw [flag, hcall, h.flag]
  pump ht := by rw [hcall, hpump, h.pump (pump ht)]

theorem Event.Plain.pauseCall_eq_none {e : Event} (h : e.Plain) :
    pauseCall e = none ∧ pauseCallInPump e = none := by
  cases e <;> first | exact ⟨rfl, rfl⟩ | exact absurd h not_false

theorem onlyMessagesInv_step (h : OnlyMessagesInv s) (hok : NoTaskAfterPause s a)
    (hstep : step soy s a = some t) : OnlyMessagesInv t := by
  cases (step_cases hstep).pauseStep with
  | quiet _ _ flag log active pump =>
    rcases log with log | ⟨e, log, he⟩
    · exact h.quiet (by rw [OnlyMessages, log]; exact h.kept) flag (by rw [log]) (by rw [log]) pump
    · obtain ⟨hcall, hpump⟩ := he.pauseCall_eq_none
      have hkept : OnlyMessages t := h.kept.concat log (he.ne not_false)
      exact h.quiet hkept flag (by rw [log, lastOf_concat_none hcall])
        (by rw [log, lastOf_concat_none hpump]) pump
  | pause _ flag log active pump =>
    have hcall : lastOf pauseCall t.log = some .run := by
      rw [log]
      exact lastOf_concat_some rfl
    have hpump : lastOf pauseCallInPump t.log = some (some .run) := by
      rw [log]
      exact lastOf_concat_some rfl
    exact ⟨h.kept.concat log Event.noConfusion, iff_of_true flag hcall,
      fun _ => iff_of_true hcall hpump⟩
  | pauseReturns _ flag log before after pump =>
    exact h.quiet (h.kept.concat log Event.noConfusion) flag (by rw [log, lastOf_concat_none rfl])
      (by rw [log, lastOf_concat_none rfl]) pump
  | quit _ flag log active pump =>
    have hcall : lastOf pauseCall t.log = some .quit := by
      rw [log]
      exact lastOf_concat_some rfl
    have hpump : lastOf pauseCallInPump t.log = some (some .quit) := by
      rw [log]
      exact lastOf_concat_some rfl
    refine ⟨h.kept.concat log Event.noConfusion, ?_, fun _ => ?_⟩
    · rw [flag, hcall]
      decide
    · rw [hcall, hpump]
      decide
  | enterPump _ all flag log active =>
    have hcall : lastOf pauseCall t.log = lastOf pauseCall s.log := by
      rw [log, lastOf_concat_none rfl]
    have hpump : lastOf pauseCallInPump t.log = some none := by
      rw [log]
      exact lastOf_concat_some rfl
    have hquit : lastOf pauseCall s.log ≠ some .run := fun hrun =>
      absurd (all.symm.trans (h.flag.mpr hrun)) Bool.false_ne_true
    refine ⟨h.kept.concat log Event.noConfusion, ?_, fun _ => ?_⟩
    · rw [flag, hcall, h.flag]
    · rw [hcall, hpump]
      exact iff_of_false hquit (by simp)
  | task _ flag log active pump =>
    have hquit : lastOf pauseCall s.log ≠ some .run := fun hrun =>
      hok rfl ((h.pump pump).mp hrun)
    have hkept : OnlyMessages t := by
      rw [OnlyMessages, log]
      exact EachAfter.concat h.kept fun _ => hquit
    exact h.quiet hkept flag (by rw [log, lastOf_concat_none rfl])
      (by rw [log, lastOf_concat_none rfl]) fun _ => pump

theorem not_onlyMessages_of_task (h : OnlyMessagesInv s) (hbad : ¬ NoTaskAfterPause s a)
    (hstep : step soy s a = some t) : ¬ OnlyMessages t := by
  unfold NoTaskAfterPause at hbad
  push Not at hbad
  obtain ⟨rfl, hrun⟩ := hbad
  intro ht
  cases step_cases hstep with
  | main _ _ hmain =>
    cases hmain with
    | task pc =>
      have hpump : s.main.inPump = true := by rw [pc]; rfl
      exact (eachAfter_concat.mp ht).2 rfl ((h.pump hpump).mpr hrun)

/-- Over every run: no task is started while V8 is paused, exactly as long as the pump loop finds
none after a task of its own that paused and did not resume. -/
theorem only_messages_iff (soy : MessageBufferLib) (acts : List Act) :
    AllStates (step soy) OnlyMessages {} acts ↔ AllSteps (step soy) NoTaskAfterPause {} acts :=
  allStates_iff_allSteps (fun _ h => h.kept) (fun _ _ _ => onlyMessagesInv_step)
    (fun _ _ _ => not_onlyMessages_of_task) onlyMessagesInv_init acts

theorem task_while_paused : ¬ ∀ soy acts s,
    run (step soy) {} acts = some s → OnlyMessages s := by
  intro h
  have hkept := h ⟨fun _ _ => false, fun _ _ => [], true⟩
    [.main .next, .main .returns, .main .next, .main (.pumpMessageLoop true),
      .main .runMessageLoopOnPause, .main .next, .main .returns,
      .main (.pumpMessageLoop true)] _ rfl
  exact hkept [.pumpEntered, .taskStarted, .paused, .pauseReturned] _ [] rfl rfl rfl

end OnlyMessages
end V8Min
