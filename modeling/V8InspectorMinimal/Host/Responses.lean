import V8InspectorMinimal.Host.Connections

/-! What becomes of everything that V8 answers. A response or notification comes into `TV8Channel`
as a `StringView` and leaves the main thread in one write queue, or the main thread never comes out
of `SendResponse` with it. -/

namespace V8Min
open Runs History Socket

def response : Act → Option StdString
  | .main (.sendResponse callId message) => Inspector.sendResponse callId message
  | _ => none

def sentText : Event → Option StdString
  | .sent _ _ m => some m
  | _ => none

def queuedText : Event → Option StdString
  | .queued _ _ m => some m
  | _ => none

/-! ## The stages of a response -/

/-- How far the main thread is with a response. -/
inductive Stage where
  | none
  | given (m : StdString)
  | sending (m : StdString)
  | lost
  deriving DecidableEq

def MainPc.stage : MainPc → Stage
  | .inV8 _ (.sendResponse m) => .given m
  | .inV8 _ (.lockClients _ m) | .inV8 _ (.getClient _ m) | .inV8 _ (.unlockClients _ m _)
  | .inV8 _ (.isCompleted _ m _) | .inV8 _ (.push _ m _) => .sending m
  | .threw _ _ => .lost
  | _ => .none

def Stage.unsent : Stage → List StdString
  | .given m => [m]
  | _ => []

inductive StageStep (s t : Host) : Option StdString → Prop where
  | quiet (log : t.log = s.log ∨ ∃ e, t.log = s.log ++ [e] ∧ e.OffSend)
      (stage : t.main.stage = s.main.stage) (sending : t.main.sending = s.main.sending) :
      StageStep s t none
  | give (m : StdString) (log : t.log = s.log) (before : s.main.stage = .none)
      (after : t.main.stage = .given m) : StageStep s t (some m)
  | send (site : Site) (m : StdString) (log : t.log = s.log ++ [.sent site s.mWebsocketClient m])
      (before : s.main.stage = .given m) (after : t.main.stage = .sending m)
      (sending : t.main.sending = some (s.mWebsocketClient, m)) : StageStep s t none
  | push (p : PeerId) (c : SoyRef) (m : StdString) (log : t.log = s.log ++ [.queued p c m])
      (before : s.main.stage = .sending m) (after : t.main.stage = .none)
      (sending : s.main.sending = some (c, m)) (target : s.main.target = some (c, p)) :
      StageStep s t none
  | lose (c : SoyRef) (m : StdString) (log : t.log = s.log) (before : s.main.stage = .sending m)
      (after : t.main.stage = .lost) (sending : s.main.sending = some (c, m))
      (why : (∃ e, s.mWebsocketServer.getClient c = .error e) ∨
        ∃ p, s.main.target = some (c, p) ∧ (s.peer p).mHasSentAcceptReply = false) :
      StageStep s t none

section Step
variable {soy : MessageBufferLib} {s t : Host} {a : Act}

theorem StageStep.move {pc pc' : MainPc}
    (log : t.log = s.log ∨ ∃ e, t.log = s.log ++ [e] ∧ e.OffSend) (hs : s.main = pc)
    (ht : t.main = pc') (stage : pc'.stage = pc.stage) (sending : pc'.sending = pc.sending) :
    StageStep s t none := by
  subst hs ht
  exact .quiet log stage sending

theorem MainStep.stageStep {a : MainAct} (h : MainStep s a t) :
    StageStep s t (response (.main a)) := by
  cases h with
  | startup pc => exact .move (Or.inl rfl) pc rfl rfl rfl
  | returns site pc => cases site <;> exact .move (Or.inl rfl) pc rfl rfl rfl
  | pause site pc => exact .move (Or.inr ⟨_, rfl, trivial⟩) pc rfl rfl rfl
  | pauseReturns site pc => exact .move (Or.inr ⟨_, rfl, trivial⟩) pc rfl rfl rfl
  | quit site pc => exact .move (Or.inr ⟨_, rfl, trivial⟩) pc pc rfl rfl
  | respond site callId message m pc text =>
    have hgiven : response (.main (.sendResponse callId message)) = some m := text
    rw [hgiven]
    exact .give m rfl (by rw [pc]; rfl) rfl
  | send site m pc => exact .send site m rfl (by rw [pc]; rfl) rfl rfl
  | lockClients site c m l pc lock => exact .move (Or.inl rfl) pc rfl rfl rfl
  | found site c m p pc client => exact .move (Or.inl rfl) pc rfl rfl rfl
  | notFound site c m e pc client =>
    exact .lose c m rfl (by rw [pc]; rfl) rfl (by rw [pc]; rfl) (Or.inl ⟨e, client⟩)
  | unlockClients site c m p pc => exact .move (Or.inl rfl) pc rfl rfl rfl
  | passed site c m p pc completed => exact .move (Or.inl rfl) pc rfl rfl rfl
  | refused site c m p pc incomplete =>
    exact .lose c m rfl (by rw [pc]; rfl) rfl (by rw [pc]; rfl)
      (Or.inr ⟨p, by rw [pc]; rfl, incomplete⟩)
  | push site c m p pc =>
    exact .push p c m rfl (by rw [pc]; rfl) rfl (by rw [pc]; rfl) (by rw [pc]; rfl)
  | onlyMessages pc only => exact .move (Or.inl rfl) pc rfl rfl rfl
  | enterPump pc all => exact .move (Or.inr ⟨_, rfl, trivial⟩) pc rfl rfl rfl
  | task pc => exact .move (Or.inr ⟨_, rfl, trivial⟩) pc rfl rfl rfl
  | noTask pc => exact .move (Or.inl rfl) pc rfl rfl rfl
  | lockMessages pc free => exact .move (Or.inr ⟨_, rfl, trivial⟩) pc rfl rfl rfl
  | noMessage pc empty => exact .move (Or.inl rfl) pc rfl rfl rfl
  | someMessage pc nonempty => exact .move (Or.inl rfl) pc rfl rfl rfl
  | popMessage m rest pc popped => exact .move (Or.inr ⟨_, rfl, trivial⟩) pc rfl rfl rfl
  | unlockMessages pc => exact .move (Or.inr ⟨_, rfl, trivial⟩) pc rfl rfl rfl
  | sleep pc => exact .move (Or.inl rfl) pc rfl rfl rfl

theorem Event.offSend_of_not_byMain {e : Event} (h : ¬ e.ByMain) : e.OffSend := by
  cases e <;> first
    | exact trivial
    | exact absurd trivial h

theorem HostStep.stageStep (h : HostStep soy s a t) : StageStep s t (response a) := by
  have hother : (∀ b, a ≠ .main b) → StageStep s t none := fun ha => by
    have same := h.sameMain ha
    refine .quiet ?_ (by rw [same.main]) (by rw [same.main])
    rcases same.log with log | ⟨e, log, he⟩
    · exact Or.inl log
    · exact Or.inr ⟨e, log, Event.offSend_of_not_byMain he⟩
  cases a with
  | main b =>
    cases h with
    | main _ t step => exact step.stageStep
  | _ => exact hother nofun

/-! ## None is lost and none is sent twice -/

theorem Event.OffSend.texts {e : Event} (he : e.OffSend) :
    sentText e = none ∧ queuedText e = none := by
  cases e <;> first
    | exact ⟨rfl, rfl⟩
    | exact absurd he not_false

theorem filterMap_of_offSend {f : Event → Option StdString}
    (hf : ∀ e : Event, e.OffSend → f e = none)
    (log : t.log = s.log ∨ ∃ e, t.log = s.log ++ [e] ∧ e.OffSend) :
    t.log.filterMap f = s.log.filterMap f := by
  rcases log with log | ⟨e, log, he⟩
  · rw [log]
  · rw [log, filterMap_concat_of_none (hf e he)]

def Host.responses (s : Host) : List StdString := s.log.filterMap sentText ++ s.main.stage.unsent

theorem responses_step (hstep : step soy s a = some t) :
    t.responses = s.responses ++ (response a).toList := by
  have hs := (step_cases hstep).stageStep
  generalize response a = given at hs ⊢
  unfold Host.responses
  cases hs with
  | quiet log stage sending =>
    rw [filterMap_of_offSend (fun _ he => he.texts.1) log, stage]
    exact (List.append_nil _).symm
  | give m log before after =>
    rw [log, before, after]
    simp [Stage.unsent]
  | send site m log before after sending =>
    rw [log, before, after, filterMap_concat]
    simp [Stage.unsent, sentText]
  | push p c m log before after sending target =>
    rw [log, before, after, filterMap_concat]
    simp [Stage.unsent, sentText]
  | lose c m log before after sending why =>
    rw [log, before, after]
    simp [Stage.unsent]

def Stage.Unqueued : Stage → List StdString → Prop
  | .sending m, left => left = [m]
  | .lost, left => ∃ m, left = [m]
  | _, left => left = []

def Queued (s : Host) : Prop :=
  ∃ left, s.log.filterMap sentText = s.log.filterMap queuedText ++ left ∧ s.main.stage.Unqueued left

theorem queued_init : Queued {} := ⟨[], rfl, rfl⟩

theorem queued_step (h : Queued s) (hstep : step soy s a = some t) : Queued t := by
  obtain ⟨left, hsent, hleft⟩ := h
  have hs := (step_cases hstep).stageStep
  generalize response a = given at hs
  cases hs with
  | quiet log stage sending =>
    refine ⟨left, ?_, stage ▸ hleft⟩
    rw [filterMap_of_offSend (fun _ he => he.texts.1) log,
      filterMap_of_offSend (fun _ he => he.texts.2) log, hsent]
  | give m log before after =>
    rw [before] at hleft
    exact ⟨left, log ▸ hsent, after ▸ hleft⟩
  | send site m log before after sending =>
    rw [before] at hleft
    obtain rfl : left = [] := hleft
    refine ⟨[m], ?_, by rw [after]; rfl⟩
    rw [log, filterMap_concat, filterMap_concat, hsent]
    simp [sentText, queuedText]
  | push p c m log before after sending target =>
    rw [before] at hleft
    obtain rfl : left = [m] := hleft
    refine ⟨[], ?_, by rw [after]; rfl⟩
    rw [log, filterMap_concat, filterMap_concat, hsent]
    simp [sentText, queuedText]
  | lose c m log before after sending why =>
    rw [before] at hleft
    exact ⟨left, log ▸ hsent, by rw [after]; exact ⟨m, hleft⟩⟩

end Step

/-! ## Every response of every run -/

section Run
variable {soy : MessageBufferLib} {acts : List Act} {s : Host}

theorem Stage.length_left {stage : Stage} {left : List StdString} (h : stage.Unqueued left) :
    (left ++ stage.unsent).length = if stage = .none then 0 else 1 := by
  cases stage with
  | none =>
    obtain rfl : left = [] := h
    rfl
  | given m =>
    obtain rfl : left = [] := h
    rfl
  | sending m =>
    obtain rfl : left = [m] := h
    rfl
  | lost =>
    obtain ⟨m, rfl⟩ := h
    rfl

theorem responses_of_run (h : run (step soy) {} acts = some s) :
    s.responses = acts.filterMap response :=
  seen_eq_append (I := fun _ => True) (fun _ _ _ _ _ => trivial)
    (fun _ _ _ _ hstep => responses_step hstep) trivial h

theorem queues_of_run (h : run (step soy) {} acts = some s) (p : PeerId) :
    (s.peer p).writeQueue.filterMap messageText = s.log.filterMap (queuedOn p) := by
  obtain ⟨-, htarget⟩ := invariant (I := fun s => ServerInv s ∧ TargetInv s)
    (fun _ _ _ hs ht => ⟨serverInv_step hs.1 ht, targetInv_step hs.2 hs.1 ht⟩)
    ⟨serverInv_init, targetInv_init⟩ h
  exact htarget.queues p

/-- In the order in which V8 gives them, the responses and notifications are put into the write
queues, each into one queue and once, up to the last one while `SendResponse` has not returned. -/
theorem responses_kept (h : run (step soy) {} acts = some s) :
    (∃ left, acts.filterMap response = s.log.filterMap queuedText ++ left ∧
      left.length = if s.main.stage = .none then 0 else 1) ∧
    ∀ p, (s.peer p).writeQueue.filterMap messageText = s.log.filterMap (queuedOn p) := by
  obtain ⟨left, hsent, hleft⟩ := invariant (fun _ _ _ hs ht => queued_step hs ht) queued_init h
  refine ⟨⟨left ++ s.main.stage.unsent, ?_, Stage.length_left hleft⟩, queues_of_run h⟩
  rw [← responses_of_run h, Host.responses, hsent, List.append_assoc]

theorem responses_kept_reconnecting : ∃ s,
    run (step firstOpcodeBuffer) {} reconnecting = some s ∧ ∃ left,
      [[9]] = s.log.filterMap queuedText ++ left ∧
      left.length = if s.main.stage = .none then 0 else 1 := by
  have hrun : (run (step firstOpcodeBuffer) {} reconnecting).isSome = true := by decide +kernel
  obtain ⟨s, hs⟩ := Option.isSome_iff_exists.mp hrun
  exact ⟨s, hs, (responses_kept hs).1⟩

end Run
end V8Min
