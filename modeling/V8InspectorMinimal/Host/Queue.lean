import V8InspectorMinimal.Base.History
import V8InspectorMinimal.Base.Runs
import V8InspectorMinimal.Host.Steps
import V8InspectorMinimal.Socket.Reassembly

/-! The queue between the read threads and the main loop. `OnMessage` appends to it under
`MessagesLock`, and the main loop keeps that lock while it takes out and dispatches what it finds.
-/

namespace V8Min
open Locks Runs History Socket

/-! ## What the log says about messages -/

abbrev Received := PeerId × SoyRef × StdString

def acquisition : Event → Option Received
  | .acquired p c m => some (p, c, m)
  | _ => none

def pushing : Event → Option Received
  | .pushed p c m => some (p, c, m)
  | _ => none

def dispatching : Event → Option StdString
  | .dispatched m => some m
  | _ => none

def acquisitions (log : List Event) : List Received := log.filterMap acquisition

def pushes (log : List Event) : List Received := log.filterMap pushing

def dispatches (log : List Event) : List StdString := log.filterMap dispatching

def textOf (r : Received) : StdString := r.2.2

/-- The queue that the drain loop found when it got the lock, and what it has dispatched since. -/
def feedDrain (d : List StdString × List StdString) : Event → List StdString × List StdString
  | .drainEntered queue => (queue, [])
  | .dispatched m => (d.1, d.2 ++ [m])
  | _ => d

def drainOf (log : List Event) : List StdString × List StdString := log.foldl feedDrain ([], [])

/-- The drain loop has dispatched exactly the queue it found. -/
def DrainsAll (pre : List Event) (e : Event) : Prop :=
  e = .drainLeft → (drainOf pre).2 = (drainOf pre).1

/-! ## Where the threads stand to the queue -/

def MainPc.draining : MainPc → Bool
  | .testMessages | .popMessage | .unlockMessages => true
  | .inV8 site _ => site == .dispatch
  | _ => false

def HandlerPc.locked : HandlerPc → Option (Option (SoyRef × StdString))
  | .pushBack c m => some (some (c, m))
  | .unlock => some none
  | _ => none

def Host.pushing (s : Host) : List Received :=
  match s.messagesLock.owner with
  | some (.reader p) =>
    match (s.handlers p).locked with
    | some (some (c, m)) => [(p, c, m)]
    | _ => []
  | _ => []

/-- The steps of the drain loop itself, V8's return included. -/
def loopSteps (pc : MainPc) (a : Act) : ℕ :=
  match a, pc with
  | .main .next, .testMessages => 1
  | .main .next, .popMessage => 1
  | .main .returns, .inV8 _ _ => 1
  | _, _ => 0

def MainPc.rank : MainPc → ℕ
  | .inV8 _ _ => 2
  | .testMessages => 1
  | _ => 0

def Host.drainRank (s : Host) : ℕ := 3 * s.messages.length + s.main.rank

/-! ## What a step does to the queue -/

def Event.OffQueue : Event → Prop
  | .acquired .. | .pushed .. | .dispatched _ | .drainEntered _ | .drainLeft => False
  | _ => True

inductive QueueStep (s : Host) : Act → Host → Prop where
  | quiet (a : Act) (t : Host) (messages : t.messages = s.messages)
      (lock : t.messagesLock = s.messagesLock)
      (locked : ∀ p, (t.handlers p).locked = (s.handlers p).locked)
      (log : t.log = s.log ∨ ∃ e, t.log = s.log ++ [e] ∧ e.OffQueue)
      (draining : t.main.draining = true → s.main.draining = true)
      (rank : t.main.draining = true → loopSteps s.main a + t.main.rank ≤ s.main.rank)
      (empty : t.main = .unlockMessages → s.main = .unlockMessages ∨ s.messages = [])
      (pop : t.main = .popMessage → s.main = .popMessage ∨ s.messages ≠ []) : QueueStep s a t
  | enter (t : Host) (outside : s.main.draining = false) (free : s.messagesLock.owner = none)
      (handlers : t.handlers = s.handlers) (messages : t.messages = s.messages)
      (lock : t.messagesLock = ⟨some .main⟩) (log : t.log = s.log ++ [.drainEntered s.messages])
      (main : t.main = .testMessages) : QueueStep s (.main .next) t
  | pop (t : Host) (m : StdString) (pc : s.main = .popMessage)
      (messages : s.messages = m :: t.messages) (handlers : t.handlers = s.handlers)
      (lock : t.messagesLock = s.messagesLock)
      (log : t.log = s.log ++ [.dispatched m]) (main : t.main = .inV8 .dispatch .script) :
      QueueStep s (.main .next) t
  | leave (t : Host) (pc : s.main = .unlockMessages) (handlers : t.handlers = s.handlers)
      (messages : t.messages = s.messages) (lock : t.messagesLock = s.messagesLock.unlock)
      (log : t.log = s.log ++ [.drainLeft]) (main : t.main = .sleep) : QueueStep s (.main .next) t
  | acquire (t : Host) (p : PeerId) (c : SoyRef) (m : StdString) (pc : s.handlers p = .lock c m)
      (free : s.messagesLock.owner = none)
      (handlers : t.handlers = Function.update s.handlers p (.pushBack c m))
      (messages : t.messages = s.messages) (lock : t.messagesLock = ⟨some (.reader p)⟩)
      (log : t.log = s.log ++ [.acquired p c m]) (main : t.main = s.main) :
      QueueStep s (.handler p) t
  | push (t : Host) (p : PeerId) (c : SoyRef) (m : StdString) (pc : s.handlers p = .pushBack c m)
      (handlers : t.handlers = Function.update s.handlers p .unlock)
      (messages : t.messages = s.messages ++ [m]) (lock : t.messagesLock = s.messagesLock)
      (log : t.log = s.log ++ [.pushed p c m]) (main : t.main = s.main) :
      QueueStep s (.handler p) t
  | release (t : Host) (p : PeerId) (pc : s.handlers p = .unlock)
      (handlers : t.handlers = Function.update s.handlers p .returned)
      (messages : t.messages = s.messages) (lock : t.messagesLock = s.messagesLock.unlock)
      (log : t.log = s.log) (main : t.main = s.main) : QueueStep s (.handler p) t
  | fail (t : Host) (p : PeerId) (c : SoyRef) (m : StdString) (pc : s.handlers p = .pushBack c m)
      (handlers : t.handlers = Function.update s.handlers p .threw)
      (messages : t.messages = s.messages) (lock : t.messagesLock = s.messagesLock)
      (log : t.log = s.log) (main : t.main = s.main) : QueueStep s (.pushBackThrows p) t

section QueueStep
variable {s t : Host}

theorem QueueStep.move {a : Act} {pc pc' : MainPc} (same : MainFrame s t)
    (messages : t.messages = s.messages) (lock : t.messagesLock = s.messagesLock)
    (log : t.log = s.log ∨ ∃ e, t.log = s.log ++ [e] ∧ e.OffQueue) (hs : s.main = pc)
    (ht : t.main = pc') (draining : pc'.draining = true → pc.draining = true)
    (rank : pc'.draining = true → loopSteps pc a + pc'.rank ≤ pc.rank)
    (empty : pc' = .unlockMessages → s.messages = []) (pop : pc' = .popMessage → s.messages ≠ []) :
    QueueStep s a t := by
  subst hs ht
  exact .quiet a t messages lock (fun p => by rw [same.handlers]) log draining rank
    (fun h => Or.inr (empty h)) (fun h => Or.inr (pop h))

theorem QueueStep.moveInV8 {a : Act} {site : Site} {frame frame' : Frame}
    (same : MainFrame s t) (messages : t.messages = s.messages)
    (lock : t.messagesLock = s.messagesLock)
    (log : t.log = s.log ∨ ∃ e, t.log = s.log ++ [e] ∧ e.OffQueue)
    (hs : s.main = .inV8 site frame) (ht : t.main = .inV8 site frame')
    (inside : loopSteps (.inV8 site frame) a = 0) : QueueStep s a t :=
  .move same messages lock log hs ht id (fun _ => by rw [inside]; exact Nat.le_refl _)
    MainPc.noConfusion MainPc.noConfusion

theorem QueueStep.moveOutside {a : Act} {pc pc' : MainPc} (same : MainFrame s t)
    (messages : t.messages = s.messages) (lock : t.messagesLock = s.messagesLock)
    (log : t.log = s.log ∨ ∃ e, t.log = s.log ++ [e] ∧ e.OffQueue) (hs : s.main = pc)
    (ht : t.main = pc') (outside : pc'.draining = false) : QueueStep s a t := by
  have hne : ¬ pc'.draining = true := fun h => absurd (outside.symm.trans h) Bool.false_ne_true
  refine .move same messages lock log hs ht (fun h => absurd h hne) (fun h => absurd h hne)
    ?_ ?_
  · rintro rfl
    exact absurd rfl hne
  · rintro rfl
    exact absurd rfl hne

theorem MainStep.queueStep {a : MainAct} (h : MainStep s a t) : QueueStep s (.main a) t := by
  have same := h.mainFrame
  cases h with
  | startup pc => exact .moveOutside same rfl rfl (Or.inl rfl) pc rfl rfl
  | returns site pc =>
    cases site with
    | helloWorld => exact .moveOutside same rfl rfl (Or.inl rfl) pc rfl rfl
    | task => exact .moveOutside same rfl rfl (Or.inl rfl) pc rfl rfl
    | dispatch =>
      exact .move same rfl rfl (Or.inl rfl) pc rfl (fun _ => rfl) (fun _ => Nat.le_refl 2)
        MainPc.noConfusion MainPc.noConfusion
  | pause site pc => exact .moveInV8 same rfl rfl (Or.inr ⟨_, rfl, trivial⟩) pc rfl rfl
  | pauseReturns site pc => exact .moveInV8 same rfl rfl (Or.inr ⟨_, rfl, trivial⟩) pc rfl rfl
  | quit site pc => exact .moveInV8 same rfl rfl (Or.inr ⟨_, rfl, trivial⟩) pc pc rfl
  | respond site callId message m pc text => exact .moveInV8 same rfl rfl (Or.inl rfl) pc rfl rfl
  | send site m pc => exact .moveInV8 same rfl rfl (Or.inr ⟨_, rfl, trivial⟩) pc rfl rfl
  | lockClients site c m l pc lock => exact .moveInV8 same rfl rfl (Or.inl rfl) pc rfl rfl
  | found site c m p pc client => exact .moveInV8 same rfl rfl (Or.inl rfl) pc rfl rfl
  | notFound site c m e pc client => exact .moveOutside same rfl rfl (Or.inl rfl) pc rfl rfl
  | unlockClients site c m p pc => exact .moveInV8 same rfl rfl (Or.inl rfl) pc rfl rfl
  | passed site c m p pc completed => exact .moveInV8 same rfl rfl (Or.inl rfl) pc rfl rfl
  | refused site c m p pc incomplete => exact .moveOutside same rfl rfl (Or.inl rfl) pc rfl rfl
  | push site c m p pc => exact .moveInV8 same rfl rfl (Or.inr ⟨_, rfl, trivial⟩) pc rfl rfl
  | onlyMessages pc only => exact .moveOutside same rfl rfl (Or.inl rfl) pc rfl rfl
  | enterPump pc all => exact .moveOutside same rfl rfl (Or.inr ⟨_, rfl, trivial⟩) pc rfl rfl
  | task pc => exact .moveOutside same rfl rfl (Or.inr ⟨_, rfl, trivial⟩) pc rfl rfl
  | noTask pc => exact .moveOutside same rfl rfl (Or.inl rfl) pc rfl rfl
  | lockMessages pc free => exact .enter _ (by rw [pc]; rfl) free rfl rfl rfl rfl rfl
  | noMessage pc empty =>
    exact .move same rfl rfl (Or.inl rfl) pc rfl (fun _ => rfl) (fun _ => Nat.le_refl 1)
      (fun _ => empty) MainPc.noConfusion
  | someMessage pc nonempty =>
    exact .move same rfl rfl (Or.inl rfl) pc rfl (fun _ => rfl) (fun _ => Nat.le_refl 1)
      MainPc.noConfusion fun _ => nonempty
  | popMessage m rest pc popped => exact .pop _ m pc popped rfl rfl rfl rfl
  | unlockMessages pc => exact .leave _ pc rfl rfl rfl rfl rfl
  | sleep pc => exact .moveOutside same rfl rfl (Or.inl rfl) pc rfl rfl

theorem QueueStep.other {a : Act} (messages : t.messages = s.messages)
    (lock : t.messagesLock = s.messagesLock)
    (locked : ∀ p, (t.handlers p).locked = (s.handlers p).locked)
    (log : t.log = s.log ∨ ∃ e, t.log = s.log ++ [e] ∧ e.OffQueue) (main : t.main = s.main)
    (ha : ∀ pc, loopSteps pc a = 0) : QueueStep s a t := by
  refine .quiet a t messages lock locked log ?_ ?_ ?_ ?_
  · rw [main]
    exact id
  · rw [main, ha]
    exact fun _ => Nat.le_of_eq (Nat.zero_add _)
  · rw [main]
    exact Or.inl
  · rw [main]
    exact Or.inl

theorem locked_update {p : PeerId} {pc : HandlerPc}
    (handlers : t.handlers = Function.update s.handlers p pc)
    (hs : (s.handlers p).locked = none) (hpc : pc.locked = none) (p' : PeerId) :
    (t.handlers p').locked = (s.handlers p').locked := by
  rw [handlers]
  by_cases hp : p' = p
  · subst hp
    rw [Function.update_self, hs, hpc]
  · rw [Function.update_of_ne hp]

theorem HostStep.queueStep {soy : MessageBufferLib} {a : Act} (hh : HandlersInside s)
    (h : HostStep soy s a t) : QueueStep s a t := by
  have hidle : ∀ p k b, (s.peer p).reader = .callHandler k b → (s.handlers p).locked = none := by
    intro p k b pc
    rw [hh.idle_of_pc (p := p) (by simp [pc])]
    rfl
  cases h with
  | main a t step => exact step.queueStep
  | reader p a q made step outside =>
    exact .other rfl rfl (fun _ => rfl) (Or.inl rfl) rfl fun _ => rfl
  | callText p a b m q made step pc data =>
    exact .other rfl rfl (locked_update rfl (hidle p _ b pc) rfl) (Or.inr ⟨_, rfl, trivial⟩) rfl
      fun _ => rfl
  | callBinary p a b q made step pc =>
    exact .other rfl rfl (locked_update rfl (hidle p _ b pc) rfl) (Or.inl rfl) rfl fun _ => rfl
  | handlerReturns p k b q made step pc returned =>
    exact .other rfl rfl (locked_update rfl (by rw [returned]; rfl) rfl) (Or.inl rfl) rfl
      fun _ => rfl
  | handlerThrows p k b q made step pc threw =>
    exact .other rfl rfl (locked_update rfl (by rw [threw]; rfl) rfl) (Or.inl rfl) rfl fun _ => rfl
  | record p c m pc =>
    exact .other rfl rfl (locked_update rfl (by rw [pc]; rfl) rfl) (Or.inr ⟨_, rfl, trivial⟩) rfl
      fun _ => rfl
  | lock p c m pc free => exact .acquire _ p c m pc free rfl rfl rfl rfl rfl
  | pushBack p c m pc => exact .push _ p c m pc rfl rfl rfl rfl rfl
  | unlock p pc => exact .release _ p pc rfl rfl rfl rfl rfl
  | pushBackThrows p c m pc => exact .fail _ p c m pc rfl rfl rfl rfl rfl
  | connect c pc => exact .other rfl rfl (fun _ => rfl) (Or.inl rfl) rfl fun _ => rfl
  | construct c pc => exact .other rfl rfl (fun _ => rfl) (Or.inl rfl) rfl fun _ => rfl
  | lockClients p l pc lock => exact .other rfl rfl (fun _ => rfl) (Or.inl rfl) rfl fun _ => rfl
  | pushClient p pc => exact .other rfl rfl (fun _ => rfl) (Or.inl rfl) rfl fun _ => rfl
  | unlockClients pc => exact .other rfl rfl (fun _ => rfl) (Or.inl rfl) rfl fun _ => rfl
  | disconnect p connected => exact .other rfl rfl (fun _ => rfl) (Or.inl rfl) rfl fun _ => rfl

end QueueStep

/-! ## The invariant -/

structure QueueInv (s : Host) : Prop where
  inside : HandlersInside s
  kept : dispatches s.log ++ s.messages = (pushes s.log).map textOf
  mainOwns : s.main.draining = true → s.messagesLock.owner = some .main
  readerOwns : ∀ p, (s.handlers p).locked ≠ none → s.messagesLock.owner = some (.reader p)
  found : s.main.draining = true → (drainOf s.log).1 = (drainOf s.log).2 ++ s.messages
  drained : EachAfter DrainsAll s.log
  empty : s.main = .unlockMessages → s.messages = []
  pop : s.main = .popMessage → s.messages ≠ []

def PushesInOrder (s : Host) : Prop := acquisitions s.log = pushes s.log ++ s.pushing

theorem queueInv_init : QueueInv {} where
  inside _ h := absurd rfl h
  kept := rfl
  mainOwns h := absurd h Bool.false_ne_true
  readerOwns _ h := absurd rfl h
  found h := absurd h Bool.false_ne_true
  drained := eachAfter_nil _
  empty h := nomatch h
  pop h := nomatch h

section Log
variable (log : List Event) (e : Event)

theorem acquisitions_concat :
    acquisitions (log ++ [e]) = acquisitions log ++ (acquisition e).toList :=
  filterMap_concat acquisition log e

theorem pushes_concat : pushes (log ++ [e]) = pushes log ++ (pushing e).toList :=
  filterMap_concat pushing log e

theorem dispatches_concat : dispatches (log ++ [e]) = dispatches log ++ (dispatching e).toList :=
  filterMap_concat dispatching log e

theorem drainOf_concat : drainOf (log ++ [e]) = feedDrain (drainOf log) e := by
  unfold drainOf
  rw [List.foldl_append, List.foldl_cons, List.foldl_nil]

theorem Event.OffQueue.concat {e : Event} (h : e.OffQueue) :
    acquisitions (log ++ [e]) = acquisitions log ∧ pushes (log ++ [e]) = pushes log ∧
      dispatches (log ++ [e]) = dispatches log ∧ drainOf (log ++ [e]) = drainOf log := by
  rw [acquisitions_concat, pushes_concat, dispatches_concat, drainOf_concat]
  cases e <;> first
    | exact absurd h not_false
    | exact ⟨List.append_nil _, List.append_nil _, List.append_nil _, rfl⟩

theorem kept_concat {e : Event} {queue : List StdString} (hpush : pushing e = none)
    (hdispatch : dispatching e = none) (h : dispatches log ++ queue = (pushes log).map textOf) :
    dispatches (log ++ [e]) ++ queue = (pushes (log ++ [e])).map textOf := by
  rw [dispatches_concat, pushes_concat, hpush, hdispatch, Option.toList_none, Option.toList_none,
    List.append_nil, List.append_nil, h]

end Log

section Invariant
variable {soy : MessageBufferLib} {s t : Host} {a : Act}

theorem QueueInv.not_draining (h : QueueInv s) (hlock : s.messagesLock.owner ≠ some .main) :
    ¬ s.main.draining = true := fun hd => hlock (h.mainOwns hd)

theorem QueueInv.owner_of_locked (h : QueueInv s) {p : PeerId} {pc : HandlerPc}
    (hpc : s.handlers p = pc) (hlocked : pc.locked ≠ none) :
    s.messagesLock.owner = some (.reader p) := h.readerOwns p (hpc ▸ hlocked)

theorem QueueInv.quiet (h : QueueInv s) (inside : HandlersInside t)
    (messages : t.messages = s.messages) (lock : t.messagesLock = s.messagesLock)
    (locked : ∀ p, (t.handlers p).locked = (s.handlers p).locked)
    (log : t.log = s.log ∨ ∃ e, t.log = s.log ++ [e] ∧ e.OffQueue)
    (draining : t.main.draining = true → s.main.draining = true)
    (empty : t.main = .unlockMessages → s.main = .unlockMessages ∨ s.messages = [])
    (pop : t.main = .popMessage → s.main = .popMessage ∨ s.messages ≠ []) : QueueInv t := by
  have hlog : pushes t.log = pushes s.log ∧ dispatches t.log = dispatches s.log ∧
      drainOf t.log = drainOf s.log := by
    rcases log with log | ⟨e, log, he⟩
    · rw [log]
      exact ⟨rfl, rfl, rfl⟩
    · rw [log]
      exact (he.concat s.log).2
  obtain ⟨hpushed, hdispatched, hdrain⟩ := hlog
  exact {
    inside := inside
    kept := by rw [hdispatched, messages, hpushed, h.kept]
    mainOwns := fun hd => by rw [lock, h.mainOwns (draining hd)]
    readerOwns := fun p hp => by rw [lock, h.readerOwns p (locked p ▸ hp)]
    found := fun hd => by rw [hdrain, messages, h.found (draining hd)]
    drained := by
      rcases log with log | ⟨e, log, he⟩
      · exact log ▸ h.drained
      · exact log ▸ h.drained.concat fun heq => absurd he (by rw [heq]; exact not_false)
    empty := fun hpc => by
      rw [messages]
      exact (empty hpc).elim h.empty id
    pop := fun hpc => by
      rw [messages]
      exact (pop hpc).elim h.pop id }

theorem QueueInv.outside (h : QueueInv s) (hlock : ∀ p, s.messagesLock.owner ≠ some (.reader p))
    (p : PeerId) : (s.handlers p).locked = none := by
  by_contra hlocked
  exact hlock p (h.readerOwns p hlocked)

theorem QueueInv.drains (inside : HandlersInside t) (outside : ∀ p, (s.handlers p).locked = none)
    (handlers : t.handlers = s.handlers)
    (kept : dispatches t.log ++ t.messages = (pushes t.log).map textOf)
    (mainOwns : t.main.draining = true → t.messagesLock.owner = some .main)
    (found : t.main.draining = true → (drainOf t.log).1 = (drainOf t.log).2 ++ t.messages)
    (drained : EachAfter DrainsAll t.log) (empty : t.main ≠ .unlockMessages)
    (pop : t.main ≠ .popMessage) : QueueInv t where
  inside := inside
  kept := kept
  mainOwns := mainOwns
  readerOwns p hp := absurd (handlers ▸ outside p) hp
  found := found
  drained := drained
  empty hpc := absurd hpc empty
  pop hpc := absurd hpc pop

theorem QueueInv.handler (h : QueueInv s) (inside : HandlersInside t) (main : t.main = s.main)
    (hlock : s.messagesLock.owner ≠ some .main)
    (kept : dispatches t.log ++ t.messages = (pushes t.log).map textOf)
    (readerOwns : ∀ p, (t.handlers p).locked ≠ none → t.messagesLock.owner = some (.reader p))
    (drained : EachAfter DrainsAll t.log) : QueueInv t where
  inside := inside
  kept := kept
  mainOwns hd := absurd (main ▸ hd) (h.not_draining hlock)
  readerOwns := readerOwns
  found hd := absurd (main ▸ hd) (h.not_draining hlock)
  drained := drained
  empty hpc := by
    rw [main] at hpc
    exact absurd (by rw [hpc]; rfl) (h.not_draining hlock)
  pop hpc := by
    rw [main] at hpc
    exact absurd (by rw [hpc]; rfl) (h.not_draining hlock)

theorem readerOwns_update {p : PeerId} {pc : HandlerPc}
    (handlers : t.handlers = Function.update s.handlers p pc)
    (hp : pc.locked ≠ none → t.messagesLock.owner = some (.reader p))
    (hother : ∀ p', p' ≠ p → (s.handlers p').locked ≠ none →
      t.messagesLock.owner = some (.reader p')) :
    ∀ p', (t.handlers p').locked ≠ none → t.messagesLock.owner = some (.reader p') := by
  intro p' hp'
  rw [handlers] at hp'
  by_cases hpp : p' = p
  · subst hpp
    rw [Function.update_self] at hp'
    exact hp hp'
  · rw [Function.update_of_ne hpp] at hp'
    exact hother p' hpp hp'

theorem queueInv_step (h : QueueInv s) (hstep : step soy s a = some t) : QueueInv t := by
  have inside := handlersInside_step h.inside hstep
  cases (step_cases hstep).queueStep h.inside with
  | quiet _ _ messages lock locked log draining rank empty pop =>
    exact h.quiet inside messages lock locked log draining empty pop
  | enter _ outside free handlers messages lock log main =>
    have hdrain : drainOf t.log = (s.messages, []) := by rw [log, drainOf_concat]; rfl
    have hout := h.outside fun p => by rw [free]; exact (Option.some_ne_none _).symm
    refine .drains inside hout handlers ?_ (fun _ => by rw [lock]) (fun _ => ?_)
      (log ▸ h.drained.concat nofun) (by rw [main]; nofun) (by rw [main]; nofun)
    · rw [log, messages]
      exact kept_concat s.log rfl rfl h.kept
    · rw [hdrain, messages]
      rfl
  | pop _ m pc messages handlers lock log main =>
    have hdraining : s.main.draining = true := by rw [pc]; rfl
    have howner := h.mainOwns hdraining
    have hdrain : drainOf t.log = ((drainOf s.log).1, (drainOf s.log).2 ++ [m]) := by
      rw [log, drainOf_concat]
      rfl
    have hout := h.outside fun p => by rw [howner]; exact fun heq => nomatch heq
    refine .drains inside hout handlers ?_ (fun _ => by rw [lock, howner]) (fun _ => ?_)
      (log ▸ h.drained.concat nofun) (by rw [main]; nofun) (by rw [main]; nofun)
    · rw [log, dispatches_concat, pushes_concat]
      simpa [dispatching, pushing, messages] using h.kept
    · simpa [hdrain, messages] using h.found hdraining
  | leave _ pc handlers messages lock log main =>
    have hdraining : s.main.draining = true := by rw [pc]; rfl
    have howner := h.mainOwns hdraining
    have hleft : ¬ t.main.draining = true := by rw [main]; exact Bool.false_ne_true
    have hout := h.outside fun p => by rw [howner]; exact fun heq => nomatch heq
    refine .drains inside hout handlers ?_ (fun hd => absurd hd hleft) (fun hd => absurd hd hleft)
      ?_ (by rw [main]; nofun) (by rw [main]; nofun)
    · rw [log, messages]
      exact kept_concat s.log rfl rfl h.kept
    · rw [log]
      refine h.drained.concat fun _ => ?_
      rw [h.found hdraining, h.empty pc, List.append_nil]
  | acquire _ p c m pc free handlers messages lock log main =>
    have hnone : ∀ o, s.messagesLock.owner ≠ some o := fun o => by
      rw [free]
      exact (Option.some_ne_none o).symm
    refine h.handler inside main (hnone .main) ?_ (readerOwns_update handlers ?_ ?_)
      (log ▸ h.drained.concat nofun)
    · rw [log, messages]
      exact kept_concat s.log rfl rfl h.kept
    · exact fun _ => by rw [lock]
    · exact fun p' _ hp' => absurd (h.readerOwns p' hp') (hnone _)
  | push _ p c m pc handlers messages lock log main =>
    have howner := h.owner_of_locked pc (Option.some_ne_none _)
    refine h.handler inside main (by rw [howner]; simp) ?_ (readerOwns_update handlers ?_ ?_)
      (log ▸ h.drained.concat nofun)
    · rw [log, dispatches_concat, pushes_concat, messages, List.map_append, ← h.kept,
        ← List.append_assoc]
      simp only [dispatching, pushing, Option.toList_none, Option.toList_some, List.append_nil,
        List.map_singleton, textOf]
    · exact fun _ => by rw [lock, howner]
    · exact fun p' _ hp' => by rw [lock, h.readerOwns p' hp']
  | release _ p pc handlers messages lock log main =>
    have howner := h.owner_of_locked pc (Option.some_ne_none _)
    refine h.handler inside main (by rw [howner]; simp) ?_ (readerOwns_update handlers ?_ ?_)
      (log ▸ h.drained)
    · rw [log, messages, h.kept]
    · exact fun hp => absurd rfl hp
    · intro p' hne hp'
      have howner' := howner.symm.trans (h.readerOwns p' hp')
      exact absurd (Thread.reader.inj (Option.some.inj howner')).symm hne
  | fail _ p c m pc handlers messages lock log main =>
    have howner := h.owner_of_locked pc (Option.some_ne_none _)
    refine h.handler inside main (by rw [howner]; simp) ?_ (readerOwns_update handlers ?_ ?_)
      (log ▸ h.drained)
    · rw [log, messages, h.kept]
    · exact fun hp => absurd rfl hp
    · exact fun p' _ hp' => by rw [lock, h.readerOwns p' hp']

/-! ## The order of the pushes -/

theorem Host.pushing_of_none (h : s.messagesLock.owner = none) : s.pushing = [] := by
  rw [Host.pushing, h]

theorem Host.pushing_of_main (h : s.messagesLock.owner = some .main) : s.pushing = [] := by
  rw [Host.pushing, h]

theorem Host.pushing_of_reader {p : PeerId} (h : s.messagesLock.owner = some (.reader p)) :
    s.pushing = match (s.handlers p).locked with
      | some (some (c, m)) => [(p, c, m)]
      | _ => [] := by
  rw [Host.pushing, h]

theorem Host.pushing_congr (lock : t.messagesLock = s.messagesLock)
    (locked : ∀ p, (t.handlers p).locked = (s.handlers p).locked) : t.pushing = s.pushing := by
  unfold Host.pushing
  rw [lock]
  simp only [locked]

theorem PushesInOrder.concat {e : Event} (h : PushesInOrder s) (log : t.log = s.log ++ [e])
    (hacquire : acquisition e = none) (hpush : pushing e = none)
    (hpushing : t.pushing = s.pushing) : PushesInOrder t := by
  unfold PushesInOrder
  rw [log, acquisitions_concat, pushes_concat, hacquire, hpush, hpushing,
    Option.toList_none, List.append_nil, List.append_nil, h]

theorem pushesInOrder_step (h : QueueInv s) (horder : PushesInOrder s)
    (hok : ∀ p, a ≠ .pushBackThrows p) (hstep : step soy s a = some t) : PushesInOrder t := by
  cases (step_cases hstep).queueStep h.inside with
  | quiet _ _ messages lock locked log draining rank empty pop =>
    have hpushing := Host.pushing_congr lock locked
    rcases log with log | ⟨e, log, he⟩
    · unfold PushesInOrder
      rw [log, hpushing, horder]
    · obtain ⟨hacquired, hpushed, -⟩ := he.concat s.log
      unfold PushesInOrder
      rw [log, hacquired, hpushed, hpushing, horder]
  | enter _ outside free handlers messages lock log main =>
    refine horder.concat log rfl rfl ?_
    rw [Host.pushing_of_none free, Host.pushing_of_main (by rw [lock])]
  | pop _ m pc messages handlers lock log main =>
    exact horder.concat log rfl rfl (Host.pushing_congr lock fun p => by rw [handlers])
  | leave _ pc handlers messages lock log main =>
    refine horder.concat log rfl rfl ?_
    have howner : s.messagesLock.owner = some .main := h.mainOwns (by rw [pc]; rfl)
    rw [Host.pushing_of_main howner, Host.pushing_of_none (by rw [lock]; rfl)]
  | acquire _ p c m pc free handlers messages lock log main =>
    have hlocked : (t.handlers p).locked = some (some (c, m)) := by
      rw [handlers, Function.update_self]
      rfl
    rw [PushesInOrder, Host.pushing_of_none free, List.append_nil] at horder
    unfold PushesInOrder
    rw [log, acquisitions_concat, pushes_concat, Host.pushing_of_reader (by rw [lock]), hlocked,
      horder]
    simp only [acquisition, pushing, Option.toList_some, Option.toList_none, List.append_nil]
  | push _ p c m pc handlers messages lock log main =>
    have howner := h.owner_of_locked pc (Option.some_ne_none _)
    have hlocked : (t.handlers p).locked = some none := by
      rw [handlers, Function.update_self]
      rfl
    rw [PushesInOrder, Host.pushing_of_reader howner, pc] at horder
    unfold PushesInOrder
    rw [log, acquisitions_concat, pushes_concat, Host.pushing_of_reader (by rw [lock, howner]),
      hlocked, horder]
    simp only [acquisition, pushing, HandlerPc.locked, Option.toList_some, Option.toList_none,
      List.append_nil]
  | release _ p pc handlers messages lock log main =>
    have howner := h.owner_of_locked pc (Option.some_ne_none _)
    have hpushing : t.pushing = s.pushing := by
      rw [Host.pushing_of_none (by rw [lock]; rfl), Host.pushing_of_reader howner, pc]
      rfl
    unfold PushesInOrder
    rw [log, hpushing, horder]
  | fail _ p c m pc handlers messages lock log main => exact absurd rfl (hok p)

/-! ## The drain loop ends -/

theorem drainRank_step (h : QueueInv s) (hs : s.main.draining = true)
    (hstep : step soy s a = some t) (ht : t.main.draining = true) :
    loopSteps s.main a + t.drainRank ≤ s.drainRank := by
  have howner := h.mainOwns hs
  unfold Host.drainRank
  cases (step_cases hstep).queueStep h.inside with
  | quiet _ _ messages lock locked log draining rank empty pop =>
    have hrank := rank ht
    rw [messages]
    omega
  | enter _ outside free handlers messages lock log main =>
    exact absurd (outside.symm.trans hs) Bool.false_ne_true
  | pop _ m pc messages handlers lock log main =>
    rw [main, pc, messages]
    exact Nat.le_of_eq (by simp only [loopSteps, MainPc.rank, List.length_cons]; omega)
  | leave _ pc handlers messages lock log main =>
    rw [main] at ht
    cases ht
  | acquire _ p c m pc free handlers messages lock log main =>
    rw [free] at howner
    cases howner
  | push _ p c m pc handlers messages lock log main =>
    rw [h.owner_of_locked pc (Option.some_ne_none _)] at howner
    cases howner
  | release _ p pc handlers messages lock log main =>
    rw [h.owner_of_locked pc (Option.some_ne_none _)] at howner
    cases howner
  | fail _ p c m pc handlers messages lock log main =>
    rw [h.owner_of_locked pc (Option.some_ne_none _)] at howner
    cases howner

/-- From here the drain loop never waits outside of V8, and takes at most three steps for each
message in the queue, and two more. -/
structure DrainEnds (soy : MessageBufferLib) (s : Host) : Prop where
  moves : s.main = .testMessages ∨ s.main = .popMessage ∨ s.main = .unlockMessages →
    ∃ t, step soy s (.main .next) = some t
  returns : s.main = .inV8 .dispatch .script → ∃ t, step soy s (.main .returns) = some t
  bounded : ∀ acts, AllStates (step soy) (fun s => s.main.draining = true) s acts →
    totalCost (step soy) (fun s a => loopSteps s.main a) s acts ≤ 3 * s.messages.length + 2

theorem QueueInv.drainEnds (h : QueueInv s) : DrainEnds soy s where
  moves hpc := by
    simp only [step, mainStep]
    rcases hpc with pc | pc | pc
    · rw [pc]
      cases s.messages with
      | nil => exact ⟨_, rfl⟩
      | cons m rest => exact ⟨_, rfl⟩
    · obtain ⟨m, rest, hm⟩ := List.exists_cons_of_ne_nil (h.pop pc)
      rw [pc, hm]
      exact ⟨_, rfl⟩
    · rw [pc]
      exact ⟨_, rfl⟩
  returns pc := by
    simp only [step, mainStep, pc]
    exact ⟨_, rfl⟩
  bounded acts hacts := by
    have hI : ∀ s a t, QueueInv s → s.main.draining = true → step soy s a = some t → QueueInv t :=
      fun _ _ _ hs _ ht => queueInv_step hs ht
    have hdec : ∀ s a t, QueueInv s → s.main.draining = true → step soy s a = some t →
        t.main.draining = true → loopSteps s.main a + t.drainRank ≤ s.drainRank :=
      fun _ _ _ hs hd ht hd' => drainRank_step hs hd ht hd'
    have hrank : s.main.rank ≤ 2 := by
      unfold MainPc.rank
      split <;> decide
    exact Nat.le_trans (totalCost_le hI hdec h hacts) (Nat.add_le_add_left hrank _)

/-! ## No message is lost -/

/-- The messages dispatched and the queue together are the messages pushed, in the order in which
their threads got the lock, and the drain loop empties the queue it found. -/
structure MessagesKept (s : Host) : Prop where
  kept : dispatches s.log ++ s.messages = (pushes s.log).map textOf
  order : PushesInOrder s
  found : s.main.draining = true → (drainOf s.log).1 = (drainOf s.log).2 ++ s.messages
  drained : EachAfter DrainsAll s.log
  empty : s.main = .unlockMessages → s.messages = []

theorem messages_kept {acts : List Act} (hacts : ∀ a ∈ acts, ∀ p, a ≠ .pushBackThrows p)
    (h : run (step soy) {} acts = some s) :
    MessagesKept s ∧ (s.main.draining = true → DrainEnds soy s) := by
  have hstep : ∀ s a t, (∀ p, a ≠ .pushBackThrows p) → QueueInv s ∧ PushesInOrder s →
      step soy s a = some t → QueueInv t ∧ PushesInOrder t :=
    fun _ _ _ hok hs ht => ⟨queueInv_step hs.1 ht, pushesInOrder_step hs.1 hs.2 hok ht⟩
  obtain ⟨hinv, horder⟩ := invariant_of_forall_mem hstep hacts ⟨queueInv_init, rfl⟩ h
  exact ⟨⟨hinv.kept, horder, hinv.found, hinv.drained, hinv.empty⟩, fun _ => hinv.drainEnds⟩

end Invariant

/-! ## A run with two clients -/

def clientConnects (c : SoyRef) : List Act := [.connect c, .accept, .accept, .accept, .accept]

def handshakes (p : PeerId) : List Act :=
  [.reader p .next, .reader p .next, .reader p .next, .reader p (.decoded (some [1]) none),
    .reader p .next, .reader p .next, .reader p .next]

def fragmentArrives (p : PeerId) (f : Fragment) : List Act :=
  -- with the last fragment of a text, up to the call of OnTextMessage
  [.reader p .next, .reader p .next, .reader p .next, .reader p (.decoded none (some f)),
    .reader p .next, .reader p .next, .reader p .next]

def textArrives (p : PeerId) (m : StdString) : List Act := fragmentArrives p ⟨.text, true, m⟩

def onTextMessage (p : PeerId) : List Act := [.handler p, .handler p, .handler p, .handler p]

def comesBack (p : PeerId) : List Act :=
  [.reader p .handlerReturns, .reader p .next, .reader p .next, .reader p .next, .reader p .next]

def mainDrains : List Act :=
  [.main .next, .main .returns, .main .next, .main (.pumpMessageLoop false), .main .next]

def dispatchesOne : List Act := [.main .next, .main .next, .main .returns]

def twoTexts : List Act :=
  -- the text of the second client comes in between the fragments of the first one's
  clientConnects 1 ++ handshakes 0 ++ clientConnects 2 ++ handshakes 1 ++
    fragmentArrives 0 ⟨.text, false, [7]⟩ ++ textArrives 1 [9] ++ onTextMessage 1 ++ comesBack 1 ++
    fragmentArrives 0 ⟨.continuation, true, [8]⟩ ++ onTextMessage 0 ++ comesBack 0 ++ mainDrains

def drainsTwo : List Act := dispatchesOne ++ dispatchesOne ++ [.main .next, .main .next]

theorem twoTexts_push : ∀ a ∈ twoTexts ++ drainsTwo, ∀ p, a ≠ .pushBackThrows p := by
  simp [twoTexts, drainsTwo, clientConnects, handshakes, fragmentArrives, textArrives,
    onTextMessage, comesBack, mainDrains, dispatchesOne]

theorem messages_kept_two : ∃ s t,
    run (step firstOpcodeBuffer) {} twoTexts = some s ∧ s.messages = [[9], [7, 8]] ∧
      MessagesKept s ∧ DrainEnds firstOpcodeBuffer s ∧
    run (step firstOpcodeBuffer) {} (twoTexts ++ drainsTwo) = some t ∧ t.main = .sleep ∧
      dispatches t.log = [[9], [7, 8]] ∧ t.messages = [] ∧ MessagesKept t := by
  have hfound : (run (step firstOpcodeBuffer) {} twoTexts).map
      (fun s => (s.main.draining, s.messages)) = some (true, [[9], [7, 8]]) := by decide +kernel
  have hdrained : (run (step firstOpcodeBuffer) {} (twoTexts ++ drainsTwo)).map
      (fun t => (t.main, dispatches t.log, t.messages)) = some (.sleep, [[9], [7, 8]], []) := by
    decide +kernel
  obtain ⟨s, hs, hsame⟩ := Option.map_eq_some_iff.mp hfound
  obtain ⟨hdraining, hmessages⟩ := Prod.mk.inj hsame
  obtain ⟨t, ht, hsame⟩ := Option.map_eq_some_iff.mp hdrained
  obtain ⟨hmain, hrest⟩ := Prod.mk.inj hsame
  obtain ⟨hdispatches, hempty⟩ := Prod.mk.inj hrest
  obtain ⟨hkept, hends⟩ := messages_kept
    (fun a ha => twoTexts_push a (List.mem_append_left _ ha)) hs
  exact ⟨s, t, hs, hmessages, hkept, hends hdraining, ht, hmain, hdispatches, hempty,
    (messages_kept twoTexts_push ht).1⟩

end V8Min
