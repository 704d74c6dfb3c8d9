import V8InspectorMinimal.Host.Model
import V8InspectorMinimal.Socket.PeerSteps

/-! Everything that one step of the host can do, taken apart once: first the main thread, which
alone runs V8 and the loop, then all threads together. -/

namespace V8Min
open Locks Socket

section Main
variable {s t : Host} {a : MainAct}

inductive MainStep (s : Host) : MainAct → Host → Prop where
  | startup (pc : s.main = .startup) : MainStep s .next { s with main := .inV8 .helloWorld .script }
  | returns (site : Site) (pc : s.main = .inV8 site .script) :
      MainStep s .returns { s with main := site.afterwards }
  | pause (site : Site) (pc : s.main = .inV8 site .script) :
      MainStep s .runMessageLoopOnPause
        { s.emit .paused with
          runOnlyMessagesInLoop := true, main := .inV8 site .runMessageLoopOnPause }
  | pauseReturns (site : Site) (pc : s.main = .inV8 site .runMessageLoopOnPause) :
      MainStep s .next { s.emit .pauseReturned with main := .inV8 site .script }
  | quit (site : Site) (pc : s.main = .inV8 site .script) :
      MainStep s .quitMessageLoopOnPause { s.emit .quit with runOnlyMessagesInLoop := false }
  | respond (site : Site) (callId : ℤ) (message : Inspector.StringView) (m : StdString)
      (pc : s.main = .inV8 site .script) (text : Inspector.sendResponse callId message = some m) :
      MainStep s (.sendResponse callId message) { s with main := .inV8 site (.sendResponse m) }
  | send (site : Site) (m : StdString) (pc : s.main = .inV8 site (.sendResponse m)) :
      MainStep s .next
        { s.emit (.sent site s.mWebsocketClient m) with
          main := .inV8 site (.lockClients s.mWebsocketClient m) }
  | lockClients (site : Site) (c : SoyRef) (m : StdString) (l : RecursiveMutex Thread)
      (pc : s.main = .inV8 site (.lockClients c m)) (lock : s.mClientsLock.lock .main = some l) :
      MainStep s .next { s with mClientsLock := l, main := .inV8 site (.getClient c m) }
  | found (site : Site) (c : SoyRef) (m : StdString) (p : PeerId)
      (pc : s.main = .inV8 site (.getClient c m))
      (client : s.mWebsocketServer.getClient c = .ok p) :
      MainStep s .next { s with main := .inV8 site (.unlockClients c m p) }
  | notFound (site : Site) (c : SoyRef) (m : StdString) (e : AssertException)
      (pc : s.main = .inV8 site (.getClient c m))
      (client : s.mWebsocketServer.getClient c = .error e) :
      MainStep s .next { s with mClientsLock := s.mClientsLock.unlock, main := .threw site e }
  | unlockClients (site : Site) (c : SoyRef) (m : StdString) (p : PeerId)
      (pc : s.main = .inV8 site (.unlockClients c m p)) :
      MainStep s .next
        { s with mClientsLock := s.mClientsLock.unlock, main := .inV8 site (.isCompleted c m p) }
  | passed (site : Site) (c : SoyRef) (m : StdString) (p : PeerId)
      (pc : s.main = .inV8 site (.isCompleted c m p))
      (completed : (s.peer p).mHasSentAcceptReply = true) :
      MainStep s .next { s with main := .inV8 site (.push c m p) }
  | refused (site : Site) (c : SoyRef) (m : StdString) (p : PeerId)
      (pc : s.main = .inV8 site (.isCompleted c m p))
      (incomplete : (s.peer p).mHasSentAcceptReply = false) :
      MainStep s .next { s with main := .threw site .sendBeforeHandshake }
  | push (site : Site) (c : SoyRef) (m : StdString) (p : PeerId)
      (pc : s.main = .inV8 site (.push c m p)) :
      MainStep s .next
        { (s.setPeer p ((s.peer p).push (.message m))).emit (.queued p c m) with
          main := .inV8 site .script }
  | onlyMessages (pc : s.main = .testOnlyMessages) (only : s.runOnlyMessagesInLoop = true) :
      MainStep s .next { s with main := .lockMessages }
  | enterPump (pc : s.main = .testOnlyMessages) (all : s.runOnlyMessagesInLoop = false) :
      MainStep s .next { s.emit .pumpEntered with main := .pumpMessageLoop }
  | task (pc : s.main = .pumpMessageLoop) :
      MainStep s (.pumpMessageLoop true) { s.emit .taskStarted with main := .inV8 .task .script }
  | noTask (pc : s.main = .pumpMessageLoop) :
      MainStep s (.pumpMessageLoop false) { s with main := .lockMessages }
  | lockMessages (pc : s.main = .lockMessages) (free : s.messagesLock.owner = none) :
      MainStep s .next
        { s.emit (.drainEntered s.messages) with
          messagesLock := ⟨some .main⟩, main := .testMessages }
  | noMessage (pc : s.main = .testMessages) (empty : s.messages = []) :
      MainStep s .next { s with main := .unlockMessages }
  | someMessage (pc : s.main = .testMessages) (nonempty : s.messages ≠ []) :
      MainStep s .next { s with main := .popMessage }
  | popMessage (m : StdString) (rest : List StdString) (pc : s.main = .popMessage)
      (popped : s.messages = m :: rest) :
      MainStep s .next
        { s.emit (.dispatched m) with messages := rest, main := .inV8 .dispatch .script }
  | unlockMessages (pc : s.main = .unlockMessages) :
      MainStep s .next
        { s.emit .drainLeft with messagesLock := s.messagesLock.unlock, main := .sleep }
  | sleep (pc : s.main = .sleep) : MainStep s .next { s with main := .testOnlyMessages }

theorem mainStep_cases (h : mainStep s a = some t) : MainStep s a t := by
  unfold mainStep at h
  split at h
  case h_1 pc => exact Option.some.inj h ▸ .startup pc
  case h_2 site pc => exact Option.some.inj h ▸ .returns site pc
  case h_3 site pc => exact Option.some.inj h ▸ .pause site pc
  case h_4 site pc => exact Option.some.inj h ▸ .pauseReturns site pc
  case h_5 site pc => exact Option.some.inj h ▸ .quit site pc
  case h_6 site callId message pc =>
    obtain ⟨m, hm, rfl⟩ := Option.map_eq_some_iff.mp h
    exact .respond site callId message m pc hm
  case h_7 site m pc => exact Option.some.inj h ▸ .send site m pc
  case h_8 site c m pc =>
    obtain ⟨l, hl, rfl⟩ := Option.map_eq_some_iff.mp h
    exact .lockClients site c m l pc hl
  case h_9 site c m pc =>
    split at h
    · rename_i p client
      exact Option.some.inj h ▸ .found site c m p pc client
    · rename_i e client
      exact Option.some.inj h ▸ .notFound site c m e pc client
  case h_10 site c m p pc => exact Option.some.inj h ▸ .unlockClients site c m p pc
  case h_11 site c m p pc =>
    split at h
    · rename_i completed
      exact Option.some.inj h ▸ .passed site c m p pc completed
    · rename_i incomplete
      exact Option.some.inj h ▸ .refused site c m p pc (eq_false_of_ne_true incomplete)
  case h_12 site c m p pc => exact Option.some.inj h ▸ .push site c m p pc
  case h_13 pc =>
    split at h
    · rename_i only
      exact Option.some.inj h ▸ .onlyMessages pc only
    · rename_i all
      exact Option.some.inj h ▸ .enterPump pc (eq_false_of_ne_true all)
  case h_14 pc => exact Option.some.inj h ▸ .task pc
  case h_15 pc => exact Option.some.inj h ▸ .noTask pc
  case h_16 pc =>
    obtain ⟨l, hl, rfl⟩ := Option.map_eq_some_iff.mp h
    obtain ⟨free, rfl⟩ := Mutex.lock_eq_some.mp hl
    exact .lockMessages pc free
  case h_17 pc =>
    split at h
    · rename_i empty
      exact Option.some.inj h ▸ .noMessage pc empty
    · rename_i m rest nonempty
      exact Option.some.inj h ▸ .someMessage pc (nonempty ▸ List.cons_ne_nil m rest)
  case h_18 pc =>
    split at h
    · cases h
    · rename_i m rest popped
      exact Option.some.inj h ▸ .popMessage m rest pc popped
  case h_19 pc => exact Option.some.inj h ▸ .unlockMessages pc
  case h_20 pc => exact Option.some.inj h ▸ .sleep pc
  case h_21 => cases h

theorem MainStep.eq_some (h : MainStep s a t) : mainStep s a = some t := by
  cases h with
  | respond site callId message m pc text => simp only [mainStep, pc, text, Option.map_some]
  | lockClients site c m l pc lock => simp only [mainStep, pc, lock, Option.map_some]
  | found site c m p pc client => simp only [mainStep, pc, client]
  | notFound site c m e pc client => simp only [mainStep, pc, client]
  | passed site c m p pc completed =>
    simp only [mainStep, pc, Peer.isCompleted, completed, if_true]
  | refused site c m p pc incomplete =>
    simp only [mainStep, pc, Peer.isCompleted, incomplete, Bool.false_eq_true, if_false]
  | onlyMessages pc only => simp only [mainStep, pc, only, if_true]
  | enterPump pc all => simp only [mainStep, pc, all, Bool.false_eq_true, if_false]
  | lockMessages pc free =>
    simp only [mainStep, pc, Mutex.lock_eq_some.mpr ⟨free, rfl⟩, Option.map_some]
  | noMessage pc empty => simp only [mainStep, pc, empty]
  | someMessage pc nonempty =>
    obtain ⟨m, rest, hmessages⟩ := List.exists_cons_of_ne_nil nonempty
    simp only [mainStep, pc, hmessages]
  | popMessage m rest pc popped => simp only [mainStep, pc, popped]
  | _ => simp only [mainStep, *]

structure MainFrame (s t : Host) : Prop where
  mWebsocketClient : t.mWebsocketClient = s.mWebsocketClient
  handlers : t.handlers = s.handlers
  accept : t.accept = s.accept
  live : t.live = s.live

theorem MainStep.mainFrame (h : MainStep s a t) : MainFrame s t := by
  cases h <;> exact ⟨rfl, rfl, rfl, rfl⟩

end Main

section Host
variable {soy : MessageBufferLib} {s t : Host} {a : Act}

inductive HostStep (soy : MessageBufferLib) (s : Host) : Act → Host → Prop where
  | main (a : MainAct) (t : Host) (step : MainStep s a t) : HostStep soy s (.main a) t
  | reader (p : PeerId) (a : ReaderAct) (q : Peer) (made : p < s.mWebsocketServer.next)
      (step : readerStep soy (s.peer p) a = some q)
      (outside : ∀ k b, (s.peer p).reader ≠ .callHandler k b ∧ (s.peer p).reader ≠ .handling k b) :
      HostStep soy s (.reader p a) (s.setPeer p q)
  | callText (p : PeerId) (a : ReaderAct) (b : BufferId) (m : StdString) (q : Peer)
      (made : p < s.mWebsocketServer.next) (step : readerStep soy (s.peer p) a = some q)
      (pc : (s.peer p).reader = .callHandler .text b)
      (data : m = soy.data .text ((s.peer p).buffers b)) :
      HostStep soy s (.reader p a)
        (((s.setPeer p q).setHandler p (.record (s.peer p).mConnectionRef m)).emit
          (.textMessage p (s.peer p).mConnectionRef m))
  | callBinary (p : PeerId) (a : ReaderAct) (b : BufferId) (q : Peer)
      (made : p < s.mWebsocketServer.next) (step : readerStep soy (s.peer p) a = some q)
      (pc : (s.peer p).reader = .callHandler .binary b) :
      HostStep soy s (.reader p a) ((s.setPeer p q).setHandler p .returned)
  | handlerReturns (p : PeerId) (k : Kind) (b : BufferId) (q : Peer)
      (made : p < s.mWebsocketServer.next)
      (step : readerStep soy (s.peer p) .handlerReturns = some q)
      (pc : (s.peer p).reader = .handling k b) (returned : s.handlers p = .returned) :
      HostStep soy s (.reader p .handlerReturns) ((s.setPeer p q).setHandler p .idle)
  | handlerThrows (p : PeerId) (k : Kind) (b : BufferId) (q : Peer)
      (made : p < s.mWebsocketServer.next)
      (step : readerStep soy (s.peer p) .handlerThrows = some q)
      (pc : (s.peer p).reader = .handling k b) (threw : s.handlers p = .threw) :
      HostStep soy s (.reader p .handlerThrows) ((s.setPeer p q).setHandler p .idle)
  | record (p : PeerId) (c : SoyRef) (m : StdString) (pc : s.handlers p = .record c m) :
      HostStep soy s (.handler p)
        { (s.setHandler p (.lock c m)).emit (.recorded p c m) with mWebsocketClient := c }
  | lock (p : PeerId) (c : SoyRef) (m : StdString) (pc : s.handlers p = .lock c m)
      (free : s.messagesLock.owner = none) :
      HostStep soy s (.handler p)
        { (s.setHandler p (.pushBack c m)).emit (.acquired p c m) with
          messagesLock := ⟨some (.reader p)⟩ }
  | pushBack (p : PeerId) (c : SoyRef) (m : StdString) (pc : s.handlers p = .pushBack c m) :
      HostStep soy s (.handler p)
        { (s.setHandler p .unlock).emit (.pushed p c m) with messages := s.messages ++ [m] }
  | unlock (p : PeerId) (pc : s.handlers p = .unlock) :
      HostStep soy s (.handler p)
        { s.setHandler p .returned with messagesLock := s.messagesLock.unlock }
  | pushBackThrows (p : PeerId) (c : SoyRef) (m : StdString) (pc : s.handlers p = .pushBack c m) :
      HostStep soy s (.pushBackThrows p) (s.setHandler p .threw)
  | connect (c : SoyRef) (pc : s.accept = .idle) :
      HostStep soy s (.connect c) { s with accept := .construct c }
  | construct (c : SoyRef) (pc : s.accept = .construct c) :
      HostStep soy s .accept
        { s with
          mWebsocketServer := s.mWebsocketServer.newPeer c
          live := Function.update s.live s.mWebsocketServer.next true
          accept := .lockClients s.mWebsocketServer.next }
  | lockClients (p : PeerId) (l : RecursiveMutex Thread) (pc : s.accept = .lockClients p)
      (lock : s.mClientsLock.lock .accept = some l) :
      HostStep soy s .accept { s with mClientsLock := l, accept := .pushBack p }
  | pushClient (p : PeerId) (pc : s.accept = .pushBack p) :
      HostStep soy s .accept
        { s with mWebsocketServer := s.mWebsocketServer.pushClient p, accept := .unlockClients }
  | unlockClients (pc : s.accept = .unlockClients) :
      HostStep soy s .accept { s with mClientsLock := s.mClientsLock.unlock, accept := .idle }
  | disconnect (p : PeerId) (connected : s.live p = true) :
      HostStep soy s (.disconnect p)
        { s with
          mWebsocketServer := s.mWebsocketServer.removeClient (s.peer p).mConnectionRef
          live := Function.update s.live p false }

theorem readerThreadStep_cases {p : PeerId} {a : ReaderAct}
    (h : readerThreadStep soy s p a = some t) : HostStep soy s (.reader p a) t := by
  unfold readerThreadStep at h
  split at h
  case isFalse => cases h
  rename_i made
  split at h
  · cases h
  rename_i q hq
  have hstep := readerStep_cases hq
  split at h
  · rename_i _ b pc
    obtain rfl := Option.some.inj h
    exact .callText p _ b _ q made hq pc rfl
  · rename_i _ b pc
    obtain rfl := Option.some.inj h
    exact .callBinary p _ b q made hq pc
  · rename_i k b pc
    split at h
    · rename_i returned
      exact Option.some.inj h ▸ .handlerReturns p k b q made hq pc returned
    · cases h
  · rename_i k b pc
    split at h
    · rename_i threw
      exact Option.some.inj h ▸ .handlerThrows p k b q made hq pc threw
    · cases h
  · rename_i htext hbinary hreturns hthrows
    obtain rfl := Option.some.inj h
    refine .reader p _ q made hq fun k b => ⟨fun pc => ?_, fun pc => ?_⟩
    · cases k with
      | text => exact htext b pc
      | binary => exact hbinary b pc
    -- in a handler the read thread only moves by leaving it
    · cases hstep with
      | handlerReturns k' b' pc' => exact hreturns k' b' pc' rfl
      | handlerThrows k' b' pc' => exact hthrows k' b' pc' rfl
      | _ => simp_all

theorem handlerStep_cases {p : PeerId} (h : handlerStep s p = some t) :
    HostStep soy s (.handler p) t := by
  unfold handlerStep at h
  split at h
  · rename_i c m pc
    exact Option.some.inj h ▸ .record p c m pc
  · rename_i c m pc
    obtain ⟨l, hl, rfl⟩ := Option.map_eq_some_iff.mp h
    obtain ⟨free, rfl⟩ := Mutex.lock_eq_some.mp hl
    exact .lock p c m pc free
  · rename_i c m pc
    exact Option.some.inj h ▸ .pushBack p c m pc
  · rename_i pc
    exact Option.some.inj h ▸ .unlock p pc
  all_goals cases h

theorem acceptStep_cases (h : acceptStep s = some t) : HostStep soy s .accept t := by
  unfold acceptStep at h
  split at h
  · rename_i c pc
    exact Option.some.inj h ▸ .construct c pc
  · rename_i p pc
    obtain ⟨l, hl, rfl⟩ := Option.map_eq_some_iff.mp h
    exact .lockClients p l pc hl
  · rename_i p pc
    exact Option.some.inj h ▸ .pushClient p pc
  · rename_i pc
    exact Option.some.inj h ▸ .unlockClients pc
  · cases h

theorem step_cases (h : step soy s a = some t) : HostStep soy s a t := by
  cases a with
  | main a => exact .main a t (mainStep_cases h)
  | reader p a => exact readerThreadStep_cases h
  | handler p => exact handlerStep_cases h
  | pushBackThrows p =>
    simp only [step, pushBackThrows] at h
    split at h
    · rename_i c m pc
      exact Option.some.inj h ▸ .pushBackThrows p c m pc
    · cases h
  | connect c =>
    simp only [step] at h
    split at h
    · rename_i pc
      exact Option.some.inj h ▸ .connect c pc
    · cases h
  | accept => exact acceptStep_cases h
  | disconnect p =>
    simp only [step] at h
    split at h
    · rename_i connected
      exact Option.some.inj h ▸ .disconnect p connected
    · cases h

/-! ## What the other threads leave alone -/

def Event.ByMain : Event → Prop
  | .textMessage .. | .recorded .. | .acquired .. | .pushed .. => False
  | _ => True

structure SameMain (s t : Host) : Prop where
  main : t.main = s.main
  runOnlyMessagesInLoop : t.runOnlyMessagesInLoop = s.runOnlyMessagesInLoop
  log : t.log = s.log ∨ ∃ e, t.log = s.log ++ [e] ∧ ¬ e.ByMain

theorem MainStep.log_eq {a : MainAct} (h : MainStep s a t) :
    t.log = s.log ∨ ∃ e, t.log = s.log ++ [e] ∧ e.ByMain := by
  cases h with
  | pause site pc => exact Or.inr ⟨_, rfl, trivial⟩
  | pauseReturns site pc => exact Or.inr ⟨_, rfl, trivial⟩
  | quit site pc => exact Or.inr ⟨_, rfl, trivial⟩
  | send site m pc => exact Or.inr ⟨_, rfl, trivial⟩
  | push site c m p pc => exact Or.inr ⟨_, rfl, trivial⟩
  | enterPump pc all => exact Or.inr ⟨_, rfl, trivial⟩
  | task pc => exact Or.inr ⟨_, rfl, trivial⟩
  | lockMessages pc free => exact Or.inr ⟨_, rfl, trivial⟩
  | popMessage m rest pc popped => exact Or.inr ⟨_, rfl, trivial⟩
  | unlockMessages pc => exact Or.inr ⟨_, rfl, trivial⟩
  | _ => exact Or.inl rfl

theorem HostStep.sameMain (h : HostStep soy s a t) (ha : ∀ b, a ≠ .main b) : SameMain s t := by
  cases h with
  | main b t step => exact absurd rfl (ha b)
  | callText p a b m q made step pc data =>
    exact ⟨rfl, rfl, Or.inr ⟨_, rfl, not_false⟩⟩
  | record p c m pc => exact ⟨rfl, rfl, Or.inr ⟨_, rfl, not_false⟩⟩
  | lock p c m pc free => exact ⟨rfl, rfl, Or.inr ⟨_, rfl, not_false⟩⟩
  | pushBack p c m pc => exact ⟨rfl, rfl, Or.inr ⟨_, rfl, not_false⟩⟩
  | _ => exact ⟨rfl, rfl, Or.inl rfl⟩

/-! ## How a handler moves -/

@[simp] theorem Host.setHandler_handlers (s : Host) (p : PeerId) (pc : HandlerPc) :
    (s.setHandler p pc).handlers p = pc := Function.update_self ..

inductive HandlerMove (s : Host) (p : PeerId) : Act → HandlerPc → Prop where
  | text (a : ReaderAct) (c : SoyRef) (m : StdString) : HandlerMove s p (.reader p a) (.record c m)
  | binary (a : ReaderAct) : HandlerMove s p (.reader p a) .returned
  | left (a : ReaderAct) : HandlerMove s p (.reader p a) .idle
  | record (c : SoyRef) (m : StdString) (pc : s.handlers p = .record c m) :
      HandlerMove s p (.handler p) (.lock c m)
  | lock (c : SoyRef) (m : StdString) (pc : s.handlers p = .lock c m) :
      HandlerMove s p (.handler p) (.pushBack c m)
  | pushBack (c : SoyRef) (m : StdString) (pc : s.handlers p = .pushBack c m) :
      HandlerMove s p (.handler p) .unlock
  | unlock (pc : s.handlers p = .unlock) : HandlerMove s p (.handler p) .returned
  | pushBackThrows (c : SoyRef) (m : StdString) (pc : s.handlers p = .pushBack c m) :
      HandlerMove s p (.pushBackThrows p) .threw

theorem HandlerMove.update {p : PeerId} {pc : HandlerPc} (h : HandlerMove s p a pc)
    (handlers : t.handlers = Function.update s.handlers p pc) (p' : PeerId) :
    t.handlers p' = s.handlers p' ∨ HandlerMove s p' a (t.handlers p') := by
  rw [handlers]
  by_cases hp : p' = p
  · subst hp
    rw [Function.update_self]
    exact Or.inr h
  · rw [Function.update_of_ne hp]
    exact Or.inl rfl

theorem apply_handlers_update {γ : Type*} (f : HandlerPc → γ) {p : PeerId} {pc pc' : HandlerPc}
    (handlers : t.handlers = Function.update s.handlers p pc') (hs : s.handlers p = pc)
    (hf : f pc' = f pc) (p' : PeerId) : f (t.handlers p') = f (s.handlers p') := by
  rw [handlers]
  by_cases hp : p' = p
  · rw [hp, Function.update_self, hf, hs]
  · rw [Function.update_of_ne hp]

theorem HostStep.handlerMove (h : HostStep soy s a t) (p : PeerId) :
    t.handlers p = s.handlers p ∨ HandlerMove s p a (t.handlers p) := by
  cases h with
  | main a t step => exact Or.inl (by rw [step.mainFrame.handlers])
  | callText p' a b m q made step pc data => exact (HandlerMove.text a _ m).update rfl p
  | callBinary p' a b q made step pc => exact (HandlerMove.binary a).update rfl p
  | handlerReturns p' k b q made step pc returned => exact (HandlerMove.left _).update rfl p
  | handlerThrows p' k b q made step pc threw => exact (HandlerMove.left _).update rfl p
  | record p' c m pc => exact (HandlerMove.record c m pc).update rfl p
  | lock p' c m pc free => exact (HandlerMove.lock c m pc).update rfl p
  | pushBack p' c m pc => exact (HandlerMove.pushBack c m pc).update rfl p
  | unlock p' pc => exact (HandlerMove.unlock pc).update rfl p
  | pushBackThrows p' c m pc => exact (HandlerMove.pushBackThrows c m pc).update rfl p
  | _ => exact Or.inl rfl

/-! ## The peers and their handlers -/

@[simp] theorem Host.setPeer_peer (s : Host) (p : PeerId) (q : Peer) :
    (s.setPeer p q).peer p = q := Function.update_self ..

theorem Host.setPeer_peer_of_ne {p p' : PeerId} (h : p' ≠ p) (s : Host) (q : Peer) :
    (s.setPeer p q).peer p' = s.peer p' := Function.update_of_ne h ..

/-- All that a step does to one peer. -/
theorem HostStep.peer_cases {p : PeerId} (h : HostStep soy s a t)
    (hp : p < s.mWebsocketServer.next) :
    t.peer p = s.peer p ∨ (∃ b, a = .reader p b ∧ ReaderStep soy (s.peer p) b (t.peer p)) ∨
      ∃ m, t.peer p = (s.peer p).push (.message m) := by
  have hread : ∀ {p' b q}, a = .reader p' b → readerStep soy (s.peer p') b = some q →
      t.peer p = (s.setPeer p' q).peer p → t.peer p = s.peer p ∨
        (∃ b, a = .reader p b ∧ ReaderStep soy (s.peer p) b (t.peer p)) ∨
        ∃ m, t.peer p = (s.peer p).push (.message m) := by
    intro p' b q ha hq ht
    by_cases hpp : p = p'
    · subst hpp
      rw [Host.setPeer_peer] at ht
      exact Or.inr (Or.inl ⟨b, ha, ht ▸ readerStep_cases hq⟩)
    · exact Or.inl (ht.trans (Host.setPeer_peer_of_ne hpp s q))
  cases h with
  | main a t step =>
    cases step with
    | push site c m p' pc =>
      by_cases hpp : p = p'
      · subst hpp
        exact Or.inr (Or.inr ⟨m, Host.setPeer_peer s p _⟩)
      · exact Or.inl (Host.setPeer_peer_of_ne hpp s _)
    | _ => exact Or.inl rfl
  | reader p' b q made step outside => exact hread rfl step rfl
  | callText p' b k m q made step pc data => exact hread rfl step rfl
  | callBinary p' b k q made step pc => exact hread rfl step rfl
  | handlerReturns p' k b q made step pc returned => exact hread rfl step rfl
  | handlerThrows p' k b q made step pc threw => exact hread rfl step rfl
  | construct c pc => exact Or.inl (Server.newPeer_peers_of_ne (Nat.ne_of_lt hp))
  | _ => exact Or.inl rfl

/-- A handler runs only for a peer that exists, while its read thread is in `OnDataRecieved`. -/
def HandlersInside (s : Host) : Prop := ∀ p, s.handlers p ≠ .idle →
  p < s.mWebsocketServer.next ∧ ∃ k b, (s.peer p).reader = .handling k b

theorem HandlersInside.idle_of_pc (h : HandlersInside s) {p : PeerId}
    (hpc : ∀ k b, (s.peer p).reader ≠ .handling k b) : s.handlers p = .idle := by
  by_contra hne
  obtain ⟨-, k, b, hreader⟩ := h p hne
  exact hpc k b hreader

theorem HandlersInside.of_eq (h : HandlersInside s) (hhandlers : t.handlers = s.handlers)
    (hnext : s.mWebsocketServer.next ≤ t.mWebsocketServer.next)
    (hreader : ∀ p, s.handlers p ≠ .idle → (t.peer p).reader = (s.peer p).reader) :
    HandlersInside t := by
  intro p hp
  rw [hhandlers] at hp
  obtain ⟨hlt, hinside⟩ := h p hp
  rw [hreader p hp]
  exact ⟨Nat.lt_of_lt_of_le hlt hnext, hinside⟩

theorem HandlersInside.update (h : HandlersInside s) {p : PeerId} {pc : HandlerPc}
    (hhandlers : t.handlers = Function.update s.handlers p pc)
    (hnext : t.mWebsocketServer.next = s.mWebsocketServer.next)
    (hpeers : ∀ p', p' ≠ p → t.peer p' = s.peer p')
    (hpc : pc ≠ .idle → p < s.mWebsocketServer.next ∧ ∃ k b, (t.peer p).reader = .handling k b) :
    HandlersInside t := by
  intro p' hp'
  rw [hhandlers] at hp'
  rw [hnext]
  by_cases hp : p' = p
  · subst hp
    rw [Function.update_self] at hp'
    exact hpc hp'
  · rw [Function.update_of_ne hp] at hp'
    rw [hpeers p' hp]
    exact h p' hp'

theorem handling_of_callHandler {p : PeerId} {a : ReaderAct} {k : Kind} {b : BufferId} {q : Peer}
    (pc : (s.peer p).reader = .callHandler k b) (h : readerStep soy (s.peer p) a = some q) :
    ((s.setPeer p q).peer p).reader = .handling k b := by
  rw [Host.setPeer_peer, (readerStep_callHandler pc h).2]

theorem handlersInside_step (h : HandlersInside s) (hstep : step soy s a = some t) :
    HandlersInside t := by
  cases step_cases hstep with
  | main a t hmain =>
    cases hmain with
    | push site c m p pc =>
      refine h.of_eq rfl (Nat.le_refl _) fun p' _ => ?_
      let q := (s.peer p).push (.message m)
      show ((s.setPeer p q).peer p').reader = (s.peer p').reader
      by_cases hp : p' = p
      · subst hp
        rw [Host.setPeer_peer]
        rfl
      · rw [Host.setPeer_peer_of_ne hp]
    | _ => exact h.of_eq rfl (Nat.le_refl _) fun _ _ => rfl
  | reader p a q made step outside =>
    refine h.of_eq rfl (Nat.le_refl _) fun p' hp' => ?_
    have hp : p' ≠ p := by
      rintro rfl
      exact hp' (h.idle_of_pc fun k b => (outside k b).2)
    rw [Host.setPeer_peer_of_ne hp]
  | callText p a b m q made step pc data =>
    refine h.update rfl rfl (fun p' hp => Host.setPeer_peer_of_ne hp s q) fun _ => ⟨made, ?_⟩
    exact ⟨_, _, handling_of_callHandler pc step⟩
  | callBinary p a b q made step pc =>
    refine h.update rfl rfl (fun p' hp => Host.setPeer_peer_of_ne hp s q) fun _ => ⟨made, ?_⟩
    exact ⟨_, _, handling_of_callHandler pc step⟩
  | handlerReturns p k b q made step pc returned =>
    exact h.update rfl rfl (fun p' hp => Host.setPeer_peer_of_ne hp s q) fun hne => absurd rfl hne
  | handlerThrows p k b q made step pc threw =>
    exact h.update rfl rfl (fun p' hp => Host.setPeer_peer_of_ne hp s q) fun hne => absurd rfl hne
  | record p c m pc =>
    exact h.update rfl rfl (fun _ _ => rfl) fun _ => h p (by simp [pc])
  | lock p c m pc free =>
    exact h.update rfl rfl (fun _ _ => rfl) fun _ => h p (by simp [pc])
  | pushBack p c m pc => exact h.update rfl rfl (fun _ _ => rfl) fun _ => h p (by simp [pc])
  | unlock p pc => exact h.update rfl rfl (fun _ _ => rfl) fun _ => h p (by simp [pc])
  | pushBackThrows p c m pc =>
    exact h.update rfl rfl (fun _ _ => rfl) fun _ => h p (by simp [pc])
  | construct c pc =>
    refine h.of_eq rfl (Nat.le_succ _) fun p hp => ?_
    have hlt := (h p hp).1
    exact congrArg Peer.reader (Server.newPeer_peers_of_ne (Nat.ne_of_lt hlt))
  | _ => exact h.of_eq rfl (Nat.le_refl _) fun _ _ => rfl

end Host
end V8Min
