import Mathlib.Data.Nat.Basic
import V8InspectorMinimal.Host.Failure

/-! Which locks the threads of the host hold while they request others. The main thread takes
`mClientsLock` inside of `MessagesLock`; no other thread takes one lock inside of another, unless an
exception of `PushBack` has left it `MessagesLock`. -/

namespace V8Min
open Locks Runs Socket

inductive Lock where
  | messages
  | clients
  | currentMessage (p : PeerId)
  deriving DecidableEq, Repr

def Lock.rank : Lock → ℕ
  | messages => 0
  | clients | currentMessage _ => 1

def Host.Requests (s : Host) : Thread → Lock → Prop
  | .main, .messages => s.main = .lockMessages
  | .main, .clients => ∃ site c m, s.main = .inV8 site (.lockClients c m)
  | .accept, .clients => ∃ p, s.accept = .lockClients p
  | .reader p, .messages => ∃ c m, s.handlers p = .lock c m
  | .reader p, .currentMessage q => q = p ∧ p < s.mWebsocketServer.next ∧
      ((s.peer p).reader = .idle ∨ ∃ k b, (s.peer p).reader = .lockReset k b)
  | _, _ => False

def Host.Holds (s : Host) (t : Thread) : Lock → Prop
  | .messages => s.messagesLock.owner = some t
  | .clients => ∃ n, s.mClientsLock.held = some (t, n)
  | .currentMessage p =>
    t = .reader p ∧ ∃ n, (s.peer p).mCurrentMessageLock.held = some (.reader, n)

/-- No threads wait for each other in a cycle, and none asks for the plain mutex again. -/
structure Host.DeadlockFree (s : Host) : Prop where
  acyclic : ∀ t, ¬ Relation.TransGen (WaitsFor s.Requests s.Holds) t t
  once : ∀ t, s.Requests t .messages → ¬ s.Holds t .messages

def Thread.takes : Thread → Lock → Act
  | main, _ => .main .next
  | accept, _ => .accept
  | reader p, .messages => .handler p
  | reader p, _ => .reader p .next

section Host
variable {soy : MessageBufferLib} {s t : Host} {a : Act} {p : PeerId}

/-- A thread that waits for another cannot move, nor can one that waits for itself at the plain
mutex. -/
theorem step_eq_none_of_waits {u v : Thread} {l : Lock} (hrequests : s.Requests u l)
    (hholds : s.Holds v l) (hblocks : u ≠ v ∨ l = .messages) : step soy s (u.takes l) = none := by
  cases l with
  | messages =>
    have hlock : ∀ o, s.messagesLock.lock o = none := fun o => by
      rw [Mutex.lock, show s.messagesLock.owner = some v from hholds]
    cases u with
    | main => simp only [Thread.takes, step, mainStep, show s.main = _ from hrequests, hlock,
        Option.map_none]
    | accept => cases hrequests
    | reader p =>
      obtain ⟨c, m, pc⟩ := hrequests
      simp only [Thread.takes, step, handlerStep, pc, hlock, Option.map_none]
  | clients =>
    have hne : u ≠ v := hblocks.resolve_right Lock.noConfusion
    obtain ⟨n, hheld⟩ := hholds
    have hlock : s.mClientsLock.lock u = none := by
      rw [RecursiveMutex.lock, hheld]
      exact if_neg (Ne.symm hne)
    cases u with
    | main =>
      obtain ⟨site, c, m, pc⟩ := hrequests
      simp only [Thread.takes, step, mainStep, pc, hlock, Option.map_none]
    | accept =>
      obtain ⟨p, pc⟩ := hrequests
      simp only [Thread.takes, step, acceptStep, pc, hlock, Option.map_none]
    | reader p => cases hrequests
  | currentMessage p =>
    have hne : u ≠ v := hblocks.resolve_right Lock.noConfusion
    obtain ⟨rfl, -⟩ := hholds
    cases u with
    | main => cases hrequests
    | accept => cases hrequests
    | reader q => exact absurd (hrequests.1 ▸ rfl) hne

theorem Host.holds_currentMessage {q : Peer} {l : RecursiveMutex PeerThread}
    (hlock : (s.peer p).mCurrentMessageLock.lock .reader = some l)
    (hpeer : q.mCurrentMessageLock = l) :
    (s.setPeer p q).Holds (.reader p) (.currentMessage p) := by
  obtain ⟨n, hn⟩ := RecursiveMutex.exists_held_of_lock hlock
  exact ⟨rfl, n, by rw [Host.setPeer_peer, hpeer, hn]⟩

theorem holds_of_takes {u : Thread} {l : Lock} (hrequests : s.Requests u l)
    (hstep : step soy s (u.takes l) = some t) : t.Holds u l := by
  cases l with
  | messages =>
    cases u with
    | main =>
      simp only [Thread.takes, step, mainStep, show s.main = _ from hrequests] at hstep
      obtain ⟨l, hl, rfl⟩ := Option.map_eq_some_iff.mp hstep
      exact congrArg Mutex.owner (Mutex.lock_eq_some.mp hl).2
    | accept => cases hrequests
    | reader p =>
      obtain ⟨c, m, pc⟩ := hrequests
      simp only [Thread.takes, step, handlerStep, pc] at hstep
      obtain ⟨l, hl, rfl⟩ := Option.map_eq_some_iff.mp hstep
      exact congrArg Mutex.owner (Mutex.lock_eq_some.mp hl).2
  | clients =>
    cases u with
    | main =>
      obtain ⟨site, c, m, pc⟩ := hrequests
      simp only [Thread.takes, step, mainStep, pc] at hstep
      obtain ⟨l, hl, rfl⟩ := Option.map_eq_some_iff.mp hstep
      exact RecursiveMutex.exists_held_of_lock hl
    | accept =>
      obtain ⟨p, pc⟩ := hrequests
      simp only [Thread.takes, step, acceptStep, pc] at hstep
      obtain ⟨l, hl, rfl⟩ := Option.map_eq_some_iff.mp hstep
      exact RecursiveMutex.exists_held_of_lock hl
    | reader p => cases hrequests
  | currentMessage p =>
    cases u with
    | main => cases hrequests
    | accept => cases hrequests
    | reader q =>
      obtain ⟨rfl, -, hpc⟩ := hrequests
      cases step_cases hstep with
      | reader _ _ q made step outside =>
        rcases hpc with hpc | ⟨k, b, hpc⟩
        · simp only [readerStep, hpc] at step
          obtain ⟨l, hl, rfl⟩ := Option.map_eq_some_iff.mp step
          exact Host.holds_currentMessage hl rfl
        · simp only [readerStep, hpc] at step
          obtain ⟨l, hl, rfl⟩ := Option.map_eq_some_iff.mp step
          exact Host.holds_currentMessage hl rfl
      | callText _ _ b m q made step pc data => simp [pc] at hpc
      | callBinary _ _ b q made step pc => simp [pc] at hpc

/-! ## Who holds the locks -/

def MainPc.holdsMessages : MainPc → Bool
  | .inV8 site _ | .threw site _ => site == .dispatch
  | .testMessages | .popMessage | .unlockMessages => true
  | _ => false

def MainPc.holdsClients : MainPc → Bool
  | .inV8 _ (.getClient ..) | .inV8 _ (.unlockClients ..) => true
  | _ => false

def AcceptPc.holdsClients : AcceptPc → Bool
  | .pushBack _ | .unlockClients => true
  | _ => false

def Host.insideClients (s : Host) : Thread → Bool
  | .main => s.main.holdsClients
  | .accept => s.accept.holdsClients
  | .reader _ => false

def MainHolds (s : Host) : Prop :=
  s.messagesLock.owner = some .main ↔ s.main.holdsMessages = true

theorem MainHolds.move {pc pc' : MainPc} (h : MainHolds s)
    (lock : t.messagesLock = s.messagesLock) (hs : s.main = pc) (ht : t.main = pc')
    (hpc : pc'.holdsMessages = pc.holdsMessages) : MainHolds t := by
  unfold MainHolds at h ⊢
  rw [lock, h, hs, ht, hpc]

theorem mainHolds_mainStep {a : MainAct} (h : MainHolds s) (hstep : MainStep s a t) :
    MainHolds t := by
  cases hstep with
  | lockMessages pc free => exact iff_of_true rfl rfl
  | unlockMessages pc => exact iff_of_false nofun Bool.false_ne_true
  | returns site pc => exact h.move rfl pc rfl (by cases site <;> rfl)
  | quit site pc => exact h.move rfl rfl rfl rfl
  | startup pc | pause site pc | pauseReturns site pc | respond site callId message m pc text
  | send site m pc | lockClients site c m l pc lock | found site c m p pc client
  | notFound site c m e pc client | unlockClients site c m p pc | passed site c m p pc completed
  | refused site c m p pc incomplete | push site c m p pc | onlyMessages pc only
  | enterPump pc all | task pc | noTask pc | noMessage pc empty | someMessage pc nonempty
  | popMessage m rest pc popped | sleep pc => exact h.move rfl pc rfl rfl

theorem mainHolds_step (hq : QueueInv s) (h : MainHolds s) (hstep : step soy s a = some t) :
    MainHolds t := by
  cases step_cases hstep with
  | main a t step => exact mainHolds_mainStep h step
  | lock p c m pc free =>
    have hout : ¬ s.main.holdsMessages = true := fun hm =>
      Option.some_ne_none _ ((h.mpr hm).symm.trans free)
    exact iff_of_false nofun hout
  | unlock p pc =>
    have howner := hq.owner_of_locked pc (Option.some_ne_none _)
    have hout : ¬ s.main.holdsMessages = true := fun hm =>
      nomatch (h.mpr hm).symm.trans howner
    exact iff_of_false nofun hout
  | _ => exact h.move rfl rfl rfl rfl

theorem insideClients_of_ne_main (accept : t.accept = s.accept) (u : Thread) (hu : u ≠ .main) :
    t.insideClients u = s.insideClients u := by
  cases u with
  | main => exact absurd rfl hu
  | accept => exact congrArg AcceptPc.holdsClients accept
  | reader p => rfl

theorem insideClients_of_ne_accept (main : t.main = s.main) (u : Thread) (hu : u ≠ .accept) :
    t.insideClients u = s.insideClients u := by
  cases u with
  | main => exact congrArg MainPc.holdsClients main
  | accept => exact absurd rfl hu
  | reader p => rfl

def ClientsGuarded (s : Host) : Prop := s.mClientsLock.Guards s.insideClients

theorem ClientsGuarded.move (h : ClientsGuarded s) (lock : t.mClientsLock = s.mClientsLock)
    (main : t.insideClients .main = s.insideClients .main)
    (accept : t.insideClients .accept = s.insideClients .accept) : ClientsGuarded t := by
  have hsame : t.insideClients = s.insideClients := by
    funext u
    cases u with
    | main => exact main
    | accept => exact accept
    | reader p => rfl
  unfold ClientsGuarded at h ⊢
  rw [lock, hsame]
  exact h

theorem clientsGuarded_mainStep {a : MainAct} (h : ClientsGuarded s) (hstep : MainStep s a t) :
    ClientsGuarded t := by
  have hmain : ∀ pc, s.main = pc → s.insideClients .main = pc.holdsClients :=
    fun _ pc => congrArg MainPc.holdsClients pc
  cases hstep with
  | lockClients site c m l pc lock =>
    exact h.lock (hmain _ pc) lock rfl (insideClients_of_ne_main rfl)
  | notFound site c m e pc client =>
    exact h.unlock (hmain _ pc) rfl (insideClients_of_ne_main rfl)
  | unlockClients site c m p pc =>
    exact h.unlock (hmain _ pc) rfl (insideClients_of_ne_main rfl)
  | returns site pc =>
    refine h.move rfl ?_ rfl
    rw [hmain _ pc]
    cases site <;> rfl
  | quit site pc => exact h.move rfl rfl rfl
  | startup pc | pause site pc | pauseReturns site pc | respond site callId message m pc text
  | send site m pc | found site c m p pc client | passed site c m p pc completed
  | refused site c m p pc incomplete | push site c m p pc | onlyMessages pc only
  | enterPump pc all | task pc | noTask pc | lockMessages pc free | noMessage pc empty
  | someMessage pc nonempty | popMessage m rest pc popped | unlockMessages pc
  | sleep pc => exact h.move rfl (hmain _ pc).symm rfl

theorem clientsGuarded_step (h : ClientsGuarded s) (hstep : step soy s a = some t) :
    ClientsGuarded t := by
  have haccept : ∀ pc, s.accept = pc → s.insideClients .accept = pc.holdsClients :=
    fun _ pc => congrArg AcceptPc.holdsClients pc
  cases step_cases hstep with
  | main a t step => exact clientsGuarded_mainStep h step
  | connect c pc => exact h.move rfl rfl (haccept _ pc).symm
  | construct c pc => exact h.move rfl rfl (haccept _ pc).symm
  | lockClients p l pc lock =>
    exact h.lock (haccept _ pc) lock rfl (insideClients_of_ne_accept rfl)
  | pushClient p pc => exact h.move rfl rfl (haccept _ pc).symm
  | unlockClients pc => exact h.unlock (haccept _ pc) rfl (insideClients_of_ne_accept rfl)
  | _ => exact h.move rfl rfl rfl

/-! ## The order -/

def NoReentry (s : Host) : Prop :=
  ∀ p c m, s.handlers p = .lock c m → s.messagesLock.owner ≠ some (.reader p)

structure LockInv (soy : MessageBufferLib) (s : Host) : Prop where
  queue : QueueInv s
  peers : PeersReached soy (fun _ _ => True) s
  main : MainHolds s
  clients : ClientsGuarded s
  noReentry : NoReentry s

theorem LockInv.locksInside (h : LockInv soy s) (hp : p < s.mWebsocketServer.next) :
    LocksInside (s.peer p) := by
  obtain ⟨c, x, hx, hview⟩ := h.peers.reached p hp
  have hlock := hx.invariant (fun _ _ _ _ hs => locksInside_step hs) (locksInside_init c)
  exact hview.peer ▸ hlock

theorem LockInv.once (h : LockInv soy s) (u : Thread) (hrequests : s.Requests u .messages) :
    ¬ s.Holds u .messages := by
  intro hholds
  cases u with
  | main =>
    have hin : s.main.holdsMessages = true := h.main.mp hholds
    rw [show s.main = .lockMessages from hrequests] at hin
    exact Bool.false_ne_true hin
  | accept => cases hrequests
  | reader p =>
    obtain ⟨c, m, pc⟩ := hrequests
    exact h.noReentry p c m pc hholds

theorem LockInv.clients_last (h : LockInv soy s) {u : Thread} {l : Lock}
    (hholds : s.Holds u .clients) : ¬ s.Requests u l := by
  obtain ⟨n, hheld⟩ := hholds
  have hin : s.insideClients u = true := ((h.clients u n).mp hheld).1
  intro hrequests
  cases u with
  | main =>
    cases l with
    | messages =>
      rw [Host.insideClients, show s.main = .lockMessages from hrequests] at hin
      exact Bool.false_ne_true hin
    | clients =>
      obtain ⟨site, c, m, pc⟩ := hrequests
      rw [Host.insideClients, pc] at hin
      exact Bool.false_ne_true hin
    | currentMessage p => cases hrequests
  | accept =>
    cases l with
    | messages => cases hrequests
    | clients =>
      obtain ⟨p, pc⟩ := hrequests
      rw [Host.insideClients, pc] at hin
      exact Bool.false_ne_true hin
    | currentMessage p => cases hrequests
  | reader p => cases hin

theorem LockInv.reader_of_requests (h : LockInv soy s) {l : Lock}
    (hrequests : s.Requests (.reader p) l) :
    p < s.mWebsocketServer.next ∧ (s.peer p).reader.locksCurrent = false := by
  cases l with
  | messages =>
    obtain ⟨c, m, pc⟩ := hrequests
    obtain ⟨hp, k, b, hreader⟩ := h.queue.inside p (by rw [pc]; nofun)
    exact ⟨hp, by rw [hreader]; rfl⟩
  | clients => cases hrequests
  | currentMessage q =>
    obtain ⟨-, hp, hreader | ⟨k, b, hreader⟩⟩ := hrequests
    · exact ⟨hp, by rw [hreader]; rfl⟩
    · exact ⟨hp, by rw [hreader]; rfl⟩

theorem LockInv.currentMessage_last (h : LockInv soy s) {u : Thread} {l : Lock}
    (hholds : s.Holds u (.currentMessage p)) : ¬ s.Requests u l := by
  obtain ⟨rfl, n, hheld⟩ := hholds
  intro hrequests
  obtain ⟨hp, hout⟩ := h.reader_of_requests hrequests
  have hfree := h.locksInside hp
  rw [LocksInside, hout, hheld] at hfree
  cases hfree

theorem LockInv.rank_lt (h : LockInv soy s) (u : Thread) (l l' : Lock)
    (hrequests : s.Requests u l) (hholds : s.Holds u l') : l'.rank < l.rank := by
  cases l' with
  | messages =>
    cases l with
    | messages => exact absurd hholds (h.once u hrequests)
    | clients => exact Nat.zero_lt_one
    | currentMessage p => exact Nat.zero_lt_one
  | clients => exact absurd hrequests (h.clients_last hholds)
  | currentMessage p => exact absurd hrequests (h.currentMessage_last hholds)

theorem LockInv.deadlockFree (h : LockInv soy s) : s.DeadlockFree where
  acyclic := not_waits_of_rank Lock.rank h.rank_lt
  once := h.once

/-! ## One step -/

/-- A read thread in which `PushBack` has thrown calls `OnMessage` again. -/
def CallsAfterThrow (soy : MessageBufferLib) (acts : List Act) : Prop :=
  ∃ pre p post s c m, acts = pre ++ .handler p :: post ∧ run (step soy) {} pre = some s ∧
    s.handlers p = .record c m ∧ .pushBackThrows p ∈ pre

def EntersUnlocked (s : Host) (a : Act) : Prop :=
  ∀ p c m, a = .handler p → s.handlers p = .record c m → s.messagesLock.owner ≠ some (.reader p)

theorem noReentry_step (hq : QueueInv s) (h : NoReentry s) (hok : EntersUnlocked s a)
    (hstep : step soy s a = some t) : NoReentry t := by
  intro p c m hp howner
  rcases owner_reader_cases hq hstep howner with ⟨howner', -⟩ | ⟨c', m', hp'⟩
  · rcases (step_cases hstep).handlerMove p with hsame | hmove
    · exact h p c m (hsame ▸ hp) howner'
    · rw [hp] at hmove
      cases hmove with
      | record _ _ pc => exact hok p c m rfl pc howner'
  · exact nomatch hp'.symm.trans hp

theorem lockInv_init (soy : MessageBufferLib) : LockInv soy {} where
  queue := queueInv_init
  peers := ⟨serverInv_init, targetInv_init, fun _ hp => absurd hp (Nat.not_lt_zero _)⟩
  main := iff_of_false nofun Bool.false_ne_true
  clients := RecursiveMutex.guards_of_free rfl fun u => by cases u <;> rfl
  noReentry _ _ _ hp := nomatch hp

theorem lockInv_step (h : LockInv soy s) (hok : EntersUnlocked s a)
    (hstep : step soy s a = some t) : LockInv soy t where
  queue := queueInv_step h.queue hstep
  peers := peersReached_step lifts_true trivial h.peers hstep
  main := mainHolds_step h.queue h.main hstep
  clients := clientsGuarded_step h.clients hstep
  noReentry := noReentry_step h.queue h.noReentry hok hstep

theorem not_deadlockFree_of_reentry (hok : ¬ EntersUnlocked s a)
    (hstep : step soy s a = some t) : ¬ t.DeadlockFree := by
  unfold EntersUnlocked at hok
  push Not at hok
  obtain ⟨p, c, m, rfl, pc, howner⟩ := hok
  simp only [step, handlerStep, pc] at hstep
  obtain rfl := Option.some.inj hstep
  intro h
  exact h.once (.reader p) ⟨c, m, Function.update_self ..⟩ howner

theorem not_callsAfterThrow_iff (acts : List Act) :
    AllSteps (step soy) EntersUnlocked {} acts ↔ ¬ CallsAfterThrow soy acts := by
  rw [allSteps_iff]
  constructor
  · rintro h ⟨pre, p, post, s, c, m, rfl, hr, pc, hthrew⟩
    have hstuck : Stuck p s := (stuck_iff hr).mpr hthrew
    have hsome : (step soy s (.handler p)).isSome = true := by
      simp only [step, handlerStep, pc, Option.isSome_some]
    obtain ⟨t, hstep⟩ := Option.isSome_iff_exists.mp hsome
    exact h pre _ post s t rfl hr hstep p c m rfl pc hstuck.owner
  · rintro h pre a post s t rfl hr hstep p c m rfl pc howner
    have hstuck : Stuck p s := ⟨howner, by rw [pc]; rfl⟩
    exact h ⟨pre, p, post, s, c, m, rfl, hr, pc, (stuck_iff hr).mp hstuck⟩

/-- The exact condition, over any number of peers and every schedule. -/
theorem deadlockFree_iff (acts : List Act) :
    AllStates (step soy) Host.DeadlockFree {} acts ↔ ¬ CallsAfterThrow soy acts := by
  rw [← not_callsAfterThrow_iff]
  exact allStates_iff_allSteps (fun _ h => LockInv.deadlockFree h)
    (fun _ _ _ h hok hstep => lockInv_step h hok hstep)
    (fun _ _ _ _ hok hstep => not_deadlockFree_of_reentry hok hstep) (lockInv_init soy) acts

end Host

def firstClientSendsAgain : List Act := [.reader 0 .next] ++ textArrives 0 [8] ++ [.handler 0]

theorem reentry_after_failure : ∃ s,
    run (step firstOpcodeBuffer) {} (exceptionLeaves ++ firstClientSendsAgain) = some s ∧
      ¬ s.DeadlockFree := by
  have hrun : (run (step firstOpcodeBuffer) {} (exceptionLeaves ++ firstClientSendsAgain)).map
      (fun s => (s.handlers 0, s.messagesLock.owner)) =
      some (.lock 1 [7, 8], some (.reader 0)) := by
    decide +kernel
  obtain ⟨s, hs, hfacts⟩ := Option.map_eq_some_iff.mp hrun
  obtain ⟨hwaits, howner⟩ := Prod.mk.inj hfacts
  exact ⟨s, hs, fun h => h.once (.reader 0) ⟨_, _, hwaits⟩ howner⟩

end V8Min
