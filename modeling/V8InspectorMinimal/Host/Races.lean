import V8InspectorMinimal.Host.Locking
import V8InspectorMinimal.Host.Orderly

/-! Which of the variables that threads share can be accessed by two of them at once. Locks guard
the queue, the clients and the current message. The handshake has none, and needs none while clients
wait for it; only `mWebsocketClient` is left open. -/

namespace V8Min
open Locks Runs Socket

inductive Shared where
  | messages
  | runOnlyMessagesInLoop
  | mWebsocketClient
  | mClients
  | mHandshake (p : PeerId)
  | mCurrentMessage (p : PeerId)
  deriving DecidableEq, Repr

def Shared.lock : Shared → Option Lock
  | messages => some .messages
  | mClients => some .clients
  | mCurrentMessage p => some (.currentMessage p)
  | _ => none

/-! ## What the next statement of a thread accesses -/

def MainPc.access : MainPc → List (Shared × Access)
  | .testOnlyMessages => [(.runOnlyMessagesInLoop, .read)]
  | .inV8 _ (.sendResponse _) => [(.mWebsocketClient, .read)]
  | .inV8 _ (.getClient _ _) => [(.mClients, .read)]
  -- `IsCompleted` reads the handshake, and so does the packet made of the message
  | .inV8 _ (.isCompleted _ _ p) | .inV8 _ (.push _ _ p) => [(.mHandshake p, .read)]
  | .testMessages => [(.messages, .read)]
  | .popMessage => [(.messages, .write)]
  | _ => []

def AcceptPc.access : AcceptPc → List (Shared × Access)
  | .pushBack _ => [(.mClients, .write)]
  | _ => []

def HandlerPc.access : HandlerPc → List (Shared × Access)
  | .record _ _ => [(.mWebsocketClient, .write)]
  | .pushBack _ _ => [(.messages, .write)]
  | _ => []

def readerAccess (p : PeerId) : ReaderPc → List (Shared × Access)
  | .allocProtocol => [(.mCurrentMessage p, .write), (.mHandshake p, .read)]
  | .reset _ _ => [(.mCurrentMessage p, .write)]
  | .onDataRecieved ⟨some _, _⟩ => [(.mHandshake p, .read)]
  | .setHasSent _ => [(.mHandshake p, .write)]
  | _ => []

def Host.access (s : Host) : Act → List (Shared × Access)
  | .main .next => s.main.access
  | .main .runMessageLoopOnPause | .main .quitMessageLoopOnPause =>
    [(.runOnlyMessagesInLoop, .write)]
  | .main _ => []
  | .reader p _ => readerAccess p (s.peer p).reader
  | .handler p | .pushBackThrows p => (s.handlers p).access
  | .accept => s.accept.access
  | .connect _ | .disconnect _ => []

/-- Connections open and close on the accept thread. -/
def Act.thread : Act → Thread
  | .main _ => .main
  | .reader p _ | .handler p | .pushBackThrows p => .reader p
  | .connect _ | .accept | .disconnect _ => .accept

def Host.Race (soy : MessageBufferLib) (s : Host) (v : Shared) : Prop :=
  Locks.Race Act.thread s.access (fun a => (step soy s a).isSome = true) v

/-- Every access, with where its thread is. -/
inductive Accesses (s : Host) : Act → Shared → Access → Prop where
  | only (a : MainAct) (x : Access) : Accesses s (.main a) .runOnlyMessagesInLoop x
  | client (site : Site) (m : StdString) (pc : s.main = .inV8 site (.sendResponse m)) :
      Accesses s (.main .next) .mWebsocketClient .read
  | getClient (site : Site) (c : SoyRef) (m : StdString)
      (pc : s.main = .inV8 site (.getClient c m)) : Accesses s (.main .next) .mClients .read
  | handshake (c : SoyRef) (p : PeerId) (target : s.main.target = some (c, p)) :
      Accesses s (.main .next) (.mHandshake p) .read
  | drain (x : Access) (pc : s.main.draining = true) : Accesses s (.main .next) .messages x
  | insert (p : PeerId) (pc : s.accept = .pushBack p) : Accesses s .accept .mClients .write
  | current (p : PeerId) (a : ReaderAct) (x : Access)
      (pc : (s.peer p).reader.locksCurrent = true) :
      Accesses s (.reader p a) (.mCurrentMessage p) x
  | own (p : PeerId) (a : ReaderAct) : Accesses s (.reader p a) (.mHandshake p) .read
  | setReply (p : PeerId) (a : ReaderAct) (r : StdString) (pc : (s.peer p).reader = .setHasSent r) :
      Accesses s (.reader p a) (.mHandshake p) .write
  | record (p : PeerId) (a : Act) (thread : a.thread = .reader p) :
      Accesses s a .mWebsocketClient .write
  | push (p : PeerId) (a : Act) (thread : a.thread = .reader p) (c : SoyRef) (m : StdString)
      (pc : s.handlers p = .pushBack c m) : Accesses s a .messages .write

section Access
variable {soy : MessageBufferLib} {s t : Host} {a : Act} {v : Shared} {x : Access} {l : Lock}

theorem main_accesses (h : (v, x) ∈ s.main.access) : Accesses s (.main .next) v x := by
  unfold MainPc.access at h
  split at h
  case h_1 pc =>
    cases List.mem_singleton.mp h
    exact .only _ _
  case h_2 site m pc =>
    cases List.mem_singleton.mp h
    exact .client site m pc
  case h_3 site c m pc =>
    cases List.mem_singleton.mp h
    exact .getClient site c m pc
  case h_4 site c m p pc =>
    cases List.mem_singleton.mp h
    exact .handshake c p (by rw [pc]; rfl)
  case h_5 site c m p pc =>
    cases List.mem_singleton.mp h
    exact .handshake c p (by rw [pc]; rfl)
  case h_6 pc =>
    cases List.mem_singleton.mp h
    exact .drain _ (by rw [pc]; rfl)
  case h_7 pc =>
    cases List.mem_singleton.mp h
    exact .drain _ (by rw [pc]; rfl)
  case h_8 => cases h

theorem handler_accesses {p : PeerId} (h : (v, x) ∈ (s.handlers p).access)
    (thread : a.thread = .reader p) : Accesses s a v x := by
  unfold HandlerPc.access at h
  split at h
  case h_1 =>
    cases List.mem_singleton.mp h
    exact .record p a thread
  case h_2 c m pc =>
    cases List.mem_singleton.mp h
    exact .push p a thread c m pc
  case h_3 => cases h

theorem reader_accesses {p : PeerId} (b : ReaderAct)
    (h : (v, x) ∈ readerAccess p (s.peer p).reader) : Accesses s (.reader p b) v x := by
  unfold readerAccess at h
  split at h
  case h_1 pc =>
    rcases List.mem_pair.mp h with heq | heq
    · cases heq
      exact .current p b _ (by rw [pc]; rfl)
    · cases heq
      exact .own p b
  case h_2 pc =>
    cases List.mem_singleton.mp h
    exact .current p b _ (by rw [pc]; rfl)
  case h_3 =>
    cases List.mem_singleton.mp h
    exact .own p b
  case h_4 r pc =>
    cases List.mem_singleton.mp h
    exact .setReply p b r pc
  case h_5 => cases h

theorem accept_accesses (h : (v, x) ∈ s.accept.access) : Accesses s .accept v x := by
  unfold AcceptPc.access at h
  split at h
  case h_1 p pc =>
    cases List.mem_singleton.mp h
    exact .insert p pc
  case h_2 => cases h

theorem access_cases (h : (v, x) ∈ s.access a) : Accesses s a v x := by
  cases a with
  | main b =>
    cases b with
    | next => exact main_accesses h
    | runMessageLoopOnPause =>
      cases List.mem_singleton.mp h
      exact .only _ _
    | quitMessageLoopOnPause =>
      cases List.mem_singleton.mp h
      exact .only _ _
    | _ => cases h
  | reader p b => exact reader_accesses b h
  | handler p => exact handler_accesses h rfl
  | pushBackThrows p => exact handler_accesses h rfl
  | accept => exact accept_accesses h
  | connect c => cases h
  | disconnect p => cases h

/-! ## The variables with a lock -/

structure GuardInv (soy : MessageBufferLib) (s : Host) : Prop where
  queue : QueueInv s
  clients : ClientsGuarded s
  peers : PeersReached soy (fun _ _ => True) s

theorem guardInv_init (soy : MessageBufferLib) : GuardInv soy {} where
  queue := (lockInv_init soy).queue
  clients := (lockInv_init soy).clients
  peers := (lockInv_init soy).peers

theorem guardInv_step (h : GuardInv soy s) (hstep : step soy s a = some t) : GuardInv soy t where
  queue := queueInv_step h.queue hstep
  clients := clientsGuarded_step h.clients hstep
  peers := peersReached_step lifts_true trivial h.peers hstep

theorem Host.holds_unique (u w : Thread) (hu : s.Holds u l) (hw : s.Holds w l) : u = w := by
  cases l with
  | messages => exact Option.some.inj (hu.symm.trans hw)
  | clients =>
    obtain ⟨n, hn⟩ := hu
    obtain ⟨k, hk⟩ := hw
    exact congrArg Prod.fst (Option.some.inj (hn.symm.trans hk))
  | currentMessage p => exact hu.1.trans hw.1.symm

theorem GuardInv.holds_current (h : GuardInv soy s) {p : PeerId}
    (hp : p < s.mWebsocketServer.next) (hin : (s.peer p).reader.locksCurrent = true) :
    s.Holds (.reader p) (.currentMessage p) := by
  obtain ⟨c, y, hy, hview⟩ := h.peers.reached p hp
  have hinside : LocksInside (s.peer p) :=
    hview.peer ▸ hy.invariant (fun _ _ _ _ hs => locksInside_step hs) (locksInside_init c)
  rw [LocksInside, hin] at hinside
  exact ⟨rfl, 0, hinside⟩

theorem lt_next_of_reader {p : PeerId} {b : ReaderAct}
    (h : (step soy s (.reader p b)).isSome = true) : p < s.mWebsocketServer.next := by
  by_contra hp
  rw [step, readerThreadStep, if_neg hp] at h
  cases h

theorem GuardInv.holds_of_access (h : GuardInv soy s) (henabled : (step soy s a).isSome = true)
    (hx : (v, x) ∈ s.access a) (hl : v.lock = some l) : s.Holds a.thread l := by
  cases access_cases hx with
  | getClient site c m pc =>
    cases hl
    have hin : s.insideClients .main = true := by rw [Host.insideClients, pc]; rfl
    exact ⟨0, h.clients.held hin⟩
  | insert p pc =>
    cases hl
    have hin : s.insideClients .accept = true := by rw [Host.insideClients, pc]; rfl
    exact ⟨0, h.clients.held hin⟩
  | drain _ pc =>
    cases hl
    exact h.queue.mainOwns pc
  | push p _ thread c m pc =>
    cases hl
    rw [thread]
    exact h.queue.owner_of_locked pc (Option.some_ne_none _)
  | current p b _ pc =>
    cases hl
    exact h.holds_current (lt_next_of_reader henabled) pc
  | _ => cases hl

theorem not_race_of_lock (h : GuardInv soy s) (hl : v.lock = some l) : ¬ s.Race soy v :=
  not_race_of_holds Host.holds_unique fun _ _ henabled hx => h.holds_of_access henabled hx hl

/-! ## The variables without -/

theorem not_race_runOnlyMessagesInLoop : ¬ s.Race soy .runOnlyMessagesInLoop := by
  rintro ⟨a, b, x, y, hne, -, -, hx, hy, -⟩
  cases access_cases hx with
  | only a' _ =>
    cases access_cases hy with
    | only b' _ => exact hne rfl

theorem not_race_mHandshake (h : OrderlyInv s) (p : PeerId) : ¬ s.Race soy (.mHandshake p) := by
  intro hrace
  obtain ⟨a, b, y, hne, -, -, hx, hy⟩ := hrace.exists_write
  cases access_cases hx with
  | setReply _ a' r hreader =>
    cases access_cases hy with
    | handshake c _ target =>
      -- the main thread has found a peer that is settled, and this one is about to be
      exact ((h.settled_of_target target).outside r).1 hreader
    | own _ b' => exact hne rfl
    | setReply _ b' r' _ => exact hne rfl

end Access

/-! ## The race that is left -/

def twoSpeak : List Act :=
  -- a second client speaks just when V8 answers the first
  clientConnects 1 ++ handshakes 0 ++ clientConnects 2 ++ handshakes 1 ++ textArrives 0 [7] ++
    onTextMessage 0 ++ mainDrains ++
    [.main .next, .main .next, .main (.sendResponse 0 (.of8 [9]))] ++ textArrives 1 [8]

theorem race_mWebsocketClient : ∃ s, Reaches (step firstOpcodeBuffer) Orderly {} s ∧
    s.Race firstOpcodeBuffer .mWebsocketClient := by
  have hrun : (run (guarded (step firstOpcodeBuffer) Orderly) {} twoSpeak).map
      (fun s => (s.main, s.handlers 1)) =
      some (.inV8 .dispatch (.sendResponse [9]), .record 2 [8]) := by
    decide +kernel
  obtain ⟨s, hs, heq⟩ := Option.map_eq_some_iff.mp hrun
  obtain ⟨hmain, hhandler⟩ := Prod.mk.inj heq
  refine ⟨s, reaches_of_run_guarded hs, .main .next, .handler 1, .read, .write, nofun, ?_, ?_, ?_,
    ?_, Or.inr rfl⟩
  · simp only [step, mainStep, hmain, Option.isSome_some]
  · simp only [step, handlerStep, hhandler, Option.isSome_some]
  · rw [Host.access, hmain]
    exact List.mem_singleton_self _
  · rw [Host.access, hhandler]
    exact List.mem_singleton_self _

/-- Over every orderly run, `mWebsocketClient` is the one variable that two threads may get to at
once. -/
theorem race_iff (v : Shared) :
    (∃ soy s, Reaches (step soy) Orderly {} s ∧ s.Race soy v) ↔ v = .mWebsocketClient := by
  constructor
  · rintro ⟨soy, s, hs, hrace⟩
    have hinv := orderlyInv_of_reaches hs
    have hguard : GuardInv soy s :=
      hs.invariant (fun _ _ _ _ h ht => guardInv_step h ht) (guardInv_init soy)
    cases v with
    | mWebsocketClient => rfl
    | runOnlyMessagesInLoop => exact absurd hrace not_race_runOnlyMessagesInLoop
    | mHandshake p => exact absurd hrace (not_race_mHandshake hinv p)
    | messages => exact absurd hrace (not_race_of_lock hguard rfl)
    | mClients => exact absurd hrace (not_race_of_lock hguard rfl)
    | mCurrentMessage p => exact absurd hrace (not_race_of_lock hguard rfl)
  · rintro rfl
    obtain ⟨s, hs, hrace⟩ := race_mWebsocketClient
    exact ⟨_, s, hs, hrace⟩

end V8Min
