import Mathlib.Data.List.Basic
import V8InspectorMinimal.Base.Runs
import V8InspectorMinimal.Socket.Peer

/-! `TWebsocketServer` of TApiWebsocket.cpp: the list of clients that its socket's callbacks keep,
and what it answers about them. Peers are never moved or freed, so a pointer to one is the number
under which it was made. -/

namespace V8Min.Socket
open Runs

abbrev PeerId := ℕ

structure Server where
  mClients : List PeerId := []
  -- every peer made so far, in the list or not
  peers : PeerId → Peer := fun _ => {}
  next : PeerId := 0

namespace Server

/-- The first entry of `mClients` with this reference. -/
def getClient (s : Server) (clientRef : SoyRef) : Except AssertException PeerId :=
  match s.mClients.find? fun p => (s.peers p).mConnectionRef = clientRef with
  | some p => .ok p
  | none => .error .clientNotFound

def setPeer (s : Server) (p : PeerId) (peer : Peer) : Server :=
  { s with peers := Function.update s.peers p peer }

def newPeer (s : Server) (clientRef : SoyRef) : Server :=
  { s.setPeer s.next { mConnectionRef := clientRef } with next := s.next + 1 }

def pushClient (s : Server) (p : PeerId) : Server := { s with mClients := s.mClients ++ [p] }

def addClient (s : Server) (clientRef : SoyRef) : Server :=
  (s.newPeer clientRef).pushClient s.next

def removeClient (s : Server) (_clientRef : SoyRef) : Server := s

/-- The entries of `mClients` are never null, so that `Send` never gets to its own error. -/
def send (s : Server) (clientRef : SoyRef) (message : StdString) :
    Server × Except AssertException Unit :=
  match s.getClient clientRef with
  | .error e => (s, .error e)
  | .ok p => (s.setPeer p ((s.peers p).send message).1, ((s.peers p).send message).2)

def sendBinary (s : Server) (clientRef : SoyRef) (message : List UInt8) :
    Server × Except AssertException Unit :=
  match s.getClient clientRef with
  | .error e => (s, .error e)
  | .ok p => (s.setPeer p ((s.peers p).sendBinary message).1, ((s.peers p).sendBinary message).2)

def clientsOf (s : Server) (clientRef : SoyRef) : List PeerId :=
  s.mClients.filter fun p => (s.peers p).mConnectionRef = clientRef

variable {s : Server} {p : PeerId} {ref : SoyRef}

theorem find?_mClients (s : Server) (ref : SoyRef) :
    (s.mClients.find? fun p => (s.peers p).mConnectionRef = ref) = (s.clientsOf ref).head? :=
  List.head?_filter.symm

theorem getClient_eq_ok : s.getClient ref = .ok p ↔ (s.clientsOf ref).head? = some p := by
  rw [getClient, find?_mClients]
  cases (s.clientsOf ref).head? <;> simp

theorem getClient_eq_error {e : AssertException} :
    s.getClient ref = .error e ↔ s.clientsOf ref = [] ∧ e = .clientNotFound := by
  rw [getClient, find?_mClients]
  cases s.clientsOf ref <;> simp [eq_comm]

theorem mem_clientsOf : p ∈ s.clientsOf ref ↔
    p ∈ s.mClients ∧ (s.peers p).mConnectionRef = ref := by
  rw [clientsOf, List.mem_filter, decide_eq_true_eq]

theorem getClient_spec (h : s.getClient ref = .ok p) :
    p ∈ s.mClients ∧ (s.peers p).mConnectionRef = ref :=
  mem_clientsOf.mp (List.mem_of_head? (getClient_eq_ok.mp h))

theorem exists_getClient (hp : p ∈ s.mClients) (href : (s.peers p).mConnectionRef = ref) :
    ∃ q, s.getClient ref = .ok q := by
  cases h : s.getClient ref with
  | ok q => exact ⟨q, rfl⟩
  | error e =>
    have hmem := mem_clientsOf.mpr ⟨hp, href⟩
    rw [(getClient_eq_error.mp h).1] at hmem
    cases hmem

theorem getClient_of_append {t : Server} {more : List PeerId} (h : s.getClient ref = .ok p)
    (hclients : t.mClients = s.mClients ++ more)
    (href : ∀ q ∈ s.mClients, (t.peers q).mConnectionRef = (s.peers q).mConnectionRef) :
    t.getClient ref = .ok p := by
  have hold : s.mClients.filter (fun q => (t.peers q).mConnectionRef = ref) = s.clientsOf ref :=
    List.filter_congr fun q hq => by rw [href q hq]
  rw [getClient_eq_ok, clientsOf, hclients, List.filter_append, hold, List.head?_append,
    getClient_eq_ok.mp h, Option.some_or]

theorem send_of_getClient_error {e : AssertException} (h : s.getClient ref = .error e)
    (m : StdString) : s.send ref m = (s, .error e) := by
  rw [send, h]

theorem sendBinary_of_getClient_error {e : AssertException} (h : s.getClient ref = .error e)
    (m : List UInt8) : s.sendBinary ref m = (s, .error e) := by
  rw [sendBinary, h]

theorem addClient_mClients (s : Server) (ref : SoyRef) :
    (s.addClient ref).mClients = s.mClients ++ [s.next] := rfl

theorem newPeer_peers_next (s : Server) (ref : SoyRef) :
    (s.newPeer ref).peers s.next = { mConnectionRef := ref } := Function.update_self ..

theorem newPeer_peers_of_ne (h : p ≠ s.next) : (s.newPeer ref).peers p = s.peers p :=
  Function.update_of_ne h ..

theorem addClient_peers (s : Server) (ref : SoyRef) :
    (s.addClient ref).peers = (s.newPeer ref).peers := rfl

theorem clientsOf_addClient (h : ∀ p ∈ s.mClients, p < s.next) (ref ref' : SoyRef) :
    (s.addClient ref).clientsOf ref' =
      s.clientsOf ref' ++ if ref = ref' then [s.next] else [] := by
  have hold : s.mClients.filter (fun p => ((s.addClient ref).peers p).mConnectionRef = ref') =
      s.clientsOf ref' :=
    List.filter_congr fun p hp => by
      rw [addClient_peers, newPeer_peers_of_ne (Nat.ne_of_lt (h p hp))]
  rw [clientsOf, addClient_mClients, List.filter_append, hold, List.filter_singleton,
    addClient_peers, newPeer_peers_next]
  simp only [Bool.cond_decide]

theorem lt_of_mem_addClient (h : ∀ p ∈ s.mClients, p < s.next)
    (hp : p ∈ (s.addClient ref).mClients) : p < (s.addClient ref).next := by
  rw [addClient_mClients] at hp
  rcases List.mem_append.mp hp with hp | hp
  · exact Nat.lt_succ_of_lt (h p hp)
  · rw [List.mem_singleton.mp hp]
    exact Nat.lt_succ_self s.next

end Server

/-! ## The callbacks of the socket -/

inductive Callback where
  | connect (clientRef : SoyRef)
  | disconnect (clientRef : SoyRef)
  deriving DecidableEq, Repr

/-- `live` is what the socket knows: the connected references, each with the peer that its connect
callback made. -/
structure Registry where
  server : Server := {}
  live : SoyRef → Option PeerId := fun _ => none

def callbackStep (r : Registry) : Callback → Option Registry
  | .connect ref =>
    match r.live ref with
    | none => some ⟨r.server.addClient ref, Function.update r.live ref (some r.server.next)⟩
    | some _ => none
  | .disconnect ref =>
    match r.live ref with
    | some _ => some ⟨r.server.removeClient ref, Function.update r.live ref none⟩
    | none => none

inductive CallbackStep (r : Registry) : Callback → Registry → Prop where
  | connect (ref : SoyRef) (unconnected : r.live ref = none) :
      CallbackStep r (.connect ref)
        ⟨r.server.addClient ref, Function.update r.live ref (some r.server.next)⟩
  | disconnect (ref : SoyRef) (p : PeerId) (connected : r.live ref = some p) :
      CallbackStep r (.disconnect ref)
        ⟨r.server.removeClient ref, Function.update r.live ref none⟩

theorem callbackStep_cases {r r' : Registry} {a : Callback} (h : callbackStep r a = some r') :
    CallbackStep r a r' := by
  cases a with
  | connect ref =>
    simp only [callbackStep] at h
    split at h
    · rename_i unconnected
      exact Option.some.inj h ▸ .connect ref unconnected
    · cases h
  | disconnect ref =>
    simp only [callbackStep] at h
    split at h
    · rename_i p connected
      exact Option.some.inj h ▸ .disconnect ref p connected
    · cases h

structure Mirrors (r : Registry) : Prop where
  clients : ∀ ref, r.server.clientsOf ref = (r.live ref).toList
  found : ∀ ref p, r.live ref = some p → r.server.getClient ref = .ok p
  refused : ∀ ref, r.live ref = none → r.server.getClient ref = .error .clientNotFound ∧
    (∀ m, r.server.send ref m = (r.server, .error .clientNotFound)) ∧
    ∀ m, r.server.sendBinary ref m = (r.server, .error .clientNotFound)

def KeepsConnection (_ : Registry) (a : Callback) : Prop := ∀ ref, a ≠ .disconnect ref

structure MirrorsInv (r : Registry) : Prop where
  clients : ∀ ref, r.server.clientsOf ref = (r.live ref).toList
  clients_lt : ∀ p ∈ r.server.mClients, p < r.server.next

section Mirrors
variable {r r' : Registry} {a : Callback}

theorem MirrorsInv.mirrors (h : MirrorsInv r) : Mirrors r where
  clients := h.clients
  found ref p hp := by
    rw [Server.getClient_eq_ok, h.clients ref, hp]
    rfl
  refused ref hnone := by
    have herr : r.server.getClient ref = .error .clientNotFound := by
      rw [Server.getClient_eq_error, h.clients ref, hnone]
      exact ⟨rfl, rfl⟩
    exact ⟨herr, Server.send_of_getClient_error herr, Server.sendBinary_of_getClient_error herr⟩

theorem mirrorsInv_step (h : MirrorsInv r) (hok : KeepsConnection r a)
    (hstep : callbackStep r a = some r') : MirrorsInv r' := by
  cases callbackStep_cases hstep with
  | connect ref unconnected =>
    refine ⟨fun ref' => ?_, fun p hp => ?_⟩
    · show (r.server.addClient ref).clientsOf ref' = (Function.update r.live ref _ ref').toList
      rw [Server.clientsOf_addClient h.clients_lt, h.clients ref']
      by_cases href : ref = ref'
      · subst href
        rw [if_pos rfl, unconnected, Function.update_self]
        rfl
      · rw [if_neg href, List.append_nil, Function.update_of_ne (Ne.symm href)]
    · exact Server.lt_of_mem_addClient h.clients_lt hp
  | disconnect ref p connected => exact absurd rfl (hok ref)

theorem not_mirrors_of_disconnect (h : MirrorsInv r) (hbad : ¬ KeepsConnection r a)
    (hstep : callbackStep r a = some r') : ¬ Mirrors r' := by
  cases callbackStep_cases hstep with
  | connect ref unconnected => exact absurd (fun _ => Callback.noConfusion) hbad
  | disconnect ref p connected =>
    intro hm
    have hstale : (r.server.removeClient ref).clientsOf ref = [p] := by
      rw [Server.removeClient, h.clients ref, connected, Option.toList_some]
    have hnone : (Function.update r.live ref none ref).toList = [p] :=
      (hm.clients ref).symm.trans hstale
    rw [Function.update_self] at hnone
    exact List.cons_ne_nil _ _ hnone.symm

end Mirrors

/-- Over every history of connections, with any reuse of references: the clients mirror them after
each callback exactly as long as none is a disconnect. -/
theorem clients_mirror_iff (acts : List Callback) :
    AllStates callbackStep Mirrors {} acts ↔ AllSteps callbackStep KeepsConnection {} acts :=
  allStates_iff_allSteps (fun _ h => h.mirrors) (fun _ _ _ => mirrorsInv_step)
    (fun _ _ _ => not_mirrors_of_disconnect) ⟨fun _ => rfl, by simp⟩ acts

theorem clients_outlive_connection : ¬ ∀ acts r, run callbackStep {} acts = some r → Mirrors r := by
  intro h
  have hm := (h [.connect 1, .disconnect 1] _ rfl).clients 1
  exact List.cons_ne_nil _ _ hm

structure Finds (ref : SoyRef) (p : PeerId) (r : Registry) : Prop where
  clients_lt : ∀ q ∈ r.server.mClients, q < r.server.next
  found : r.server.getClient ref = .ok p

theorem finds_step {ref : SoyRef} {p : PeerId} {r r' : Registry} {a : Callback}
    (h : Finds ref p r) (hstep : callbackStep r a = some r') : Finds ref p r' := by
  cases callbackStep_cases hstep with
  | connect ref' unconnected =>
    refine ⟨fun q hq => Server.lt_of_mem_addClient h.clients_lt hq, ?_⟩
    refine Server.getClient_of_append h.found (r.server.addClient_mClients ref') fun q hq => ?_
    rw [Server.addClient_peers, Server.newPeer_peers_of_ne (Nat.ne_of_lt (h.clients_lt q hq))]
  | disconnect ref' q connected => exact ⟨h.clients_lt, h.found⟩

theorem finds_run {ref : SoyRef} {p : PeerId} {r r' : Registry} {acts : List Callback}
    (h : Finds ref p r) (hrun : run callbackStep r acts = some r') : Finds ref p r' :=
  invariant (fun _ _ _ => finds_step) h hrun

end V8Min.Socket
