import Mathlib.Data.List.Range
import V8InspectorMinimal.Host.Queue
import V8InspectorMinimal.Host.Sending

/-! The connections of the server over whole runs. `AddClient` puts the peer of every connection
into `mClients` once and nothing takes one out, so that a reference means the first connection that
ever had it, through every disconnect and reuse. -/

namespace V8Min
open Runs Socket

def connection : Act → Option SoyRef
  | .connect c => some c
  | _ => none

def FirstWith (refs : List SoyRef) (c : SoyRef) (p : PeerId) : Prop :=
  refs[p]? = some c ∧ ∀ q < p, refs[q]? ≠ some c

theorem FirstWith.unique {refs : List SoyRef} {c : SoyRef} {p q : PeerId}
    (hp : FirstWith refs c p) (hq : FirstWith refs c q) : p = q := by
  rcases Nat.lt_trichotomy p q with hlt | heq | hlt
  · exact absurd hp.1 (hq.2 p hlt)
  · exact heq
  · exact absurd hq.1 (hp.2 q hlt)

def AcceptPc.inHand : AcceptPc → List PeerId
  | .lockClients p | .pushBack p => [p]
  | _ => []

def AcceptPc.unmade : AcceptPc → List SoyRef
  | .construct c => [c]
  | _ => []

namespace Host

def refOf (s : Host) (p : PeerId) : SoyRef := (s.peer p).mConnectionRef

def connections (s : Host) : List SoyRef :=
  (List.range s.mWebsocketServer.next).map s.refOf ++ s.accept.unmade

end Host

section Step
variable {soy : MessageBufferLib} {s t : Host} {a : Act}

theorem connections_eq (refs : SameRefs s t)
    (next : t.mWebsocketServer.next = s.mWebsocketServer.next) {more : List SoyRef}
    (unmade : t.accept.unmade = s.accept.unmade ++ more) :
    t.connections = s.connections ++ more := by
  have hrefs : (List.range t.mWebsocketServer.next).map t.refOf =
      (List.range s.mWebsocketServer.next).map s.refOf := by
    rw [next]
    apply List.map_congr_left
    intro p hp
    exact refs.ref p (List.mem_range.mp hp)
  rw [Host.connections, Host.connections, hrefs, unmade, List.append_assoc]

theorem connections_construct {c : SoyRef} (pc : s.accept = .construct c)
    (refs : SameRefs s t) (server : t.mWebsocketServer = s.mWebsocketServer.newPeer c)
    (unmade : t.accept.unmade = []) : t.connections = s.connections := by
  have hnext : t.mWebsocketServer.next = s.mWebsocketServer.next + 1 := by
    rw [server]
    rfl
  have hnew : t.refOf s.mWebsocketServer.next = c := by
    rw [Host.refOf, Host.peer, server, Server.newPeer_peers_next]
  have hold : (List.range s.mWebsocketServer.next).map t.refOf =
      (List.range s.mWebsocketServer.next).map s.refOf := by
    apply List.map_congr_left
    intro p hp
    exact refs.ref p (List.mem_range.mp hp)
  rw [Host.connections, Host.connections, hnext, List.range_succ, List.map_append, hold,
    List.map_singleton, hnew, unmade, pc, List.append_nil]
  rfl

theorem connections_step (hstep : step soy s a = some t) :
    t.connections = s.connections ++ (connection a).toList := by
  have hs := step_cases hstep
  have refs := hs.sameRefs
  have hquiet : t.mWebsocketServer.next = s.mWebsocketServer.next →
      t.accept.unmade = s.accept.unmade → t.connections = s.connections ++ [] :=
    fun next unmade => connections_eq refs next (unmade.trans (List.append_nil _).symm)
  cases hs with
  | main a t step => exact hquiet (by cases step <;> rfl) (by rw [step.mainFrame.accept])
  | connect c pc =>
    refine connections_eq refs rfl ?_
    rw [pc]
    rfl
  | construct c pc =>
    rw [connections_construct pc refs rfl rfl]
    exact (List.append_nil _).symm
  | lockClients p l pc lock => exact hquiet rfl (by rw [pc]; rfl)
  | pushClient p pc => exact hquiet rfl (by rw [pc]; rfl)
  | unlockClients pc => exact hquiet rfl (by rw [pc]; rfl)
  | _ => exact hquiet rfl rfl

def Inserted (s : Host) : Prop :=
  s.mWebsocketServer.mClients ++ s.accept.inHand = List.range s.mWebsocketServer.next

theorem inserted_step (h : Inserted s) (hstep : step soy s a = some t) : Inserted t := by
  have hmove : ∀ {pc : AcceptPc}, s.accept = pc →
      s.mWebsocketServer.mClients ++ pc.inHand = List.range s.mWebsocketServer.next :=
    fun pc => pc ▸ h
  cases step_cases hstep with
  | main a t step => cases step <;> exact h
  | connect c pc =>
    have hall := hmove pc
    exact hall
  | construct c pc =>
    have hall : s.mWebsocketServer.mClients ++ [] = List.range s.mWebsocketServer.next := hmove pc
    show s.mWebsocketServer.mClients ++ [s.mWebsocketServer.next] =
      List.range (s.mWebsocketServer.next + 1)
    rw [List.range_succ, ← hall, List.append_nil]
  | lockClients p l pc lock =>
    have hall := hmove pc
    exact hall
  | pushClient p pc =>
    have hall := hmove pc
    exact (List.append_nil _).trans hall
  | unlockClients pc =>
    have hall := hmove pc
    exact hall
  | _ => exact h

/-! ## What a reference means -/

theorem Inserted.mClients_eq (h : Inserted s) :
    s.mWebsocketServer.mClients = List.range s.mWebsocketServer.mClients.length := by
  have hle : s.mWebsocketServer.mClients.length ≤ s.mWebsocketServer.next := by
    have hlength := congrArg List.length h
    rw [List.length_append, List.length_range] at hlength
    omega
  have htake := congrArg (List.take s.mWebsocketServer.mClients.length) h
  rw [List.take_left, List.take_range, Nat.min_eq_left hle] at htake
  exact htake

theorem getElem?_connections {p : PeerId} (hp : p < s.mWebsocketServer.next) :
    s.connections[p]? = some (s.refOf p) := by
  have hlt : p < ((List.range s.mWebsocketServer.next).map s.refOf).length := by simpa using hp
  rw [Host.connections, List.getElem?_append_left hlt, List.getElem?_map, List.getElem?_range hp]
  rfl

theorem firstWith_connections_iff {c : SoyRef} {p : PeerId} (hp : p < s.mWebsocketServer.next) :
    FirstWith s.connections c p ↔ s.refOf p = c ∧ ∀ q < p, s.refOf q ≠ c := by
  have hq : ∀ q < p, (s.connections[q]? ≠ some c ↔ s.refOf q ≠ c) := fun q hlt => by
    rw [getElem?_connections (Nat.lt_trans hlt hp), ne_eq, Option.some.injEq]
  rw [FirstWith, getElem?_connections hp, Option.some.injEq]
  exact and_congr_right fun _ => forall₂_congr hq

theorem getClient_eq_ok_iff (hserver : ServerInv s) (h : Inserted s) {c : SoyRef} {p : PeerId} :
    s.mWebsocketServer.getClient c = .ok p ↔
      p ∈ s.mWebsocketServer.mClients ∧ FirstWith s.connections c p := by
  have hfind : s.mWebsocketServer.getClient c = .ok p ↔
      (s.mWebsocketServer.mClients.find? fun q => s.refOf q = c) = some p := by
    rw [Server.getClient_eq_ok, ← Server.find?_mClients]
    rfl
  rw [hfind, h.mClients_eq, List.find?_range_eq_some]
  simp only [decide_eq_true_eq, Bool.not_eq_true', decide_eq_false_iff_not]
  constructor
  · rintro ⟨href, hmem, hbefore⟩
    have hlt := hserver.clients_lt p (h.mClients_eq ▸ hmem)
    exact ⟨hmem, (firstWith_connections_iff hlt).mpr ⟨href, hbefore⟩⟩
  · rintro ⟨hmem, hfirst⟩
    have hlt := hserver.clients_lt p (h.mClients_eq ▸ hmem)
    obtain ⟨href, hbefore⟩ := (firstWith_connections_iff hlt).mp hfirst
    exact ⟨href, hmem, hbefore⟩

/-! ## Where the messages for a reference go -/

theorem MainStep.target_cases {a : MainAct} (h : MainStep s a t) {c : SoyRef} {p : PeerId}
    (ht : t.main.target = some (c, p)) :
    s.main.target = some (c, p) ∨ s.mWebsocketServer.getClient c = .ok p := by
  cases h with
  | found site c' m p' pc client =>
    cases ht
    exact Or.inr client
  | unlockClients site c' m p' pc => exact Or.inl (by rw [pc]; exact ht)
  | passed site c' m p' pc completed => exact Or.inl (by rw [pc]; exact ht)
  | returns site pc => cases site <;> cases ht
  | quit site pc => exact Or.inl ht
  | _ => cases ht

theorem HostStep.target_cases (h : HostStep soy s a t) {c : SoyRef} {p : PeerId}
    (ht : t.main.target = some (c, p)) :
    s.main.target = some (c, p) ∨ s.mWebsocketServer.getClient c = .ok p := by
  cases h with
  | main a t step => exact step.target_cases ht
  | _ => exact Or.inl ht

theorem HostStep.queued_cases (h : HostStep soy s a t) {p : PeerId} {c : SoyRef} {m : StdString}
    (ht : Event.queued p c m ∈ t.log) :
    Event.queued p c m ∈ s.log ∨ s.main.target = some (c, p) := by
  have hother : ∀ e, Event.queued p c m ∈ s.log ++ [e] → e ≠ .queued p c m →
      Event.queued p c m ∈ s.log := fun e hin hne => by
    rcases List.mem_append.mp hin with hin | hin
    · exact hin
    · exact absurd (List.mem_singleton.mp hin).symm hne
  by_cases hmain : ∃ b, a = .main b
  · obtain ⟨b, rfl⟩ := hmain
    cases h with
    | main _ t step =>
      cases step with
      | push site c' m' p' pc =>
        rcases List.mem_append.mp ht with hin | hin
        · exact Or.inl hin
        · cases List.mem_singleton.mp hin
          exact Or.inr (by rw [pc]; rfl)
      | pause site pc => exact Or.inl (hother _ ht Event.noConfusion)
      | pauseReturns site pc => exact Or.inl (hother _ ht Event.noConfusion)
      | quit site pc => exact Or.inl (hother _ ht Event.noConfusion)
      | send site m' pc => exact Or.inl (hother _ ht Event.noConfusion)
      | enterPump pc all => exact Or.inl (hother _ ht Event.noConfusion)
      | task pc => exact Or.inl (hother _ ht Event.noConfusion)
      | lockMessages pc free => exact Or.inl (hother _ ht Event.noConfusion)
      | popMessage m' rest pc popped => exact Or.inl (hother _ ht Event.noConfusion)
      | unlockMessages pc => exact Or.inl (hother _ ht Event.noConfusion)
      | _ => exact Or.inl ht
  · rcases (h.sameMain fun b hb => hmain ⟨b, hb⟩).log with hlog | ⟨e, hlog, he⟩
    · exact Or.inl (hlog ▸ ht)
    · refine Or.inl (hother e (hlog ▸ ht) ?_)
      rintro rfl
      exact he trivial

structure FoundInv (s : Host) : Prop where
  server : ServerInv s
  inserted : Inserted s
  target : ∀ c p, s.main.target = some (c, p) → s.mWebsocketServer.getClient c = .ok p
  queued : ∀ p c m, Event.queued p c m ∈ s.log → s.mWebsocketServer.getClient c = .ok p

theorem foundInv_init : FoundInv {} where
  server := serverInv_init
  inserted := rfl
  target _ _ h := nomatch h
  queued _ _ _ h := nomatch h

theorem foundInv_step (h : FoundInv s) (hstep : step soy s a = some t) : FoundInv t where
  server := serverInv_step h.server hstep
  inserted := inserted_step h.inserted hstep
  target c p ht := by
    apply getClient_step h.server hstep
    rcases (step_cases hstep).target_cases ht with hs | hs
    · exact h.target c p hs
    · exact hs
  queued p c m ht := by
    apply getClient_step h.server hstep
    rcases (step_cases hstep).queued_cases ht with hs | hs
    · exact h.queued p c m hs
    · exact h.target c p hs

end Step

/-! ## Every connection of every run -/

section Run
variable {soy : MessageBufferLib} {acts : List Act} {s : Host}

theorem connections_of_run (h : run (step soy) {} acts = some s) :
    s.connections = acts.filterMap connection :=
  seen_eq_append (I := fun _ => True) (fun _ _ _ _ _ => trivial)
    (fun _ _ _ _ hstep => connections_step hstep) trivial h

/-- Every connection has a peer of its own, which is inserted once, in the order of the connections,
or is still on its way through `AddClient`. -/
theorem connections_kept (h : run (step soy) {} acts = some s) :
    (List.range s.mWebsocketServer.next).map s.refOf ++ s.accept.unmade =
        acts.filterMap connection ∧
      s.mWebsocketServer.mClients ++ s.accept.inHand = List.range s.mWebsocketServer.next :=
  ⟨connections_of_run h,
    (invariant (fun _ _ _ hs ht => foundInv_step hs ht) foundInv_init h).inserted⟩

/-- Whatever is sent to a reference goes to the first connection that had it, open or not, and the
later ones never get a message. -/
theorem answers_first_connection (h : run (step soy) {} acts = some s) :
    (∀ c p, s.mWebsocketServer.getClient c = .ok p ↔
      p ∈ s.mWebsocketServer.mClients ∧ FirstWith (acts.filterMap connection) c p) ∧
    (∀ p c m, Event.queued p c m ∈ s.log → FirstWith (acts.filterMap connection) c p) ∧
    ∀ p q, p < q → q < s.mWebsocketServer.next → s.refOf p = s.refOf q →
      (s.peer q).writeQueue.filterMap messageText = [] := by
  obtain ⟨hfound, htarget⟩ := invariant (I := fun s => FoundInv s ∧ TargetInv s)
    (fun _ _ _ hs ht => ⟨foundInv_step hs.1 ht, targetInv_step hs.2 hs.1.server ht⟩)
    ⟨foundInv_init, targetInv_init⟩ h
  have hanswer := fun c p => getClient_eq_ok_iff hfound.server hfound.inserted (c := c) (p := p)
  rw [connections_of_run h] at hanswer
  have hqueued : ∀ p c m, Event.queued p c m ∈ s.log → FirstWith (acts.filterMap connection) c p :=
    fun p c m hm => ((hanswer c p).mp (hfound.queued p c m hm)).2
  refine ⟨hanswer, hqueued, fun p q hpq hq href => ?_⟩
  rw [htarget.queues q, List.filterMap_eq_nil_iff]
  intro e he
  cases e with
  | queued q' c m =>
    apply if_neg
    rintro rfl
    -- the message was for the reference, which an earlier connection has
    have hfirst := hqueued q' c m he
    rw [← connections_of_run h, firstWith_connections_iff hq] at hfirst
    exact hfirst.2 p hpq (href.trans hfirst.1)
  | _ => rfl

end Run

def reconnecting : List Act :=
  -- the client with reference 1 speaks and is gone, and another connection gets its reference
  -- before V8 answers
  clientConnects 1 ++ handshakes 0 ++ textArrives 0 [7] ++ [.handler 0, .disconnect 0] ++
    clientConnects 1 ++ handshakes 1 ++ [.main .next, .main (.sendResponse 0 (.of8 [9])),
      .main .next, .main .next, .main .next, .main .next, .main .next, .main .next]

theorem connections_kept_reconnecting : ∃ s,
    run (step firstOpcodeBuffer) {} reconnecting = some s ∧
      (List.range s.mWebsocketServer.next).map s.refOf ++ s.accept.unmade = [1, 1] := by
  have hrun : (run (step firstOpcodeBuffer) {} reconnecting).isSome = true := by decide +kernel
  obtain ⟨s, hs⟩ := Option.isSome_iff_exists.mp hrun
  exact ⟨s, hs, (connections_kept hs).1⟩

theorem answers_first_connection_reconnecting : ∃ s,
    run (step firstOpcodeBuffer) {} reconnecting = some s ∧
      (s.live 0, s.live 1) = (false, true) ∧ Event.queued 0 1 [9] ∈ s.log ∧
      FirstWith (reconnecting.filterMap connection) 1 0 := by
  have hrun : (run (step firstOpcodeBuffer) {} reconnecting).map
      (fun s => ((s.live 0, s.live 1), s.log.getLast?)) =
        some ((false, true), some (.queued 0 1 [9])) := by decide +kernel
  obtain ⟨s, hs, heq⟩ := Option.map_eq_some_iff.mp hrun
  obtain ⟨hlive, hlast⟩ := Prod.mk.inj heq
  have hmem := List.mem_of_getLast? hlast
  exact ⟨s, hs, hlive, hmem, (answers_first_connection hs).2.1 0 1 [9] hmem⟩

end V8Min
