import V8InspectorMinimal.Base.Runs
import V8InspectorMinimal.Host.Steps

/-! The clients of the server while the threads run. A peer never changes its reference and never
leaves `mClients`, so that what `GetClient` finds it goes on finding. -/

namespace V8Min
open Runs Socket

section Refs
variable {soy : MessageBufferLib} {s t : Host} {a : Act}

structure SameRefs (s t : Host) : Prop where
  next_le : s.mWebsocketServer.next ≤ t.mWebsocketServer.next
  ref : ∀ p < s.mWebsocketServer.next, (t.peer p).mConnectionRef = (s.peer p).mConnectionRef

theorem SameRefs.setPeer {p : PeerId} {q : Peer}
    (hpeers : t.mWebsocketServer = (s.setPeer p q).mWebsocketServer)
    (hq : q.mConnectionRef = (s.peer p).mConnectionRef) : SameRefs s t where
  next_le := by
    rw [hpeers]
    exact Nat.le_refl _
  ref p' _ := by
    have ht : t.peer p' = (s.setPeer p q).peer p' := by rw [Host.peer, hpeers]; rfl
    rw [ht]
    by_cases hp : p' = p
    · rw [hp, Host.setPeer_peer, hq]
    · rw [Host.setPeer_peer_of_ne hp]

theorem HostStep.sameRefs (h : HostStep soy s a t) : SameRefs s t := by
  have hread : ∀ {p a q}, readerStep soy (s.peer p) a = some q →
      q.mConnectionRef = (s.peer p).mConnectionRef :=
    fun hq => (readerStep_cases hq).mConnectionRef_eq
  cases h with
  | main a t step =>
    cases step with
    | push site c m p pc =>
      have hq : ((s.peer p).push (.message m)).mConnectionRef = (s.peer p).mConnectionRef := rfl
      exact .setPeer rfl hq
    | _ => exact ⟨Nat.le_refl _, fun _ _ => rfl⟩
  | reader p a q made step outside => exact .setPeer rfl (hread step)
  | callText p a b m q made step pc data => exact .setPeer rfl (hread step)
  | callBinary p a b q made step pc => exact .setPeer rfl (hread step)
  | handlerReturns p k b q made step pc returned => exact .setPeer rfl (hread step)
  | handlerThrows p k b q made step pc threw => exact .setPeer rfl (hread step)
  | construct c pc =>
    refine ⟨Nat.le_succ _, fun p hp => ?_⟩
    exact congrArg Peer.mConnectionRef (Server.newPeer_peers_of_ne (Nat.ne_of_lt hp))
  | _ => exact ⟨Nat.le_refl _, fun _ _ => rfl⟩

theorem HostStep.mClients_eq (h : HostStep soy s a t) :
    t.mWebsocketServer.mClients = s.mWebsocketServer.mClients ∨
      ∃ p, s.accept = .pushBack p ∧
        t.mWebsocketServer.mClients = s.mWebsocketServer.mClients ++ [p] := by
  cases h with
  | main a t step => cases step <;> exact Or.inl rfl
  | pushClient p pc => exact Or.inr ⟨p, pc, rfl⟩
  | _ => exact Or.inl rfl

structure ServerInv (s : Host) : Prop where
  clients_lt : ∀ p ∈ s.mWebsocketServer.mClients, p < s.mWebsocketServer.next
  accept_lt : ∀ p, s.accept = .lockClients p ∨ s.accept = .pushBack p → p < s.mWebsocketServer.next

theorem serverInv_init : ServerInv {} where
  clients_lt _ hp := nomatch hp
  accept_lt _ hp := by rcases hp with hp | hp <;> cases hp

theorem HostStep.accept_eq (h : HostStep soy s a t) {p : PeerId}
    (hp : t.accept = .lockClients p ∨ t.accept = .pushBack p) :
    (s.accept = .lockClients p ∨ s.accept = .pushBack p) ∨ p < t.mWebsocketServer.next := by
  cases h with
  | main a t step => exact Or.inl (step.mainFrame.accept ▸ hp)
  | connect c pc => rcases hp with hp | hp <;> cases hp
  | construct c pc =>
    rcases hp with hp | hp
    · cases hp
      exact Or.inr (Nat.lt_succ_self _)
    · cases hp
  | lockClients p' l pc lock =>
    rcases hp with hp | hp
    · cases hp
    · cases hp
      exact Or.inl (Or.inl pc)
  | pushClient p' pc => rcases hp with hp | hp <;> cases hp
  | unlockClients pc => rcases hp with hp | hp <;> cases hp
  | _ => exact Or.inl hp

theorem serverInv_step (h : ServerInv s) (hstep : step soy s a = some t) : ServerInv t := by
  have hs := step_cases hstep
  have hle := hs.sameRefs.next_le
  refine ⟨fun p hp => ?_, fun p hp => ?_⟩
  · rcases hs.mClients_eq with heq | ⟨q, hq, heq⟩
    · exact Nat.lt_of_lt_of_le (h.clients_lt p (heq ▸ hp)) hle
    · rw [heq] at hp
      rcases List.mem_append.mp hp with hp | hp
      · exact Nat.lt_of_lt_of_le (h.clients_lt p hp) hle
      · rw [List.mem_singleton.mp hp]
        exact Nat.lt_of_lt_of_le (h.accept_lt q (Or.inr hq)) hle
  · rcases hs.accept_eq hp with hold | hlt
    · exact Nat.lt_of_lt_of_le (h.accept_lt p hold) hle
    · exact hlt

theorem getClient_step (h : ServerInv s) (hstep : step soy s a = some t) {c : SoyRef} {p : PeerId}
    (hp : s.mWebsocketServer.getClient c = .ok p) : t.mWebsocketServer.getClient c = .ok p := by
  have hs := step_cases hstep
  have href : ∀ q ∈ s.mWebsocketServer.mClients,
      (t.peer q).mConnectionRef = (s.peer q).mConnectionRef :=
    fun q hq => hs.sameRefs.ref q (h.clients_lt q hq)
  rcases hs.mClients_eq with heq | ⟨q, -, heq⟩
  · exact Server.getClient_of_append hp (heq.trans (List.append_nil _).symm) href
  · exact Server.getClient_of_append hp heq href

/-- With no step of another thread in between, the accept thread runs `AddClient`. -/
theorem run_addClient (soy : MessageBufferLib) (s : Host) (c : SoyRef) (pc : s.accept = .idle)
    (free : s.mClientsLock.held = none) :
    run (step soy) s [.connect c, .accept, .accept, .accept, .accept] = some { s with
      mWebsocketServer := s.mWebsocketServer.addClient c
      live := Function.update s.live s.mWebsocketServer.next true } := by
  obtain ⟨messages, messagesLock, only, client, server, ⟨held⟩, live, handlers, accept, main,
    log⟩ := s
  have haccept : accept = .idle := pc
  have hheld : held = none := free
  subst haccept hheld
  rfl

end Refs
end V8Min
