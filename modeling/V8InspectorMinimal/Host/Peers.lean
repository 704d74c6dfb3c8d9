import V8InspectorMinimal.Host.Sending
import V8InspectorMinimal.Socket.Handshake
import V8InspectorMinimal.Socket.Reassembly

/-! Each peer of the host, seen alone. With the main thread as its one sender a peer runs as the
peers of the socket layer do, so that what is proved there holds of every peer in every run. -/

namespace V8Min
open Runs Socket

def MainPc.sendPc (p : PeerId) : MainPc → Option SendPc
  | .inV8 _ (.isCompleted _ m q) => if q = p then some (.isCompleted m) else none
  | .inV8 _ (.push _ m q) => if q = p then some (.push m) else none
  | _ => none

/-- `x` is peer `p` with the main thread as sender 0. -/
structure PeerView (p : PeerId) (s : Host) (x : PeerSystem) : Prop where
  peer : x.peer = s.peer p
  sending : ∀ pc, s.main.sendPc p = some pc → x.senders 0 = pc
  waiting : s.main.sendPc p = none → x.senders 0 = .idle ∨ ∃ e, x.senders 0 = .threw e

inductive PeerLabel (p : PeerId) (s : Host) : Act → PeerAct → Prop where
  | reader (a : ReaderAct) : PeerLabel p s (.reader p a) (.reader a)
  | call (site : Site) (c : SoyRef) (m : StdString)
      (pc : s.main = .inV8 site (.unlockClients c m p)) : PeerLabel p s (.main .next) (.send 0 m)
  | test (site : Site) (c : SoyRef) (m : StdString)
      (pc : s.main = .inV8 site (.isCompleted c m p)) : PeerLabel p s (.main .next) (.sender 0)
  | push (site : Site) (c : SoyRef) (m : StdString) (pc : s.main = .inV8 site (.push c m p)) :
      PeerLabel p s (.main .next) (.sender 0)

section View
variable {soy : MessageBufferLib} {p : PeerId} {s t : Host} {x : PeerSystem} {a : Act}

theorem PeerView.quiet (h : PeerView p s x) (peer : t.peer p = s.peer p)
    (main : t.main.sendPc p = s.main.sendPc p) : PeerView p t x where
  peer := h.peer.trans peer.symm
  sending pc hpc := h.sending pc (main ▸ hpc)
  waiting hnone := h.waiting (main ▸ hnone)

theorem PeerView.sender {y : PeerSystem} {pc : SendPc} (peer : y.peer = t.peer p)
    (senders : y.senders 0 = pc) (main : t.main.sendPc p = some pc ∨
      (t.main.sendPc p = none ∧ (pc = .idle ∨ ∃ e, pc = .threw e))) : PeerView p t y where
  peer := peer
  sending pc' hpc := by
    rcases main with main | ⟨main, -⟩
    · exact senders.trans (Option.some.inj (main.symm.trans hpc))
    · exact absurd (main.symm.trans hpc) (Option.some_ne_none _).symm
  waiting hnone := by
    rcases main with main | ⟨-, hpc⟩
    · exact absurd (main.symm.trans hnone) (Option.some_ne_none _)
    · exact senders ▸ hpc

theorem sendPc_isCompleted (site : Site) (c : SoyRef) (m : StdString) :
    (MainPc.inV8 site (.isCompleted c m p)).sendPc p = some (.isCompleted m) := if_pos rfl

theorem sendPc_push (site : Site) (c : SoyRef) (m : StdString) :
    (MainPc.inV8 site (.push c m p)).sendPc p = some (.push m) := if_pos rfl

theorem peerView_mainStep {a : MainAct} (h : PeerView p s x) (hstep : MainStep s a t) :
    PeerView p t x ∨
      ∃ b y, PeerLabel p s (.main a) b ∧ peerStep soy x b = some y ∧ PeerView p t y := by
  cases hstep with
  | unlockClients site c m q pc =>
    by_cases hq : q = p
    · subst hq
      refine Or.inr ⟨_, x.setSender 0 (.isCompleted m), .call site c m pc, ?_,
        .sender h.peer (x.setSender_self ..) (Or.inl (sendPc_isCompleted site c m))⟩
      rcases h.waiting (by rw [pc]; rfl) with hidle | ⟨e, hthrew⟩
      · rw [peerStep, hidle]
      · rw [peerStep, hthrew]
    · refine Or.inl (h.quiet rfl ?_)
      rw [pc]
      exact if_neg hq
  | passed site c m q pc completed =>
    by_cases hq : q = p
    · subst hq
      have hx : x.senders 0 = .isCompleted m := h.sending _ (by rw [pc, sendPc_isCompleted])
      refine Or.inr ⟨_, x.setSender 0 (.push m), .test site c m pc, ?_,
        .sender h.peer (x.setSender_self ..) (Or.inl (sendPc_push site c m))⟩
      simp only [peerStep, hx, Peer.isCompleted, h.peer, completed, if_true]
    · refine Or.inl (h.quiet rfl ?_)
      rw [pc]
      exact (if_neg hq).trans (if_neg hq).symm
  | refused site c m q pc incomplete =>
    by_cases hq : q = p
    · subst hq
      have hx : x.senders 0 = .isCompleted m := h.sending _ (by rw [pc, sendPc_isCompleted])
      refine Or.inr ⟨_, x.setSender 0 (.threw .sendBeforeHandshake), .test site c m pc, ?_,
        .sender h.peer (x.setSender_self ..) (Or.inr ⟨rfl, Or.inr ⟨_, rfl⟩⟩)⟩
      simp only [peerStep, hx, Peer.isCompleted, h.peer, incomplete, Bool.false_eq_true, if_false]
    · refine Or.inl (h.quiet rfl ?_)
      rw [pc]
      exact (if_neg hq).symm
  | push site c m q pc =>
    by_cases hq : q = p
    · subst hq
      have hx : x.senders 0 = .push m := h.sending _ (by rw [pc, sendPc_push])
      have hpeer : (s.setPeer q ((s.peer q).push (.message m))).peer q =
          x.peer.push (.message m) := by
        rw [Host.setPeer_peer, h.peer]
      refine Or.inr ⟨_, { x.setSender 0 .idle with peer := x.peer.push (.message m) },
        .push site c m pc, ?_,
        .sender hpeer.symm (x.setSender_self 0 .idle) (Or.inr ⟨rfl, Or.inl rfl⟩)⟩
      simp only [peerStep, hx]
    · refine Or.inl (h.quiet (Host.setPeer_peer_of_ne (Ne.symm hq) s _) ?_)
      rw [pc]
      exact (if_neg hq).symm
  | returns site pc =>
    refine Or.inl (h.quiet rfl ?_)
    rw [pc]
    cases site <;> rfl
  | quit site pc => exact Or.inl (h.quiet rfl rfl)
  | _ =>
    refine Or.inl (h.quiet rfl ?_)
    simp only [*]
    rfl

theorem peerView_readerStep (h : PeerView p s x) {p' : PeerId} {a : ReaderAct} {q : Peer}
    (hstep : readerStep soy (s.peer p') a = some q) (hpeers : t.peer = (s.setPeer p' q).peer)
    (hmain : t.main = s.main) : PeerView p t x ∨
      ∃ b y, PeerLabel p s (.reader p' a) b ∧ peerStep soy x b = some y ∧ PeerView p t y := by
  by_cases hp : p' = p
  · subst hp
    refine Or.inr ⟨_, { x with peer := q }, .reader a, ?_, ?_, ?_, ?_⟩
    · rw [peerStep, h.peer, hstep]
      rfl
    · rw [hpeers, Host.setPeer_peer]
    · exact fun pc hpc => h.sending pc (hmain ▸ hpc)
    · exact fun hnone => h.waiting (hmain ▸ hnone)
  · refine Or.inl (h.quiet ?_ (by rw [hmain]))
    rw [hpeers, Host.setPeer_peer_of_ne (Ne.symm hp)]

theorem peerView_step (h : PeerView p s x) (hp : p < s.mWebsocketServer.next)
    (hstep : step soy s a = some t) : PeerView p t x ∨
      ∃ b y, PeerLabel p s a b ∧ peerStep soy x b = some y ∧ PeerView p t y := by
  cases step_cases hstep with
  | main a t step => exact peerView_mainStep h step
  | reader p' a q made step outside => exact peerView_readerStep h step rfl rfl
  | callText p' a b m q made step pc data => exact peerView_readerStep h step rfl rfl
  | callBinary p' a b q made step pc => exact peerView_readerStep h step rfl rfl
  | handlerReturns p' k b q made step pc returned => exact peerView_readerStep h step rfl rfl
  | handlerThrows p' k b q made step pc threw => exact peerView_readerStep h step rfl rfl
  | construct c pc => exact Or.inl (h.quiet (Server.newPeer_peers_of_ne (Nat.ne_of_lt hp)) rfl)
  | _ => exact Or.inl (h.quiet rfl rfl)

end View

/-! ## From the peer alone to the host -/

section Reach
variable {soy : MessageBufferLib} {ok : Host → Act → Prop} {okp : PeerSystem → PeerAct → Prop}

/-- What a schedule of the host has to meet so that every peer alone meets `okp`. -/
def Lifts (ok : Host → Act → Prop) (okp : PeerSystem → PeerAct → Prop) : Prop :=
  ∀ p s x a b, PeerView p s x → PeerLabel p s a b → ok s a → okp x b

theorem lifts_true : Lifts (fun _ _ => True) fun _ _ => True := fun _ _ _ _ _ _ _ _ => trivial

theorem simulates_peer (soy : MessageBufferLib) (hlift : Lifts ok okp) (p : PeerId) :
    Simulates (step soy) ok (peerStep soy) okp
      fun s x => p < s.mWebsocketServer.next ∧ PeerView p s x := by
  rintro s a t x ⟨hp, hview⟩ hok hstep
  have hp' : p < t.mWebsocketServer.next :=
    Nat.lt_of_lt_of_le hp (step_cases hstep).sameRefs.next_le
  rcases peerView_step hview hp hstep with hview' | ⟨b, y, hlabel, hy, hview'⟩
  · exact Or.inl ⟨hp', hview'⟩
  · exact Or.inr ⟨b, y, hlift p s x a b hview hlabel hok, hy, hp', hview'⟩

structure PeersReached (soy : MessageBufferLib) (okp : PeerSystem → PeerAct → Prop) (s : Host) :
    Prop where
  server : ServerInv s
  target : TargetInv s
  reached : ∀ p < s.mWebsocketServer.next, ∃ c x,
    Reaches (peerStep soy) okp (.init c) x ∧ PeerView p s x

theorem HostStep.next_eq {s t : Host} {a : Act} (h : HostStep soy s a t) :
    t.mWebsocketServer.next = s.mWebsocketServer.next ∨
      (t.main = s.main ∧ t.mWebsocketServer.next = s.mWebsocketServer.next + 1 ∧
        ∃ c, t.peer s.mWebsocketServer.next = { mConnectionRef := c }) := by
  cases h with
  | main a t step => cases step <;> exact Or.inl rfl
  | construct c pc => exact Or.inr ⟨rfl, rfl, c, Server.newPeer_peers_next _ c⟩
  | _ => exact Or.inl rfl

theorem PeerView.init {s : Host} {p : PeerId} {c : SoyRef}
    (peer : s.peer p = { mConnectionRef := c }) (main : s.main.sendPc p = none) :
    PeerView p s (.init c) where
  peer := peer.symm
  sending _ hpc := absurd (main.symm.trans hpc) (Option.some_ne_none _).symm
  waiting _ := Or.inl rfl

theorem MainPc.target_of_sendPc {p : PeerId} {main : MainPc} (h : main.sendPc p ≠ none) :
    ∃ c, main.target = some (c, p) := by
  unfold MainPc.sendPc at h
  split at h
  · rename_i site c m q
    by_cases hq : q = p
    · exact ⟨c, hq ▸ rfl⟩
    · exact absurd (if_neg hq) h
  · rename_i site c m q
    by_cases hq : q = p
    · exact ⟨c, hq ▸ rfl⟩
    · exact absurd (if_neg hq) h
  · exact absurd rfl h

theorem peersReached_step (hlift : Lifts ok okp) {s t : Host} {a : Act} (hok : ok s a)
    (h : PeersReached soy okp s) (hstep : step soy s a = some t) : PeersReached soy okp t := by
  refine ⟨serverInv_step h.server hstep, targetInv_step h.target h.server hstep, fun p hp => ?_⟩
  by_cases hold : p < s.mWebsocketServer.next
  · obtain ⟨c, x, hx, hview⟩ := h.reached p hold
    obtain ⟨y, hy, -, hview'⟩ := (simulates_peer soy hlift p).concat hx ⟨hold, hview⟩ hok hstep
    exact ⟨c, y, hy, hview'⟩
  · rcases (step_cases hstep).next_eq with hnext | ⟨hmain, hnext, c, hpeer⟩
    · exact absurd (hnext ▸ hp) hold
    · rw [hnext] at hp
      obtain rfl := Nat.eq_of_lt_succ_of_not_lt hp hold
      refine ⟨c, _, .refl _, .init hpeer ?_⟩
      by_contra hne
      rw [hmain] at hne
      obtain ⟨c', htarget⟩ := MainPc.target_of_sendPc hne
      exact hold (h.target.target c' _ htarget).1

/-- Every peer of the host has come to where it is by a schedule of its own. -/
theorem peers_reached (hlift : Lifts ok okp) {s : Host} (h : Reaches (step soy) ok {} s) :
    PeersReached soy okp s := by
  refine Reaches.invariant (fun _ _ _ => peersReached_step hlift) ?_ h
  exact ⟨serverInv_init, targetInv_init, fun _ hp => absurd hp (Nat.not_lt_zero _)⟩

end Reach

/-! ## The handshake and the fragments in the host -/

section Results
variable {soy : MessageBufferLib} {s : Host}

def MainTestsOutsideWindow (s : Host) (a : Act) : Prop := ∀ site c m p r, a = .main .next →
  s.main = .inV8 site (.isCompleted c m p) → (s.peer p).reader ≠ .pushReply r

theorem lifts_window : Lifts MainTestsOutsideWindow TestsOutsideWindow := by
  intro p s x a b hview hlabel hok u m r hb hsender
  rw [hview.peer]
  cases hlabel with
  | reader a => cases hb
  | call site c m' pc => cases hb
  | test site c m' pc => exact hok site c m' p r rfl pc
  | push site c m' pc =>
    cases hb
    have hpush := hview.sending _ (by rw [pc, sendPc_push])
    exact absurd (hpush.symm.trans hsender) (by simp)

theorem peers_replied (h : Reaches (step soy) MainTestsOutsideWindow {} s) {p : PeerId}
    (hp : p < s.mWebsocketServer.next) :
    (s.peer p).writeQueue = [] ∨ Replied (s.peer p).writeQueue := by
  obtain ⟨c, x, hx, hview⟩ := (peers_reached lifts_window h).reached p hp
  have hinv := hx.invariant (fun _ _ _ hok hs => handshakeInv_step hs hok) (handshakeInv_init c)
  exact hview.peer ▸ hinv.handshakeFirst.1

def DecodesData (a : Act) : Prop := ∀ p ra, a = .reader p ra → DataAct (.reader ra)

end Results
end V8Min
