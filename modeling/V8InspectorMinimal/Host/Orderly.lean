import V8InspectorMinimal.Host.Peers
import V8InspectorMinimal.Host.Responses
import V8InspectorMinimal.Host.Routing

/-! The program with clients and a V8 that behave: references tell connections apart, a client
speaks when its connection is set up, and V8 answers when somebody has spoken. Nothing in the code
enforces any of this, and with it no response is ever lost. -/

namespace V8Min.Socket

def ReaderPc.tells : ReaderPc → Bool
  | .callHandler .text _ => true
  | _ => false

structure Settled (p : Peer) : Prop where
  sent : p.mHasSentAcceptReply = true
  outside : ∀ r, p.reader ≠ .setHasSent r ∧ p.reader ≠ .pushReply r

section Settled
variable {soy : MessageBufferLib} {p q : Peer} {a : ReaderAct}

theorem Settled.readerStep (h : Settled p) (hstep : ReaderStep soy p a q) : Settled q := by
  cases hstep with
  | replyFirst r m pc unsent => exact absurd (h.sent.symm.trans unsent) Bool.noConfusion
  | setHasSent r pc => exact absurd pc (h.outside r).1
  | pushReply r pc => exact absurd pc (h.outside r).2
  | alloc pc => exact ⟨p.allocProtocol_mHasSentAcceptReply.trans h.sent, fun _ => ⟨nofun, nofun⟩⟩
  | notComplete k b pc incomplete =>
    exact ⟨h.sent, fun r => ⟨nextKind_ne_setHasSent k b r, nextKind_ne_pushReply k b r⟩⟩
  | unlockReset k b pc =>
    exact ⟨h.sent, fun r => ⟨nextKind_ne_setHasSent k b r, nextKind_ne_pushReply k b r⟩⟩
  | _ => exact ⟨h.sent, fun _ => ⟨nofun, nofun⟩⟩

theorem Settled.push (h : Settled p) (packet : Packet) : Settled (p.push packet) :=
  ⟨h.sent, h.outside⟩

theorem settled_of_tells (hpc : p.reader.tells = true) (sent : p.mHasSentAcceptReply = true) :
    Settled p := by
  refine ⟨sent, fun r => ⟨fun pc => ?_, fun pc => ?_⟩⟩
  · rw [pc] at hpc
    cases hpc
  · rw [pc] at hpc
    cases hpc

end Settled
end V8Min.Socket

namespace V8Min
open Runs History Socket

def speaker : Event → Option PeerId
  | .recorded p _ _ => some p
  | _ => none

def Orderly (s : Host) : Act → Prop
  | .connect c => c ∉ s.connections
  | .reader p _ => (s.peer p).reader.tells = true →
      p ∈ s.mWebsocketServer.mClients ∧ (s.peer p).mHasSentAcceptReply = true
  | .main (.sendResponse _ _) => lastOf speaker s.log ≠ none
  | _ => True

instance (s : Host) : DecidablePred (Orderly s)
  | .connect c => inferInstanceAs (Decidable (c ∉ s.connections))
  | .reader p _ => inferInstanceAs (Decidable ((s.peer p).reader.tells = true →
      p ∈ s.mWebsocketServer.mClients ∧ (s.peer p).mHasSentAcceptReply = true))
  | .main (.sendResponse _ _) => inferInstanceAs (Decidable (lastOf speaker s.log ≠ none))
  | .main .next | .main (.pumpMessageLoop _) | .main .runMessageLoopOnPause
  | .main .quitMessageLoopOnPause | .main .returns | .handler _ | .pushBackThrows _ | .accept
  | .disconnect _ => .isTrue trivial

/-- A response that is passed to `Send`, with the peer that spoke last before it. -/
def answerTo (pre : List Event) : Event → Option (PeerId × StdString)
  | .sent _ _ m => (lastOf speaker pre).map fun p => (p, m)
  | _ => none

def answers (log : List Event) : List (PeerId × StdString) := filterMapAfter answerTo [] log

def queuedBy : Event → Option (PeerId × StdString)
  | .queued p _ m => some (p, m)
  | _ => none

def toPeer (p : PeerId) (x : PeerId × StdString) : Option StdString :=
  if x.1 = p then some x.2 else none

theorem filterMap_toPeer (log : List Event) (p : PeerId) :
    (log.filterMap queuedBy).filterMap (toPeer p) = log.filterMap (queuedOn p) := by
  rw [List.filterMap_filterMap]
  congr 1
  funext e
  cases e <;> rfl

/-! ## Peers that can be answered -/

def Host.Takes (s : Host) (c : SoyRef) (p : PeerId) : Prop :=
  s.mWebsocketServer.getClient c = .ok p ∧ Settled (s.peer p)

section Takes
variable {soy : MessageBufferLib} {s t : Host} {a : Act} {c : SoyRef} {p : PeerId}

theorem HostStep.settled (h : HostStep soy s a t) (hp : p < s.mWebsocketServer.next)
    (hsettled : Settled (s.peer p)) : Settled (t.peer p) := by
  rcases h.peer_cases hp with heq | ⟨b, -, hread⟩ | ⟨m, heq⟩
  · exact heq ▸ hsettled
  · exact hsettled.readerStep hread
  · exact heq ▸ hsettled.push _

theorem takes_step (hserver : ServerInv s) (hstep : step soy s a = some t) (h : s.Takes c p) :
    t.Takes c p := by
  have hp := hserver.clients_lt p (Server.getClient_spec h.1).1
  exact ⟨getClient_step hserver hstep h.1, (step_cases hstep).settled hp h.2⟩

theorem takes_of_fresh (hserver : ServerInv s) (hinserted : Inserted s)
    (hfresh : s.connections.Nodup) (hp : p ∈ s.mWebsocketServer.mClients)
    (hsettled : Settled (s.peer p)) : s.Takes (s.refOf p) p := by
  have hlt := hserver.clients_lt p hp
  have hself := getElem?_connections hlt
  refine ⟨(getClient_eq_ok_iff hserver hinserted).mpr ⟨hp, hself, fun q hq href => ?_⟩, hsettled⟩
  -- an earlier connection with this reference would be the same one
  have hlength : p < s.connections.length := (List.getElem?_eq_some_iff.mp hself).1
  have heq := (List.getElem?_inj (Nat.lt_trans hq hlength) hfresh).mp (href.trans hself.symm)
  exact absurd heq (Nat.ne_of_lt hq)

theorem HostStep.record_cases (h : HostStep soy s a t) {m : StdString}
    (ht : t.handlers p = .record c m) : s.handlers p = .record c m ∨
      ∃ b, a = .reader p b ∧ (s.peer p).reader.tells = true ∧ c = s.refOf p := by
  have hmove : ∀ {p' pc}, t.handlers = Function.update s.handlers p' pc → pc ≠ .record c m →
      s.handlers p = .record c m := by
    intro p' pc hhandlers hne
    rw [hhandlers] at ht
    by_cases hp : p = p'
    · subst hp
      rw [Function.update_self] at ht
      exact absurd ht hne
    · rwa [Function.update_of_ne hp] at ht
  cases h with
  | main a t step => exact Or.inl (step.mainFrame.handlers ▸ ht)
  | callText p' a b m' q made step pc data =>
    by_cases hp : p = p'
    · subst hp
      have hrecord : HandlerPc.record (s.peer p).mConnectionRef m' = .record c m :=
        (Function.update_self ..).symm.trans ht
      refine Or.inr ⟨a, rfl, by rw [pc]; rfl, ?_⟩
      exact (HandlerPc.record.inj hrecord).1.symm
    · exact Or.inl ((Function.update_of_ne hp ..).symm.trans ht)
  | callBinary p' a b q made step pc => exact Or.inl (hmove rfl nofun)
  | handlerReturns p' k b q made step pc returned => exact Or.inl (hmove rfl nofun)
  | handlerThrows p' k b q made step pc threw => exact Or.inl (hmove rfl nofun)
  | record p' c' m' pc => exact Or.inl (hmove rfl nofun)
  | lock p' c' m' pc free => exact Or.inl (hmove rfl nofun)
  | pushBack p' c' m' pc => exact Or.inl (hmove rfl nofun)
  | unlock p' pc => exact Or.inl (hmove rfl nofun)
  | pushBackThrows p' c' m' pc => exact Or.inl (hmove rfl nofun)
  | _ => exact Or.inl ht

end Takes

/-! ## The invariant -/

theorem MainPc.stage_of_sending {main : MainPc} {c : SoyRef} {m : StdString}
    (h : main.sending = some (c, m)) : main.stage = .sending m := by
  unfold MainPc.sending at h
  split at h
  all_goals
    cases h
    try rfl

theorem MainPc.sending_eq_none {main : MainPc} (h : ∀ m, main.stage ≠ .sending m) :
    main.sending = none := by
  by_contra hne
  obtain ⟨⟨c, m⟩, hsending⟩ := Option.ne_none_iff_exists'.mp hne
  exact h m (MainPc.stage_of_sending hsending)

theorem MainPc.sending_of_target {main : MainPc} {c : SoyRef} {p : PeerId}
    (h : main.target = some (c, p)) : ∃ m, main.sending = some (c, m) := by
  unfold MainPc.target at h
  split at h
  all_goals
    cases h
    try exact ⟨_, rfl⟩

/-- What is between `answers` and the write queues: the response that the main thread is sending,
to a peer that takes it. -/
def Host.OnItsWay (s : Host) (left : List (PeerId × StdString)) : Prop :=
  (s.main.sending = none → left = []) ∧
    ∀ c m, s.main.sending = some (c, m) → ∃ p, left = [(p, m)] ∧ s.Takes c p

def Answered (s : Host) : Prop :=
  ∃ left, answers s.log = s.log.filterMap queuedBy ++ left ∧ s.OnItsWay left

structure OrderlyInv (s : Host) : Prop where
  found : FoundInv s
  fresh : s.connections.Nodup
  speaking : ∀ p c m, s.handlers p = .record c m → s.Takes c p
  client : ∀ p, lastOf speaker s.log = some p → s.Takes s.mWebsocketClient p
  given : ∀ m, s.main.stage = .given m → lastOf speaker s.log ≠ none
  answered : Answered s
  texts : s.log.filterMap sentText = (answers s.log).map Prod.snd
  kept : s.main.stage ≠ .lost

theorem orderlyInv_init : OrderlyInv {} where
  found := foundInv_init
  fresh := List.nodup_nil
  speaking _ _ _ h := nomatch h
  client _ h := nomatch h
  given _ h := nomatch h
  answered := ⟨[], rfl, fun _ => rfl, nofun⟩
  texts := rfl
  kept := nofun

section Invariant
variable {soy : MessageBufferLib} {s t : Host} {a : Act}

theorem answers_concat (log : List Event) (e : Event) :
    answers (log ++ [e]) = answers log ++ (answerTo log e).toList :=
  filterMapAfter_concat answerTo [] log e

theorem answers_of_offSend (log : t.log = s.log ∨ ∃ e, t.log = s.log ++ [e] ∧ e.OffSend) :
    answers t.log = answers s.log ∧
      t.log.filterMap queuedBy = s.log.filterMap queuedBy ∧
      t.log.filterMap sentText = s.log.filterMap sentText := by
  rcases log with log | ⟨e, log, he⟩
  · rw [log]
    exact ⟨rfl, rfl, rfl⟩
  · have hnone : answerTo s.log e = none ∧ queuedBy e = none ∧ sentText e = none := by
      cases e <;> first
        | exact ⟨rfl, rfl, rfl⟩
        | exact absurd he not_false
    obtain ⟨hanswer, hqueued, hsent⟩ := hnone
    rw [log, answers_concat, hanswer, filterMap_concat_of_none hqueued,
      filterMap_concat_of_none hsent]
    exact ⟨List.append_nil _, rfl, rfl⟩

theorem HostStep.speaker_cases (h : HostStep soy s a t) :
    (t.mWebsocketClient = s.mWebsocketClient ∧ lastOf speaker t.log = lastOf speaker s.log) ∨
      ∃ p c m, s.handlers p = .record c m ∧ t.mWebsocketClient = c ∧
        lastOf speaker t.log = some p := by
  cases h with
  | main a t step =>
    refine Or.inl ⟨step.mainFrame.mWebsocketClient, ?_⟩
    rcases step.log_eq with log | ⟨e, log, he⟩
    · rw [log]
    · have hnone : speaker e = none := by
        cases e <;> first
          | rfl
          | exact absurd he not_false
      rw [log, lastOf_concat_none hnone]
  | callText p a b m q made step pc data => exact Or.inl ⟨rfl, lastOf_concat_none rfl⟩
  | record p c m pc => exact Or.inr ⟨p, c, m, pc, rfl, lastOf_concat_some rfl⟩
  | lock p c m pc free => exact Or.inl ⟨rfl, lastOf_concat_none rfl⟩
  | pushBack p c m pc => exact Or.inl ⟨rfl, lastOf_concat_none rfl⟩
  | _ => exact Or.inl ⟨rfl, rfl⟩

theorem fresh_step (h : s.connections.Nodup) (hok : ∀ c, a = .connect c → c ∉ s.connections)
    (hstep : step soy s a = some t) : t.connections.Nodup := by
  rw [connections_step hstep]
  cases hc : connection a with
  | none => exact (List.append_nil _).symm ▸ h
  | some c =>
    have ha : a = .connect c := by
      cases a <;> cases hc
      rfl
    have hnew := hok c ha
    exact List.nodup_append.mpr ⟨h, by simp, fun x hx y hy heq =>
      hnew (List.mem_singleton.mp hy ▸ heq ▸ hx)⟩

theorem OrderlyInv.speaking_step (h : OrderlyInv s) (hok : Orderly s a)
    (hstep : step soy s a = some t) {p : PeerId} {c : SoyRef} {m : StdString}
    (ht : t.handlers p = .record c m) : t.Takes c p := by
  apply takes_step h.found.server hstep
  rcases (step_cases hstep).record_cases ht with hs | ⟨b, rfl, htells, rfl⟩
  · exact h.speaking p c m hs
  · obtain ⟨hmem, hsent⟩ := hok htells
    exact takes_of_fresh h.found.server h.found.inserted h.fresh hmem
      (settled_of_tells htells hsent)

theorem OrderlyInv.client_step (h : OrderlyInv s) (hstep : step soy s a = some t) {p : PeerId}
    (ht : lastOf speaker t.log = some p) : t.Takes t.mWebsocketClient p := by
  apply takes_step h.found.server hstep
  rcases (step_cases hstep).speaker_cases with ⟨hclient, hlast⟩ | ⟨q, c, m, pc, hclient, hlast⟩
  · rw [hclient]
    exact h.client p (hlast ▸ ht)
  · rw [hclient]
    obtain rfl : q = p := Option.some.inj (hlast.symm.trans ht)
    exact h.speaking q c m pc

theorem HostStep.spoken (h : HostStep soy s a t) (hs : lastOf speaker s.log ≠ none) :
    lastOf speaker t.log ≠ none := by
  rcases h.speaker_cases with ⟨-, hlast⟩ | ⟨p, c, m, -, -, hlast⟩
  · rwa [hlast]
  · rw [hlast]
    exact Option.some_ne_none p

theorem spoken_of_response (hok : Orderly s a) {m : StdString} (h : response a = some m) :
    lastOf speaker s.log ≠ none := by
  cases a with
  | main b =>
    cases b with
    | sendResponse callId message => exact hok
    | _ => cases h
  | _ => cases h

theorem Host.OnItsWay.of_not_sending (h : ∀ m, s.main.stage ≠ .sending m)
    {left : List (PeerId × StdString)} (hleft : s.OnItsWay left) : left = [] :=
  hleft.1 (MainPc.sending_eq_none h)

theorem onItsWay_nil (h : ∀ m, s.main.stage ≠ .sending m) : s.OnItsWay [] := by
  have hnone := MainPc.sending_eq_none h
  exact ⟨fun _ => rfl, fun c m hsending => nomatch hnone.symm.trans hsending⟩

theorem OrderlyInv.sends (h : OrderlyInv s) (hstep : step soy s a = some t) {site : Site}
    {m : StdString} (log : t.log = s.log ++ [.sent site s.mWebsocketClient m])
    (before : s.main.stage = .given m) (sending : t.main.sending = some (s.mWebsocketClient, m)) :
    Answered t ∧ t.log.filterMap sentText = (answers t.log).map Prod.snd := by
  obtain ⟨left, hanswers, hleft⟩ := h.answered
  obtain rfl := hleft.of_not_sending fun m' => by rw [before]; nofun
  obtain ⟨p, hp⟩ := Option.ne_none_iff_exists'.mp (h.given m before)
  have hanswer : answerTo s.log (.sent site s.mWebsocketClient m) = some (p, m) := by
    rw [answerTo, hp]
    rfl
  have hall : answers t.log = answers s.log ++ [(p, m)] := by
    rw [log, answers_concat, hanswer]
    rfl
  refine ⟨⟨[(p, m)], ?_, ?_, ?_⟩, ?_⟩
  · rw [hall, hanswers, log, filterMap_concat_of_none rfl, List.append_nil]
  · intro hnone
    cases hnone.symm.trans sending
  · intro c' m' hsending
    cases hsending.symm.trans sending
    exact ⟨p, rfl, takes_step h.found.server hstep (h.client p hp)⟩
  · rw [hall, log, filterMap_concat, h.texts, List.map_append]
    rfl

theorem OrderlyInv.pushes (h : OrderlyInv s) {p : PeerId} {c : SoyRef} {m : StdString}
    (log : t.log = s.log ++ [.queued p c m]) (after : t.main.stage = .none)
    (sending : s.main.sending = some (c, m)) (target : s.main.target = some (c, p)) :
    Answered t ∧ t.log.filterMap sentText = (answers t.log).map Prod.snd := by
  obtain ⟨left, hanswers, hleft⟩ := h.answered
  obtain ⟨q, rfl, htakes⟩ := hleft.2 c m sending
  have hfound := h.found.target c p target
  obtain rfl : q = p := Except.ok.inj (htakes.1.symm.trans hfound)
  have hall : answers t.log = answers s.log := by
    rw [log, answers_concat]
    exact List.append_nil _
  refine ⟨⟨[], ?_, onItsWay_nil fun m' => by rw [after]; nofun⟩, ?_⟩
  · rw [hall, hanswers, log, filterMap_concat, List.append_nil]
    rfl
  · rw [hall, log, filterMap_concat_of_none rfl, h.texts]

theorem OrderlyInv.settled_of_target (h : OrderlyInv s) {c : SoyRef} {p : PeerId}
    (target : s.main.target = some (c, p)) : Settled (s.peer p) := by
  obtain ⟨left, -, hleft⟩ := h.answered
  obtain ⟨m, sending⟩ := MainPc.sending_of_target target
  obtain ⟨q, -, hclient, hsettled⟩ := hleft.2 c m sending
  obtain rfl : q = p := Except.ok.inj (hclient.symm.trans (h.found.target c p target))
  exact hsettled

theorem OrderlyInv.not_lost (h : OrderlyInv s) {c : SoyRef} {m : StdString}
    (sending : s.main.sending = some (c, m)) :
    ¬ ((∃ e, s.mWebsocketServer.getClient c = .error e) ∨
      ∃ p, s.main.target = some (c, p) ∧ (s.peer p).mHasSentAcceptReply = false) := by
  rintro (⟨e, herror⟩ | ⟨p, target, unsent⟩)
  · obtain ⟨left, -, hleft⟩ := h.answered
    obtain ⟨q, -, hclient, -⟩ := hleft.2 c m sending
    cases hclient.symm.trans herror
  · exact Bool.noConfusion ((h.settled_of_target target).sent.symm.trans unsent)

theorem orderlyInv_step (h : OrderlyInv s) (hok : Orderly s a) (hstep : step soy s a = some t) :
    OrderlyInv t := by
  have hs := step_cases hstep
  -- what the main thread does with a response decides three of the fields
  have hparts : (∀ m, t.main.stage = .given m → lastOf speaker t.log ≠ none) ∧
      (Answered t ∧ t.log.filterMap sentText = (answers t.log).map Prod.snd) ∧
      t.main.stage ≠ .lost := by
    have hstage := hs.stageStep
    have hanswer := fun m => spoken_of_response hok (m := m)
    generalize response a = given at hstage hanswer
    cases hstage with
    | quiet log stage sending =>
      obtain ⟨hanswers, hqueued, hsent⟩ := answers_of_offSend log
      obtain ⟨left, hleft, hnone, hsome⟩ := h.answered
      refine ⟨fun m hm => hs.spoken (h.given m (stage ▸ hm)), ⟨⟨left, ?_, ?_, ?_⟩, ?_⟩, ?_⟩
      · rw [hanswers, hqueued, hleft]
      · exact fun ht => hnone (sending ▸ ht)
      · intro c m ht
        obtain ⟨p, rfl, htakes⟩ := hsome c m (sending ▸ ht)
        exact ⟨p, rfl, takes_step h.found.server hstep htakes⟩
      · rw [hsent, hanswers, h.texts]
      · exact stage ▸ h.kept
    | give m log before after =>
      obtain ⟨left, hleft, hway⟩ := h.answered
      obtain rfl := hway.of_not_sending fun m' => by rw [before]; nofun
      refine ⟨fun m' _ => log ▸ hanswer m rfl, ⟨⟨[], ?_, onItsWay_nil ?_⟩, ?_⟩, ?_⟩
      · rw [log, hleft]
      · rw [after]
        exact fun _ => nofun
      · rw [log, h.texts]
      · rw [after]
        nofun
    | send site m log before after sending =>
      refine ⟨?_, h.sends hstep log before sending, ?_⟩
      · rw [after]
        nofun
      · rw [after]
        nofun
    | push p c m log before after sending target =>
      refine ⟨?_, h.pushes log after sending target, ?_⟩
      · rw [after]
        nofun
      · rw [after]
        nofun
    | lose c m log before after sending why => exact absurd why (h.not_lost sending)
  exact {
    found := foundInv_step h.found hstep
    fresh := fresh_step h.fresh (fun c ha => by subst ha; exact hok) hstep
    speaking := fun p c m ht => h.speaking_step hok hstep ht
    client := fun p ht => h.client_step hstep ht
    given := hparts.1
    answered := hparts.2.1.1
    texts := hparts.2.1.2
    kept := hparts.2.2 }

end Invariant

/-! ## Orderly runs -/

section Run
variable {soy : MessageBufferLib} {s : Host}

theorem orderlyInv_of_reaches (h : Reaches (step soy) Orderly {} s) : OrderlyInv s :=
  h.invariant (fun _ _ _ hok hs ht => orderlyInv_step hs hok ht) orderlyInv_init

/-- No response is lost to an exception. What V8 answers gets, in its order, into the write queue of
the peer that spoke last before `Send`, all but the response that is on its way. -/
theorem orderly_answers {acts : List Act} (h : run (step soy) {} acts = some s)
    (hok : AllSteps (step soy) Orderly {} acts) :
    (∀ site e, s.main ≠ .threw site e) ∧
      acts.filterMap response = (answers s.log).map Prod.snd ++ s.main.stage.unsent ∧
      ∃ left, answers s.log = s.log.filterMap queuedBy ++ left ∧
        (left.length = if s.main.sending = none then 0 else 1) ∧
        ∀ p, (answers s.log).filterMap (toPeer p) =
          (s.peer p).writeQueue.filterMap messageText ++ left.filterMap (toPeer p) := by
  have hinv := orderlyInv_of_reaches ⟨acts, h, hok⟩
  refine ⟨fun site e pc => hinv.kept (by rw [pc]; rfl), ?_, ?_⟩
  · rw [← responses_of_run h, Host.responses, hinv.texts]
  obtain ⟨left, hanswers, hnone, hsome⟩ := hinv.answered
  refine ⟨left, hanswers, ?_, fun p => ?_⟩
  · cases hsending : s.main.sending with
    | none =>
      rw [hnone hsending]
      rfl
    | some x =>
      obtain ⟨p, rfl, -⟩ := hsome x.1 x.2 hsending
      rfl
  · rw [queues_of_run h, hanswers, List.filterMap_append, filterMap_toPeer]

def oneAnswer : List Act :=
  -- two clients connect, and the one that speaks is answered
  clientConnects 1 ++ handshakes 0 ++ clientConnects 2 ++ handshakes 1 ++ textArrives 0 [7] ++
    onTextMessage 0 ++ mainDrains ++ [.main .next, .main .next, .main (.sendResponse 0 (.of8 [9])),
      .main .next, .main .next, .main .next, .main .next, .main .next, .main .next]

theorem orderly_answers_one : ∃ s, run (step firstOpcodeBuffer) {} oneAnswer = some s ∧
    oneAnswer.filterMap response = [[9]] ∧ answers s.log = [(0, [9])] ∧
      (s.peer 0).writeQueue.filterMap messageText = [[9]] ∧
      (s.peer 1).writeQueue.filterMap messageText = [] := by
  have hrun : (run (guarded (step firstOpcodeBuffer) Orderly) {} oneAnswer).map
      (fun s => (answers s.log, s.main)) = some ([(0, [9])], .inV8 .dispatch .script) := by
    decide +kernel
  obtain ⟨s, hs, heq⟩ := Option.map_eq_some_iff.mp hrun
  obtain ⟨hanswers, hmain⟩ := Prod.mk.inj heq
  obtain ⟨hstep, hok⟩ := run_guarded hs
  obtain ⟨-, hgiven, left, -, hlength, hqueues⟩ := orderly_answers hstep hok
  rw [hmain] at hlength hgiven
  obtain rfl := List.length_eq_zero_iff.mp hlength
  rw [hanswers] at hgiven hqueues
  exact ⟨s, hstep, hgiven, hanswers, (List.append_nil _).symm.trans (hqueues 0).symm,
    (List.append_nil _).symm.trans (hqueues 1).symm⟩

theorem OrderlyInv.testsOutsideWindow (h : OrderlyInv s) (a : Act) : MainTestsOutsideWindow s a :=
  fun site c m p r _ pc => ((h.settled_of_target (c := c) (by rw [pc]; rfl)).outside r).2

/-- Every client gets the reply of its handshake before any message. -/
theorem orderly_replies_first (h : Reaches (step soy) Orderly {} s) {p : PeerId}
    (hp : p < s.mWebsocketServer.next) :
    (s.peer p).writeQueue = [] ∨ Replied (s.peer p).writeQueue := by
  obtain ⟨acts, hrun, hok⟩ := h
  have hwindow : AllSteps (step soy) MainTestsOutsideWindow {} acts :=
    hok.imp (fun _ a _ ha hs ht => ⟨orderlyInv_step hs ha ht, hs.testsOutsideWindow a⟩)
      orderlyInv_init
  exact peers_replied ⟨acts, hrun, hwindow⟩ hp

theorem orderly_replies_first_one : ∃ s, Reaches (step firstOpcodeBuffer) Orderly {} s ∧
    (s.peer 0).writeQueue.length = 2 ∧
      ((s.peer 0).writeQueue = [] ∨ Replied (s.peer 0).writeQueue) := by
  have hrun : (run (guarded (step firstOpcodeBuffer) Orderly) {} oneAnswer).map
      (fun s => (decide (0 < s.mWebsocketServer.next), (s.peer 0).writeQueue.length)) =
      some (true, 2) := by
    decide +kernel
  obtain ⟨s, hs, heq⟩ := Option.map_eq_some_iff.mp hrun
  obtain ⟨hp, hlength⟩ := Prod.mk.inj heq
  have hreaches := reaches_of_run_guarded hs
  exact ⟨s, hreaches, hlength, orderly_replies_first hreaches (of_decide_eq_true hp)⟩

end Run
end V8Min
