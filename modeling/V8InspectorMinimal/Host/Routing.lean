import V8InspectorMinimal.Host.Responses

/-! Where the responses of V8 go. `OnTextMessage` records the client of a message when it comes in,
and `SendResponse` uses the record when V8 answers, on another thread and with the queue between. -/

namespace V8Min
open Runs History Socket

/-! ## What the log says about clients -/

def recording : Event → Option SoyRef
  | .recorded _ c _ => some c
  | _ => none

def Event.RecordedBy (p : PeerId) : Event → Prop
  | .recorded p' _ _ => p' = p
  | _ => False

def Recorded (p : PeerId) (c : SoyRef) (m : StdString) (log : List Event) : Prop :=
  ∃ before after, log = before ++ .recorded p c m :: after ∧ ∀ e ∈ after, ¬ e.RecordedBy p

def PushedAsRecorded (pre : List Event) (e : Event) : Prop :=
  ∀ p c m, e = .pushed p c m → Recorded p c m pre

/-- The message that is being dispatched: where `OnTextMessage` recorded its client `c`, and where
`OnMessage` pushed it. -/
structure Dispatching (log : List Event) (p : PeerId) (c : SoyRef) (m : StdString)
    (before between after : List Event) : Prop where
  split : log = before ++ .recorded p c m :: between ++ .pushed p c m :: after
  own : ∀ e ∈ between, ¬ e.RecordedBy p
  index : (pushes (before ++ .recorded p c m :: between)).length + 1 = (dispatches log).length
  last : (dispatches log).getLast? = some m

/-- A response is sent to the client recorded last: the one whose message is dispatched, or one
recorded after that one. -/
def SentToLastRecorded (pre : List Event) (e : Event) : Prop :=
  ∀ c r, e = .sent .dispatch c r → lastOf recording pre = some c ∧
    ∃ p c₀ m before between after, Dispatching pre p c₀ m before between after ∧
      (c = c₀ ∨ ∃ p' m', Event.recorded p' c m' ∈ between ++ after)

def SentToSource (pre : List Event) (e : Event) : Prop :=
  ∀ c r, e = .sent .dispatch c r → ∃ p m before between after,
    Dispatching pre p c m before between after

section Log
variable {log : List Event} {p : PeerId} {c : SoyRef} {m : StdString}

theorem Recorded.concat (h : Recorded p c m log) {e : Event} (he : ¬ e.RecordedBy p) :
    Recorded p c m (log ++ [e]) := by
  obtain ⟨before, after, rfl, hafter⟩ := h
  refine ⟨before, after ++ [e], ?_, fun x hx => ?_⟩
  · rw [List.append_assoc, List.cons_append]
  · rcases List.mem_append.mp hx with hx | hx
    · exact hafter x hx
    · rw [List.mem_singleton.mp hx]
      exact he

theorem recorded_concat (log : List Event) : Recorded p c m (log ++ [.recorded p c m]) :=
  ⟨log, [], rfl, fun _ h => nomatch h⟩

theorem pushing_eq_some {e : Event} {r : Received} (h : pushing e = some r) :
    e = .pushed r.1 r.2.1 r.2.2 := by
  cases e <;> cases h
  rfl

theorem recording_eq_some {e : Event} (h : recording e = some c) : ∃ p m, e = .recorded p c m := by
  cases e <;> cases h
  exact ⟨_, _, rfl⟩

theorem exists_dispatching {queue : List StdString}
    (hkept : dispatches log ++ queue = (pushes log).map textOf)
    (hrecorded : EachAfter PushedAsRecorded log) (hne : dispatches log ≠ []) :
    ∃ p c m before between after, Dispatching log p c m before between after := by
  obtain ⟨done, m, hdone⟩ : ∃ done m, dispatches log = done ++ [m] := by
    rcases List.eq_nil_or_concat (dispatches log) with hnil | ⟨done, m, h⟩
    · exact absurd hnil hne
    · exact ⟨done, m, by rw [h, List.concat_eq_append]⟩
  rw [hdone, List.append_assoc] at hkept
  obtain ⟨earlier, rest, hpushes, hearlier, hrest⟩ := List.map_eq_append_iff.mp hkept.symm
  obtain ⟨r, later, rfl, hr, -⟩ := List.map_eq_cons_iff.mp hrest
  obtain ⟨pre, e, after, hlog, he, hpre⟩ := exists_event_of_filterMap hpushes
  obtain ⟨p, c, m'⟩ := r
  have hm : m' = m := hr
  subst hm
  have he' := pushing_eq_some he
  subst he'
  obtain ⟨before, between, rfl, hown⟩ := hrecorded pre _ after hlog p c m' rfl
  refine ⟨p, c, m', before, between, after, hlog, hown, ?_, by rw [hdone, List.getLast?_concat]⟩
  rw [pushes, hpre, hdone, List.length_append, List.length_singleton, ← hearlier, List.length_map]

theorem Dispatching.lastRecorded {before between after : List Event} {c' : SoyRef}
    (h : Dispatching log p c m before between after) (hlast : lastOf recording log = some c') :
    c' = c ∨ ∃ p' m', Event.recorded p' c' m' ∈ between ++ after := by
  have hsplit : log = before ++ .recorded p c m :: (between ++ .pushed p c m :: after) := by
    rw [h.split, List.append_assoc, List.cons_append]
  have hc : recording (.recorded p c m) = some c := rfl
  rw [hsplit] at hlast
  rcases mem_of_lastOf_append hc hlast with heq | ⟨x, hx, hrec⟩
  · exact Or.inl heq
  · obtain ⟨p', m', rfl⟩ := recording_eq_some hrec
    have hmem : Event.recorded p' c' m' ∈ between ++ after := by
      rcases List.mem_append.mp hx with hx | hx
      · exact List.mem_append_left _ hx
      · exact List.mem_append_right _ (List.mem_of_ne_of_mem Event.noConfusion hx)
    exact Or.inr ⟨p', m', hmem⟩

theorem Dispatching.exists_lastOf {before between after : List Event}
    (h : Dispatching log p c m before between after) : ∃ c', lastOf recording log = some c' := by
  have hc : recording (.recorded p c m) ≠ none := Option.some_ne_none c
  have hmem : Event.recorded p c m ∈ log := by
    rw [h.split]
    simp
  exact Option.ne_none_iff_exists'.mp (lastOf_ne_none hmem hc)

end Log

/-! ## What a step does to the records -/

def MainPc.site : MainPc → Option Site
  | .inV8 site _ => some site
  | _ => none

def HandlerPc.carried : HandlerPc → Option (SoyRef × StdString)
  | .lock c m | .pushBack c m => some (c, m)
  | _ => none

def Event.OffRecord : Event → Prop
  | .recorded .. | .pushed .. | .sent .. => False
  | _ => True

inductive RecordStep (s t : Host) : Prop where
  | quiet (client : t.mWebsocketClient = s.mWebsocketClient)
      (carried : ∀ p c m, (t.handlers p).carried = some (c, m) →
        (s.handlers p).carried = some (c, m))
      (log : t.log = s.log ∨ ∃ e, t.log = s.log ++ [e] ∧ e.OffRecord)
      (site : t.main.site = some .dispatch → s.main.site = some .dispatch ∨ dispatches t.log ≠ []) :
      RecordStep s t
  | record (p : PeerId) (c : SoyRef) (m : StdString) (client : t.mWebsocketClient = c)
      (handlers : t.handlers = Function.update s.handlers p (.lock c m))
      (log : t.log = s.log ++ [.recorded p c m]) (main : t.main = s.main)
  | push (p : PeerId) (c : SoyRef) (m : StdString) (pc : s.handlers p = .pushBack c m)
      (client : t.mWebsocketClient = s.mWebsocketClient)
      (handlers : t.handlers = Function.update s.handlers p .unlock)
      (log : t.log = s.log ++ [.pushed p c m]) (main : t.main = s.main)
  | send (site : Site) (m : StdString) (client : t.mWebsocketClient = s.mWebsocketClient)
      (handlers : t.handlers = s.handlers)
      (log : t.log = s.log ++ [.sent site s.mWebsocketClient m])
      (before : s.main.site = some site) (after : t.main.site = some site)

section RecordStep
variable {s t : Host}

theorem RecordStep.move {pc pc' : MainPc} (same : MainFrame s t)
    (log : t.log = s.log ∨ ∃ e, t.log = s.log ++ [e] ∧ e.OffRecord) (hs : s.main = pc)
    (ht : t.main = pc') (site : pc'.site = some .dispatch → pc.site = some .dispatch) :
    RecordStep s t := by
  subst hs ht
  have carried : ∀ p c m, (t.handlers p).carried = some (c, m) →
      (s.handlers p).carried = some (c, m) := fun p c m h => by rwa [same.handlers] at h
  exact .quiet same.mWebsocketClient carried log fun h => Or.inl (site h)

theorem MainStep.recordStep {a : MainAct} (h : MainStep s a t) : RecordStep s t := by
  have same := h.mainFrame
  cases h with
  | startup pc => exact .move same (Or.inl rfl) pc rfl nofun
  | returns site pc =>
    cases site with
    | helloWorld => exact .move same (Or.inl rfl) pc rfl nofun
    | task => exact .move same (Or.inl rfl) pc rfl nofun
    | dispatch => exact .move same (Or.inl rfl) pc rfl nofun
  | pause site pc => exact .move same (Or.inr ⟨_, rfl, trivial⟩) pc rfl id
  | pauseReturns site pc => exact .move same (Or.inr ⟨_, rfl, trivial⟩) pc rfl id
  | quit site pc => exact .move same (Or.inr ⟨_, rfl, trivial⟩) pc pc id
  | respond site callId message m pc text => exact .move same (Or.inl rfl) pc rfl id
  | send site m pc => exact .send site m rfl rfl rfl (by rw [pc]; rfl) rfl
  | lockClients site c m l pc lock => exact .move same (Or.inl rfl) pc rfl id
  | found site c m p pc client => exact .move same (Or.inl rfl) pc rfl id
  | notFound site c m e pc client => exact .move same (Or.inl rfl) pc rfl nofun
  | unlockClients site c m p pc => exact .move same (Or.inl rfl) pc rfl id
  | passed site c m p pc completed => exact .move same (Or.inl rfl) pc rfl id
  | refused site c m p pc incomplete => exact .move same (Or.inl rfl) pc rfl nofun
  | push site c m p pc => exact .move same (Or.inr ⟨_, rfl, trivial⟩) pc rfl id
  | onlyMessages pc only => exact .move same (Or.inl rfl) pc rfl nofun
  | enterPump pc all => exact .move same (Or.inr ⟨_, rfl, trivial⟩) pc rfl nofun
  | task pc => exact .move same (Or.inr ⟨_, rfl, trivial⟩) pc rfl nofun
  | noTask pc => exact .move same (Or.inl rfl) pc rfl nofun
  | lockMessages pc free => exact .move same (Or.inr ⟨_, rfl, trivial⟩) pc rfl nofun
  | noMessage pc empty => exact .move same (Or.inl rfl) pc rfl nofun
  | someMessage pc nonempty => exact .move same (Or.inl rfl) pc rfl nofun
  | popMessage m rest pc popped =>
    refine .quiet rfl (fun _ _ _ => id) (Or.inr ⟨_, rfl, trivial⟩) fun _ => Or.inr ?_
    show dispatches (s.log ++ [.dispatched m]) ≠ []
    rw [dispatches_concat]
    exact List.append_ne_nil_of_right_ne_nil _ (List.cons_ne_nil m [])
  | unlockMessages pc => exact .move same (Or.inr ⟨_, rfl, trivial⟩) pc rfl nofun
  | sleep pc => exact .move same (Or.inl rfl) pc rfl nofun

theorem RecordStep.other (client : t.mWebsocketClient = s.mWebsocketClient)
    (carried : ∀ p c m, (t.handlers p).carried = some (c, m) → (s.handlers p).carried = some (c, m))
    (log : t.log = s.log ∨ ∃ e, t.log = s.log ++ [e] ∧ e.OffRecord) (main : t.main = s.main) :
    RecordStep s t :=
  .quiet client carried log fun h => Or.inl (main ▸ h)

theorem carried_update {p : PeerId} {pc : HandlerPc}
    (handlers : t.handlers = Function.update s.handlers p pc)
    (hpc : ∀ x, pc.carried = some x → (s.handlers p).carried = some x) (p' : PeerId) (c : SoyRef)
    (m : StdString) (h : (t.handlers p').carried = some (c, m)) :
    (s.handlers p').carried = some (c, m) := by
  rw [handlers] at h
  by_cases hp : p' = p
  · subst hp
    rw [Function.update_self] at h
    exact hpc _ h
  · rwa [Function.update_of_ne hp] at h

theorem HostStep.recordStep {soy : MessageBufferLib} {a : Act} (h : HostStep soy s a t) :
    RecordStep s t := by
  cases h with
  | main a t step => exact step.recordStep
  | reader p a q made step outside => exact .other rfl (fun _ _ _ => id) (Or.inl rfl) rfl
  | callText p a b m q made step pc data =>
    exact .other rfl (carried_update rfl nofun) (Or.inr ⟨_, rfl, trivial⟩) rfl
  | callBinary p a b q made step pc =>
    exact .other rfl (carried_update rfl nofun) (Or.inl rfl) rfl
  | handlerReturns p k b q made step pc returned =>
    exact .other rfl (carried_update rfl nofun) (Or.inl rfl) rfl
  | handlerThrows p k b q made step pc threw =>
    exact .other rfl (carried_update rfl nofun) (Or.inl rfl) rfl
  | record p c m pc => exact .record p c m rfl rfl rfl rfl
  | lock p c m pc free =>
    exact .other rfl (carried_update rfl fun x hx => by rw [pc]; exact hx)
      (Or.inr ⟨_, rfl, trivial⟩) rfl
  | pushBack p c m pc => exact .push p c m pc rfl rfl rfl rfl
  | unlock p pc => exact .other rfl (carried_update rfl nofun) (Or.inl rfl) rfl
  | pushBackThrows p c m pc => exact .other rfl (carried_update rfl nofun) (Or.inl rfl) rfl
  | connect c pc => exact .other rfl (fun _ _ _ => id) (Or.inl rfl) rfl
  | construct c pc => exact .other rfl (fun _ _ _ => id) (Or.inl rfl) rfl
  | lockClients p l pc lock => exact .other rfl (fun _ _ _ => id) (Or.inl rfl) rfl
  | pushClient p pc => exact .other rfl (fun _ _ _ => id) (Or.inl rfl) rfl
  | unlockClients pc => exact .other rfl (fun _ _ _ => id) (Or.inl rfl) rfl
  | disconnect p connected => exact .other rfl (fun _ _ _ => id) (Or.inl rfl) rfl

end RecordStep

/-! ## The invariant -/

structure RecordInv (s : Host) : Prop where
  client : s.mWebsocketClient = (lastOf recording s.log).getD 0
  carried : ∀ p c m, (s.handlers p).carried = some (c, m) → Recorded p c m s.log
  pushed : EachAfter PushedAsRecorded s.log
  dispatching : s.main.site = some .dispatch → dispatches s.log ≠ []
  sent : EachAfter SentToLastRecorded s.log

theorem recordInv_init : RecordInv {} where
  client := rfl
  carried _ _ _ h := nomatch h
  pushed := eachAfter_nil _
  dispatching h := nomatch h
  sent := eachAfter_nil _

section Invariant
variable {soy : MessageBufferLib} {s t : Host} {a : Act}

theorem Event.OffRecord.concat {e : Event} (he : e.OffRecord) (log : List Event) :
    (∀ p, ¬ e.RecordedBy p) ∧ recording e = none ∧ PushedAsRecorded log e ∧
      SentToLastRecorded log e := by
  cases e <;> first
    | exact absurd he not_false
    | exact ⟨fun _ => not_false, rfl, nofun, nofun⟩

theorem dispatches_concat_ne_nil {log : List Event} (h : dispatches log ≠ []) (e : Event) :
    dispatches (log ++ [e]) ≠ [] := by
  rw [dispatches_concat]
  exact List.append_ne_nil_of_left_ne_nil h _

theorem RecordInv.sentToLastRecorded (h : RecordInv s) (hq : QueueInv s) {site : Site}
    (hsite : s.main.site = some site) (m : StdString) :
    SentToLastRecorded s.log (.sent site s.mWebsocketClient m) := by
  intro c r he
  obtain ⟨rfl, rfl, rfl⟩ := Event.sent.inj he
  obtain ⟨p, c₀, m', before, between, after, hd⟩ :=
    exists_dispatching hq.kept h.pushed (h.dispatching hsite)
  obtain ⟨c', hlast⟩ := hd.exists_lastOf
  have hclient : s.mWebsocketClient = c' := by rw [h.client, hlast, Option.getD_some]
  rw [hclient]
  exact ⟨hlast, p, c₀, m', before, between, after, hd, hd.lastRecorded hlast⟩

theorem recordInv_step (h : RecordInv s) (hq : QueueInv s) (hstep : step soy s a = some t) :
    RecordInv t := by
  cases (step_cases hstep).recordStep with
  | quiet client carried log site =>
    rcases log with log | ⟨e, log, he⟩
    · refine ⟨by rw [client, log, h.client], ?_, log ▸ h.pushed, ?_, log ▸ h.sent⟩
      · exact fun p c m hp => log ▸ h.carried p c m (carried p c m hp)
      · exact fun ht => (site ht).elim (fun hs => log ▸ h.dispatching hs) id
    · obtain ⟨hby, hrec, hpushed, hsent⟩ := he.concat s.log
      refine ⟨?_, ?_, log ▸ h.pushed.concat hpushed, ?_,
        log ▸ h.sent.concat hsent⟩
      · rw [client, log, lastOf_concat_none hrec, h.client]
      · exact fun p c m hp => log ▸ (h.carried p c m (carried p c m hp)).concat (hby p)
      · exact fun ht => (site ht).elim
          (fun hs => log ▸ dispatches_concat_ne_nil (h.dispatching hs) e) id
  | record p c m client handlers log main =>
    refine ⟨?_, ?_, log ▸ h.pushed.concat nofun, ?_,
      log ▸ h.sent.concat nofun⟩
    · have hlast : lastOf recording (s.log ++ [.recorded p c m]) = some c := lastOf_concat_some rfl
      rw [client, log, hlast, Option.getD_some]
    · intro p' c' m' hp'
      rw [handlers] at hp'
      by_cases hp : p' = p
      · subst hp
        rw [Function.update_self] at hp'
        cases hp'
        exact log ▸ recorded_concat s.log
      · rw [Function.update_of_ne hp] at hp'
        exact log ▸ (h.carried p' c' m' hp').concat (Ne.symm hp)
    · rw [main]
      exact fun hs => log ▸ dispatches_concat_ne_nil (h.dispatching hs) _
  | push p c m pc client handlers log main =>
    have hp : Recorded p c m s.log := h.carried p c m (by rw [pc]; rfl)
    have hpushed : PushedAsRecorded s.log (.pushed p c m) := by
      intro p' c' m' he
      obtain ⟨rfl, rfl, rfl⟩ := Event.pushed.inj he
      exact hp
    refine ⟨?_, ?_, log ▸ h.pushed.concat hpushed, ?_,
      log ▸ h.sent.concat nofun⟩
    · rw [client, log, lastOf_concat_none rfl, h.client]
    · intro p' c' m' hp'
      have hold := carried_update handlers nofun p' c' m' hp'
      exact log ▸ (h.carried p' c' m' hold).concat not_false
    · rw [main]
      exact fun hs => log ▸ dispatches_concat_ne_nil (h.dispatching hs) _
  | send site m client handlers log before after =>
    have hsent := h.sentToLastRecorded hq before m
    refine ⟨?_, ?_, log ▸ h.pushed.concat nofun, ?_,
      log ▸ h.sent.concat hsent⟩
    · rw [client, log, lastOf_concat_none rfl, h.client]
    · intro p c m' hp
      rw [handlers] at hp
      exact log ▸ (h.carried p c m' hp).concat not_false
    · intro hs
      exact log ▸ dispatches_concat_ne_nil (h.dispatching (before.trans (after.symm.trans hs))) _

end Invariant

/-! ## What V8 answers, and `Send` -/

/-- What V8 answers while it dispatches a message, with how many have been dispatched by then. -/
def respondedDuring (s : Host) (a : Act) : Option (ℕ × StdString) :=
  if s.main.site = some .dispatch then (response a).map ((dispatches s.log).length, ·) else none

/-- What `Send` of the server is called with while a message is dispatched. -/
def sentDuring (pre : List Event) : Event → Option (ℕ × StdString)
  | .sent .dispatch _ m => some ((dispatches pre).length, m)
  | _ => none

def MainPc.given : MainPc → Option StdString
  | .inV8 site (.sendResponse m) => if site = .dispatch then some m else none
  | _ => none

namespace Host

def unsentDuring (s : Host) : List (ℕ × StdString) :=
  (s.main.given.map ((dispatches s.log).length, ·)).toList

def respondedSoFar (s : Host) : List (ℕ × StdString) :=
  filterMapAfter sentDuring [] s.log ++ s.unsentDuring

end Host

section Responded
variable {soy : MessageBufferLib} {s t : Host} {a : Act}

theorem sentDuring_concat (log : List Event) (e : Event) :
    filterMapAfter sentDuring [] (log ++ [e]) =
      filterMapAfter sentDuring [] log ++ (sentDuring log e).toList :=
  filterMapAfter_concat sentDuring [] log e

theorem respondedDuring_of_response (h : response a = none) : respondedDuring s a = none := by
  rw [respondedDuring, h]
  exact ite_self _

theorem respondedSoFar_eq (given : s.main.given = none) :
    s.respondedSoFar = filterMapAfter sentDuring [] s.log := by
  rw [Host.respondedSoFar, Host.unsentDuring, given]
  exact List.append_nil _

theorem respondedSoFar_quiet (given : s.main.given = none) (given' : t.main.given = none)
    (log : t.log = s.log ∨ ∃ e, t.log = s.log ++ [e] ∧ sentDuring s.log e = none)
    (quiet : response a = none) :
    t.respondedSoFar = s.respondedSoFar ++ (respondedDuring s a).toList := by
  have hlog : filterMapAfter sentDuring [] t.log = filterMapAfter sentDuring [] s.log := by
    rcases log with log | ⟨e, log, he⟩
    · rw [log]
    · rw [log, sentDuring_concat, he]
      exact List.append_nil _
  rw [respondedDuring_of_response quiet, respondedSoFar_eq given, respondedSoFar_eq given', hlog]
  exact (List.append_nil _).symm

theorem respondedSoFar_respond {site : Site} {m : StdString} (pc : s.main = .inV8 site .script)
    (text : response a = some m) (log : t.log = s.log)
    (ht : t.main = .inV8 site (.sendResponse m)) :
    t.respondedSoFar = s.respondedSoFar ++ (respondedDuring s a).toList := by
  have hnone : s.main.given = none := by rw [pc]; rfl
  rw [respondedSoFar_eq hnone, Host.respondedSoFar, Host.unsentDuring, log, respondedDuring, text,
    pc, ht]
  cases site <;> simp [MainPc.given, MainPc.site]

theorem respondedSoFar_send {site : Site} {c : SoyRef} {m : StdString}
    (pc : s.main = .inV8 site (.sendResponse m)) (log : t.log = s.log ++ [.sent site c m])
    (ht : t.main.given = none) (quiet : response a = none) :
    t.respondedSoFar = s.respondedSoFar ++ (respondedDuring s a).toList := by
  rw [respondedDuring_of_response quiet, respondedSoFar_eq ht, Host.respondedSoFar,
    Host.unsentDuring, log, pc, sentDuring_concat]
  cases site <;> simp [MainPc.given, sentDuring]

theorem MainStep.respondedSoFar {a : MainAct} (h : MainStep s a t) :
    t.respondedSoFar = s.respondedSoFar ++ (respondedDuring s (.main a)).toList := by
  cases h with
  | returns site pc =>
    cases site <;> exact respondedSoFar_quiet (by rw [pc]; rfl) rfl (Or.inl rfl) rfl
  | quit site pc =>
    have hnone : s.main.given = none := by rw [pc]; rfl
    exact respondedSoFar_quiet hnone hnone (Or.inr ⟨_, rfl, rfl⟩) rfl
  | respond site callId message m pc text => exact respondedSoFar_respond pc text rfl rfl
  | send site m pc => exact respondedSoFar_send pc rfl rfl rfl
  | _ =>
    refine respondedSoFar_quiet (by simp only [*, MainPc.given]) rfl ?_ rfl
    first
      | exact Or.inl rfl
      | exact Or.inr ⟨_, rfl, rfl⟩

theorem respondedSoFar_step (hstep : step soy s a = some t) :
    t.respondedSoFar = s.respondedSoFar ++ (respondedDuring s a).toList := by
  have h := step_cases hstep
  have hother : (∀ b, a ≠ .main b) → response a = none →
      t.respondedSoFar = s.respondedSoFar ++ (respondedDuring s a).toList := fun ha quiet => by
    have same := h.sameMain ha
    have hlog : dispatches t.log = dispatches s.log ∧
        filterMapAfter sentDuring [] t.log = filterMapAfter sentDuring [] s.log := by
      rcases same.log with log | ⟨e, log, he⟩
      · rw [log]
        exact ⟨rfl, rfl⟩
      · rw [log, sentDuring_concat]
        cases e <;> first
          | exact ⟨filterMap_concat_of_none rfl _, List.append_nil _⟩
          | exact absurd trivial he
    rw [respondedDuring_of_response quiet, Host.respondedSoFar, Host.respondedSoFar,
      Host.unsentDuring, Host.unsentDuring, hlog.1, hlog.2, same.main]
    exact (List.append_nil _).symm
  cases a with
  | main b =>
    cases h with
    | main _ t step => exact step.respondedSoFar
  | _ => exact hother nofun rfl

theorem responded_of_run {acts : List Act} (h : run (step soy) {} acts = some s) :
    outputs (step soy) respondedDuring {} acts = s.respondedSoFar := by
  have hall : AllSteps (step soy) (fun _ _ => True) {} acts :=
    allSteps_of_forall (fun _ _ => trivial) _ acts
  have hseen := (seen_eq_outputs (I := fun _ => True) (f := Host.respondedSoFar)
    (g := respondedDuring) (h := some) (fun s a t _ _ hstep => ⟨trivial, by
      rw [respondedSoFar_step hstep, List.filterMap_some]⟩) trivial hall h).2
  rw [hseen, List.filterMap_some]
  rfl

end Responded

/-! ## Every response of every run -/

/-- `Send` is called for every response to a message, once and in order, up to one that it has not
been called for yet: for the client recorded last. Unless it throws, the response is queued, and on
a peer of that client only. -/
structure ResponsesRouted (soy : MessageBufferLib) (acts : List Act) (s : Host) : Prop where
  responded : outputs (step soy) respondedDuring {} acts =
    filterMapAfter sentDuring [] s.log ++ s.unsentDuring
  sent : EachAfter SentToLastRecorded s.log
  kept : Queued s
  queued : EachAfter QueuedAsSent s.log
  queuedRef : ∀ p c m, Event.queued p c m ∈ s.log → (s.peer p).mConnectionRef = c
  queues : ∀ p, (s.peer p).writeQueue.filterMap messageText = s.log.filterMap (queuedOn p)

structure RoutingInv (s : Host) : Prop where
  queue : QueueInv s
  server : ServerInv s
  record : RecordInv s
  target : TargetInv s
  kept : Queued s

theorem routingInv_step {soy : MessageBufferLib} {s t : Host} {a : Act} (h : RoutingInv s)
    (hstep : step soy s a = some t) : RoutingInv t where
  queue := queueInv_step h.queue hstep
  server := serverInv_step h.server hstep
  record := recordInv_step h.record h.queue hstep
  target := targetInv_step h.target h.server hstep
  kept := queued_step h.kept hstep

theorem responses_routed {soy : MessageBufferLib} {acts : List Act} {s : Host}
    (h : run (step soy) {} acts = some s) : ResponsesRouted soy acts s := by
  have hinit : RoutingInv {} :=
    ⟨queueInv_init, serverInv_init, recordInv_init, targetInv_init, queued_init⟩
  have hinv := invariant (fun _ _ _ => routingInv_step) hinit h
  exact {
    responded := responded_of_run h
    sent := hinv.record.sent
    kept := hinv.kept
    queued := hinv.target.queued
    queuedRef := fun p c m hm => (hinv.target.queuedRef p c m hm).2
    queues := hinv.target.queues }

def crossing : List Act :=
  -- the message of client 1 is dispatched, and one of client 2 comes in before the response
  clientConnects 1 ++ handshakes 0 ++ clientConnects 2 ++ handshakes 1 ++ textArrives 0 [7] ++
    onTextMessage 0 ++ mainDrains ++ [.main .next, .main .next] ++ textArrives 1 [8] ++
    [.handler 1, .main (.sendResponse 0 (.of8 [9])), .main .next]

def beforeResponse : List Event :=
  [.textMessage 0 1 [7], .recorded 0 1 [7], .acquired 0 1 [7], .pushed 0 1 [7], .pumpEntered,
    .drainEntered [[7]], .dispatched [7], .textMessage 1 2 [8], .recorded 1 2 [8]]

theorem crossing_log : (run (step firstOpcodeBuffer) {} crossing).map Host.log =
    some (beforeResponse ++ [.sent .dispatch 2 [9]]) := by
  decide +kernel

theorem responses_routed_crossing : ∃ s, run (step firstOpcodeBuffer) {} crossing = some s ∧
    outputs (step firstOpcodeBuffer) respondedDuring {} crossing = [(1, [9])] ∧
      Event.sent .dispatch 2 [9] ∈ s.log ∧ ResponsesRouted firstOpcodeBuffer crossing s := by
  obtain ⟨s, hs, hlog⟩ := Option.map_eq_some_iff.mp crossing_log
  have hresponded : outputs (step firstOpcodeBuffer) respondedDuring {} crossing = [(1, [9])] := by
    decide +kernel
  exact ⟨s, hs, hresponded, hlog ▸ List.mem_append_right _ List.mem_cons_self, responses_routed hs⟩

theorem response_to_other_client : ¬ ∀ soy acts s,
    run (step soy) {} acts = some s → EachAfter SentToSource s.log := by
  intro h
  obtain ⟨s, hs, hlog⟩ := Option.map_eq_some_iff.mp crossing_log
  obtain ⟨p, m, before, between, after, hd⟩ := h _ _ s hs _ _ [] hlog 2 [9] rfl
  -- no message of client 2 was pushed
  have hmem : Event.pushed p 2 m ∈ before ++ .recorded p 2 m :: between ++ .pushed p 2 m :: after :=
    List.mem_append_right _ List.mem_cons_self
  rw [← hd.split] at hmem
  simp [beforeResponse] at hmem

end V8Min
