import V8InspectorMinimal.Base.Framing
import V8InspectorMinimal.Base.History
import V8InspectorMinimal.Socket.PeerSteps

/-! Fragmented messages. The buffer that `AllocProtocol` shares with SoyLib's decoder holds exactly
the unfinished message, from the fragment that begins it until the handler of the complete message
has returned, whatever requests for a handshake come between and whatever other threads send. -/

namespace V8Min.Socket
open Runs History Framing

/-! ## What the log of a peer says -/

def decodedFragment : PeerEvent → Option Fragment
  | .decoded _ f => some f
  | _ => none

def delivery : PeerEvent → Option (Kind × List UInt8)
  | .delivered k data => some (k, data)
  | _ => none

def usedBuffer : PeerEvent → Option BufferId
  | .decoded b _ => some b
  | _ => none

def fragments (log : List PeerEvent) : List Fragment := log.filterMap decodedFragment

def deliveries (log : List PeerEvent) : List (Kind × List UInt8) := log.filterMap delivery

def used (log : List PeerEvent) : List BufferId := log.filterMap usedBuffer

def payloadOf (fs : List Fragment) : List UInt8 := fs.flatMap Fragment.payload

def messageOf (soy : MessageBufferLib) (fs : List Fragment) : Kind × List UInt8 :=
  (if soy.isComplete .text fs then .text else .binary, payloadOf fs)

def messages (soy : MessageBufferLib) (log : List PeerEvent) : List (Kind × List UInt8) :=
  (complete Fragment.fin (fragments log)).map (messageOf soy)

def rest (log : List PeerEvent) : List Fragment := unfinished Fragment.fin (fragments log)

/-- Between two messages `AllocProtocol` hands out an empty buffer that no fragment has been decoded
into, in the middle of one the buffer of its last fragment, with all its fragments in it. -/
def HandsOutRight (pre : List PeerEvent) (e : PeerEvent) : Prop :=
  ∀ b content, e = .allocated b content → content = rest pre ∧
    (rest pre = [] → b ∉ used pre) ∧ (rest pre ≠ [] → lastOf usedBuffer pre = some b)

section Log
variable (soy : MessageBufferLib) (log : List PeerEvent)

theorem fragments_concat (e : PeerEvent) :
    fragments (log ++ [e]) = fragments log ++ (decodedFragment e).toList :=
  filterMap_concat decodedFragment log e

theorem deliveries_concat (e : PeerEvent) :
    deliveries (log ++ [e]) = deliveries log ++ (delivery e).toList :=
  filterMap_concat delivery log e

theorem used_concat (e : PeerEvent) : used (log ++ [e]) = used log ++ (usedBuffer e).toList :=
  filterMap_concat usedBuffer log e

theorem messages_concat_decoded (b : BufferId) (f : Fragment) :
    messages soy (log ++ [.decoded b f]) =
      if f.fin then messages soy log ++ [messageOf soy (rest log ++ [f])]
      else messages soy log := by
  unfold messages
  rw [fragments_concat]
  simp only [decodedFragment, Option.toList_some, complete_concat]
  split
  · rw [List.map_append, List.map_singleton]
    rfl
  · rfl

theorem rest_concat_decoded (b : BufferId) (f : Fragment) :
    rest (log ++ [.decoded b f]) = if f.fin then [] else rest log ++ [f] := by
  unfold rest
  rw [fragments_concat]
  simp only [decodedFragment, Option.toList_some, unfinished_concat]

theorem fragments_concat_of_none {e : PeerEvent} (h : decodedFragment e = none) :
    fragments (log ++ [e]) = fragments log := filterMap_concat_of_none h log

theorem messages_concat_of_none {e : PeerEvent} (h : decodedFragment e = none) :
    messages soy (log ++ [e]) = messages soy log := by
  unfold messages
  rw [fragments_concat_of_none log h]

theorem rest_concat_of_none {e : PeerEvent} (h : decodedFragment e = none) :
    rest (log ++ [e]) = rest log := by
  unfold rest
  rw [fragments_concat_of_none log h]

theorem used_concat_of_none {e : PeerEvent} (h : usedBuffer e = none) :
    used (log ++ [e]) = used log := filterMap_concat_of_none h log

theorem deliveries_concat_of_none {e : PeerEvent} (h : delivery e = none) :
    deliveries (log ++ [e]) = deliveries log := filterMap_concat_of_none h log

end Log

/-! ## The assumptions on SoyLib's buffer -/

/-- Decoding a fragment with a payload appends the payload, the last fragment completes the buffer,
and a complete buffer is a text or a binary message but not both. -/
structure MessageBufferLib.Lawful (soy : MessageBufferLib) : Prop where
  complete_iff : ∀ fs f, (∀ g ∈ fs, g.fin = false) → (∀ g ∈ fs ++ [f], g.payload ≠ []) →
    ((∃ k, soy.isComplete k (fs ++ [f]) = true) ↔ f.fin = true)
  exclusive : ∀ fs, soy.isComplete .text fs = true → soy.isComplete .binary fs = false
  data_eq : ∀ k fs, (∀ g ∈ fs, g.payload ≠ []) → soy.isComplete k fs = true →
    soy.data k fs = payloadOf fs

theorem MessageBufferLib.Lawful.messageOf_eq {soy : MessageBufferLib} (hsoy : soy.Lawful) {k : Kind}
    {fs : List Fragment} (hk : soy.isComplete k fs = true) :
    messageOf soy fs = (k, payloadOf fs) := by
  cases k with
  | text => rw [messageOf, if_pos hk]
  | binary =>
    have htext : ¬ soy.isComplete .text fs = true := fun ht =>
      absurd ((hsoy.exclusive fs ht).symm.trans hk) Bool.false_ne_true
    rw [messageOf, if_neg htext]

/-- The read thread decodes a request for the handshake or one fragment with a payload, and no
handler throws. -/
def DataAct (a : PeerAct) : Prop :=
  a ≠ .reader .handlerThrows ∧ ∀ reply fragment, a = .reader (.decoded reply fragment) →
    (∃ r, reply = some r ∧ fragment = none) ∨
      (reply = none ∧ ∃ f, fragment = some f ∧ f.payload ≠ [])

/-! ## The invariant -/

structure Assembly where
  log : List PeerEvent
  buffers : BufferId → List Fragment
  current : Option BufferId
  next : BufferId

def Assembly.emit (m : Assembly) (e : PeerEvent) : Assembly := { m with log := m.log ++ [e] }

def Assembly.decode (m : Assembly) (b : BufferId) (f : Fragment) : Assembly :=
  { m.emit (.decoded b f) with buffers := Function.update m.buffers b (m.buffers b ++ [f]) }

theorem Assembly.decode_buffers (m : Assembly) (b : BufferId) (f : Fragment) :
    (m.decode b f).buffers b = m.buffers b ++ [f] := Function.update_self ..

def Peer.assembly (p : Peer) : Assembly := ⟨p.log, p.buffers, p.mCurrentMessage, p.nextBuffer⟩

section Invariant
variable (soy : MessageBufferLib)

structure Ready (m : Assembly) (b : BufferId) : Prop where
  told : deliveries m.log = messages soy m.log
  current : m.current = some b
  content : m.buffers b = rest m.log
  fresh : rest m.log = [] → b ∉ used m.log
  begun : rest m.log ≠ [] → lastOf usedBuffer m.log = some b

structure Pending (m : Assembly) (b : BufferId) : Prop where
  rest_nil : rest m.log = []
  untold : messages soy m.log = deliveries m.log ++ [messageOf soy (m.buffers b)]
  ends : ∃ fs f, m.buffers b = fs ++ [f] ∧ f.fin = true ∧ ∀ g ∈ fs, g.fin = false
  payload : ∀ g ∈ m.buffers b, g.payload ≠ []

structure Served (m : Assembly) (k : Kind) (b : BufferId) : Prop where
  rest_nil : rest m.log = []
  told : deliveries m.log = messages soy m.log
  complete : soy.isComplete k (m.buffers b) = true

def Resting (m : Assembly) : Prop :=
  (deliveries m.log = messages soy m.log ∧ m.current = none ∧ rest m.log = []) ∨ ∃ b, Ready soy m b

def Undelivered (m : Assembly) (b : BufferId) : Prop :=
  (Ready soy m b ∧ rest m.log ≠ []) ∨ Pending soy m b

def AssemblyAt (m : Assembly) : ReaderPc → Prop
  | .idle | .allocProtocol | .setHasSent _ | .pushReply _ | .threw => Resting soy m
  | .unlockAlloc b | .decoding b => Ready soy m b
  | .onDataRecieved ⟨some _, _⟩ => Resting soy m
  | .onDataRecieved ⟨none, d⟩ => ∃ b, d = some b ∧ Undelivered soy m b
  | .testComplete .text b => Undelivered soy m b
  | .testComplete .binary b =>
    (Undelivered soy m b ∧ soy.isComplete .text (m.buffers b) = false) ∨
      (Served soy m .text b ∧ m.current = none)
  | .callHandler k b => Pending soy m b ∧ soy.isComplete k (m.buffers b) = true
  | .handling k b | .lockReset k b | .reset k b => Served soy m k b
  | .unlockReset k b => Served soy m k b ∧ m.current = none

structure AssemblyInv (m : Assembly) (pc : ReaderPc) : Prop where
  payload : ∀ f ∈ fragments m.log, f.payload ≠ []
  used_lt : ∀ b ∈ used m.log, b < m.next
  current_lt : ∀ b, m.current = some b → b < m.next
  handed : EachAfter HandsOutRight m.log
  here : AssemblyAt soy m pc

theorem assemblyInv_init (c : SoyRef) :
    AssemblyInv soy (PeerSystem.init c).peer.assembly (PeerSystem.init c).peer.reader where
  payload _ hf := nomatch hf
  used_lt _ hb := nomatch hb
  current_lt _ hb := nomatch hb
  handed := eachAfter_nil _
  here := Or.inl ⟨rfl, rfl, rfl⟩

end Invariant

section Steps
variable {soy : MessageBufferLib} {m : Assembly} {b : BufferId}

theorem AssemblyInv.move {pc pc' : ReaderPc} (h : AssemblyInv soy m pc)
    (h' : AssemblyAt soy m pc') : AssemblyInv soy m pc' :=
  ⟨h.payload, h.used_lt, h.current_lt, h.handed, h'⟩

theorem AssemblyInv.of_pc {pc pc' : ReaderPc} (h : AssemblyInv soy m pc) (hpc : pc = pc') :
    AssemblyInv soy m pc' := hpc ▸ h

theorem nonempty_rest (h : ∀ f ∈ fragments m.log, f.payload ≠ []) :
    ∀ g ∈ rest m.log, g.payload ≠ [] := fun g hg => h g (mem_of_mem_unfinished _ hg)

theorem Ready.incomplete (hsoy : soy.Lawful) (h : Ready soy m b) (hbegun : rest m.log ≠ [])
    (hpay : ∀ f ∈ fragments m.log, f.payload ≠ []) (k : Kind) :
    soy.isComplete k (m.buffers b) = false := by
  obtain ⟨fs, f, hfs⟩ : ∃ fs f, rest m.log = fs ++ [f] := by
    rcases List.eq_nil_or_concat (rest m.log) with hnil | ⟨fs, f, hf⟩
    · exact absurd hnil hbegun
    · exact ⟨fs, f, by rw [hf, List.concat_eq_append]⟩
  have hfin : ∀ g ∈ fs ++ [f], g.fin = false := fun g hg =>
    fin_of_mem_unfinished Fragment.fin (hfs ▸ hg)
  have hiff := hsoy.complete_iff fs f (fun g hg => hfin g (List.mem_append_left _ hg))
    (hfs ▸ nonempty_rest hpay)
  rw [h.content, hfs]
  apply eq_false_of_ne_true
  intro hk
  have hf := hfin f (List.mem_append_right _ (List.mem_singleton_self f))
  exact absurd ((hiff.mp ⟨k, hk⟩).symm.trans hf) (by decide)

theorem Pending.complete (hsoy : soy.Lawful) (h : Pending soy m b) :
    ∃ k, soy.isComplete k (m.buffers b) = true := by
  obtain ⟨fs, f, hfs, hf, hfin⟩ := h.ends
  rw [hfs]
  exact (hsoy.complete_iff fs f hfin (hfs ▸ h.payload)).mpr hf

theorem Undelivered.pending (hsoy : soy.Lawful) (h : Undelivered soy m b)
    (hpay : ∀ f ∈ fragments m.log, f.payload ≠ []) {k : Kind}
    (hk : soy.isComplete k (m.buffers b) = true) : Pending soy m b := by
  rcases h with ⟨h, hbegun⟩ | h
  · exact absurd ((h.incomplete hsoy hbegun hpay k).symm.trans hk) (by decide)
  · exact h

theorem Undelivered.ready (hsoy : soy.Lawful) (h : Undelivered soy m b)
    (htext : soy.isComplete .text (m.buffers b) = false)
    (hbinary : soy.isComplete .binary (m.buffers b) = false) : Ready soy m b := by
  rcases h with ⟨h, -⟩ | h
  · exact h
  · obtain ⟨k, hk⟩ := h.complete hsoy
    cases k with
    | text => exact absurd (htext.symm.trans hk) (by decide)
    | binary => exact absurd (hbinary.symm.trans hk) (by decide)

/-! ## One step -/

theorem Ready.emit (h : Ready soy m b) {e : PeerEvent} (hfragment : decodedFragment e = none)
    (hdelivery : delivery e = none) (hused : usedBuffer e = none) : Ready soy (m.emit e) b where
  told := (deliveries_concat_of_none _ hdelivery).trans
    (h.told.trans (messages_concat_of_none soy _ hfragment).symm)
  current := h.current
  content := h.content.trans (rest_concat_of_none _ hfragment).symm
  fresh hnil := by
    rw [Assembly.emit, used_concat_of_none _ hused]
    exact h.fresh ((rest_concat_of_none _ hfragment).symm.trans hnil)
  begun hne := by
    rw [Assembly.emit, lastOf_concat_none hused]
    exact h.begun ((rest_concat_of_none _ hfragment) ▸ hne)

theorem Resting.threw (h : Resting soy m) (e : AssertException) :
    Resting soy (m.emit (.threw e)) := by
  rcases h with ⟨htold, hcur, hrest⟩ | ⟨b, hb⟩
  · refine Or.inl ⟨?_, hcur, (rest_concat_of_none _ rfl).trans hrest⟩
    exact (deliveries_concat_of_none _ rfl).trans
      (htold.trans (messages_concat_of_none soy _ rfl).symm)
  · exact Or.inr ⟨b, hb.emit rfl rfl rfl⟩

theorem AssemblyInv.emit {pc pc' : ReaderPc} (h : AssemblyInv soy m pc) {e : PeerEvent}
    (hfragment : decodedFragment e = none) (hused : usedBuffer e = none)
    (hhanded : HandsOutRight m.log e) (hat : AssemblyAt soy (m.emit e) pc') :
    AssemblyInv soy (m.emit e) pc' where
  payload := by
    rw [Assembly.emit, fragments_concat_of_none _ hfragment]
    exact h.payload
  used_lt := by
    rw [Assembly.emit, used_concat_of_none _ hused]
    exact h.used_lt
  current_lt := h.current_lt
  handed := h.handed.concat hhanded
  here := hat

theorem assemblyInv_alloc {p : Peer} (h : AssemblyInv soy p.assembly .allocProtocol) :
    AssemblyInv soy p.allocProtocol.1.assembly (.unlockAlloc p.allocProtocol.2) := by
  rcases h.here with ⟨htold, hcur, hrest⟩ | ⟨b, hb⟩
  · have hnew : p.allocProtocol = ({ p with
        mCurrentMessage := some p.nextBuffer
        buffers := Function.update p.buffers p.nextBuffer []
        nextBuffer := p.nextBuffer + 1 }, p.nextBuffer) := by
      rw [Peer.allocProtocol, show p.mCurrentMessage = none from hcur]
    rw [hnew]
    exact {
      payload := h.payload
      used_lt := fun b hb => Nat.lt_succ_of_lt (h.used_lt b hb)
      current_lt := fun b hb => Option.some.inj hb ▸ Nat.lt_succ_self _
      handed := h.handed
      here := {
        told := htold
        current := rfl
        content := (Function.update_self ..).trans hrest.symm
        fresh := fun _ hb => absurd (h.used_lt _ hb) (Nat.lt_irrefl _)
        begun := fun hne => absurd hrest hne } }
  · have hold : p.allocProtocol = (p, b) := by
      rw [Peer.allocProtocol, show p.mCurrentMessage = some b from hb.current]
    rw [hold]
    exact h.move hb

theorem assemblyInv_unlockAlloc (h : AssemblyInv soy m (.unlockAlloc b)) :
    AssemblyInv soy (m.emit (.allocated b (m.buffers b))) (.decoding b) := by
  have hready : Ready soy m b := h.here
  refine h.emit rfl rfl (fun c content he => ?_) (hready.emit rfl rfl rfl)
  obtain ⟨rfl, rfl⟩ := PeerEvent.allocated.inj he
  exact ⟨hready.content, hready.fresh, hready.begun⟩

theorem assemblyInv_decoded (h : AssemblyInv soy m (.decoding b)) {f : Fragment}
    (hf : f.payload ≠ []) :
    AssemblyInv soy (m.decode b f) (.onDataRecieved ⟨none, some b⟩) := by
  have hready : Ready soy m b := h.here
  have hbuf : (m.decode b f).buffers b = rest m.log ++ [f] := by
    rw [Assembly.decode_buffers, hready.content]
  have hpay : ∀ g ∈ rest m.log ++ [f], g.payload ≠ [] := by
    intro g hg
    rcases List.mem_append.mp hg with hg | hg
    · exact nonempty_rest h.payload g hg
    · rw [List.mem_singleton.mp hg]
      exact hf
  have hdeliv : deliveries (m.decode b f).log = messages soy m.log :=
    (deliveries_concat_of_none _ rfl).trans hready.told
  refine ⟨?_, ?_, h.current_lt, ?_, b, rfl, ?_⟩
  · intro g hg
    rw [Assembly.decode, Assembly.emit, fragments_concat] at hg
    rcases List.mem_append.mp hg with hg | hg
    · exact h.payload g hg
    · rw [List.mem_singleton.mp hg]
      exact hf
  · intro c hc
    rw [Assembly.decode, Assembly.emit, used_concat] at hc
    rcases List.mem_append.mp hc with hc | hc
    · exact h.used_lt c hc
    · rw [List.mem_singleton.mp hc]
      exact h.current_lt b hready.current
  · exact h.handed.concat fun _ _ he => nomatch he
  · cases hfin : f.fin with
    | true =>
      refine Or.inr ⟨?_, ?_, ⟨rest m.log, f, hbuf, hfin, ?_⟩, hbuf ▸ hpay⟩
      · exact (rest_concat_decoded m.log b f).trans (if_pos hfin)
      · rw [hdeliv, hbuf]
        exact (messages_concat_decoded soy m.log b f).trans (if_pos hfin)
      · exact fun g hg => fin_of_mem_unfinished Fragment.fin hg
    | false =>
      have hnot : ¬ f.fin = true := fun ht => absurd (hfin.symm.trans ht) (by decide)
      have hrest : rest (m.decode b f).log = rest m.log ++ [f] :=
        (rest_concat_decoded m.log b f).trans (if_neg hnot)
      have hne : rest (m.decode b f).log ≠ [] := by
        rw [hrest]
        exact List.append_ne_nil_of_right_ne_nil _ (List.cons_ne_nil _ _)
      refine Or.inl ⟨⟨?_, hready.current, hbuf.trans hrest.symm, ?_, ?_⟩, hne⟩
      · rw [hdeliv]
        exact ((messages_concat_decoded soy m.log b f).trans (if_neg hnot)).symm
      · exact fun hnil => absurd hnil hne
      · exact fun _ => lastOf_concat_some rfl

theorem assemblyInv_deliver (hsoy : soy.Lawful) {k : Kind}
    (h : AssemblyInv soy m (.callHandler k b)) :
    AssemblyInv soy (m.emit (.delivered k (soy.data k (m.buffers b)))) (.handling k b) := by
  obtain ⟨hpend, hk⟩ := h.here
  refine h.emit rfl rfl (fun _ _ he => nomatch he)
    ⟨(rest_concat_of_none _ rfl).trans hpend.rest_nil, ?_, hk⟩
  have hdata : messageOf soy (m.buffers b) = (k, soy.data k (m.buffers b)) := by
    rw [hsoy.messageOf_eq hk, hsoy.data_eq k (m.buffers b) hpend.payload hk]
  rw [Assembly.emit, deliveries_concat, messages_concat_of_none soy _ rfl, hpend.untold, hdata]
  rfl

theorem assemblyInv_notComplete (hsoy : soy.Lawful) {k : Kind}
    (h : AssemblyInv soy m (.testComplete k b)) (hk : soy.isComplete k (m.buffers b) = false) :
    AssemblyInv soy m (nextKind k b) := by
  cases k with
  | text => exact h.move (Or.inl ⟨h.here, hk⟩)
  | binary =>
    rcases h.here with ⟨hu, htext⟩ | ⟨hserved, hcur⟩
    · exact h.move (Or.inr ⟨b, hu.ready hsoy htext hk⟩)
    · exact h.move (Or.inl ⟨hserved.told, hcur, hserved.rest_nil⟩)

theorem assemblyInv_isComplete (hsoy : soy.Lawful) {k : Kind}
    (h : AssemblyInv soy m (.testComplete k b)) (hk : soy.isComplete k (m.buffers b) = true) :
    AssemblyInv soy m (.callHandler k b) := by
  cases k with
  | text => exact h.move ⟨Undelivered.pending hsoy h.here h.payload hk, hk⟩
  | binary =>
    rcases h.here with ⟨hu, -⟩ | ⟨hserved, -⟩
    · exact h.move ⟨hu.pending hsoy h.payload hk, hk⟩
    · have hfalse := hsoy.exclusive _ hserved.complete
      exact absurd (hfalse.symm.trans hk) (by decide)

theorem assemblyInv_unlockReset {k : Kind} (h : AssemblyInv soy m (.unlockReset k b)) :
    AssemblyInv soy m (nextKind k b) := by
  obtain ⟨hserved, hcur⟩ := h.here
  cases k with
  | text => exact h.move (Or.inr ⟨hserved, hcur⟩)
  | binary => exact h.move (Or.inl ⟨hserved.told, hcur, hserved.rest_nil⟩)

theorem assemblyInv_reader (hsoy : soy.Lawful) {p q : Peer} {a : ReaderAct}
    (h : AssemblyInv soy p.assembly p.reader) (hact : DataAct (.reader a))
    (hstep : ReaderStep soy p a q) : AssemblyInv soy q.assembly q.reader := by
  cases hstep with
  | lockAlloc l pc lock => exact h.move (h.of_pc pc).here
  | alloc pc => exact assemblyInv_alloc (h.of_pc pc)
  | unlockAlloc b pc => exact assemblyInv_unlockAlloc (h.of_pc pc)
  | decodedNone b reply pc =>
    rcases hact.2 reply none rfl with ⟨r, rfl, -⟩ | ⟨-, f, hf, -⟩
    · exact h.move (Or.inr ⟨b, (h.of_pc pc).here⟩)
    · cases hf
  | decodedSome b reply f pc =>
    rcases hact.2 reply (some f) rfl with ⟨r, -, hf⟩ | ⟨rfl, f', hf, hpay⟩
    · cases hf
    · cases hf
      exact assemblyInv_decoded (h.of_pc pc) hpay
  | replyAgain r d pc sent =>
    exact h.emit rfl rfl (fun _ _ he => nomatch he) (Resting.threw (h.of_pc pc).here _)
  | replyFirst r d pc unsent => exact h.move (h.of_pc pc).here
  | noMessage pc =>
    obtain ⟨b, hd, -⟩ := (h.of_pc pc).here
    cases hd
  | hasMessage b pc =>
    obtain ⟨b', hd, hu⟩ := (h.of_pc pc).here
    cases hd
    exact h.move hu
  | setHasSent r pc => exact h.move (h.of_pc pc).here
  | pushReply r pc => exact h.move (h.of_pc pc).here
  | isComplete k b pc complete => exact assemblyInv_isComplete hsoy (h.of_pc pc) complete
  | notComplete k b pc incomplete => exact assemblyInv_notComplete hsoy (h.of_pc pc) incomplete
  | callHandler k b pc => exact assemblyInv_deliver hsoy (h.of_pc pc)
  | handlerReturns k b pc => exact h.move (h.of_pc pc).here
  | handlerThrows k b pc => exact absurd rfl hact.1
  | lockReset k b l pc lock => exact h.move (h.of_pc pc).here
  | reset k b pc =>
    have hserved : Served soy p.assembly k b := (h.of_pc pc).here
    exact ⟨h.payload, h.used_lt, fun _ hb => (nomatch hb), h.handed,
      ⟨hserved.rest_nil, hserved.told, hserved.complete⟩, rfl⟩
  | unlockReset k b pc => exact assemblyInv_unlockReset (h.of_pc pc)
  | readsOn pc survives => exact h.move (h.of_pc pc).here

theorem assemblyInv_step (hsoy : soy.Lawful) {s t : PeerSystem} {a : PeerAct} (hact : DataAct a)
    (h : AssemblyInv soy s.peer.assembly s.peer.reader) (hstep : peerStep soy s a = some t) :
    AssemblyInv soy t.peer.assembly t.peer.reader := by
  rcases (peerStep_cases hstep).peer_cases with ⟨b, rfl, hread⟩ | ⟨queue, ht⟩
  · exact assemblyInv_reader hsoy h hact hread
  · rw [ht]
    exact h

theorem Resting.told (h : Resting soy m) : deliveries m.log = messages soy m.log := by
  rcases h with ⟨htold, -⟩ | ⟨b, hb⟩
  · exact htold
  · exact hb.told

theorem Undelivered.told_or (h : Undelivered soy m b) :
    deliveries m.log = messages soy m.log ∨ ∃ b, Pending soy m b := by
  rcases h with ⟨h, -⟩ | h
  · exact Or.inl h.told
  · exact Or.inr ⟨b, h⟩

theorem AssemblyAt.told_or {pc : ReaderPc} (h : AssemblyAt soy m pc) :
    deliveries m.log = messages soy m.log ∨ ∃ b, Pending soy m b := by
  cases pc with
  | idle | allocProtocol | setHasSent r | pushReply r | threw => exact Or.inl (Resting.told h)
  | unlockAlloc b | decoding b => exact Or.inl (Ready.told h)
  | onDataRecieved d =>
    rcases d with ⟨_ | r, d⟩
    · obtain ⟨b, -, hu⟩ := h
      exact hu.told_or
    · exact Or.inl (Resting.told h)
  | testComplete k b =>
    cases k with
    | text => exact Undelivered.told_or h
    | binary =>
      rcases h with ⟨hu, -⟩ | ⟨hserved, -⟩
      · exact hu.told_or
      · exact Or.inl hserved.told
  | callHandler k b => exact Or.inr ⟨b, h.1⟩
  | handling k b | lockReset k b | reset k b => exact Or.inl (Served.told h)
  | unlockReset k b => exact Or.inl h.1.told

end Steps

/-- At most the message whose handler is about to be called is missing from the deliveries. -/
structure Reassembled (soy : MessageBufferLib) (p : Peer) : Prop where
  delivered : ∃ left, messages soy p.log = deliveries p.log ++ left ∧ left.length ≤ 1
  idle : p.reader = .idle → deliveries p.log = messages soy p.log
  handed : EachAfter HandsOutRight p.log

theorem AssemblyInv.reassembled {soy : MessageBufferLib} {p : Peer}
    (h : AssemblyInv soy p.assembly p.reader) : Reassembled soy p where
  delivered := by
    rcases h.here.told_or with htold | ⟨b, hpend⟩
    · exact ⟨[], by rw [List.append_nil]; exact htold.symm, Nat.zero_le 1⟩
    · exact ⟨[messageOf soy (p.buffers b)], hpend.untold, Nat.le_refl 1⟩
  idle hpc := Resting.told (h.of_pc hpc).here
  handed := h.handed

/-- Over every fragmentation of every sequence of messages, and every schedule. -/
theorem fragments_reassembled {soy : MessageBufferLib} (hsoy : soy.Lawful) {c : SoyRef}
    {acts : List PeerAct} (hacts : ∀ a ∈ acts, DataAct a) {s : PeerSystem}
    (h : run (peerStep soy) (.init c) acts = some s) : Reassembled soy s.peer := by
  have hstep := fun s a t hact hs => assemblyInv_step (s := s) (a := a) (t := t) hsoy hact hs
  exact (invariant_of_forall_mem hstep hacts (assemblyInv_init soy c) h).reassembled

def firstOpcodeBuffer : MessageBufferLib where
  isComplete k fs := fs.getLast?.any Fragment.fin &&
    (fs.head?.any fun f => decide (f.opcode = .text) == decide (k = .text))
  data _ fs := payloadOf fs
  readsOn := true

theorem firstOpcodeBuffer_lawful : firstOpcodeBuffer.Lawful where
  complete_iff fs f _ _ := by
    obtain ⟨g, hg⟩ : ∃ g, (fs ++ [f]).head? = some g := by
      cases fs <;> exact ⟨_, rfl⟩
    simp only [firstOpcodeBuffer, List.getLast?_concat, hg, Option.any_some, Bool.and_eq_true]
    constructor
    · exact fun ⟨_, hk⟩ => hk.1
    · intro hf
      by_cases ht : g.opcode = .text
      · exact ⟨.text, hf, by rw [ht]; rfl⟩
      · exact ⟨.binary, hf, by simp [ht]⟩
  exclusive fs h := by
    cases fs with
    | nil => cases h
    | cons f fs =>
      simp only [firstOpcodeBuffer, List.head?_cons, Option.any_some, Bool.and_eq_true] at h ⊢
      simp_all
  data_eq _ _ _ _ := rfl

def helloInTwo : List PeerAct :=
  -- the handshake, then "Hello" in two fragments
  [.reader .next, .reader .next, .reader .next, .reader (.decoded (some [1]) none), .reader .next,
    .reader .next, .reader .next, .reader .next, .reader .next, .reader .next,
    .reader (.decoded none (some ⟨.text, false, [0x48, 0x65]⟩)), .reader .next, .reader .next,
    .reader .next, .reader .next, .reader .next, .reader .next,
    .reader (.decoded none (some ⟨.continuation, true, [0x6C, 0x6C, 0x6F]⟩)), .reader .next,
    .reader .next, .reader .next, .reader .handlerReturns, .reader .next, .reader .next,
    .reader .next, .reader .next]

theorem fragments_reassembled_hello : ∃ s,
    run (peerStep firstOpcodeBuffer) (.init 1) helloInTwo = some s ∧
      Reassembled firstOpcodeBuffer s.peer ∧
      deliveries s.peer.log = [(.text, [0x48, 0x65, 0x6C, 0x6C, 0x6F])] := by
  have hd : (run (peerStep firstOpcodeBuffer) (.init 1) helloInTwo).map
      (fun s => deliveries s.peer.log) = some [(.text, [0x48, 0x65, 0x6C, 0x6C, 0x6F])] := by
    decide +kernel
  obtain ⟨s, hs, hlog⟩ := Option.map_eq_some_iff.mp hd
  have hacts : ∀ a ∈ helloInTwo, DataAct a := by simp [helloInTwo, DataAct]
  exact ⟨s, hs, fragments_reassembled firstOpcodeBuffer_lawful hacts hs, hlog⟩

end V8Min.Socket
