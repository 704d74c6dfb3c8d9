import V8InspectorMinimal.Host.Peers
import V8InspectorMinimal.Host.Queue

/-! The way of a client's text from the fragments on the wire to V8: through the buffers of its
peer, `OnTextMessage` on its read thread and the queue that all clients share. -/

namespace V8Min.Socket
open History

section Reader
variable {soy : MessageBufferLib} {p q : Peer} {a : ReaderAct}

end Reader
end V8Min.Socket

namespace V8Min
open Runs History Framing Socket

/-! ## The fragments of a peer -/

section Step
variable {soy : MessageBufferLib} {s t : Host} {a : Act}

def textMessageOf (p : PeerId) : Event → Option StdString
  | .textMessage p' _ m => if p' = p then some m else none
  | _ => none

def textFrom (p : PeerId) (r : Received) : Option StdString :=
  if r.1 = p then some (textOf r) else none

def HandlerPc.text : HandlerPc → List StdString
  | .record _ m | .lock _ m | .pushBack _ m => [m]
  | _ => []

def Passed (s : Host) : Prop := ∀ p, s.log.filterMap (textMessageOf p) =
  (pushes s.log).filterMap (textFrom p) ++ (s.handlers p).text

theorem Passed.quiet (h : Passed s) (log : t.log = s.log ∨ ∃ e, t.log = s.log ++ [e] ∧
      (∀ p, textMessageOf p e = none) ∧ pushing e = none)
    (text : ∀ p, (t.handlers p).text = (s.handlers p).text) : Passed t := by
  intro p
  rcases log with log | ⟨e, log, htext, hpush⟩
  · rw [log, text, h p]
  · rw [log, text, filterMap_concat_of_none (htext p), pushes_concat, hpush, h p]
    simp

theorem Passed.call (h : Passed s) {p : PeerId} {c : SoyRef} {m : StdString}
    (pc : (s.handlers p).text = []) (log : t.log = s.log ++ [.textMessage p c m])
    (handlers : t.handlers = Function.update s.handlers p (.record c m)) : Passed t := by
  intro p'
  rw [log, filterMap_concat, pushes_concat, handlers, h p']
  by_cases hp : p' = p
  · subst hp
    rw [Function.update_self, pc]
    simp [textMessageOf, pushing, HandlerPc.text]
  · rw [Function.update_of_ne hp]
    simp [textMessageOf, pushing, Ne.symm hp]

theorem Passed.push (h : Passed s) {p : PeerId} {c : SoyRef} {m : StdString}
    (pc : s.handlers p = .pushBack c m) (log : t.log = s.log ++ [.pushed p c m])
    (handlers : t.handlers = Function.update s.handlers p .unlock) : Passed t := by
  intro p'
  rw [log, filterMap_concat, pushes_concat, handlers, h p']
  by_cases hp : p' = p
  · subst hp
    rw [Function.update_self, pc]
    simp [textMessageOf, pushing, textFrom, textOf, HandlerPc.text]
  · rw [Function.update_of_ne hp]
    simp [textMessageOf, pushing, textFrom, Ne.symm hp]

end Step

/-! ## Every text of every run -/

section Run
variable {soy : MessageBufferLib} {acts : List Act} {s : Host} {p : PeerId}

end Run
end V8Min
