import V8InspectorMinimal.Host.Rest

/-! The host without websockets: a `TPredefinedMessageChannel` passes its commands to `OnMessage`
when it is made, and leaves the responses alone. There is no thread but the main one. -/

namespace V8Min
open Locks Runs Socket

section Predefined
variable {s t : Host} {a : MainAct} {commands : List StdString}

structure PredefinedInv (commands : List StdString) (s : Host) : Prop where
  kept : dispatches s.log ++ s.messages = commands
  owner : s.messagesLock.owner = if s.main.draining then some .main else none
  empty : s.main = .unlockMessages → s.messages = []
  pop : s.main = .popMessage → s.messages ≠ []
  unsent : s.main.sending = none
  returned : ∀ site e, s.main ≠ .threw site e
  server : s.mWebsocketServer = {}

theorem PredefinedInv.move (h : PredefinedInv commands s) {pc pc' : MainPc}
    (messages : t.messages = s.messages) (lock : t.messagesLock = s.messagesLock)
    (server : t.mWebsocketServer = s.mWebsocketServer)
    (log : t.log = s.log ∨ ∃ e, t.log = s.log ++ [e] ∧ e.OffQueue) (hs : s.main = pc)
    (ht : t.main = pc') (draining : pc'.draining = pc.draining)
    (empty : pc' = .unlockMessages → s.messages = []) (pop : pc' = .popMessage → s.messages ≠ [])
    (unsent : pc'.sending = none) (returned : ∀ site e, pc' ≠ .threw site e) :
    PredefinedInv commands t where
  kept := by
    have hlog : dispatches t.log = dispatches s.log := by
      rcases log with log | ⟨e, log, hoff⟩
      · rw [log]
      · rw [log]
        exact (hoff.concat s.log).2.2.1
    rw [hlog, messages]
    exact h.kept
  owner := by
    rw [lock, ht, draining, ← hs]
    exact h.owner
  empty hpc := messages ▸ empty (ht ▸ hpc)
  pop hpc := messages ▸ pop (ht ▸ hpc)
  unsent := ht ▸ unsent
  returned := ht ▸ returned
  server := server.trans h.server

theorem PredefinedInv.mainFree (h : PredefinedInv commands s) : MainFree s where
  messages pc := by
    have howner := h.owner
    rw [pc] at howner
    exact howner
  unlocked site c m pc := nomatch pc ▸ h.unsent
  takes c m sending := nomatch sending.symm.trans h.unsent
  target c p target := by
    obtain ⟨m, sending⟩ := MainPc.sending_of_target target
    cases sending.symm.trans h.unsent

end Predefined

end V8Min
