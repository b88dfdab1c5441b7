import Switchboard.Client.Basic
import Switchboard.Proofs.Exchange.Footprint
/-!
New signals, queues and controls, and the opening of a call out of them.
-/
namespace Switchboard

open Exchange

variable {x : Exchange} {s : SignalId} {q : QueueId} {c : ControlId} {t : TableId}

namespace Exchange

/-- A new signal has not been fired, and nor has a signal that does not exist yet. -/
@[simp] theorem fired_newSignal : (newSignal x).2.fired s = x.fired s := by
  simp only [newSignal, fired, getD_concat]
  split
  case isTrue h => simp [h]
  case isFalse => rfl

theorem queue_newQueue :
    (newQueue x).2.queue q = if q = (newQueue x).1 then {} else x.queue q := by
  simp only [newQueue, queue, getD_concat]
  congr 1
  cases q
  simp

theorem control_newControl :
    (newControl s x).2.control c =
      if c = (newControl s x).1 then { cancel := (newSignal x).1, shutdown := s } else x.control c := by
  have hcontrol : (newControl s x).2.control c =
      (x.controls ++ [(⟨.free, ⟨x.signals.length⟩, s⟩ : Control)]).getD c.index
        ⟨.cancelled, ⟨0⟩, ⟨0⟩⟩ := rfl
  rw [hcontrol, getD_concat]
  show (if c.index = x.controls.length then _ else _) = if c = ⟨x.controls.length⟩ then _ else _
  congr 1
  cases c
  simp

theorem table_register {call : PendingCall} (hlt : t.index < x.tables.length) (t' : TableId) :
    (register t call x).2.table t' =
      if t' = t then ((x.table t).register call).2 else x.table t' := by
  simp only [register, onTable, table, List.getD_eq_getElem?_getD]
  by_cases ht : t' = t
  · subst ht
    simp [hlt]
  · have hindex : t.index ≠ t'.index := fun h => ht (congrArg TableId.mk h.symm)
    simp [hindex, ht]

end Exchange

namespace Client

/-- The listener of the call that is opened next. -/
def nextListener (t : TableId) (shutdown : SignalId) (x : Exchange) : Listener where
  id := (x.table t).nextId
  queue := ⟨x.queues.length⟩
  control := ⟨x.controls.length⟩
  table := t
  shutdown

theorem openCall_fst : (openCall t s x).1 = nextListener t s x := rfl

theorem queue_openCall :
    (openCall t s x).2.queue q = if q = (nextListener t s x).queue then {} else x.queue q :=
  queue_newQueue

theorem control_openCall (c : ControlId) :
    (openCall t s x).2.control c =
      if c = (nextListener t s x).control then { cancel := ⟨x.signals.length⟩, shutdown := s }
      else x.control c :=
  control_newControl

theorem fired_openCall (s' : SignalId) : (openCall t s x).2.fired s' = x.fired s' := fired_newSignal

theorem sizes_openCall : (openCall t s x).2.sizes =
    (x.signals.length + 1, x.queues.length + 1, x.controls.length + 1, x.tables.length) := by
  simp [openCall, newQueue, newControl, newSignal, register, onTable, sizes]

theorem table_openCall (hlt : t.index < x.tables.length) (t' : TableId) :
    (openCall t s x).2.table t' =
      if t' = t then ((x.table t).register (nextListener t s x).call).2 else x.table t' :=
  table_register hlt t'

/-- A call that has just been opened under a free number is live. -/
theorem live_openCall (hlt : t.index < x.tables.length)
    (hfree : (x.table t).find? (x.table t).nextId = none) (hrunning : x.fired s = false) :
    (openCall t s x).2.Live (openCall t s x).1 := by
  have hnew : x.fired ⟨x.signals.length⟩ = false := by
    simp [fired, List.getD_eq_getElem?_getD]
  rw [openCall_fst]
  constructor
  case entry =>
    have hregister : (((x.table t).register (nextListener t s x).call).2).find? (x.table t).nextId = _ :=
      Table.find?_register hfree
    simpa [table_openCall hlt, nextListener] using hregister
  case uncancelled => simp [control_openCall, fired_openCall, hnew]
  case running => rw [fired_openCall]; exact hrunning
  case unread => rfl
  all_goals simp [control_openCall, queue_openCall, nextListener]

end Client

end Switchboard
