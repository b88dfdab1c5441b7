import Switchboard.Exchange.Listener
import Switchboard.Proofs.Exchange.Table
import Switchboard.Proofs.Lookup
/-!
What each atomic step on an exchange does to signals, queues, controls and tables. A step says nothing
about the things that it does not name.
-/
namespace Switchboard.Exchange

variable {x : Exchange} {s s' : SignalId} {q q' : QueueId} {c c' : ControlId} {t t' : TableId}
  {id : RequestId}

section Queues

/-- A function that leaves a queue without ends as it is changes the queue it is meant for. -/
theorem queue_onQueue {α : Type} {f : Queue → α × Queue} (hgone : (f .gone).2 = .gone) :
    (onQueue q f x).2.queue q' = if q' = q then (f (x.queue q)).2 else x.queue q' := by
  have hindex : q' = q ↔ q'.index = q.index := by cases q; cases q'; simp
  simp only [hindex]
  exact getD_set_of_default (f := fun queue => (f queue).2) hgone

@[simp] theorem queue_closeQueue :
    (closeQueue q x).2.queue q' = if q' = q then (x.queue q).close else x.queue q' :=
  queue_onQueue rfl

@[simp] theorem queue_closeReading :
    (closeReading q x).2.queue q' = if q' = q then (x.queue q).closeReading else x.queue q' :=
  queue_onQueue rfl

@[simp] theorem queue_dropReading :
    (dropReading q x).2.queue q' = if q' = q then (x.queue q).dropReading else x.queue q' :=
  queue_onQueue rfl

@[simp] theorem queue_push {f : Fragment} :
    (push q f x).2.queue q' = if q' = q then ((x.queue q).push f).2 else x.queue q' :=
  queue_onQueue rfl

@[simp] theorem queue_take :
    (take q x).2.queue q' = if q' = q then (x.queue q).take.2 else x.queue q' :=
  queue_onQueue rfl

@[simp] theorem push_fst {f : Fragment} : (push q f x).1 = !(x.queue q).isClosed := by
  show ((x.queue q).push f).1 = _
  unfold Queue.push
  split <;> simp_all

theorem take_fst : (take q x).1 = (x.queue q).take.1 := rfl

/-- The second exchange differs from the first in its queues only. -/
abbrev SameButQueues (x y : Exchange) : Prop :=
  (∀ c, y.control c = x.control c) ∧ (∀ s, y.fired s = x.fired s) ∧ ∀ t, y.table t = x.table t

theorem frame_onQueue {α : Type} {f : Queue → α × Queue} : SameButQueues x (onQueue q f x).2 :=
  ⟨fun _ => rfl, fun _ => rfl, fun _ => rfl⟩

@[simp] theorem frame_closeQueue : SameButQueues x (closeQueue q x).2 := frame_onQueue

@[simp] theorem frame_closeReading : SameButQueues x (closeReading q x).2 := frame_onQueue

@[simp] theorem frame_dropReading : SameButQueues x (dropReading q x).2 := frame_onQueue

@[simp] theorem frame_push {f : Fragment} : SameButQueues x (push q f x).2 := frame_onQueue

@[simp] theorem frame_take : SameButQueues x (take q x).2 := frame_onQueue

end Queues

section Tables

/-- A function that leaves an empty table empty changes the table it is meant for. -/
theorem table_onTable {α : Type} {f : Table → α × Table} (hempty : (f {}).2 = {}) :
    (onTable t f x).2.table t' = if t' = t then (f (x.table t)).2 else x.table t' := by
  have hindex : t' = t ↔ t'.index = t.index := by cases t; cases t'; simp
  simp only [hindex]
  exact getD_set_of_default (f := fun table => (f table).2) hempty

/-- A step on a table that takes entries out of it puts none into any other. -/
theorem calls_onTable_subset {α : Type} {f : Table → α × Table} (hf : ∀ table, (f table).2.calls ⊆ table.calls) :
    ((onTable t f x).2.table t').calls ⊆ (x.table t').calls := by
  show ((x.tables.set t.index (f (x.table t)).2).getD t'.index {}).calls ⊆ _
  rw [getD_set]
  split
  case isTrue ht =>
    have hsame : x.table t = x.table t' := by simp only [table, ht.1]
    rw [hsame]
    exact hf _
  case isFalse => exact fun _ h => h

@[simp] theorem table_resolve {removing : Bool} :
    (resolve t id removing x).2.table t' =
      if t' = t ∧ removing then (x.table t).erase id else x.table t' := by
  rw [resolve, table_onTable (by cases removing <;> rfl)]
  by_cases ht : t' = t <;> cases removing <;> simp [Table.resolve, ht]

@[simp] theorem resolve_fst {removing : Bool} :
    (resolve t id removing x).1 = (x.table t).find? id := rfl

@[simp] theorem table_remove :
    (remove t id x).2.table t' = if t' = t then (x.table t).erase id else x.table t' :=
  table_onTable rfl

@[simp] theorem table_removeOwned :
    (removeOwned t s x).2.table t' =
      if t' = t then ((x.table t).removeAll fun call => (x.control call.control).shutdown = s).2
      else x.table t' :=
  table_onTable rfl

/-- The second exchange differs from the first in its tables only. -/
abbrev SameButTables (x y : Exchange) : Prop :=
  (∀ c, y.control c = x.control c) ∧ (∀ s, y.fired s = x.fired s) ∧ ∀ q, y.queue q = x.queue q

theorem frame_onTable {α : Type} {f : Table → α × Table} : SameButTables x (onTable t f x).2 :=
  ⟨fun _ => rfl, fun _ => rfl, fun _ => rfl⟩

@[simp] theorem frame_resolve {removing : Bool} : SameButTables x (resolve t id removing x).2 :=
  frame_onTable

@[simp] theorem frame_remove : SameButTables x (remove t id x).2 := frame_onTable

end Tables

section Signals

theorem fired_fire :
    (fire s x).2.fired s' = if s' = s ∧ s.index < x.signals.length then true else x.fired s' := by
  have hindex : s' = s ↔ s'.index = s.index := by cases s; cases s'; simp
  simp only [hindex]
  exact getD_set

@[simp] theorem fire_signals_length : (fire s x).2.signals.length = x.signals.length := by simp [fire]

/-- A fired signal stays fired. -/
theorem fired_of_fire (h : x.fired s' = true) : (fire s x).2.fired s' = true := by
  rw [fired_fire]
  split
  · rfl
  · exact h

end Signals

section Controls

/-- A control that nobody has claimed exists. -/
theorem lt_of_claim_free (h : (x.control c).claim = .free) : c.index < x.controls.length := by
  by_contra hlt
  simp [control, List.getD_eq_getElem?_getD, List.getElem?_eq_none (Nat.le_of_not_lt hlt)] at h

theorem control_setClaim {claim : Claim} (hlt : c.index < x.controls.length) :
    (setClaim c claim x).2.control c' = if c' = c then { x.control c with claim } else x.control c' := by
  have hindex : c' = c ↔ c'.index = c.index ∧ c.index < x.controls.length := by cases c; cases c'; simp [hlt]
  simp only [hindex]
  exact getD_set

end Controls

section Claims

theorem claimCompletion_fst : (claimCompletion c x).1 = decide ((x.control c).claim = .free) := by
  unfold claimCompletion
  split
  case isTrue h => exact (decide_eq_true h).symm
  case isFalse h => exact (decide_eq_false h).symm

@[simp] theorem control_claimCompletion :
    (claimCompletion c x).2.control c' =
      if c' = c ∧ (x.control c).claim = .free then { x.control c with claim := .completing }
      else x.control c' := by
  unfold claimCompletion
  split
  case isTrue h =>
    simp only [h, and_true]
    exact control_setClaim (lt_of_claim_free h)
  case isFalse h => simp [h]

@[simp] theorem fired_claimCompletion : (claimCompletion c x).2.fired s = x.fired s := by
  unfold claimCompletion
  split <;> rfl

@[simp] theorem queue_claimCompletion : (claimCompletion c x).2.queue q = x.queue q := by
  unfold claimCompletion
  split <;> rfl

@[simp] theorem table_claimCompletion : (claimCompletion c x).2.table t = x.table t := by
  unfold claimCompletion
  split <;> rfl

theorem claimCancellation_fst :
    (claimCancellation c x).1 = decide ((x.control c).claim ≠ .completing) := by
  unfold claimCancellation
  split
  case h_1 h => rw [h]; rfl
  case h_2 h => rw [h]; rfl
  case h_3 h => rw [h]; rfl

@[simp] theorem control_claimCancellation :
    (claimCancellation c x).2.control c' =
      if c' = c ∧ (x.control c).claim = .free then { x.control c with claim := .cancelled }
      else x.control c' := by
  unfold claimCancellation
  split
  case h_1 h =>
    simp only [h, and_true]
    exact control_setClaim (lt_of_claim_free h)
  case h_2 h => simp [h]
  case h_3 h => simp [h]

/-- Cancelling a call that nobody has claimed fires its signal, and does nothing else to signals. -/
theorem fired_claimCancellation_of_free (h : (x.control c).claim = .free) :
    (claimCancellation c x).2.fired s =
      if s = (x.control c).cancel ∧ (x.control c).cancel.index < x.signals.length then true
      else x.fired s := by
  have hcancel : ((setClaim c .cancelled x).2.control c).cancel = (x.control c).cancel := by
    simp [control_setClaim (lt_of_claim_free h)]
  have hcancelled : (claimCancellation c x).2 =
      (fire ((setClaim c .cancelled x).2.control c).cancel (setClaim c .cancelled x).2).2 := by
    unfold claimCancellation
    rw [h]
    rfl
  rw [hcancelled, hcancel, fired_fire]
  rfl

/-- A call that has been claimed is not cancelled any more. -/
theorem claimCancellation_of_claimed (h : (x.control c).claim ≠ .free) :
    (claimCancellation c x).2 = x := by
  unfold claimCancellation
  split <;> simp_all

/-- Cancelling a call fires no signal but its own. -/
theorem fired_claimCancellation (hs : s ≠ (x.control c).cancel) :
    (claimCancellation c x).2.fired s = x.fired s := by
  by_cases hfree : (x.control c).claim = .free
  · rw [fired_claimCancellation_of_free hfree, if_neg (fun h => hs h.1)]
  · rw [claimCancellation_of_claimed hfree]

@[simp] theorem queue_claimCancellation : (claimCancellation c x).2.queue q = x.queue q := by
  unfold claimCancellation
  split <;> rfl

@[simp] theorem table_claimCancellation : (claimCancellation c x).2.table t = x.table t := by
  unfold claimCancellation
  split <;> rfl

end Claims

end Switchboard.Exchange
