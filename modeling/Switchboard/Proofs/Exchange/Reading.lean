import Switchboard.Client.Waiting
import Switchboard.Client.Subscription
import Switchboard.Proofs.Exchange.Footprint
import Switchboard.Proofs.Interleaving
/-!
What readers do to their calls: they give them up, and they look at them.
-/
namespace Switchboard

open Exchange Process

variable {l : Listener} {x y : Exchange}

/-- The call of a listener is out of its table, and its queue is closed. -/
structure Exchange.Ended (x : Exchange) (l : Listener) : Prop where
  absent : (x.table l.table).find? l.id = none
  closed : (x.queue l.queue).isClosed = true

/-- A call that has ended does not come back. -/
theorem Exchange.Onward.ended (h : Onward l x y) (hended : x.Ended l) : y.Ended l :=
  ⟨h.absent hended.absent, h.closed hended.closed⟩

theorem Exchange.Live.not_ended (h : x.Live l) : ¬ x.Ended l := by
  intro hended
  have habsent := hended.absent
  rw [h.entry] at habsent
  cases habsent

theorem Exchange.Live.isOpen (h : x.Live l) : (x.queue l.queue).isClosed = false := by
  simp [Queue.isClosed, h.accepting, h.reading]

namespace Exchange

theorem onQueue_eq_self {α : Type} {q : QueueId} {f : Queue → α × Queue}
    (h : (f (x.queue q)).2 = x.queue q) : (onQueue q f x).2 = x := by
  have hset : x.queues.set q.index (x.queue q) = x.queues := set_getD_self
  simp only [onQueue, h, hset]

/-- Nothing is taken out of an empty queue. -/
theorem take_of_empty {q : QueueId} (h : (x.queue q).fragments = []) : (take q x).2 = x := by
  apply onQueue_eq_self
  cases hclosed : (x.queue q).isClosed <;> simp [Queue.take, h, hclosed]

end Exchange

namespace Listener

/-- What the steps of cancelling keep, whatever the others do in between. -/
theorem all_cancel {R : Exchange → Exchange → Prop} (l : Listener)
    (hclaims : ∀ x, R x (claimCancellation l.control x).2) (hcloses : ∀ x, R x (closeReading l.queue x).2)
    (hremoves : ∀ x, R x (remove l.table l.id x).2) :
    l.cancel.All R fun r => r = (true, l.finish) ∨ r = (false, l) := by
  refine (All.atomic hclaims).bind fun claimed _ => ?_
  cases claimed with
  | true =>
    refine (All.atomic hcloses).bind fun _ _ => ?_
    exact ⟨hremoves, fun _ => .inl rfl⟩
  | false => exact .inr rfl

/-- Cancelling does nothing if a last delivery has claimed the call. -/
theorem cancel_run (l : Listener) (x : Exchange) :
    l.cancel.run x =
      if (x.control l.control).claim = .completing then ((false, l), x)
      else ((true, l.finish),
        (remove l.table l.id (closeReading l.queue (claimCancellation l.control x).2).2).2) := by
  have hclaimed := claimCancellation_fst (c := l.control) (x := x)
  by_cases hclaim : (x.control l.control).claim = .completing
  · have hsame : (claimCancellation l.control x).2 = x := claimCancellation_of_claimed (by simp [hclaim])
    simp [cancel, hclaim, hclaimed, hsame]
  · simp [cancel, hclaim, hclaimed]

theorem onward_cancel (l : Listener) (x : Exchange) : Onward l x (l.cancel.run x).2 := by
  rw [cancel_run]
  split
  · exact .refl l x
  · exact (onward_claimCancellation.trans onward_closeReading).trans onward_remove

theorem release_run (l : Listener) (x : Exchange) :
    l.release.run x = dropReading l.queue (if l.done then x else (l.cancel.run x).2) := by
  cases hdone : l.done <;> simp [release, hdone]

theorem onward_release (l : Listener) (x : Exchange) : Onward l x (l.release.run x).2 := by
  rw [release_run]
  split
  · exact onward_dropReading
  · exact (l.onward_cancel x).trans onward_dropReading

theorem fragments_cancel :
    ((l.cancel.run x).2.queue l.queue).fragments = (x.queue l.queue).fragments := by
  rw [cancel_run]
  split <;> simp

/-- A reader that gives up a live call ends it. -/
theorem cancel_of_live (h : x.Live l) :
    (l.cancel.run x).1 = (true, l.finish) ∧ (l.cancel.run x).2.Ended l := by
  have hclaim : (x.control l.control).claim ≠ .completing := by simp [h.unclaimed]
  rw [cancel_run, if_neg hclaim]
  exact ⟨rfl, by simp, by simp⟩

theorem release_of_live (h : x.Live l) : (l.release.run x).2.Ended l := by
  have hended := (cancel_of_live h).2
  rw [release_run, h.unread]
  exact onward_dropReading.ended hended

end Listener

namespace Subscription

/-- Closing a subscription gives its call up, or else closes the reading end of its queue. -/
theorem close_run (s : Subscription) (x : Exchange) :
    s.close.run x =
      if (x.control s.listener.control).claim = .completing then
        (⟨s.listener, true⟩, (closeReading s.listener.queue x).2)
      else (⟨s.listener.finish, true⟩, (s.listener.cancel.run x).2) := by
  by_cases hclaim : (x.control s.listener.control).claim = .completing
  · simp [close, Listener.cancel_run, hclaim]
  · simp [close, Listener.cancel_run, hclaim]

theorem onward_close (s : Subscription) (x : Exchange) : Onward s.listener x (s.close.run x).2 := by
  rw [close_run]
  split
  · exact onward_closeReading
  · exact s.listener.onward_cancel x

theorem fragments_close {s : Subscription} :
    ((s.close.run x).2.queue s.listener.queue).fragments = (x.queue s.listener.queue).fragments := by
  rw [close_run]
  split
  · simp
  · exact Listener.fragments_cancel

theorem close_of_live {s : Subscription} (h : x.Live s.listener) :
    (s.close.run x).1 = ⟨s.listener.finish, true⟩ ∧ (s.close.run x).2.Ended s.listener := by
  have hclaim : (x.control s.listener.control).claim ≠ .completing := by simp [h.unclaimed]
  rw [close_run, if_neg hclaim]
  exact ⟨rfl, (Listener.cancel_of_live h).2⟩

end Subscription

end Switchboard
