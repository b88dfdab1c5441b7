import Switchboard.Client.Basic
import Switchboard.Proofs.Exchange.Reading
/-!
What deliveries do to a call that is live, and that they do nothing to a call that is not there.
-/
namespace Switchboard

open Exchange Process

variable {l : Listener} {x y : Exchange} {t : TableId} {f : Fragment}

namespace Exchange

theorem onTable_eq_self {α : Type} {g : Table → α × Table} (h : (g (x.table t)).2 = x.table t) :
    (onTable t g x).2 = x := by
  have hset : x.tables.set t.index (x.table t) = x.tables := set_getD_self
  simp only [onTable, h, hset]

theorem resolve_of_absent {id : RequestId} {removing : Bool} (h : (x.table t).find? id = none) :
    resolve t id removing x = (none, x) := by
  refine Prod.ext h (onTable_eq_self ?_)
  cases removing with
  | true => exact Table.erase_eq_self h
  | false => rfl

end Exchange

/-- A delivery looks its call up first. -/
theorem deliver_eq (t : TableId) (f : Fragment) :
    deliver t f = .step
      (fun x => ((x.table t).find? f.requestId).elim (pure .unknownRequest) fun call =>
        Delivery.offer t call f)
      fun x => (resolve t f.requestId f.isLast x).2 := by
  refine congrArg (Process.step · _) (funext fun x => ?_)
  simp only [resolve_fst]
  cases (x.table t).find? f.requestId <;> rfl

theorem deliver_of_absent (h : (x.table t).find? f.requestId = none) :
    (deliver t f).run x = (.unknownRequest, x) := by
  simp [deliver, resolve_of_absent h]

namespace Delivery

section Steps

variable {R : Exchange → Exchange → Prop} {call : PendingCall} {id : RequestId}

/-- What the steps keep that give a call up. -/
theorem all_abandon (hcloses : ∀ x, R x (closeQueue call.queue x).2) (hremoves : ∀ x, R x (remove t id x).2) :
    (abandon t id call).All R (· ≠ .terminated) :=
  (All.atomic hcloses).bind fun _ _ => (All.atomic hremoves).discard.bind fun _ _ => Delivery.noConfusion

variable (hcloses : ∀ x, R x (closeQueue call.queue x).2) (hremoves : ∀ x, R x (remove t f.requestId x).2)
  (hpushes : ∀ x, R x (push call.queue f x).2)
include hcloses hremoves hpushes

/-- What the steps keep that hand a fragment to a call. Only a fragment that says so ends the stream. -/
theorem all_handOver : (handOver t call f).All R (· = .terminated → f.status = .streamTerminated) := by
  have hresult (pushed : Bool) :
      (if pushed then pure .delivered else abandon t f.requestId call : Process Exchange Delivery).All R
        (· = .terminated → f.status = .streamTerminated) := by
    cases pushed with
    | true => exact Delivery.noConfusion
    | false => exact (all_abandon hcloses hremoves).imp fun _ hd hended => absurd hended hd
  unfold handOver
  split
  case isTrue hstatus => exact (All.atomic hcloses).bind fun _ _ _ => hstatus
  case isFalse =>
    refine (All.atomic hpushes).bind fun pushed _ => ?_
    cases f.finished with
    | true => exact (All.atomic hcloses).bind fun _ _ => hresult pushed
    | false => exact hresult pushed

theorem all_offer (hrefl : ∀ x, R x x)
    (hclaims : f.finished = true → ∀ x, R x (claimCompletion call.control x).2) :
    (offer t call f).All R (· = .terminated → f.status = .streamTerminated) := by
  have habandons : (abandon t f.requestId call).All R (· = .terminated → f.status = .streamTerminated) :=
    (all_abandon hcloses hremoves).imp fun _ hd hended => absurd hended hd
  have hhands := all_handOver hcloses hremoves hpushes
  refine All.bind (p := atomic (isAbandoned call.control)) (All.atomic hrefl) fun abandoned _ => ?_
  cases abandoned with
  | true => exact habandons
  | false =>
    cases hfinished : f.finished with
    | false => exact hhands
    | true =>
      refine All.bind (p := atomic (claimCompletion call.control)) (All.atomic (hclaims hfinished)) fun claimed _ => ?_
      cases claimed with
      | true => exact hhands
      | false => exact habandons

end Steps

end Delivery

/-- Stopping the deliveries to a call takes it out of the table, cancels it, and closes its queue. -/
theorem stopDeliveries_of_found {id : RequestId} {call : PendingCall}
    (h : (x.table t).find? id = some call) :
    (Client.stopDeliveries t id).run x =
      (true, (closeQueue call.queue (claimCancellation call.control (resolve t id true x).2).2).2) := by
  have hfind : (resolve t id true x).1 = some call := h
  simp only [Client.stopDeliveries, run_bind, run_atomic, hfind, run_discard, run_pure]

/-- What a delivery does to a live call: every fragment but the end of the stream goes into the queue, and a
last fragment ends the call. -/
structure Delivers (l : Listener) (f : Fragment) (x : Exchange) (d : Delivery) (y : Exchange) : Prop where
  onward : Onward l x y
  told : d = if f.status = .streamTerminated then .terminated else .delivered
  queue : (y.queue l.queue).fragments =
    (x.queue l.queue).fragments ++ if f.status = .streamTerminated then [] else [f]
  live : f.isLast = false → y.Live l
  ended : f.isLast = true → y.Ended l

section

variable (hlive : x.Live l)
include hlive

theorem Exchange.Live.not_abandoned : x.abandoned l.control = false := by
  simp [abandoned, hlive.unclaimed, hlive.uncancelled, hlive.shutdown, hlive.running]

theorem Exchange.Live.push (f : Fragment) : (push l.queue f x).2.Live l := by
  constructor
  case unread => exact hlive.unread
  all_goals
    simp [hlive.entry, hlive.unclaimed, hlive.shutdown, hlive.uncancelled, hlive.running, hlive.accepting,
      hlive.reading]

/-- A fragment that is not the last one goes into the queue. -/
theorem deliver_more (hid : f.requestId = l.id) (hmore : f.isLast = false) :
    (deliver l.table f).run x = (.delivered, (push l.queue f x).2) := by
  simp only [Fragment.isLast, Bool.or_eq_false_iff, beq_eq_false_iff_ne] at hmore
  obtain ⟨hfinished, hstatus⟩ := hmore
  have hfind : resolve l.table f.requestId f.isLast x = (some l.call, x) := by
    have hlast : f.isLast = false := by simp [Fragment.isLast, hfinished, hstatus]
    rw [hlast, hid]
    exact Prod.ext hlive.entry (onTable_eq_self rfl)
  simp [deliver, hfind, Delivery.offer, isAbandoned, Listener.call, hlive.not_abandoned, hfinished,
    Delivery.handOver, hstatus, hlive.isOpen]

/-- A last fragment takes the call out of the table, claims it if it is marked as the last one, and closes
the queue behind itself. -/
theorem deliver_last (hid : f.requestId = l.id) (hlast : f.isLast = true) :
    Delivers l f x ((deliver l.table f).run x).1 ((deliver l.table f).run x).2 := by
  have hfind : resolve l.table f.requestId f.isLast x = (some l.call, (resolve l.table l.id true x).2) := by
    rw [hlast, hid]
    exact Prod.ext hlive.entry rfl
  have habandoned : (resolve l.table l.id true x).2.abandoned l.control = false := hlive.not_abandoned
  have honward : Onward l x (resolve l.table l.id true x).2 := onward_resolve
  generalize hy : (resolve l.table l.id true x).2 = y at hfind habandoned honward
  have habsent : (y.table l.table).find? l.id = none := by simp [← hy]
  have hclaim : (y.control l.control).claim = .free := by simp [← hy, hlive.unclaimed]
  have hqueue : y.queue l.queue = x.queue l.queue := by simp [← hy]
  have hopen : (y.queue l.queue).isClosed = false := by rw [hqueue]; exact hlive.isOpen
  have hclaimed : (claimCompletion l.control y).1 = true := by simp [claimCompletion_fst, hclaim]
  by_cases hstatus : f.status = .streamTerminated
  · cases hfinished : f.finished with
    | true =>
      have hrun : (deliver l.table f).run x =
          (.terminated, (closeQueue l.queue (claimCompletion l.control y).2).2) := by
        simp [deliver, hfind, Delivery.offer, isAbandoned, Listener.call, habandoned, hfinished,
          hclaimed, Delivery.handOver, hstatus]
      rw [hrun]
      refine ⟨(honward.trans onward_claimCompletion).trans onward_closeQueue, ?_, ?_, ?_, ?_⟩
      · simp [hstatus]
      · simp [hstatus, hqueue]
      · simp [hlast]
      · exact fun _ => ⟨by simp [habsent], by simp⟩
    | false =>
      have hrun : (deliver l.table f).run x = (.terminated, (closeQueue l.queue y).2) := by
        simp [deliver, hfind, Delivery.offer, isAbandoned, Listener.call, habandoned, hfinished,
          Delivery.handOver, hstatus]
      rw [hrun]
      refine ⟨honward.trans onward_closeQueue, ?_, ?_, ?_, ?_⟩
      · simp [hstatus]
      · simp [hstatus, hqueue]
      · simp [hlast]
      · exact fun _ => ⟨by simp [habsent], by simp⟩
  · have hfinished : f.finished = true := by simpa [Fragment.isLast, hstatus] using hlast
    have hrun : (deliver l.table f).run x = (.delivered,
        (closeQueue l.queue (push l.queue f (claimCompletion l.control y).2).2).2) := by
      simp [deliver, hfind, Delivery.offer, isAbandoned, Listener.call, habandoned, hfinished,
        hclaimed, Delivery.handOver, hstatus, hopen]
    rw [hrun]
    refine ⟨((honward.trans onward_claimCompletion).trans (onward_push f)).trans onward_closeQueue,
      ?_, ?_, ?_, ?_⟩
    · simp [hstatus]
    · simp [hstatus, Queue.fragments_push, hqueue, hlive.isOpen]
    · simp [hlast]
    · exact fun _ => ⟨by simp [habsent], by simp⟩

theorem deliver_of_live (hid : f.requestId = l.id) :
    Delivers l f x ((deliver l.table f).run x).1 ((deliver l.table f).run x).2 := by
  cases hlast : f.isLast with
  | true => exact deliver_last hlive hid hlast
  | false =>
    have hstatus : f.status ≠ .streamTerminated := by
      intro h
      simp [Fragment.isLast, h] at hlast
    rw [deliver_more hlive hid hlast]
    refine ⟨onward_push f, ?_, ?_, fun _ => hlive.push f, ?_⟩
    · simp [hstatus]
    · simp [hstatus, Queue.fragments_push, hlive.isOpen]
    · simp [hlast]

/-- Stopping the deliveries to a live call ends it, and leaves what is in its queue. -/
theorem stopDeliveries_of_live :
    ((Client.stopDeliveries l.table l.id).run x).1 = true ∧
      Onward l x ((Client.stopDeliveries l.table l.id).run x).2 ∧
      ((Client.stopDeliveries l.table l.id).run x).2.Ended l ∧
      (((Client.stopDeliveries l.table l.id).run x).2.queue l.queue).fragments =
        (x.queue l.queue).fragments := by
  have hrun : (Client.stopDeliveries l.table l.id).run x = (true,
      (closeQueue l.queue (claimCancellation l.control (resolve l.table l.id true x).2).2).2) :=
    stopDeliveries_of_found hlive.entry
  rw [hrun]
  refine ⟨rfl, (onward_resolve.trans onward_claimCancellation).trans onward_closeQueue, ?_, by simp⟩
  exact ⟨by simp, by simp⟩

end

theorem stopDeliveries_of_absent {id : RequestId} (h : (x.table t).find? id = none) :
    (Client.stopDeliveries t id).run x = (false, x) := by
  simp [Client.stopDeliveries, resolve_of_absent h]

end Switchboard
