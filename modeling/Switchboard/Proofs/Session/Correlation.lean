import Switchboard.Proofs.Session.Ledger
/-!
In every session each reader gets what has been delivered under the number of its call, in order and each
fragment once, and nothing else.
-/
namespace Switchboard.Session

open Exchange Process

variable {start : RequestId} {x : Exchange}

/-- Stopping the deliveries to a call leaves what is in the queues. -/
theorem fragments_stopDeliveries (t : TableId) (id : RequestId) (q : QueueId) :
    (((Client.stopDeliveries t id).run x).2.queue q).fragments = (x.queue q).fragments := by
  cases hfind : (x.table t).find? id with
  | none => rw [stopDeliveries_of_absent hfind]
  | some call =>
    rw [stopDeliveries_of_found hfind, queue_closeQueue]
    split
    case isTrue hq => simp [hq]
    case isFalse => simp

/-- No two calls have the same number. -/
theorem Sound.nodup_ids {clients : List Client} {calls : List Call} {history : List Event}
    (h : Sound start x clients calls history) : (calls.map fun call => call.listener.id).Nodup := by
  rw [List.nodup_iff_pairwise_ne, List.pairwise_iff_getElem]
  intro i j hi hj hij
  rw [List.length_map] at hi hj
  have hapart := h.apart_calls (List.getElem?_eq_getElem hj) (List.getElem?_eq_getElem hi) (by omega)
  rw [List.getElem_map, List.getElem_map]
  exact hapart.id

/-- Each change keeps the books. -/
theorem Change.ledger {g g' : Ground} (hchange : Change g g') (h : g.IsSound start)
    (hledger : Ledger g.exchange g.calls g.history) : Ledger g'.exchange g'.calls g'.history := by
  cases hchange with
  | act hi a => exact Ledger.act h hledger hi a
  | deliver f => exact Ledger.deliver h hledger f
  | issue hc hactive hopen => exact Ledger.issue h hledger hopen
  | unsubscribe id =>
    exact hledger.keep (fragments_stopDeliveries Session.shared id) (fun _ => rfl) (fun _ => rfl) rfl (by simp)
  | relabel => exact hledger
  | destroy => exact hledger.of_fragments fun _ => Client.fragments_withoutOwned
  | join => exact hledger.of_fragments fun _ => rfl

/-- How what comes out of a session answers to what goes in. Each call has a number of its own, under which
nothing is accepted before the call is issued, nor after a last delivery or one who unsubscribes has found it.
What its reader has read comes first in what has been delivered under the number; the rest is in the queue as
long as the reading end has not been given up, and there is no rest once a wait has come to the result of its
call. The next delivery is accepted exactly if it is for an outstanding call, and changes nothing if it is for
none. -/
structure Exact (s : Session) : Prop where
  numbers : issued s.history = s.calls.map fun call => call.listener.id
  distinct : (issued s.history).Nodup
  timely : Timely s.history
  read : ∀ (i : Nat) (call : Call), s.calls[i]? = some call →
    readBy s.history i <+: delivered s.history call.listener.id
  rest : ∀ (i : Nat) (call : Call), s.calls[i]? = some call → call.reader.isGone = false →
    delivered s.history call.listener.id =
      readBy s.history i ++ (s.world.exchange.queue call.listener.queue).fragments
  answered : ∀ (i : Nat) (call : Call) (r : Except ClientError Bytes), s.calls[i]? = some call →
    call.reader = .answered r → Waiting.OfCall r →
      readBy s.history i = delivered s.history call.listener.id
  accepted : ∀ f, s.Outstanding f.requestId → ((deliver shared f).run s.world.exchange).1 =
    if f.status = .streamTerminated then .terminated else .delivered
  unknown : ∀ f, ¬ s.Outstanding f.requestId →
    (deliver shared f).run s.world.exchange = (.unknownRequest, s.world.exchange)

/-- Correlation is exact after any run in which the numbers have not gone round. -/
theorem correlation_exact (lastId : RequestId) (ops : List Op)
    (hfew : ((Session.start lastId).run ops).calls.length < 4294967295) :
    Exact ((Session.start lastId).run ops) := by
  obtain ⟨hsound, hledger⟩ := run_induction (P := fun g => Ledger g.exchange g.calls g.history) lastId
    (ledger_start lastId) (fun g g' hchange hbefore _ hbooks => hchange.ledger hbefore hbooks) ops hfew
  generalize (Session.start lastId).run ops = s at hsound hledger
  have h : Sound lastId s.world.exchange s.world.clients s.calls s.history := hsound
  have hledger : Ledger s.world.exchange s.calls s.history := hledger
  constructor
  case numbers => exact hledger.issued
  case distinct =>
    rw [hledger.issued]
    exact h.nodup_ids
  case timely => exact hledger.timely
  case read => exact fun i call hi => (hledger.call i call hi).read
  case rest => exact fun i call hi => (hledger.call i call hi).rest
  case answered => exact fun i call r hi => (hledger.call i call hi).answered r
  case accepted =>
    rintro f ⟨call, hmem, hid, hunended⟩
    obtain ⟨i, hi⟩ := List.getElem?_of_mem hmem
    obtain ⟨hlive, -⟩ | ⟨-, hover⟩ := (h.call i call hi).standing
    · have hdelivers := deliver_of_live hlive hid.symm
      rw [(h.call i call hi).table] at hdelivers
      exact hdelivers.told
    · exact absurd hunended hover
  case unknown =>
    intro f hnone
    refine deliver_of_absent ?_
    rw [← contains_iff_outstanding hsound, Bool.not_eq_true, Table.contains_eq_false_iff] at hnone
    exact hnone

/-- Two clients have a call each. A first event for either comes from within its request; a second event for
the second call comes before the last answer to the first call, which is repeated. Both calls are read. -/
def crossed : List Op :=
  [.join ticking, .join ticking, .createContextFrom ⟨0⟩ "", .createContextFrom ⟨1⟩ "",
    .request ⟨0⟩ "ticks" [], .request ⟨1⟩ "ticks" [], .deliver ⟨2, [50], .streamEvent, false⟩,
    .deliver ⟨1, [51], .success, true⟩, .deliver ⟨1, [51], .success, true⟩, .act 1 .subscribe, .act 1 .next,
    .act 0 (.wait 0 none), .act 0 (.poll 0)]

theorem correlation_exact_crossed :
    Exact ((Session.start 0).run crossed) ∧
      readBy ((Session.start 0).run crossed).history 0 =
        [⟨1, [49], .streamEvent, false⟩, ⟨1, [51], .success, true⟩] ∧
      readBy ((Session.start 0).run crossed).history 1 = [⟨2, [49], .streamEvent, false⟩] := by
  have hcalls : ((Session.start 0).run crossed).calls.length = 2 := by decide +kernel
  exact ⟨correlation_exact 0 crossed (by omega), by decide +kernel, by decide +kernel⟩

end Switchboard.Session
