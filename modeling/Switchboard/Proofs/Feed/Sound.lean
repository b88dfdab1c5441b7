import Switchboard.Proofs.Exchange.Footprint
import Switchboard.Proofs.Receiving.Basic
/-!
What each kind of step leaves of a call, and what holds of a call throughout, whoever takes a step. The queue of a call is
closed for a reason only: the call is out of its table, its client has gone, or it has been cancelled.
-/
namespace Switchboard.Feed

open Exchange

variable {l : Listener} {x y z : Exchange} {q : QueueId} {α : Type}

/-- A step that does not take the signal of a call's client back, and leaves a closed queue closed without putting
anything into it. -/
structure Settles (l : Listener) (x y : Exchange) : Prop where
  fired : x.fired l.shutdown = true → y.fired l.shutdown = true
  closed : (x.queue l.queue).isClosed = true → (y.queue l.queue).isClosed = true
  quiet : (x.queue l.queue).isClosed = true →
    (y.queue l.queue).fragments.length ≤ (x.queue l.queue).fragments.length

/-- A step that brings nothing into the table of a call, either. -/
structure Ebbs (l : Listener) (x y : Exchange) : Prop extends Settles l x y where
  entries : (y.table l.table).calls ⊆ (x.table l.table).calls

theorem Settles.trans (h : Settles l x y) (h' : Settles l y z) : Settles l x z where
  fired := h'.fired ∘ h.fired
  closed := h'.closed ∘ h.closed
  quiet hclosed := Nat.le_trans (h'.quiet (h.closed hclosed)) (h.quiet hclosed)

namespace Ebbs

theorem refl (l : Listener) (x : Exchange) : Ebbs l x x := ⟨⟨id, id, fun _ => Nat.le_refl _⟩, fun _ h => h⟩

theorem trans (h : Ebbs l x y) (h' : Ebbs l y z) : Ebbs l x z :=
  ⟨h.toSettles.trans h'.toSettles, List.Subset.trans h'.entries h.entries⟩

end Ebbs

section Ebbing

/-- A step on a queue that opens none, and puts nothing into one that is closed. -/
theorem ebbs_onQueue {α : Type} {f : Queue → α × Queue} (hgone : (f .gone).2 = .gone)
    (hstays : ∀ queue, queue.isClosed = true →
      (f queue).2.isClosed = true ∧ (f queue).2.fragments.length ≤ queue.fragments.length) :
    Ebbs l x (onQueue q f x).2 := by
  refine ⟨⟨id, fun hclosed => ?_, fun hclosed => ?_⟩, fun _ he => he⟩ <;> rw [queue_onQueue hgone] <;> split
  case refine_1.isTrue hq => exact (hstays _ (hq ▸ hclosed)).1
  case refine_2.isTrue hq => exact hq ▸ (hstays _ (hq ▸ hclosed)).2
  case refine_1.isFalse => exact hclosed
  case refine_2.isFalse => exact Nat.le_refl _

theorem ebbs_closeQueue : Ebbs l x (closeQueue q x).2 := ebbs_onQueue rfl fun _ _ => ⟨rfl, Nat.le_refl _⟩

theorem ebbs_closeReading : Ebbs l x (closeReading q x).2 := ebbs_onQueue rfl fun _ _ => by simp

theorem ebbs_dropReading : Ebbs l x (dropReading q x).2 :=
  ebbs_onQueue rfl fun _ _ => ⟨by simp, by simp [Queue.dropReading]⟩

theorem ebbs_push {f : Fragment} : Ebbs l x (push q f x).2 :=
  ebbs_onQueue rfl fun _ hclosed => ⟨by simpa using hclosed, by simp [Queue.fragments_push, hclosed]⟩

theorem ebbs_take : Ebbs l x (take q x).2 := by
  refine ebbs_onQueue rfl fun queue hclosed => ⟨by simpa using hclosed, ?_⟩
  unfold Queue.take
  split
  case h_1 hfragments =>
    rw [hfragments]
    exact Nat.le_succ _
  case h_2 => split <;> exact Nat.le_refl _

theorem ebbs_onTable {α : Type} {t : TableId} {f : Table → α × Table} (hf : ∀ table, (f table).2.calls ⊆ table.calls) :
    Ebbs l x (onTable t f x).2 := ⟨⟨id, id, fun _ => Nat.le_refl _⟩, calls_onTable_subset hf⟩

theorem ebbs_resolve {t : TableId} {id : RequestId} {removing : Bool} : Ebbs l x (resolve t id removing x).2 := by
  refine ebbs_onTable fun table => ?_
  cases removing with
  | true => exact List.filter_sublist.subset
  | false => exact fun _ he => he

theorem ebbs_remove {t : TableId} {id : RequestId} : Ebbs l x (remove t id x).2 :=
  ebbs_onTable fun _ => List.filter_sublist.subset

theorem ebbs_removeOwned {t : TableId} {s : SignalId} : Ebbs l x (removeOwned t s x).2 :=
  ebbs_onTable fun _ => List.filter_sublist.subset

theorem ebbs_fire {s : SignalId} : Ebbs l x (fire s x).2 :=
  ⟨⟨fired_of_fire, id, fun _ => Nat.le_refl _⟩, fun _ he => he⟩

theorem ebbs_claimCompletion {c : ControlId} : Ebbs l x (claimCompletion c x).2 :=
  ⟨⟨by simp, by simp, by simp⟩, by simp⟩

theorem ebbs_claimCancellation {c : ControlId} : Ebbs l x (claimCancellation c x).2 := by
  refine ⟨⟨fun hfired => ?_, by simp, by simp⟩, by simp⟩
  unfold claimCancellation
  split
  · exact fired_of_fire hfired
  · exact hfired
  · exact hfired

end Ebbing

/-- Nothing stands in the table under the number of the call. -/
abbrev Out (l : Listener) (x : Exchange) : Prop := (x.table l.table).find? l.id = none

/-- There is a reason to close the queue of the call. -/
def Due (l : Listener) (x : Exchange) : Prop :=
  Out l x ∨ x.fired l.shutdown = true ∨ (x.control l.control).claim = .cancelled

/-- What holds of a call as long as nobody is registered under its number in its place. -/
structure Sound (l : Listener) (x : Exchange) : Prop where
  entries : ∀ e ∈ (x.table l.table).calls, e.1 = l.id → e.2 = l.call
  queue : l.queue.index < x.queues.length
  table : l.table.index < x.tables.length
  shutdown : (x.control l.control).shutdown = l.shutdown
  apart : (x.control l.control).cancel ≠ l.shutdown
  completing : (x.control l.control).claim = .completing → Out l x
  cancelled : x.fired (x.control l.control).cancel = true → (x.control l.control).claim = .cancelled
  closed : (x.queue l.queue).isClosed = true → Due l x

/-- The second state comes after the first by a step on a call that is sound. -/
structure Keeps (l : Listener) (x y : Exchange) : Prop extends Ebbs l x y where
  claim : (x.control l.control).claim ≠ .free → (y.control l.control).claim = (x.control l.control).claim
  sound : Sound l y

theorem out_of_entries (hentries : (y.table l.table).calls ⊆ (x.table l.table).calls) (h : Out l x) : Out l y :=
  Table.find?_eq_none_iff.2 fun e he => Table.find?_eq_none_iff.1 h e (hentries he)

theorem Keeps.due (h : Keeps l x y) (hdue : Due l x) : Due l y := by
  obtain hout | hfired | hclaim := hdue
  · exact .inl (out_of_entries h.entries hout)
  · exact .inr (.inl (h.fired hfired))
  · exact .inr (.inr (by rw [h.claim (by simp [hclaim]), hclaim]))

/-- Whoever has claimed the call has given a reason to close its queue. -/
theorem Sound.due_of_claimed (h : Sound l x) (hclaim : (x.control l.control).claim ≠ .free) : Due l x := by
  cases hclaimed : (x.control l.control).claim with
  | free => exact absurd hclaimed hclaim
  | completing => exact .inl (h.completing hclaimed)
  | cancelled => exact .inr (.inr hclaimed)

/-- Deliveries to the call are abandoned for a reason. -/
theorem Sound.due_of_abandoned (h : Sound l x) (habandoned : x.abandoned l.control = true) : Due l x := by
  simp only [abandoned, Bool.or_eq_true, beq_iff_eq] at habandoned
  obtain (hclaim | hcancel) | hshutdown := habandoned
  · exact .inr (.inr hclaim)
  · exact .inr (.inr (h.cancelled hcancel))
  · exact .inr (.inl (h.shutdown ▸ hshutdown))

/-- Under the number of the call stands the call or nothing. -/
theorem Sound.eq_of_find? (h : Sound l x) {call : PendingCall} (hfind : (x.table l.table).find? l.id = some call) :
    call = l.call := h.entries _ (Table.mem_of_find? hfind) rfl

/-- A call that is ready is sound. -/
theorem sound_of_ready (h : x.Ready l) (hkeyed : (x.table l.table).Keyed) : Sound l x where
  entries e he hid := by
    obtain ⟨id, call⟩ := e
    cases hid
    exact Option.some.inj ((hkeyed.find?_eq_some_iff.2 he).symm.trans h.entry)
  queue := by
    by_contra hlt
    have haccepting := h.accepting
    rw [Exchange.queue, List.getD_eq_getElem?_getD, List.getElem?_eq_none (Nat.le_of_not_lt hlt)] at haccepting
    cases haccepting
  table := by
    by_contra hlt
    have hentry := h.entry
    rw [Exchange.table, List.getD_eq_getElem?_getD, List.getElem?_eq_none (Nat.le_of_not_lt hlt)] at hentry
    cases hentry
  shutdown := h.shutdown
  apart := h.apart
  completing hclaim := by
    rw [h.unclaimed] at hclaim
    cases hclaim
  cancelled hfired := by
    rw [h.uncancelled] at hfired
    cases hfired
  closed hclosed := by
    simp [Queue.isClosed, h.accepting, h.reading] at hclosed

section Steps

variable (h : Sound l x)
include h

theorem keeps_refl : Keeps l x x := ⟨.refl l x, fun _ => rfl, h⟩

/-- A step on a queue that opens none, and closes that of the call for a reason only. -/
theorem keeps_onQueue {f : Queue → α × Queue} (hgone : (f .gone).2 = .gone) (hebbs : Ebbs l x (onQueue q f x).2)
    (hdue : q = l.queue → (f (x.queue q)).2.isClosed = true → Due l x) : Keeps l x (onQueue q f x).2 := by
  have hqueue : (onQueue q f x).2.queue l.queue = if l.queue = q then (f (x.queue q)).2 else x.queue l.queue :=
    queue_onQueue hgone
  refine ⟨hebbs, fun _ => rfl, ⟨h.entries, ?_, h.table, h.shutdown, h.apart, h.completing, h.cancelled,
    fun hclosed => ?_⟩⟩
  · have hlt := h.queue
    simpa [onQueue] using hlt
  · rw [hqueue] at hclosed
    split at hclosed
    case isTrue hq => exact hdue hq.symm hclosed
    case isFalse => exact h.closed hclosed

theorem keeps_closeQueue (hdue : q = l.queue → Due l x) : Keeps l x (closeQueue q x).2 :=
  keeps_onQueue h rfl ebbs_closeQueue fun hq _ => hdue hq

theorem keeps_closeReading (hdue : Due l x) : Keeps l x (closeReading l.queue x).2 :=
  keeps_onQueue h rfl ebbs_closeReading fun _ _ => hdue

theorem keeps_dropReading (hdue : Due l x) : Keeps l x (dropReading l.queue x).2 :=
  keeps_onQueue h rfl ebbs_dropReading fun _ _ => hdue

theorem keeps_push (f : Fragment) : Keeps l x (push q f x).2 :=
  keeps_onQueue h rfl ebbs_push fun hq hclosed => h.closed (by simpa [hq] using hclosed)

theorem keeps_take : Keeps l x (take q x).2 :=
  keeps_onQueue h rfl ebbs_take fun hq hclosed => h.closed (by simpa [hq] using hclosed)

/-- A step on a table that takes entries out of it. -/
theorem keeps_onTable {t : TableId} {f : Table → α × Table} (hebbs : Ebbs l x (onTable t f x).2) :
    Keeps l x (onTable t f x).2 := by
  refine ⟨hebbs, fun _ => rfl, ⟨fun e he => h.entries e (hebbs.entries he), h.queue, ?_, h.shutdown, h.apart,
    fun hclaim => out_of_entries hebbs.entries (h.completing hclaim), h.cancelled, fun hclosed => ?_⟩⟩
  · have hlt := h.table
    simpa [onTable] using hlt
  · obtain hout | hdue := h.closed hclosed
    · exact .inl (out_of_entries hebbs.entries hout)
    · exact .inr hdue

theorem keeps_resolve {t : TableId} {id : RequestId} {removing : Bool} : Keeps l x (resolve t id removing x).2 :=
  keeps_onTable h ebbs_resolve

theorem keeps_remove {t : TableId} {id : RequestId} : Keeps l x (remove t id x).2 := keeps_onTable h ebbs_remove

theorem keeps_removeOwned {t : TableId} {s : SignalId} : Keeps l x (removeOwned t s x).2 :=
  keeps_onTable h ebbs_removeOwned

/-- Claiming the call for its completion once it is out of the table. -/
theorem keeps_claimCompletion (hout : Out l x) : Keeps l x (claimCompletion l.control x).2 := by
  have hsizes := sizes_claimCompletion (c := l.control) (x := x)
  simp only [sizes, Prod.mk.injEq] at hsizes
  have hafter : Out l (claimCompletion l.control x).2 := by
    rw [Out, table_claimCompletion]
    exact hout
  have hfree (hfree : (x.control l.control).claim = .free) : x.fired (x.control l.control).cancel = false := by
    by_contra hfired
    have hcancelled := h.cancelled (by simpa using hfired)
    rw [hfree] at hcancelled
    cases hcancelled
  refine ⟨ebbs_claimCompletion, fun hclaim => by simp [hclaim], ?_⟩
  constructor
  case entries => simpa using h.entries
  case queue => rw [hsizes.2.1]; exact h.queue
  case table => rw [hsizes.2.2.2]; exact h.table
  case shutdown => by_cases hclaim : (x.control l.control).claim = .free <;> simp [hclaim, h.shutdown]
  case apart => by_cases hclaim : (x.control l.control).claim = .free <;> simp [hclaim, h.apart]
  case completing => exact fun _ => hafter
  case cancelled =>
    by_cases hclaim : (x.control l.control).claim = .free
    · simp [hclaim, hfree hclaim]
    · simpa [hclaim] using h.cancelled
  case closed => exact fun _ => .inl hafter

/-- Cancelling the call, whoever does it. -/
theorem keeps_claimCancellation : Keeps l x (claimCancellation l.control x).2 := by
  by_cases hclaim : (x.control l.control).claim = .free
  · have hsizes := sizes_claimCancellation (c := l.control) (x := x)
    simp only [sizes, Prod.mk.injEq] at hsizes
    have hshutdown : (claimCancellation l.control x).2.fired l.shutdown = x.fired l.shutdown :=
      fired_claimCancellation (Ne.symm h.apart)
    refine ⟨ebbs_claimCancellation, fun hclaimed => absurd hclaim hclaimed, ?_⟩
    constructor
    case entries => simpa using h.entries
    case queue => rw [hsizes.2.1]; exact h.queue
    case table => rw [hsizes.2.2.2]; exact h.table
    case shutdown => simp [hclaim, h.shutdown]
    case apart => simp [hclaim, h.apart]
    case completing => simp [hclaim]
    case cancelled => simp [hclaim]
    case closed => exact fun _ => .inr (.inr (by simp [hclaim]))
  · rw [claimCancellation_of_claimed hclaim]
    exact keeps_refl h

/-- Firing the signal of the client. -/
theorem keeps_fire : Keeps l x (fire l.shutdown x).2 := by
  refine ⟨ebbs_fire, fun _ => rfl, ⟨h.entries, h.queue, h.table, h.shutdown, h.apart,
    h.completing, fun hfired => ?_, fun hclosed => ?_⟩⟩
  · have hfired : (fire l.shutdown x).2.fired (x.control l.control).cancel = true := hfired
    rw [fired_fire, if_neg fun heq => h.apart heq.1] at hfired
    exact h.cancelled hfired
  · obtain hout | hfired | hclaim := h.closed hclosed
    · exact .inl hout
    · exact .inr (.inl (fired_of_fire hfired))
    · exact .inr (.inr hclaim)

end Steps

end Switchboard.Feed
