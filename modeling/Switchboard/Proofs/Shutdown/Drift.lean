import Switchboard.Proofs.Interleaving
import Switchboard.Proofs.Exchange.Footprint
import Switchboard.Proofs.Client.Operations
/-!
What becomes of a call by steps of its reader, by steps that may close its queue, and by steps that leave it
alone.
-/
namespace Switchboard.Shutdown

open Exchange Process World

variable {l : Listener} {x y : Exchange}

/-- No step brings a call into the table, takes a signal back, or changes which signals a call has. -/
structure Drifts (l : Listener) (x y : Exchange) : Prop where
  entries : (y.table l.table).calls ⊆ (x.table l.table).calls
  fired : ∀ s, x.fired s = true → y.fired s = true
  signals : y.signals.length = x.signals.length
  shutdown : (y.control l.control).shutdown = (x.control l.control).shutdown
  cancel : (y.control l.control).cancel = (x.control l.control).cancel

/-- A step of a reader that leaves its call: the last delivery does not claim the call by it, and the end where
fragments are put in stays as it is. -/
structure Leaves (l : Listener) (x y : Exchange) : Prop extends Drifts l x y where
  completing : (y.control l.control).claim = .completing → (x.control l.control).claim = .completing
  accepting : (y.queue l.queue).accepting = (x.queue l.queue).accepting

/-- A step of another, by which at most the end where fragments are put in is closed. -/
structure Ebbs (l : Listener) (x y : Exchange) : Prop extends Drifts l x y where
  claim : (y.control l.control).claim = (x.control l.control).claim
  uncancelled : y.fired (x.control l.control).cancel = x.fired (x.control l.control).cancel
  reading : (y.queue l.queue).reading = (x.queue l.queue).reading

/-- A step of another that closes no end. -/
structure Passes (l : Listener) (x y : Exchange) : Prop extends Ebbs l x y where
  accepting : (y.queue l.queue).accepting = (x.queue l.queue).accepting

theorem Drifts.absent (h : Drifts l x y) (habsent : (x.table l.table).find? l.id = none) :
    (y.table l.table).find? l.id = none := by
  rw [Table.find?_eq_none_iff] at habsent ⊢
  exact fun e he => habsent e (h.entries he)

theorem Passes.refl (l : Listener) (x : Exchange) : Passes l x x := by
  constructor
  case accepting => rfl
  case toEbbs => constructor <;> first | rfl | constructor <;> simp

theorem Passes.leaves (h : Passes l x y) : Leaves l x y :=
  ⟨h.toDrifts, fun hclaim => h.claim ▸ hclaim, h.accepting⟩

/-- A step on a table that takes entries out of it. -/
theorem passes_onTable {α : Type} {t : TableId} {f : Table → α × Table}
    (hf : ∀ table, (f table).2.calls ⊆ table.calls) : Passes l x (onTable t f x).2 :=
  ⟨⟨⟨calls_onTable_subset hf, fun _ h => h, rfl, rfl, rfl⟩, rfl, rfl, rfl⟩, rfl⟩

theorem passes_resolve {t : TableId} {id : RequestId} {removing : Bool} :
    Passes l x (resolve t id removing x).2 := by
  refine passes_onTable fun table => ?_
  cases removing with
  | true => exact List.filter_sublist.subset
  | false => exact fun _ h => h

theorem passes_remove {t : TableId} {id : RequestId} : Passes l x (remove t id x).2 :=
  passes_onTable fun _ => List.filter_sublist.subset

theorem passes_removeOwned {t : TableId} {s : SignalId} : Passes l x (removeOwned t s x).2 :=
  passes_onTable fun _ => List.filter_sublist.subset

section Queues

variable {α : Type} {q : QueueId} {f : Queue → α × Queue}

theorem kept_onQueue {β : Type} {g : Queue → β} (hgone : (f .gone).2 = .gone)
    (hkept : ∀ queue, g (f queue).2 = g queue) : g ((onQueue q f x).2.queue l.queue) = g (x.queue l.queue) := by
  rw [queue_onQueue hgone]
  split
  case isTrue hq => rw [hq, hkept]
  case isFalse => rfl

/-- A step on a queue that leaves its reading end alone. -/
theorem ebbs_onQueue (hgone : (f .gone).2 = .gone) (hreading : ∀ queue, (f queue).2.reading = queue.reading) :
    Ebbs l x (onQueue q f x).2 :=
  ⟨⟨fun _ h => h, fun _ h => h, rfl, rfl, rfl⟩, rfl, rfl, kept_onQueue hgone hreading⟩

theorem passes_onQueue (hgone : (f .gone).2 = .gone) (hreading : ∀ queue, (f queue).2.reading = queue.reading)
    (haccepting : ∀ queue, (f queue).2.accepting = queue.accepting) : Passes l x (onQueue q f x).2 :=
  ⟨ebbs_onQueue hgone hreading, kept_onQueue hgone haccepting⟩

/-- A step on a queue that leaves the end alone where fragments are put in. -/
theorem leaves_onQueue (hgone : (f .gone).2 = .gone)
    (haccepting : ∀ queue, (f queue).2.accepting = queue.accepting) : Leaves l x (onQueue q f x).2 :=
  ⟨⟨fun _ h => h, fun _ h => h, rfl, rfl, rfl⟩, id, kept_onQueue hgone haccepting⟩

theorem ebbs_closeQueue : Ebbs l x (closeQueue q x).2 := ebbs_onQueue rfl fun _ => rfl

theorem passes_closeQueue (hq : q ≠ l.queue) : Passes l x (closeQueue q x).2 :=
  ⟨ebbs_closeQueue, by rw [queue_closeQueue, if_neg (Ne.symm hq)]⟩

theorem passes_push {f : Fragment} : Passes l x (push q f x).2 :=
  passes_onQueue rfl (fun _ => Queue.reading_push) fun _ => Queue.accepting_push

theorem passes_take : Passes l x (take q x).2 :=
  passes_onQueue rfl (fun _ => Queue.reading_take) fun _ => Queue.accepting_take

theorem leaves_closeReading : Leaves l x (closeReading q x).2 :=
  leaves_onQueue rfl fun _ => Queue.accepting_closeReading

theorem leaves_dropReading : Leaves l x (dropReading q x).2 :=
  leaves_onQueue rfl fun _ => Queue.accepting_dropReading

end Queues

theorem passes_fire {s : SignalId} (hs : s ≠ (x.control l.control).cancel) : Passes l x (fire s x).2 := by
  refine ⟨⟨⟨fun _ h => h, fun _ => fired_of_fire, fire_signals_length, rfl, rfl⟩, rfl, ?_, rfl⟩, rfl⟩
  rw [fired_fire, if_neg fun h => hs h.1.symm]

theorem passes_claimCompletion {c : ControlId} (hc : c ≠ l.control) :
    Passes l x (claimCompletion c x).2 := by
  have hcontrol : (claimCompletion c x).2.control l.control = x.control l.control := by
    rw [control_claimCompletion, if_neg fun h => hc h.1.symm]
  have hsizes := sizes_claimCompletion (c := c) (x := x)
  simp only [sizes, Prod.mk.injEq] at hsizes
  constructor
  case accepting => simp
  case toEbbs =>
    constructor
    case toDrifts =>
      refine ⟨?_, ?_, hsizes.1, by rw [hcontrol], by rw [hcontrol]⟩
      · simp
      · simp
    case claim => rw [hcontrol]
    case uncancelled => simp
    case reading => simp

/-- The last delivery of a call claims it. -/
theorem drifts_claimCompletion : Drifts l x (claimCompletion l.control x).2 := by
  have hsizes := sizes_claimCompletion (c := l.control) (x := x)
  simp only [sizes, Prod.mk.injEq] at hsizes
  refine ⟨?_, ?_, hsizes.1, ?_, ?_⟩
  · simp
  · simp
  · rw [control_claimCompletion]
    split <;> rfl
  · rw [control_claimCompletion]
    split <;> rfl

theorem leaves_claimCancellation : Leaves l x (claimCancellation l.control x).2 := by
  by_cases hfree : (x.control l.control).claim = .free
  · have hsizes := sizes_claimCancellation (c := l.control) (x := x)
    simp only [sizes, Prod.mk.injEq] at hsizes
    refine ⟨⟨?_, fun s hs => ?_, hsizes.1, ?_, ?_⟩, ?_, ?_⟩
    · simp
    · unfold claimCancellation
      rw [hfree]
      exact fired_of_fire hs
    · simp [hfree]
    · simp [hfree]
    · simp [hfree]
    · simp
  · rw [claimCancellation_of_claimed hfree]
    exact (Passes.refl l x).leaves

end Switchboard.Shutdown
