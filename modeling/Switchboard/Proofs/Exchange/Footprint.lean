import Switchboard.Proofs.Exchange.Live
/-!
What steps on one call can change, and what they never take back.
-/
namespace Switchboard

namespace Exchange

variable {l : Listener} {x y z : Exchange}

/-- How many signals, queues, controls and tables there are. -/
def sizes (x : Exchange) : Nat × Nat × Nat × Nat :=
  (x.signals.length, x.queues.length, x.controls.length, x.tables.length)

/-- What no step takes back: a call does not return into the table, a claim stands, and a queue does not
open again. -/
structure Keeps (l : Listener) (x y : Exchange) : Prop where
  entry : ∀ c, (y.table l.table).find? l.id = some c → (x.table l.table).find? l.id = some c
  claim : (x.control l.control).claim ≠ .free →
    (y.control l.control).claim = (x.control l.control).claim
  cancel : (y.control l.control).cancel = (x.control l.control).cancel
  uncancelled : (y.control l.control).claim ≠ .cancelled →
    y.fired (x.control l.control).cancel = x.fired (x.control l.control).cancel
  closed : (x.queue l.queue).isClosed = true → (y.queue l.queue).isClosed = true
  accepting : (x.queue l.queue).accepting = false → (y.queue l.queue).accepting = false
  dropped : (y.queue l.queue).reading ≠ .dropped → (x.queue l.queue).reading ≠ .dropped

/-- Nothing has changed but what belongs to one call: its entry in its table, its queue, who has claimed
it, and its cancel signal. -/
structure Touches (l : Listener) (x y : Exchange) : Prop where
  sizes : y.sizes = x.sizes
  queue : ∀ q, q ≠ l.queue → y.queue q = x.queue q
  control : ∀ c, c ≠ l.control → y.control c = x.control c
  shutdown : (y.control l.control).shutdown = (x.control l.control).shutdown
  fired : ∀ s, s ≠ (x.control l.control).cancel → y.fired s = x.fired s
  table : ∀ t, t ≠ l.table → y.table t = x.table t
  other : ∀ id, id ≠ l.id → (y.table l.table).find? id = (x.table l.table).find? id
  lastId : (y.table l.table).lastId = (x.table l.table).lastId
  keyed : (x.table l.table).Keyed → (y.table l.table).Keyed

/-- The second exchange comes after the first by steps on one call. -/
structure Onward (l : Listener) (x y : Exchange) : Prop extends Keeps l x y, Touches l x y

theorem Keeps.absent (h : Keeps l x y) (habsent : (x.table l.table).find? l.id = none) :
    (y.table l.table).find? l.id = none := by
  cases hfind : (y.table l.table).find? l.id with
  | none => rfl
  | some c => rw [h.entry c hfind] at habsent; exact habsent

theorem Onward.refl (l : Listener) (x : Exchange) : Onward l x x := by
  constructor <;> constructor <;> simp

theorem Onward.trans (h : Onward l x y) (h' : Onward l y z) : Onward l x z where
  entry c hc := h.entry c (h'.entry c hc)
  claim hclaim := by
    rw [← h.claim hclaim]
    exact h'.claim (by rw [h.claim hclaim]; exact hclaim)
  cancel := h'.cancel.trans h.cancel
  uncancelled hclaim := by
    have hbefore : (y.control l.control).claim ≠ .cancelled := by
      intro hcancelled
      apply hclaim
      rw [h'.claim (by simp [hcancelled]), hcancelled]
    rw [← h.uncancelled hbefore, ← h.cancel]
    exact h'.uncancelled hclaim
  closed hclosed := h'.closed (h.closed hclosed)
  accepting haccepting := h'.accepting (h.accepting haccepting)
  dropped hdropped := h.dropped (h'.dropped hdropped)
  sizes := h'.sizes.trans h.sizes
  queue q hq := (h'.queue q hq).trans (h.queue q hq)
  control c hc := (h'.control c hc).trans (h.control c hc)
  shutdown := h'.shutdown.trans h.shutdown
  fired s hs := (h'.fired s (by rw [h.cancel]; exact hs)).trans (h.fired s hs)
  table t ht := (h'.table t ht).trans (h.table t ht)
  other id hid := (h'.other id hid).trans (h.other id hid)
  lastId := h'.lastId.trans h.lastId
  keyed hkeyed := h'.keyed (h.keyed hkeyed)

/-- What belongs to a call does not depend on whether its listener has finished. -/
theorem Onward.of_finish (h : Onward l.finish x y) : Onward l x y :=
  ⟨⟨h.entry, h.claim, h.cancel, h.uncancelled, h.closed, h.accepting, h.dropped⟩,
    ⟨h.sizes, h.queue, h.control, h.shutdown, h.fired, h.table, h.other, h.lastId, h.keyed⟩⟩

theorem Onward.control_cancel (h : Onward l x y) (c : ControlId) :
    (y.control c).cancel = (x.control c).cancel := by
  by_cases hc : c = l.control
  · rw [hc, h.cancel]
  · rw [h.control c hc]

theorem Onward.control_shutdown (h : Onward l x y) (c : ControlId) :
    (y.control c).shutdown = (x.control c).shutdown := by
  by_cases hc : c = l.control
  · rw [hc, h.shutdown]
  · rw [h.control c hc]

/-- Steps on a call put nothing into its table. -/
theorem Onward.mem_of_mem (h : Onward l x y) (hkeyed : (x.table l.table).Keyed) {e : RequestId × PendingCall}
    (he : e ∈ (y.table l.table).calls) : e ∈ (x.table l.table).calls := by
  obtain ⟨id, c⟩ := e
  have hfind := (h.keyed hkeyed).find?_eq_some_iff.2 he
  apply Table.mem_of_find?
  by_cases hid : id = l.id
  · subst hid
    exact h.entry c hfind
  · rw [← h.other id hid]
    exact hfind

section Sizes

variable {q : QueueId} {t : TableId} {c : ControlId} {s : SignalId} {id : RequestId}

theorem sizes_onQueue {α : Type} {f : Queue → α × Queue} : (onQueue q f x).2.sizes = x.sizes := by
  simp [sizes, onQueue]

theorem sizes_onTable {α : Type} {f : Table → α × Table} : (onTable t f x).2.sizes = x.sizes := by
  simp [sizes, onTable]

@[simp] theorem sizes_closeQueue : (closeQueue q x).2.sizes = x.sizes := sizes_onQueue

@[simp] theorem sizes_closeReading : (closeReading q x).2.sizes = x.sizes := sizes_onQueue

@[simp] theorem sizes_dropReading : (dropReading q x).2.sizes = x.sizes := sizes_onQueue

@[simp] theorem sizes_push {f : Fragment} : (push q f x).2.sizes = x.sizes := sizes_onQueue

@[simp] theorem sizes_take : (take q x).2.sizes = x.sizes := sizes_onQueue

@[simp] theorem sizes_resolve {removing : Bool} : (resolve t id removing x).2.sizes = x.sizes :=
  sizes_onTable

@[simp] theorem sizes_remove : (remove t id x).2.sizes = x.sizes := sizes_onTable

@[simp] theorem sizes_removeOwned : (removeOwned t s x).2.sizes = x.sizes := sizes_onTable

@[simp] theorem sizes_fire : (fire s x).2.sizes = x.sizes := by simp [sizes, fire]

@[simp] theorem sizes_setClaim {claim : Claim} : (setClaim c claim x).2.sizes = x.sizes := by
  simp [sizes, setClaim]

@[simp] theorem sizes_claimCompletion : (claimCompletion c x).2.sizes = x.sizes := by
  unfold claimCompletion
  split
  · exact sizes_setClaim
  · rfl

@[simp] theorem sizes_claimCancellation : (claimCancellation c x).2.sizes = x.sizes := by
  unfold claimCancellation
  split
  · exact sizes_fire.trans sizes_setClaim
  · rfl
  · rfl

end Sizes

section Steps

theorem onward_closeQueue : Onward l x (closeQueue l.queue x).2 := by
  constructor <;> constructor <;> simp +contextual

theorem onward_closeReading : Onward l x (closeReading l.queue x).2 := by
  constructor <;> constructor <;> simp +contextual

theorem onward_dropReading : Onward l x (dropReading l.queue x).2 := by
  constructor <;> constructor <;> simp +contextual

theorem onward_push (f : Fragment) : Onward l x (push l.queue f x).2 := by
  constructor <;> constructor <;> simp +contextual

theorem onward_take : Onward l x (take l.queue x).2 := by
  constructor <;> constructor <;> simp +contextual

theorem onward_resolve : Onward l x (resolve l.table l.id true x).2 := by
  constructor <;> constructor <;> simp +contextual [Table.find?_erase, Table.Keyed.erase]

theorem onward_remove : Onward l x (remove l.table l.id x).2 := by
  constructor <;> constructor <;> simp +contextual [Table.find?_erase, Table.Keyed.erase]

theorem onward_claimCompletion : Onward l x (claimCompletion l.control x).2 := by
  constructor <;> constructor <;> simp +contextual <;> split <;> rfl

theorem onward_claimCancellation : Onward l x (claimCancellation l.control x).2 := by
  by_cases hfree : (x.control l.control).claim = .free
  · constructor <;> constructor <;> simp +contextual [hfree, fired_claimCancellation]
  · rw [claimCancellation_of_claimed hfree]
    exact .refl l x

end Steps

end Exchange

end Switchboard
