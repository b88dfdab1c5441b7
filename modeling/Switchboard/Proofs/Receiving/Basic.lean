import Switchboard.Client.Basic
import Switchboard.Proofs.Exchange.Opening
import Switchboard.Proofs.Interleaving
/-!
One who reads the answer of a call while others put something into its queue or close it, in whatever order their
steps fall: what each of them does, and what gets into the queue.
-/
namespace Switchboard

/-- The call of a listener is live, and its cancel signal is not the one that its client has gone. -/
structure Exchange.Ready (x : Exchange) (l : Listener) : Prop extends x.Live l where
  apart : (x.control l.control).cancel ≠ l.shutdown

/-- A call that has just been opened is ready, if its client has a signal. -/
theorem Client.ready_openCall {x : Exchange} {t : TableId} {s : SignalId} (hlt : t.index < x.tables.length)
    (hfree : (x.table t).find? (x.table t).nextId = none) (hrunning : x.fired s = false)
    (hsignal : s.index < x.signals.length) : (openCall t s x).2.Ready (openCall t s x).1 := by
  refine ⟨live_openCall hlt hfree hrunning, ?_⟩
  rw [openCall_fst, control_openCall, if_pos rfl]
  intro hsame
  exact absurd (congrArg SignalId.index hsame).symm (Nat.ne_of_lt hsignal)

namespace Receiving

open Exchange Process

variable {α β : Type}

/-- Someone who puts something into the queue of a call or closes it: the engine that delivers a fragment, or one who
stops the deliveries. -/
inductive Supplier where
  | deliver (f : Fragment)
  | unsubscribe

/-- What a party is told in the end: what the reader has read, what has become of a delivery, or whether there was a
call to stop the deliveries to. -/
inductive Told (α : Type) where
  | read (a : α)
  | delivery (f : Fragment) (d : Delivery)
  | unsubscribed (found : Bool)

namespace Told

/-- The same with something else made of what has been read. -/
def map (g : α → β) : Told α → Told β
  | .read a => .read (g a)
  | .delivery f d => .delivery f d
  | .unsubscribed found => .unsubscribed found

/-- The fragment that has been put into the queue, if that is what is told. -/
def delivered? : Told α → Option Fragment
  | .delivery f .delivered => some f
  | _ => none

end Told

namespace Supplier

/-- What a supplier does to the call of a listener. -/
def program (l : Listener) : Supplier → Process Exchange (Told α)
  | .deliver f => do return .delivery f (← Switchboard.deliver l.table f)
  | .unsubscribe => do return .unsubscribed (← Client.stopDeliveries l.table l.id)

/-- A fragment that is delivered is one for the call. -/
def IsFor (l : Listener) : Supplier → Prop
  | .deliver f => f.requestId = l.id
  | .unsubscribe => True

instance (l : Listener) : DecidablePred (IsFor l)
  | .deliver f => inferInstanceAs (Decidable (f.requestId = l.id))
  | .unsubscribe => inferInstanceAs (Decidable True)

end Supplier

/-- The reader of a call, and the others. -/
def company (x : Exchange) (l : Listener) (reader : Process Exchange α) (suppliers : List Supplier) :
    Company Exchange (Told α) :=
  ⟨x, (do return .read (← reader)) :: suppliers.map (Supplier.program l)⟩

/-- What has been put into a queue between two states with a single step between them: what is found there behind as
much as there was before. -/
def appended (q : QueueId) (x y : Exchange) : List Fragment :=
  (y.queue q).fragments.drop (x.queue q).fragments.length

/-- What is put into a queue by steps in a given order, the first first. -/
def entered (q : QueueId) : List Nat → Company Exchange (Told α) → List Fragment
  | [], _ => []
  | i :: rest, c => appended q c.state (c.advance i).state ++ entered q rest (c.advance i)

/-- The fragments that the queue of a call has accepted, from those that are in it on. -/
def accepted (l : Listener) (order : List Nat) (c : Company Exchange (Told α)) : List Fragment :=
  (c.state.queue l.queue).fragments ++ entered l.queue order c

/-- What the reader makes of what it has read has no part in the steps. -/
theorem company_map (g : α → β) (x : Exchange) (l : Listener) (reader : Process Exchange α)
    (suppliers : List Supplier) : company x l (do return g (← reader)) suppliers =
      (company x l reader suppliers).answering (Told.map g) := by
  have hsuppliers : suppliers.map (Supplier.program l) =
      (suppliers.map (Supplier.program l)).map fun p : Process Exchange (Told α) => do return Told.map g (← p) := by
    rw [List.map_map]
    refine List.map_congr_left fun s _ => ?_
    cases s <;> simp only [Function.comp, Supplier.program, Process.bind_assoc, Process.pure_bind] <;> rfl
  simp only [company, Company.answering, List.map_cons, Process.bind_assoc, Process.pure_bind, ← hsuppliers]
  rfl

theorem result?_map (g : α → β) (x : Exchange) (l : Listener) (reader : Process Exchange α)
    (suppliers : List Supplier) (order : List Nat) (i : Nat) :
    ((company x l (do return g (← reader)) suppliers).follow order).result? i =
      (((company x l reader suppliers).follow order).result? i).map (Told.map g) := by
  rw [company_map, Company.follow_answering, Company.result?_answering]

theorem entered_append (q : QueueId) (before after : List Nat) (c : Company Exchange (Told α)) :
    entered q (before ++ after) c = entered q before c ++ entered q after (c.follow before) := by
  induction before generalizing c with
  | nil => rfl
  | cons i rest ih => rw [List.cons_append, entered, entered, ih, List.append_assoc, Company.follow]

end Receiving

end Switchboard
