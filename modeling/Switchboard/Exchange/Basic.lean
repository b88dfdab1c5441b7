import Switchboard.Exchange.Table
/-!
The exchange: all signals, queues, controls and tables that calls are made of, and the atomic steps on
them. A control decides who ends its call: the delivery that carries the last fragment, or the reader
that gives up. Whichever claims the call first has it.
-/
namespace Switchboard

/-- Who has claimed a call. -/
inductive Claim where
  | free
  | completing
  | cancelled
  deriving DecidableEq, Repr

/-- The control of a call: who has claimed it, the signal that it has been cancelled, and the signal
that its client has gone. -/
structure Control where
  claim : Claim := .free
  cancel : SignalId
  shutdown : SignalId
  deriving DecidableEq, Repr

/-- All parts of all calls. A signal is whether it has been fired. -/
structure Exchange where
  signals : List Bool := []
  queues : List Queue := []
  controls : List Control := []
  tables : List Table := []
  deriving DecidableEq, Repr

namespace Exchange

/-- Whether a signal has been fired. -/
def fired (x : Exchange) (s : SignalId) : Bool := x.signals.getD s.index false

/-- A queue. -/
def queue (x : Exchange) (q : QueueId) : Queue := x.queues.getD q.index .gone

/-- A control. -/
def control (x : Exchange) (c : ControlId) : Control :=
  x.controls.getD c.index ⟨.cancelled, ⟨0⟩, ⟨0⟩⟩

/-- A table. -/
def table (x : Exchange) (t : TableId) : Table := x.tables.getD t.index {}

/-- Whether deliveries to a call are to be abandoned. -/
def abandoned (x : Exchange) (c : ControlId) : Bool :=
  let control := x.control c
  control.claim == .cancelled || x.fired control.cancel || x.fired control.shutdown

/-- Replaces a queue by what a function makes of it, and returns what else the function yields. -/
def onQueue {α : Type} (q : QueueId) (f : Queue → α × Queue) : StateM Exchange α := fun x =>
  let (a, queue) := f (x.queue q)
  (a, { x with queues := x.queues.set q.index queue })

/-- Replaces a table by what a function makes of it, and returns what else the function yields. -/
def onTable {α : Type} (t : TableId) (f : Table → α × Table) : StateM Exchange α := fun x =>
  let (a, table) := f (x.table t)
  (a, { x with tables := x.tables.set t.index table })

/-- A new signal. -/
def newSignal : StateM Exchange SignalId := fun x =>
  (⟨x.signals.length⟩, { x with signals := x.signals ++ [false] })

/-- A new queue. -/
def newQueue : StateM Exchange QueueId := fun x =>
  (⟨x.queues.length⟩, { x with queues := x.queues ++ [{}] })

/-- A new table, which gives out the number after the given one first. -/
def newTable (lastId : RequestId) : StateM Exchange TableId := fun x =>
  (⟨x.tables.length⟩, { x with tables := x.tables ++ [{ lastId }] })

/-- A new control with a cancel signal of its own. -/
def newControl (shutdown : SignalId) : StateM Exchange ControlId := do
  let cancel ← newSignal
  fun x => (⟨x.controls.length⟩, { x with controls := x.controls ++ [{ cancel, shutdown }] })

/-- Fires a signal, and says whether it had not been fired before. -/
def fire (s : SignalId) : StateM Exchange Bool := fun x =>
  (!x.fired s, { x with signals := x.signals.set s.index true })

/-- Whether a signal has been fired. -/
def isFired (s : SignalId) : StateM Exchange Bool := fun x => (x.fired s, x)

/-- Whether deliveries to a call are to be abandoned. -/
def isAbandoned (c : ControlId) : StateM Exchange Bool := fun x => (x.abandoned c, x)

/-- Sets who has claimed a call. -/
def setClaim (c : ControlId) (claim : Claim) : StateM Exchange Unit := fun x =>
  ((), { x with controls := x.controls.set c.index { x.control c with claim } })

/-- Claims a call for its last delivery. -/
def claimCompletion (c : ControlId) : StateM Exchange Bool := fun x =>
  if (x.control c).claim = .free then
    let ((), x) := setClaim c .completing x
    (true, x)
  else (false, x)

/-- Claims a call for its cancellation and fires its cancel signal. It is also true if the call has
been cancelled before. -/
def claimCancellation (c : ControlId) : StateM Exchange Bool := fun x =>
  match (x.control c).claim with
  | .free =>
    let ((), x) := setClaim c .cancelled x
    let (_, x) := fire (x.control c).cancel x
    (true, x)
  | .completing => (false, x)
  | .cancelled => (true, x)

/-- Puts a fragment into a queue. -/
def push (q : QueueId) (f : Fragment) : StateM Exchange Bool := onQueue q (Queue.push f)

/-- Closes a queue for new fragments. -/
def closeQueue (q : QueueId) : StateM Exchange Unit := onQueue q fun queue => ((), queue.close)

/-- Closes the reading end of a queue. -/
def closeReading (q : QueueId) : StateM Exchange Unit :=
  onQueue q fun queue => ((), queue.closeReading)

/-- Gives up the reading end of a queue. -/
def dropReading (q : QueueId) : StateM Exchange Unit :=
  onQueue q fun queue => ((), queue.dropReading)

/-- Takes the oldest fragment out of a queue. -/
def take (q : QueueId) : StateM Exchange Taken := onQueue q Queue.take

/-- Records a call in a table. -/
def register (t : TableId) (c : PendingCall) : StateM Exchange RequestId := onTable t (Table.register c)

/-- Looks a call up, and removes it if asked to. -/
def resolve (t : TableId) (id : RequestId) (removing : Bool) :
    StateM Exchange (Option PendingCall) :=
  onTable t (Table.resolve id removing)

/-- Removes a call. -/
def remove (t : TableId) (id : RequestId) : StateM Exchange Bool := onTable t (Table.remove id)

/-- Removes the calls of a table that belong to the owner of a shutdown signal. -/
def removeOwned (t : TableId) (shutdown : SignalId) : StateM Exchange (List PendingCall) := fun x =>
  onTable t (Table.removeAll fun c => (x.control c.control).shutdown = shutdown) x

end Exchange

end Switchboard
