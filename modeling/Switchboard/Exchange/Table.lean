import Switchboard.Exchange.Queue
/-!
The table of outstanding requests: which call waits for the answer to which request. Numbers of requests
grow by one, go round after the largest one, and never are zero.
-/
namespace Switchboard

/-- A signal among those of an exchange. -/
structure SignalId where
  index : Nat
  deriving DecidableEq, Repr

/-- A queue among those of an exchange. -/
structure QueueId where
  index : Nat
  deriving DecidableEq, Repr

/-- A control among those of an exchange. -/
structure ControlId where
  index : Nat
  deriving DecidableEq, Repr

/-- A table among those of an exchange. -/
structure TableId where
  index : Nat
  deriving DecidableEq, Repr

/-- A call that waits for its answer: the queue for it, and the control that says who ends the call. -/
structure PendingCall where
  queue : QueueId
  control : ControlId
  deriving DecidableEq, Repr

/-- The outstanding requests and the last number given out. -/
structure Table where
  lastId : RequestId := 0
  calls : List (RequestId × PendingCall) := []
  deriving DecidableEq, Repr

namespace Table

/-- The number after a number, leaving out zero. -/
def after (id : RequestId) : RequestId := if id + 1 = 0 then 1 else id + 1

/-- The call under a number. -/
def find? (t : Table) (id : RequestId) : Option PendingCall :=
  (t.calls.find? fun c => c.1 = id).map Prod.snd

/-- Whether a number is outstanding. -/
def contains (t : Table) (id : RequestId) : Bool := (t.find? id).isSome

/-- The first number that is not outstanding, from a given one on; the last argument bounds how many
are tried. -/
def firstFree (t : Table) (id : RequestId) : Nat → RequestId
  | 0 => id
  | n + 1 => if t.contains id then t.firstFree (after id) n else id

/-- The number for the next request. As many numbers as there are calls may be outstanding before
it. -/
def nextId (t : Table) : RequestId := t.firstFree (after t.lastId) t.calls.length

/-- Records a call under the next number. -/
def register (c : PendingCall) (t : Table) : RequestId × Table :=
  (t.nextId, ⟨t.nextId, t.calls ++ [(t.nextId, c)]⟩)

/-- Removes a number. -/
def erase (t : Table) (id : RequestId) : Table :=
  { t with calls := t.calls.filter fun c => c.1 ≠ id }

/-- Removes a number and says whether it was there. -/
def remove (id : RequestId) (t : Table) : Bool × Table := (t.contains id, t.erase id)

/-- Looks a number up, and removes it if asked to. -/
def resolve (id : RequestId) (removing : Bool) (t : Table) : Option PendingCall × Table :=
  (t.find? id, if removing then t.erase id else t)

/-- Removes the calls that have a property, and returns them. -/
def removeAll (p : PendingCall → Bool) (t : Table) : List PendingCall × Table :=
  ((t.calls.filter fun c => p c.2).map Prod.snd,
    { t with calls := t.calls.filter fun c => !p c.2 })

/-- The outstanding numbers in ascending order. -/
def outstanding (t : Table) : List RequestId :=
  (t.calls.map Prod.fst).mergeSort fun a b => a ≤ b

end Table

end Switchboard
