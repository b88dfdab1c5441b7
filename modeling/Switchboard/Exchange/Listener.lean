import Switchboard.Exchange.Delivery
/-!
The reading side of a call. A listener that is let go before its call has ended cancels the call, so
that nothing of it stays in the table.
-/
namespace Switchboard

open Exchange Process

/-- Who reads the answer of a request, and whether it has been read to its end or given up. -/
structure Listener where
  id : RequestId
  queue : QueueId
  control : ControlId
  table : TableId
  shutdown : SignalId
  done : Bool := false
  deriving DecidableEq, Repr

namespace Listener

/-- The listener with nothing more to come. -/
def finish (l : Listener) : Listener := { l with done := true }

/-- Gives the call up, unless its last delivery has claimed it. -/
def cancel (l : Listener) : Process Exchange (Bool × Listener) := do
  if ← atomic (claimCancellation l.control) then
    atomic (closeReading l.queue)
    discard (atomic (remove l.table l.id))
    return (true, l.finish)
  else return (false, l)

/-- Lets the listener go. -/
def release (l : Listener) : Process Exchange Unit := do
  if !l.done then discard l.cancel
  atomic (dropReading l.queue)

end Listener

end Switchboard
