import Switchboard.Exchange.Status
import Switchboard.Text.Utf8
/-!
The queue of a call: fragments of its answer, put in at one end by the engine's deliveries and taken
out at the other by whoever reads the answer. Either end can be closed without the other.
-/
namespace Switchboard

/-- The number under which a request is known to the engine. -/
abbrev RequestId := UInt32

/-- One delivery of the engine. -/
structure Fragment where
  requestId : RequestId
  payload : Bytes
  status : Status
  finished : Bool
  deriving DecidableEq, Repr

/-- The reading end of a queue: open, closed but still read, or gone. -/
inductive ReadingEnd where
  | opened
  | closed
  | dropped
  deriving DecidableEq, Repr

/-- A queue of fragments, the oldest first. -/
structure Queue where
  fragments : List Fragment := []
  accepting : Bool := true
  reading : ReadingEnd := .opened
  deriving DecidableEq, Repr

/-- What taking from a queue yields: a fragment, nothing yet, or nothing ever again. -/
inductive Taken where
  | fragment (f : Fragment)
  | pending
  | ended
  deriving DecidableEq, Repr

namespace Queue

/-- A queue both of whose ends are gone. -/
def gone : Queue := ⟨[], false, .dropped⟩

/-- Whether a fragment would be refused. -/
def isClosed (q : Queue) : Bool := !q.accepting || q.reading != .opened

/-- Puts a fragment in, if both ends are open. -/
def push (f : Fragment) (q : Queue) : Bool × Queue :=
  if q.isClosed then (false, q) else (true, { q with fragments := q.fragments ++ [f] })

/-- Closes the end where fragments are put in. Those inside can still be taken out. -/
def close (q : Queue) : Queue := { q with accepting := false }

/-- Closes the reading end. Fragments inside can still be taken out. -/
def closeReading (q : Queue) : Queue :=
  if q.reading = .opened then { q with reading := .closed } else q

/-- Gives up the reading end and what is inside. -/
def dropReading (q : Queue) : Queue := { q with fragments := [], reading := .dropped }

/-- Takes out the oldest fragment. -/
def take (q : Queue) : Taken × Queue :=
  match q.fragments with
  | f :: rest => (.fragment f, { q with fragments := rest })
  | [] => if q.isClosed then (.ended, q) else (.pending, q)

end Queue

end Switchboard
