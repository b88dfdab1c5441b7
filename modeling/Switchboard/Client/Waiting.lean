import Switchboard.Client.Error
import Switchboard.Exchange.Listener
/-!
Waiting for the whole answer of a call. The fragments of the answer make one result: the first error if
there is one, else the first success, else nothing. Each look at the call sees first whether the client
has gone, then what is in the queue, then the time.
-/
namespace Switchboard

open Exchange Process

/-- A wait for an answer: what has been read so far, and the time at which it is given up. Times are in
milliseconds. -/
structure Waiting where
  listener : Listener
  limit : Nat := 0
  deadline : Option Nat := none
  data : Option Bytes := none
  error : Option EngineError := none
  events : List Bytes := []

namespace Waiting

/-- Starts to wait, for at most the limit if there is one. -/
def start (listener : Listener) (now : Nat) (limit : Option Nat) : Waiting where
  listener
  limit := limit.getD 0
  deadline := limit.map (now + ·)

/-- Takes a fragment into the result. -/
def add (w : Waiting) (f : Fragment) : Waiting :=
  match f.status with
  | .success => { w with data := w.data <|> some f.payload }
  | .error => { w with error := w.error <|> some (EngineError.ofPayload f.payload) }
  | .streamEvent => { w with events := w.events ++ [f.payload] }
  | .streamTerminated | .unknown _ => w

/-- The result of the fragments read so far. -/
def result (w : Waiting) : Except ClientError Bytes :=
  match w.error with
  | some e => .error (.foreign e)
  | none => .ok (w.data.getD [])

/-- What a look at a call shows: nothing more for now, more to look at, perhaps after a fragment, or the
result. -/
inductive Look where
  | pending (w : Waiting)
  | again (w : Waiting) (read : Option Fragment)
  | finished (w : Waiting) (result : Except ClientError Bytes)

/-- The wait with nothing more to come. -/
def finish (w : Waiting) : Waiting := { w with listener := w.listener.finish }

/-- Gives the call up, as its time is over. A call that its last delivery has claimed is waited for without a
limit instead. -/
def giveUp (w : Waiting) : Process Exchange Look := do
  let (cancelled, listener) ← w.listener.cancel
  if cancelled then return .finished { w with listener } (.error (.timeout w.limit))
  else return .again { w with listener, deadline := none } none

/-- Looks at the time. -/
def lookAtTime (now : Nat) (w : Waiting) : Process Exchange Look := do
  match w.deadline with
  | none => return .pending w
  | some deadline => if now < deadline then return .pending w else w.giveUp

/-- Looks at the queue, and if there is nothing in it, at the time. -/
def lookAtQueue (now : Nat) (w : Waiting) : Process Exchange Look := do
  match ← atomic (take w.listener.queue) with
  | .fragment f => return .again (w.add f) (some f)
  | .ended => return .finished w.finish w.result
  | .pending => w.lookAtTime now

/-- Looks at the call once. -/
def look (now : Nat) (w : Waiting) : Process Exchange Look := do
  if ← atomic (isFired w.listener.shutdown) then
    return .finished w.finish (.error .transportClosed)
  else w.lookAtQueue now

/-- Looks until there is nothing more for now, so many times at most, and says which fragments it has
read. A result ends the wait. -/
def readAtMost (now : Nat) : Nat → Waiting →
    StateM Exchange (List Fragment × Waiting × Option (Except ClientError Bytes))
  | 0, w => return ([], w, none)
  | n + 1, w => do
    match ← (w.look now).run with
    | .pending w => return ([], w, none)
    | .again w read =>
      let (more, outcome) ← readAtMost now n w
      return (read.toList ++ more, outcome)
    | .finished w r =>
      w.listener.release.run
      return ([], w, some r)

/-- Looks until there is nothing more for now: at every fragment, at the end of them, and once more
when the time limit falls away. -/
def read (now : Nat) (w : Waiting) :
    StateM Exchange (List Fragment × Waiting × Option (Except ClientError Bytes)) := fun x =>
  w.readAtMost now ((x.queue w.listener.queue).fragments.length + 2) x

/-- Reads on until there is nothing more for now. -/
def poll (now : Nat) (w : Waiting) :
    StateM Exchange (Waiting × Option (Except ClientError Bytes)) := do
  return (← w.read now).2

end Waiting

end Switchboard
