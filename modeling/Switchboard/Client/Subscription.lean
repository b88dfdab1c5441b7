import Switchboard.Client.Error
import Switchboard.Exchange.Listener
/-!
Reading the answer of a call one payload at a time. An error ends the sequence after it has been shown,
and so does the end of the stream; nothing follows the end.
-/
namespace Switchboard

open Exchange Process

/-- A call that is read one payload at a time. -/
structure Subscription where
  listener : Listener
  exhausted : Bool := false
  deriving DecidableEq, Repr

namespace Subscription

/-- What a look at a subscription shows: nothing more for now, a fragment to pass over, or the next item
and the fragment that it was in; no item is the end. -/
inductive Look where
  | pending
  | again (read : Fragment)
  | item (s : Subscription) (item : Option (Except ClientError Bytes)) (read : Option Fragment)

/-- The subscription with nothing more to come. -/
def finish (s : Subscription) : Subscription := ⟨s.listener.finish, true⟩

/-- Ends the sequence from the reading side. -/
def close (s : Subscription) : Process Exchange Subscription := do
  let (cancelled, listener) ← s.listener.cancel
  if !cancelled then atomic (closeReading listener.queue)
  return ⟨listener, true⟩

/-- Looks at the queue. -/
def lookAtQueue (s : Subscription) : Process Exchange Look := do
  match ← atomic (take s.listener.queue) with
  | .pending => return .pending
  | .ended => return .item s.finish none none
  | .fragment f =>
    if f.status = .error then
      let s ← s.close
      return .item s (some (.error (.foreign (EngineError.ofPayload f.payload)))) (some f)
    else if f.payload.isEmpty then return .again f
    else return .item s (some (.ok f.payload)) (some f)

/-- Looks at the subscription once. -/
def look (s : Subscription) : Process Exchange Look := do
  if s.exhausted then return .item s none none
  else if ← atomic (isFired s.listener.shutdown) then
    return .item s.finish (some (.error .transportClosed)) none
  else s.lookAtQueue

/-- Looks until there is an item or nothing more for now, so many times at most, and says which fragments
it has read. -/
def readAtMost : Nat → Subscription →
    StateM Exchange (List Fragment × Option (Subscription × Option (Except ClientError Bytes)))
  | 0, _ => return ([], none)
  | n + 1, s => do
    match ← s.look.run with
    | .pending => return ([], none)
    | .again f =>
      let (more, outcome) ← readAtMost n s
      return (f :: more, outcome)
    | .item s item read => return (read.toList, some (s, item))

/-- Reads on to the next item, if it is there. -/
def read (s : Subscription) :
    StateM Exchange (List Fragment × Option (Subscription × Option (Except ClientError Bytes))) := fun x =>
  s.readAtMost ((x.queue s.listener.queue).fragments.length + 1) x

/-- The next item, if it is there. -/
def next (s : Subscription) :
    StateM Exchange (Option (Subscription × Option (Except ClientError Bytes))) := do
  return (← s.read).2

/-- Decodes an item that has been read. A failure ends the sequence. -/
def decoded {α : Type} (decode : Bytes → Except Fault α) :
    Option (Subscription × Option (Except ClientError Bytes)) →
      StateM Exchange (Option (Subscription × Option (Except ClientError α)))
  | none => return none
  | some (s, none) => return some (s, none)
  | some (s, some (.error e)) => return some (← s.close.run, some (.error e))
  | some (s, some (.ok payload)) => do
    match decode payload with
    | .ok a => return some (s, some (.ok a))
    | .error f => return some (← s.close.run, some (.error (.decode f)))

/-- The next item, decoded, if it is there. -/
def nextDecoded {α : Type} (decode : Bytes → Except Fault α) (s : Subscription) :
    StateM Exchange (Option (Subscription × Option (Except ClientError α))) := do
  decoded decode (← s.next)

end Subscription

end Switchboard
