import Switchboard.Exchange.Basic
import Switchboard.Exchange.Process
/-!
Deliveries of the engine, as processes on the exchange. A last delivery takes its call out of the table
in the same step that finds it, so no two of them find the same call.
-/
namespace Switchboard

open Exchange Process

/-- What has become of a delivery: it was put into the queue, it ended the stream, it was given up and
the call with it, or nobody waits for it. -/
inductive Delivery where
  | delivered
  | terminated
  | abandoned
  | unknownRequest
  deriving DecidableEq, Repr

namespace Delivery

/-- Gives a call up. -/
def abandon (t : TableId) (id : RequestId) (call : PendingCall) : Process Exchange Delivery := do
  atomic (closeQueue call.queue)
  discard (atomic (remove t id))
  return .abandoned

/-- Hands a fragment to the call that has been found for it. -/
def handOver (t : TableId) (call : PendingCall) (f : Fragment) : Process Exchange Delivery := do
  if f.status = .streamTerminated then
    atomic (closeQueue call.queue)
    return .terminated
  let pushed ← atomic (push call.queue f)
  if f.finished then atomic (closeQueue call.queue)
  if pushed then return .delivered else abandon t f.requestId call

/-- Hands a fragment over unless the call has been cancelled or claimed by another. -/
def offer (t : TableId) (call : PendingCall) (f : Fragment) : Process Exchange Delivery := do
  if ← atomic (isAbandoned call.control) then abandon t f.requestId call
  else if f.finished then
    if ← atomic (claimCompletion call.control) then handOver t call f
    else abandon t f.requestId call
  else handOver t call f

end Delivery

/-- Whether a fragment is the last one of its call. -/
def Fragment.isLast (f : Fragment) : Bool := f.finished || f.status == .streamTerminated

/-- Delivers a fragment to the call that waits under its number. -/
def deliver (t : TableId) (f : Fragment) : Process Exchange Delivery := do
  match ← atomic (resolve t f.requestId f.isLast) with
  | some call => Delivery.offer t call f
  | none => return .unknownRequest

end Switchboard
