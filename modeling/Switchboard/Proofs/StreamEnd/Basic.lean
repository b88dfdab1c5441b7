import Switchboard.Proofs.Race.Roles
import Switchboard.Proofs.Shutdown.Basic
/-!
The end of a stream, and all who may have to do with the call at the time: the engine, those who read calls or
leave them, and the clients that unsubscribe, are destroyed or issue calls. Whether a call counts as completed
shows in what happens to those who leave it.
-/
namespace Switchboard.StreamEnd

open Exchange Process World

/-- Someone who has to do with calls: the engine that delivers a fragment, one who reads a call for a while, or
leaves it, or a client that unsubscribes from a number, is destroyed, or issues a call. -/
inductive Party where
  | deliver (f : Fragment)
  | read (r : Shutdown.Watch)
  | leave (l : Listener) (how : Race.Leave)
  | unsubscribe (c : ClientId) (id : RequestId)
  | destroy (c : ClientId)
  | issue (c : ClientId)

/-- What a party is told in the end; readers say which call they have read or left. -/
inductive Answer where
  | delivery (f : Fragment) (d : Delivery)
  | read (l : Listener) (a : Shutdown.Answer)
  | left (l : Listener) (a : Race.Answer)
  | unsubscribed (found : Bool)
  | destroyed
  | issued (id : RequestId)

/-- A wait has been given up as its time was over. -/
def outOfTime : Shutdown.Answer → Bool
  | .waited (some (.error (.timeout _))) => true
  | _ => false

/-- One who has left a call that was not done with has cancelled it. -/
def hasCancelled (l : Listener) : Race.Answer → Bool
  | .gaveUp cancelled => cancelled
  | .closed ended => ended && !l.done
  | _ => false

/-- Whether a reader of the call with a control says that it has cancelled it: its time was over, it has given
the call up, or it has closed its subscription. -/
def Answer.cancels (k : ControlId) : Answer → Bool
  | .read l a => outOfTime a && l.control == k
  | .left l a => hasCancelled l a && l.control == k
  | _ => false

/-- What a party does. -/
def Party.program : Party → Process World Answer
  | .deliver f => withinExchange do return .delivery f (← Switchboard.deliver Session.shared f)
  | .read r => withinExchange do return .read r.listener (← r.program)
  | .leave l how => withinExchange do return .left l (← (Race.Party.leave how).program l)
  | .unsubscribe c id => do return .unsubscribed (← Client.unsubscribe c id)
  | .destroy c => do
    Client.destroy c
    return .destroyed
  | .issue c => do
    let client ← atomic (do return (← get).client c)
    let l ← atomic (atExchange (Client.openCall client.table client.shutdown))
    return .issued l.id

/-- The client that a party is of, if it is of one. -/
def Party.client? : Party → Option ClientId
  | .unsubscribe c _ | .destroy c | .issue c => some c
  | .deliver _ | .read _ | .leave _ _ => none

/-- All parties in a world. -/
def company (w : World) (parties : List Party) : Company World Answer := ⟨w, parties.map Party.program⟩

variable {l : Listener} {x : Exchange}

/-- Whether the cancel signal of a call has been fired once somebody has left it. -/
def firedBy (l : Listener) (how : Race.Leave) (x : Exchange) : Bool :=
  (((Race.Party.leave how).program l).run x).2.fired (x.control l.control).cancel

/-- A call counts as completed: nobody can cancel it, however they leave it, and a wait that is out of time waits
on. -/
structure Completed (l : Listener) (x : Exchange) : Prop where
  refused : (claimCancellation l.control x).1 = false
  unfired : x.fired (x.control l.control).cancel = false
  left : ∀ how, firedBy l how x = false
  patient : ∀ v : Waiting, v.listener = l → (v.giveUp.run x).1 = .again { v with deadline := none } none

/-- A call can be cancelled: whoever leaves it cancels it, and a wait that is out of time ends. -/
structure Cancellable (l : Listener) (x : Exchange) : Prop where
  granted : (claimCancellation l.control x).1 = true
  left : ∀ how, firedBy l how x = true
  impatient : ∀ v : Waiting, v.listener = l →
    (v.giveUp.run x).1 = .finished { v with listener := l.finish } (.error (.timeout v.limit))

end Switchboard.StreamEnd
