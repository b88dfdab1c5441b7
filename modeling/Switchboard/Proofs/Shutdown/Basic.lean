import Switchboard.Proofs.Interleaving
import Switchboard.Proofs.Session.Basic
/-!
One who reads a call while its client, and perhaps others, are destroyed and the engine goes on to deliver:
what each of them does, as programs of atomic steps.
-/
namespace Switchboard.Shutdown

open Exchange Process World

/-- What a party comes to: the result of a wait that has not been given up before, the items of a subscription
and whether they have come to their end, what has become of a delivery, or nothing to tell. -/
inductive Answer where
  | waited (result : Option (Except ClientError Bytes))
  | sequence (items : List (Except ClientError Bytes)) (ended : Bool)
  | delivery (f : Fragment) (d : Delivery)
  | destroyed

/-- Whether a reader has come to the end of its call as if the engine had ended it: a wait with a good result,
or a sequence that ends without an error in it. -/
def Answer.endsWell : Answer → Bool
  | .waited (some (.ok _)) => true
  | .sequence items true => items.all Except.isOk
  | _ => false

/-- A wait goes on after a look, or comes to its result. -/
def waitAfter (goOn : Waiting → Process Exchange Answer) : Waiting.Look → Process Exchange Answer
  | .pending w | .again w _ => goOn w
  | .finished w r => do
    w.listener.release
    return .waited (some r)

/-- Waits with a look at each of the given times. -/
def wait : List Nat → Waiting → Process Exchange Answer
  | [], _ => return .waited none
  | now :: later, w => do waitAfter (wait later) (← w.look now)

/-- A subscription is read on after a look, or comes to its end. -/
def readAfter (goOn : List (Except ClientError Bytes) → Subscription → Process Exchange Answer)
    (items : List (Except ClientError Bytes)) (s : Subscription) :
    Subscription.Look → Process Exchange Answer
  | .pending | .again _ => goOn items s
  | .item _ none _ => return .sequence items true
  | .item s (some item) _ => goOn (items ++ [item]) s

/-- Reads a subscription with so many looks, after the items that are there already. -/
def read : Nat → List (Except ClientError Bytes) → Subscription → Process Exchange Answer
  | 0, items, _ => return .sequence items false
  | n + 1, items, s => do readAfter (read n) items s (← s.look)

/-- A reader that is about to look at its call, and what it will do later: a wait, with the times of this look
and of the later ones, or a subscription, with the items so far and the number of the later looks. -/
inductive Watch where
  | wait (w : Waiting) (now : Nat) (later : List Nat)
  | read (l : Listener) (items : List (Except ClientError Bytes)) (later : Nat)

namespace Watch

/-- What the reader reads. -/
def listener : Watch → Listener
  | .wait w _ _ => w.listener
  | .read l _ _ => l

/-- What the reader does. -/
def program : Watch → Process Exchange Answer
  | .wait w now later => Shutdown.wait (now :: later) w
  | .read l items later => Shutdown.read (later + 1) items ⟨l, false⟩

/-- What the reader does once it has found that the client is still there: it looks at the queue. -/
def taking : Watch → Process Exchange Answer
  | .wait w now later => do waitAfter (Shutdown.wait later) (← w.lookAtQueue now)
  | .read l items later => do
    readAfter (Shutdown.read later) items ⟨l, false⟩ (← Subscription.lookAtQueue ⟨l, false⟩)

/-- Whether the reader has seen no error so far. -/
def clean : Watch → Bool
  | .wait w _ _ => w.error.isNone
  | .read _ items _ => items.all Except.isOk

end Watch

/-- Someone else: the engine that delivers a fragment, or one who destroys a client. -/
inductive Party where
  | deliver (f : Fragment)
  | destroy (c : ClientId)

/-- What a party does. -/
def Party.program : Party → Process World Answer
  | .deliver f => withinExchange do return .delivery f (← Switchboard.deliver Session.shared f)
  | .destroy c => do
    Client.destroy c
    return .destroyed

/-- A reader and the other parties in a world. -/
def company (w : World) (r : Watch) (parties : List Party) : Company World Answer :=
  ⟨w, withinExchange r.program :: parties.map Party.program⟩

end Switchboard.Shutdown
