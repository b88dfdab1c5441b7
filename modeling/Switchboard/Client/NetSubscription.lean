import Switchboard.Api.Methods
/-!
Subscriptions to the network. The first payload of the answer is the handle of the subscription in the
engine, and each further one an item.
-/
namespace Switchboard

/-- A subscription to the network that is open in the engine. -/
structure NetSubscription where
  handle : UInt32
  inner : Subscription
  deriving DecidableEq, Repr

namespace NetSubscription

/-- A call that opens a subscription. -/
structure Opening where
  method : String
  params : Doc

/-- Opens a subscription to a collection. -/
def ofCollection (params : Api.SubscribeCollectionParams) : Opening :=
  ⟨"net.subscribe_collection", Api.SubscribeCollectionParams.form.encode params⟩

/-- Opens a subscription in the query language. -/
def ofQuery (params : Api.SubscribeParams) : Opening :=
  ⟨"net.subscribe", Api.SubscribeParams.form.encode params⟩

/-- The handle in the first payload of an answer. An answer without a payload has none. -/
def handleOf (first : Option (Except ClientError Bytes)) : Except ClientError UInt32 :=
  match first with
  | some (.error e) => .error e
  | some (.ok payload) => handleIn payload
  | none => handleIn []
where
  /-- The handle in a payload. -/
  handleIn (payload : Bytes) : Except ClientError UInt32 :=
    match Api.SubscriptionHandle.form.ofPayload payload with
    | .ok h => .ok h.handle
    | .error f => .error (.decode f)

/-- Waits for the handle: nothing yet, or the open subscription. A subscription that does not open is
let go. -/
def opened (s : Subscription) : StateM Exchange (Option (Except ClientError NetSubscription)) := do
  match ← s.next with
  | none => return none
  | some (s, first) =>
    match handleOf first with
    | .ok handle => return some (.ok ⟨handle, s⟩)
    | .error e =>
      s.listener.release.run
      return some (.error e)

/-- The value of an item. -/
def itemOf (payload : Bytes) : Except Fault Value :=
  (Api.SubscriptionItem.form.ofPayload payload).map fun i => i.result

/-- The next item, if it is there. -/
def next (s : NetSubscription) :
    StateM Exchange (Option (NetSubscription × Option (Except ClientError Value))) := do
  match ← s.inner.nextDecoded itemOf with
  | none => return none
  | some (inner, item) => return some ({ s with inner }, item)

end NetSubscription

end Switchboard
