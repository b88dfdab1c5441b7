import Switchboard.Form.Choice
/-!
Queries of the network and subscriptions to it. The first answer of a subscription has its handle,
and every further one an item.
-/
namespace Switchboard.Api

/-- The direction of an order. -/
inductive SortDirection where
  | ascending
  | descending
  deriving DecidableEq, Repr

namespace SortDirection

/-- The name of a direction. -/
def name : SortDirection → String
  | .ascending => "ASC"
  | .descending => "DESC"

/-- Directions by name. -/
def form : Form SortDirection := .names name [.ascending, .descending]

end SortDirection

/-- An order by a path. -/
structure OrderBy where
  path : String
  direction : SortDirection

/-- Orders as records. -/
def OrderBy.form : Form OrderBy :=
  .record
    (.cons (.required "path" .text) <| .cons (.required "direction" SortDirection.form) .done)
    (fun (path, direction, ()) => { path, direction })
    fun o => (o.path, o.direction, ())

/-- A query of a collection. -/
structure QueryParams where
  collection : String
  filter : Option Value
  result : String
  order : List OrderBy
  limit : Option UInt32

/-- Queries as records. -/
def QueryParams.form : Form QueryParams :=
  .record
    (.cons (.required "collection" .text) <| .cons (.optional "filter" .value) <|
      .cons (.required "result" .text) <| .cons (.several "order" OrderBy.form) <|
      .cons (.optional "limit" .uint32) .done)
    (fun (collection, filter, result, order, limit, ()) =>
      { collection, filter, result, order, limit })
    fun q => (q.collection, q.filter, q.result, q.order, q.limit, ())

/-- The documents that a query found. -/
structure QueryResult where
  result : List Value

/-- Results of queries as records. -/
def QueryResult.form : Form QueryResult :=
  .record (.cons (.required "result" (.list .value)) .done) (fun (result, ()) => { result })
    fun q => (q.result, ())

/-- A wait for a document, with a time limit of the engine in milliseconds. -/
structure WaitForParams where
  collection : String
  filter : Option Value
  result : String
  timeout : Option UInt32

/-- Waits as records. -/
def WaitForParams.form : Form WaitForParams :=
  .record
    (.cons (.required "collection" .text) <| .cons (.optional "filter" .value) <|
      .cons (.required "result" .text) <| .cons (.optional "timeout" .uint32) .done)
    (fun (collection, filter, result, timeout, ()) => { collection, filter, result, timeout })
    fun w => (w.collection, w.filter, w.result, w.timeout, ())

/-- The document that was waited for. -/
structure WaitForResult where
  result : Value

/-- Results of waits as records. -/
def WaitForResult.form : Form WaitForResult :=
  .record (.cons (.required "result" .value) .done) (fun (result, ()) => { result })
    fun w => (w.result, ())

/-- A subscription to a collection. -/
structure SubscribeCollectionParams where
  collection : String
  filter : Option Value
  result : String

/-- Subscriptions to a collection as records. -/
def SubscribeCollectionParams.form : Form SubscribeCollectionParams :=
  .record
    (.cons (.required "collection" .text) <| .cons (.optional "filter" .value) <|
      .cons (.required "result" .text) .done)
    (fun (collection, filter, result, ()) => { collection, filter, result })
    fun s => (s.collection, s.filter, s.result, ())

/-- A subscription in the query language of the network. -/
structure SubscribeParams where
  subscription : String
  arguments : Option Value

/-- Subscriptions in the query language as records. -/
def SubscribeParams.form : Form SubscribeParams :=
  .record
    (.cons (.required "subscription" .text) <| .cons (.optional "variables" .value) .done)
    (fun (subscription, arguments, ()) => { subscription, arguments })
    fun s => (s.subscription, s.arguments, ())

/-- The handle of a subscription in the engine. -/
structure SubscriptionHandle where
  handle : UInt32

/-- Handles as records. -/
def SubscriptionHandle.form : Form SubscriptionHandle :=
  .record (.cons (.required "handle" .uint32) .done) (fun (handle, ()) => { handle })
    fun h => (h.handle, ())

/-- An item of a subscription. -/
structure SubscriptionItem where
  result : Value

/-- Items as records. -/
def SubscriptionItem.form : Form SubscriptionItem :=
  .record (.cons (.required "result" .value) .done) (fun (result, ()) => { result })
    fun i => (i.result, ())

end Switchboard.Api
