import Switchboard.Client.Waiting
import Switchboard.Client.Subscription
/-!
Clients and their engines around one exchange. An engine is known by what it does when it is called and
by the record of its calls; a client, which all its copies share, by its engine, its table, its shutdown
signal and where it stands in its life.
-/
namespace Switchboard

/-- What an engine delivers as part of its answer to a request: a payload of its own, or the parameters
of the request. It may also deliver under the number of another request. -/
structure Frame where
  status : UInt32
  payload : Option Bytes
  finished : Bool
  id : Option RequestId := none
  deriving DecidableEq, Repr

/-- A request as the engine has seen it. -/
structure EngineRequest where
  context : UInt32
  method : String
  params : Bytes
  id : RequestId
  deriving DecidableEq, Repr

/-- The fragment that a frame of the answer to a request is. -/
def Frame.fragment (r : EngineRequest) (f : Frame) : Fragment :=
  ⟨f.id.getD r.id, f.payload.getD r.params, .ofCode f.status, f.finished⟩

/-- An engine. It answers a request from within, by the frames for its method. An engine whose clients
must share a table says which; one that does not learn what becomes of its deliveries keeps no record of
that. -/
structure Engine where
  routes : List (String × List Frame) := []
  contextResponse : Bytes := []
  sharedTable : Option TableId := none
  learnsOutcomes : Bool := true
  lastTable : Option TableId := none
  configs : List String := []
  requests : List EngineRequest := []
  destroyed : List UInt32 := []
  outcomes : List Delivery := []
  deriving DecidableEq, Repr

namespace Engine

/-- The frames that answer a method. -/
def framesFor (e : Engine) (method : String) : List Frame :=
  ((e.routes.find? fun r => r.1 = method).map Prod.snd).getD []

/-- The table that the engine delivers to: the shared one, or that of the last request. -/
def table? (e : Engine) : Option TableId := e.sharedTable <|> e.lastTable

end Engine

/-- An engine among those of a world. -/
structure EngineId where
  index : Nat
  deriving DecidableEq, Repr

/-- A client among those of a world. -/
structure ClientId where
  index : Nat
  deriving DecidableEq, Repr

/-- Where a client stands in its life; while it is active it has a context of the engine. -/
inductive Lifecycle where
  | uninitialized
  | active (context : UInt32)
  | destroyed
  deriving DecidableEq, Repr

/-- The state without the context. -/
def Lifecycle.state : Lifecycle → ClientState
  | .uninitialized => .uninitialized
  | .active _ => .active
  | .destroyed => .destroyed

/-- What the copies of a client share, and how many copies there are. -/
structure Client where
  engine : EngineId
  table : TableId
  shutdown : SignalId
  lifecycle : Lifecycle := .uninitialized
  holders : Nat := 1
  deriving DecidableEq, Repr

/-- All clients and engines, and the exchange of their calls. -/
structure World where
  exchange : Exchange := {}
  engines : List Engine := []
  clients : List Client := []
  deriving DecidableEq, Repr

namespace World

/-- An engine. -/
def engine (w : World) (e : EngineId) : Engine := w.engines.getD e.index {}

/-- A client. -/
def client (w : World) (c : ClientId) : Client :=
  w.clients.getD c.index ⟨⟨0⟩, ⟨0⟩, ⟨0⟩, .destroyed, 0⟩

/-- A step of the exchange. -/
def atExchange {α : Type} (m : StateM Exchange α) : StateM World α := fun w =>
  let (a, exchange) := m w.exchange
  (a, { w with exchange })

/-- Changes an engine. -/
def modifyEngine (e : EngineId) (f : Engine → Engine) : StateM World Unit :=
  modify fun w => { w with engines := w.engines.set e.index (f (w.engine e)) }

/-- Changes a client. -/
def modifyClient (c : ClientId) (f : Client → Client) : StateM World Unit :=
  modify fun w => { w with clients := w.clients.set c.index (f (w.client c)) }

/-- Adds an engine. -/
def addEngine (e : Engine) : StateM World EngineId := fun w =>
  (⟨w.engines.length⟩, { w with engines := w.engines ++ [e] })

/-- A process of the exchange, in the world. -/
def withinExchange {α : Type} (p : Process Exchange α) : Process World α :=
  p.within World.exchange fun exchange w => { w with exchange }

end World

end Switchboard
