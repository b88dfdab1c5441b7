import Switchboard.Client.World
import Switchboard.Client.Payload
import Switchboard.Settings.Basic
/-!
The life of a client: it is made, gets a context of its engine once, sends requests while it has it, and
is destroyed once. Destroying it takes its outstanding calls, and only these, out of the table.
-/
namespace Switchboard.Client

open Exchange Process World

/-- A new client of an engine. -/
def create (e : EngineId) : StateM World ClientId := do
  let engine := (← get).engine e
  let table ←
    match engine.sharedTable with
    | some t => pure t
    | none => atExchange (newTable 0)
  let shutdown ← atExchange newSignal
  fun w => (⟨w.clients.length⟩, { w with clients := w.clients ++ [{ engine := e, table, shutdown }] })

/-- The engine's answer to the making of a context: a handle or an error. -/
structure ContextResponse where
  result : Option UInt32
  error : Option EngineError

/-- Answers to the making of a context as records. -/
def ContextResponse.form : Form ContextResponse :=
  .record (.cons (.optional "result" .uint32) <| .cons (.optional "error" EngineError.form) .done)
    (fun (result, error, ()) => { result, error })
    fun r => (r.result, r.error, ())

/-- The context that the engine's answer brings. Zero is no context. -/
def contextOf (response : Bytes) : Except ClientError UInt32 :=
  match ContextResponse.form.read response with
  | .error _ => .error (.contextCreation (.unreadable response))
  | .ok { error := some e, .. } => .error (.foreign e)
  | .ok { result := some context, error := none } =>
    if context = 0 then .error (.contextCreation .noHandle) else .ok context
  | .ok { result := none, error := none } => .error (.contextCreation .noHandle)

/-- Octets are refused if their number does not fit a word of the engine. -/
def checkLength (octets : Bytes) : Except ClientError Unit :=
  match wireLength? octets.length with
  | some _ => .ok ()
  | none => .error (.payloadTooLarge octets.length)

/-- Makes the engine's context from a document that is passed on as it is. -/
def createContextFrom (c : ClientId) (config : String) : StateM World (Except ClientError UInt32) := do
  let client := (← get).client c
  match client.lifecycle with
  | .uninitialized =>
    match checkLength (Utf8.encode config) with
    | .error e => return .error e
    | .ok () =>
      modifyEngine client.engine fun e => { e with configs := e.configs ++ [config] }
      match contextOf ((← get).engine client.engine).contextResponse with
      | .error e => return .error e
      | .ok context =>
        modifyClient c fun client => { client with lifecycle := .active context }
        return .ok context
  | other => return .error (.invalidState .createContext other.state)

/-- How this library calls itself. -/
def ownBinding : Settings.Binding := ⟨some "ever-client-rs", some "0.2.0"⟩

/-- The document of settings that the engine is given: in it the client names itself, unless the
settings name another. -/
def configOf (s : Settings) : String :=
  Settings.form.write { s with binding := s.binding <|> some ownBinding }

/-- Makes the engine's context from settings. -/
def createContext (c : ClientId) (s : Settings) : StateM World (Except ClientError UInt32) :=
  createContextFrom c (configOf s)

/-- Delivers fragments one after another, and says what becomes of each. -/
def deliverAll (t : TableId) : List Fragment → StateM Exchange (List (Fragment × Delivery))
  | [] => return []
  | f :: rest => do
    let outcome ← (deliver t f).run
    return (f, outcome) :: (← deliverAll t rest)

/-- Hands a request to the engine, which may answer it from within, and says what becomes of the
fragments of that answer. -/
def callEngine (e : EngineId) (t : TableId) (r : EngineRequest) :
    StateM World (List (Fragment × Delivery)) := do
  modifyEngine e fun engine =>
    { engine with requests := engine.requests ++ [r], lastTable := some t }
  let frames := ((← get).engine e).framesFor r.method
  let outcomes ← atExchange (deliverAll t (frames.map (·.fragment r)))
  modifyEngine e fun engine =>
    if engine.learnsOutcomes then { engine with outcomes := engine.outcomes ++ outcomes.map Prod.snd }
    else engine
  return outcomes

/-- Registers a new call of a client. -/
def openCall (table : TableId) (shutdown : SignalId) : StateM Exchange Listener := do
  let queue ← newQueue
  let control ← newControl shutdown
  let id ← register table ⟨queue, control⟩
  return { id, queue, control, table, shutdown }

/-- Sends a request, with its parameters as octets, and says also what has become of the fragments that
the engine has delivered before this returns. -/
def requestAnswered (c : ClientId) (method : String) (params : Bytes) :
    StateM World (Except ClientError (Listener × List (Fragment × Delivery))) := do
  let client := (← get).client c
  match client.lifecycle with
  | .active context =>
    match checkLength (Utf8.encode method), checkLength params with
    | .error e, _ | .ok (), .error e => return .error e
    | .ok (), .ok () =>
      let listener ← atExchange (openCall client.table client.shutdown)
      let outcomes ← callEngine client.engine client.table ⟨context, method, params, listener.id⟩
      return .ok (listener, outcomes)
  | other => return .error (.invalidState .sendRequest other.state)

/-- Sends a request, with its parameters as octets. The engine may answer before this returns. -/
def request (c : ClientId) (method : String) (params : Bytes) :
    StateM World (Except ClientError Listener) := do
  return (← requestAnswered c method params).map Prod.fst

/-- Sends a request with a document as its parameters. Parameters that cannot be written as a document are
refused before anything else. -/
def send (c : ClientId) (method : String) (params : Option Doc) :
    StateM World (Except ClientError Listener) :=
  match params with
  | none => return .error .encode
  | some d => request c method (encodeParams d)

/-- Sends a request whose payloads are read one at a time. -/
def subscribe (c : ClientId) (method : String) (params : Option Doc) :
    StateM World (Except ClientError Subscription) := do
  return (← send c method params).map fun l => ⟨l, false⟩

/-- Closes the queues of calls. -/
def closeAll : List PendingCall → Process World Unit
  | [] => return ()
  | call :: rest => do
    atomic (atExchange (closeQueue call.queue))
    closeAll rest

/-- Marks a client as destroyed, and says where it stood before. -/
def markDestroyed (c : ClientId) : StateM World Lifecycle := do
  let before := ((← get).client c).lifecycle
  modifyClient c fun client => { client with lifecycle := .destroyed }
  return before

/-- Gives a context of the engine up. -/
def destroyContext (e : EngineId) (context : UInt32) : StateM World Unit :=
  modifyEngine e fun engine => { engine with destroyed := engine.destroyed ++ [context] }

/-- Wakes all who read the calls of a client, and takes these out of the table. -/
def withdraw (client : Client) : Process World Unit := do
  discard (atomic (atExchange (fire client.shutdown)))
  let calls ← atomic (atExchange (removeOwned client.table client.shutdown))
  closeAll calls

/-- Destroys a client: it gives its context up and withdraws from its calls. -/
def destroy (c : ClientId) : Process World Unit := do
  let client ← atomic (do return (← get).client c)
  if let .active context ← atomic (markDestroyed c) then
    atomic (destroyContext client.engine context)
  withdraw client

/-- Makes one more copy of a client. -/
def copy (c : ClientId) : StateM World Unit :=
  modifyClient c fun client => { client with holders := client.holders + 1 }

/-- Lets one copy of a client go. The last one takes the client with it. -/
def release (c : ClientId) : StateM World Unit := do
  modifyClient c fun client => { client with holders := client.holders - 1 }
  if ((← get).client c).holders = 0 then (destroy c).run

/-- Makes a client and its context in one. A client without a context does not stay. -/
def connect (e : EngineId) (s : Settings) : StateM World (Except ClientError (ClientId × UInt32)) := do
  let c ← create e
  match ← createContext c s with
  | .ok context => return .ok (c, context)
  | .error err =>
    release c
    return .error err

/-- Stops the deliveries to a call: it is taken out of the table and cancelled, and its queue is closed.
The engine is not told. -/
def stopDeliveries (t : TableId) (id : RequestId) : Process Exchange Bool := do
  match ← atomic (resolve t id true) with
  | none => return false
  | some call =>
    discard (atomic (claimCancellation call.control))
    atomic (closeQueue call.queue)
    return true

/-- Stops the deliveries to a call in a client's table, and says whether there was one. -/
def unsubscribe (c : ClientId) (id : RequestId) : Process World Bool := do
  let client ← atomic (do return (← get).client c)
  withinExchange (stopDeliveries client.table id)

end Switchboard.Client
