import Switchboard.Bench.Shelf
import Switchboard.Bench.Task
/-!
Commands to a bench, and the replies to them. After each command all tasks are polled.
-/
namespace Switchboard.Bench

/-- An engine as a command describes it. A native one stands behind a library; it hands all its clients
one table, and does not learn what becomes of its deliveries. -/
structure EngineSpec where
  routes : List (String × List Frame)
  contextResponse : Bytes
  table : Option String
  native : Bool
  library : Option String

/-- How a task waits for an open answer. -/
inductive WaitMode where
  | plain (limit : Option Nat) (shape : Option Shape)
  | events

/-- A command. -/
inductive Command where
  | table (name : String) (lastId : RequestId)
  | engine (name : String) (spec : EngineSpec)
  | engineLog (engine : String)
  | client (name engine : String)
  | connect (name engine : String) (config : Bytes) (absent : Bool)
  | cloneClient (client name : String)
  | dropClient (client : String)
  | createContext (client : String) (config : Bytes)
  | createContextFrom (client config : String)
  | destroy (client : String)
  | clientState (client : String)
  | isPending (client : String) (id : RequestId)
  | unsubscribe (client : String) (id : RequestId)
  | deliver (engine : String) (f : Fragment)
  | advance (milliseconds : Nat)
  | requestRaw (client method : String) (params : Bytes) (name : String)
  | request (client method : String) (params : Bytes) (name : String)
  | requestUnwritable (client : String)
  | dropHandle (handle : String)
  | handleId (handle : String)
  | wait (handle name : String) (mode : WaitMode)
  | getResponse (client method : String) (params : Bytes) (name : String) (limit : Option Nat)
      (shape : Option Shape)
  | getResultWithEvents (client method : String) (params : Bytes) (name : String)
      (shape event : Shape)
  | cancelTask (task : String)
  | tasks
  | intoSubscription (handle name : String)
  | subscribe (client method : String) (params : Bytes) (name : String)
  | subNext (sub name : String) (shape : Option Shape)
  | subCollect (sub name : String) (shape : Shape)
  | subClose (sub : String)
  | subState (sub : String)
  | dropSub (sub : String)
  | takeCall (engine : String) (id : RequestId) (remove : Bool) (name : String)
  | callState (call : String)
  | claimCompletion (call : String)
  | claimCancellation (call : String)
  | callPush (call : String) (f : Fragment)
  | callClose (call : String)
  | fireShutdown (call : String)
  | fireCancel (call : String)
  | apiCall (client : String) (method : ApiMethod) (params : Bytes) (name : String)
      (netSub : Option String)
  | netSubNext (netSub name : String)
  | netSubState (netSub : String)
  | netSubCollect (netSub name : String)
  | dropNetSub (netSub : String)

/-- What can be seen of a client. -/
structure ClientView where
  state : ClientState
  context : Option UInt32
  pending : Nat

/-- The text of a client in a message. -/
def ClientView.shown (v : ClientView) : String :=
  "Client \x7b state: " ++ v.state.name ++ ", pending: " ++ Text.decimal v.pending ++ " \x7d"

/-- What can be seen of a call. -/
structure CallView where
  closed : Bool
  abandoned : Bool
  cancelFired : Bool
  shutdownFired : Bool

/-- A reply to a command. -/
inductive Reply where
  | nothing
  | flag (b : Bool)
  | id (id : RequestId)
  | ok (n : UInt32)
  | started
  | busy
  | failed (e : ClientError)
  | notLoaded (e : LoadError)
  | badConfig
  | badParams
  | delivery (d : Delivery)
  | called
  | client (v : ClientView)
  | log (e : Engine)
  | names (ns : List String)
  | subscription (id : RequestId) (exhausted : Bool)
  | netSubscription (handle : UInt32) (id : RequestId)
  | call (v : CallView)
  | unknownName (name : String)

/-- Goes on with the thing under a name, if there is one. -/
def withNamed {α : Type} (names : Bench → Names α) (name : String) (f : α → BenchM Reply) :
    BenchM Reply := do
  match (names (← get)).find? name with
  | some a => f a
  | none => return .unknownName name

/-- The client under a name. -/
def withClient (name : String) (f : ClientId → BenchM Reply) : BenchM Reply :=
  withNamed Bench.clients name f

/-- The engine under a name. -/
def withEngine (name : String) (f : EngineId → BenchM Reply) : BenchM Reply :=
  withNamed Bench.engines name f

/-- The call under a name. -/
def withCall (name : String) (f : PendingCall → BenchM Reply) : BenchM Reply :=
  withNamed Bench.calls name f

/-- The control of the call under a name. -/
def withControl (name : String) (f : Control → BenchM Reply) : BenchM Reply :=
  withCall name fun call => do f ((← get).world.exchange.control call.control)

/-- The slot under a name, if no task is inside it. -/
def withFreeSlot (names : Bench → Names SlotId) (name : String) (f : SlotId → Slot → BenchM Reply) :
    BenchM Reply :=
  withNamed names name fun slot => do
    let held := (← get).slot slot
    if held.busy then return .busy else f slot held

/-- A result that is a number. -/
def replyOk (r : Except ClientError UInt32) : Reply :=
  match r with
  | .ok n => .ok n
  | .error e => .failed e

/-- Starts a task. -/
def startTask (name : String) (stage : Stage) : BenchM Reply := do
  modify fun b => { b with tasks := b.tasks ++ [{ name, stage }] }
  return .started

/-- Starts a task that holds a copy of a client. -/
def startFor (client : ClientId) (name : String) (stage : Stage) : BenchM Reply := do
  atWorld (Client.copy client)
  startTask name stage

/-- Goes on with parameters given as JSON text. -/
def withParams (params : Bytes) (f : Doc → BenchM Reply) : BenchM Reply :=
  match Form.value.read params with
  | .ok v => f v.toDoc
  | .error _ => return .badParams

/-- Keeps the open answer to a request that has been sent. -/
def keepAnswer (name : String) (sent : Except ClientError Listener) : BenchM Reply := do
  match sent with
  | .error e => return .failed e
  | .ok l =>
    keepHandle name l
    return .ok l.id

/-- The table that all native engines share. -/
def sharedNativeTable : BenchM TableId := do
  match (← get).nativeTable with
  | some t => return t
  | none =>
    let t ← atExchange (Exchange.newTable 0)
    modify fun b => { b with nativeTable := some t }
    return t

/-- Puts an engine on the bench. -/
def addEngine (name : String) (spec : EngineSpec) (sharedTable : Option TableId) : BenchM Reply := do
  let e ← atWorld (World.addEngine
    { routes := spec.routes, contextResponse := spec.contextResponse, sharedTable,
      learnsOutcomes := !spec.native })
  modify fun b => { b with engines := b.engines.put name e }
  return .nothing

/-- What can be seen of a client now. -/
def viewClient (c : ClientId) (w : World) : ClientView :=
  let client := w.client c
  { state := client.lifecycle.state
    context := match client.lifecycle with | .active n => some n | _ => none
    pending := (w.exchange.table client.table).calls.length }

/-- What can be seen of a call now. -/
def viewCall (c : PendingCall) (x : Exchange) : CallView :=
  let control := x.control c.control
  { closed := (x.queue c.queue).isClosed
    abandoned := x.abandoned c.control
    cancelFired := x.fired control.cancel
    shutdownFired := x.fired control.shutdown }

/-- Obeys a command. -/
def obey : Command → BenchM Reply
  | .table name lastId => do
    let t ← atExchange (Exchange.newTable lastId)
    modify fun b => { b with tables := b.tables.put name t }
    return .nothing
  | .engine name spec => do
    if spec.native then
      match loadFromShelf (spec.library.getD Library.engineName) with
      | .error e => return .notLoaded e
      | .ok () => addEngine name spec (some (← sharedNativeTable))
    else
      match spec.table with
      | none => addEngine name spec none
      | some table => withNamed Bench.tables table fun t => addEngine name spec (some t)
  | .engineLog engine => withEngine engine fun e => do return .log ((← get).world.engine e)
  | .client name engine => withEngine engine fun e => do
    keepClient name (← atWorld (Client.create e))
    return .nothing
  | .connect name engine config absent => withEngine engine fun e => do
    match Settings.form.read config with
    | .error _ => return .badConfig
    | .ok settings =>
      if absent then return .failed (.load (.notFound Library.engineName))
      match ← atWorld (Client.connect e settings) with
      | .error err => return .failed err
      | .ok (c, context) =>
        keepClient name c
        return .ok context
  | .cloneClient client name => withClient client fun c => do
    atWorld (Client.copy c)
    keepClient name c
    return .nothing
  | .dropClient client => do
    match (← get).clients.find? client with
    | none => return .flag false
    | some c =>
      modify fun b => { b with clients := b.clients.erase client }
      atWorld (Client.release c)
      return .flag true
  | .createContext client config => withClient client fun c => do
    match Settings.form.read config with
    | .error _ => return .badConfig
    | .ok settings => return replyOk (← atWorld (Client.createContext c settings))
  | .createContextFrom client config => withClient client fun c => do
    return replyOk (← atWorld (Client.createContextFrom c config))
  | .destroy client => withClient client fun c => do
    atWorld (Client.destroy c).run
    return .nothing
  | .clientState client => withClient client fun c => do
    return .client (viewClient c (← get).world)
  | .isPending client id => withClient client fun c => do
    let w := (← get).world
    return .flag ((w.exchange.table (w.client c).table).contains id)
  | .unsubscribe client id => withClient client fun c => do
    return .flag (← atWorld (Client.unsubscribe c id).run)
  | .deliver engine f => withEngine engine fun e => do
    let engine := (← get).world.engine e
    match engine.table? with
    | none => return .delivery .unknownRequest
    | some t =>
      let d ← atExchange (Switchboard.deliver t f).run
      return if engine.learnsOutcomes then .delivery d else .called
  | .advance milliseconds => do
    modify fun b => { b with now := b.now + milliseconds }
    return .nothing
  | .requestRaw client method params name => withClient client fun c => do
    keepAnswer name (← atWorld (Client.request c method params))
  | .request client method params name => withParams params fun params =>
    withClient client fun c => do
      keepAnswer name (← atWorld (Client.send c method (some params)))
  | .requestUnwritable client => withClient client fun c => do
    return replyOk ((← atWorld (Client.send c "" none)).map Listener.id)
  | .dropHandle handle => do
    match (← get).handles.find? handle with
    | none => return .flag false
    | some l =>
      modify fun b => { b with handles := b.handles.erase handle }
      atExchange l.release.run
      return .flag true
  | .handleId handle => withNamed Bench.handles handle fun l => return .id l.id
  | .wait handle name mode => withNamed Bench.handles handle fun l => do
    modify fun b => { b with handles := b.handles.erase handle }
    let now := (← get).now
    match mode with
    | .plain limit shape =>
      startTask name (.wait none (.start l now limit) (reportResult shape))
    | .events => startTask name (.wait none (.start l now none) reportPayloads)
  | .getResponse client method params name limit shape => withParams params fun params =>
    withClient client fun c =>
      startFor c name (.request c method (encodeParams params) limit (reportResult shape))
  | .getResultWithEvents client method params name shape event => withParams params fun params =>
    withClient client fun c =>
      startFor c name (.request c method (encodeParams params) none (reportShapes event shape))
  | .cancelTask task => do
    match (← get).tasks.find? fun t => t.name == task with
    | none => return .flag false
    | some t =>
      modify fun b => { b with tasks := b.tasks.eraseP fun t => t.name == task }
      dropStage t.stage
      return .flag true
  | .tasks => do return .names ((← get).tasks.map Task.name)
  | .intoSubscription handle name => withNamed Bench.handles handle fun l => do
    modify fun b => { b with handles := b.handles.erase handle }
    keepSubscription name ⟨l, false⟩
    return .ok l.id
  | .subscribe client method params name => withParams params fun params =>
    withClient client fun c => do
      match ← atWorld (Client.subscribe c method (some params)) with
      | .error e => return .failed e
      | .ok s =>
        keepSubscription name s
        return .ok s.listener.id
  | .subNext sub name shape => withNamed Bench.subscriptions sub fun slot =>
    startTask name (.next slot false shape)
  | .subCollect sub name shape => withFreeSlot Bench.subscriptions sub fun _ held => do
    modify fun b => { b with subscriptions := b.subscriptions.erase sub }
    startTask name (.collect held.inner shape [])
  | .subClose sub => withFreeSlot Bench.subscriptions sub fun slot held => do
    let closed ← atExchange held.inner.close.run
    modifySlot slot fun slot => { slot with inner := closed }
    return .nothing
  | .subState sub => withFreeSlot Bench.subscriptions sub fun _ held =>
    return .subscription held.inner.listener.id held.inner.exhausted
  | .dropSub sub => do
    match (← get).subscriptions.find? sub with
    | none => return .flag false
    | some slot =>
      modify fun b => { b with subscriptions := b.subscriptions.erase sub }
      unnameSlot slot
      return .flag true
  | .takeCall engine id remove name => withEngine engine fun e => do
    match ((← get).world.engine e).table? with
    | none => return .flag false
    | some t =>
      match ← atExchange (Exchange.resolve t id remove) with
      | none => return .flag false
      | some call =>
        keepCall name call
        return .flag true
  | .callState call => withCall call fun c => do
    return .call (viewCall c (← get).world.exchange)
  | .claimCompletion call => withCall call fun c => do
    return .flag (← atExchange (Exchange.claimCompletion c.control))
  | .claimCancellation call => withCall call fun c => do
    return .flag (← atExchange (Exchange.claimCancellation c.control))
  | .callPush call f => withCall call fun c => do
    return .flag (← atExchange (Exchange.push c.queue f))
  | .callClose call => withCall call fun c => do
    atExchange (Exchange.closeQueue c.queue)
    return .nothing
  | .fireShutdown call => withControl call fun c => do
    return .flag (← atExchange (Exchange.fire c.shutdown))
  | .fireCancel call => withControl call fun c => do
    return .flag (← atExchange (Exchange.fire c.cancel))
  | .apiCall client method params name netSub => withClient client fun c => do
    match method.errand params with
    | .error _ => return .badParams
    | .ok (.request method params limit report) =>
      startFor c name (.request c method params limit report)
    | .ok (.opening o) => startFor c name (.subscribe c o (netSub.getD name))
    | .ok .ending =>
      withNamed Bench.netSubscriptions (netSub.getD name) fun slot =>
        startFor c name (.unsubscribe c slot)
  | .netSubNext netSub name => withNamed Bench.netSubscriptions netSub fun slot =>
    startTask name (.netNext slot false)
  | .netSubState netSub => withFreeSlot Bench.netSubscriptions netSub fun _ held =>
    return .netSubscription (held.handle.getD 0) held.inner.listener.id
  | .netSubCollect netSub name => withFreeSlot Bench.netSubscriptions netSub fun _ held => do
    modify fun b => { b with netSubscriptions := b.netSubscriptions.erase netSub }
    startTask name (.netCollect ⟨held.handle.getD 0, held.inner⟩ [])
  | .dropNetSub netSub => do
    match (← get).netSubscriptions.find? netSub with
    | none => return .flag false
    | some slot =>
      modify fun b => { b with netSubscriptions := b.netSubscriptions.erase netSub }
      unnameSlot slot
      return .flag true

/-- What a command brings: the reply, the reports of the tasks that have finished, and the outstanding
numbers in the table of each engine. -/
structure Step where
  reply : Reply
  reports : List (String × Report)
  outstanding : List (List RequestId)

/-- The outstanding numbers in the table of each engine. -/
def outstanding (w : World) : List (List RequestId) :=
  w.engines.map fun e =>
    match e.table? with
    | some t => (w.exchange.table t).outstanding
    | none => []

/-- Obeys a command and polls all tasks. -/
def step (c : Command) : BenchM Step := do
  let reply ← obey c
  let reports ← pollAll
  return { reply, reports, outstanding := outstanding (← get).world }

end Switchboard.Bench
