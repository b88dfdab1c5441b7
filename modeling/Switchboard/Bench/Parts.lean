import Switchboard.Bench.Names
import Switchboard.Exchange.Delivery
/-!
Loose parts of an exchange under names: signals, queues, controls and tables that are put together by hand,
and commands to them.
-/
namespace Switchboard.Bench

/-- The parts of an exchange that have names, each kind with names of its own. -/
structure Parts where
  exchange : Exchange := {}
  signals : Names SignalId := []
  queues : Names QueueId := []
  controls : Names ControlId := []
  tables : Names TableId := []

namespace Parts

/-- A command to the parts. -/
inductive Command where
  | signal (name : String)
  | cloneSignal (signal name : String)
  | cancelSignal (control name : String)
  | shutdownSignal (control name : String)
  | fire (signal : String)
  | isFired (signal : String)
  | sameAs (signal other : String)
  | channel (name : String)
  | push (queue : String) (f : Fragment)
  | closeQueue (queue : String)
  | closeReading (queue : String)
  | dropReading (queue : String)
  | isClosed (queue : String)
  | take (queue : String)
  | control (name shutdown : String)
  | claimCompletion (control : String)
  | claimCancellation (control : String)
  | controlState (control : String)
  | table (name : String) (lastId : RequestId)
  | register (table queue control : String)
  | registerMany (table control : String) (count : Nat)
  | resolve (table : String) (id : RequestId) (removing : Bool)
  | remove (table : String) (id : RequestId)
  | contains (table : String) (id : RequestId)
  | size (table : String)
  | removeOwned (table shutdown : String)
  | deliver (table : String) (f : Fragment)

/-- A reply to a command. Parts appear under their names, if they have any. -/
inductive Reply where
  | nothing
  | flag (b : Bool)
  | id (id : RequestId)
  | ids (ids : List RequestId)
  | taken (t : Taken)
  | control (abandoned cancelFired shutdownFired : Bool)
  | call (queue control : Option String)
  | size (n : Nat)
  | removed (queues : List (Option String))
  | delivery (d : Delivery)
  | unknownName (name : String)

/-- A step on the parts. -/
abbrev PartsM := StateM Parts

/-- A step of the exchange. -/
def atExchange {α : Type} (m : StateM Exchange α) : PartsM α := fun p =>
  let (a, exchange) := m p.exchange
  (a, { p with exchange })

/-- Goes on with the part under a name, if there is one. -/
def withNamed {α : Type} (names : Parts → Names α) (name : String) (f : α → PartsM Reply) :
    PartsM Reply := do
  match (names (← get)).find? name with
  | some a => f a
  | none => return .unknownName name

/-- Puts a signal under a name. -/
def nameSignal (name : String) (s : SignalId) : PartsM Reply := do
  modify fun p => { p with signals := p.signals.put name s }
  return .nothing

/-- Goes on with the signal under a name. -/
def withSignal (name : String) (f : SignalId → PartsM Reply) : PartsM Reply :=
  withNamed Parts.signals name f

/-- Goes on with the queue under a name. -/
def withQueue (name : String) (f : QueueId → PartsM Reply) : PartsM Reply :=
  withNamed Parts.queues name f

/-- Goes on with the control under a name. -/
def withControl (name : String) (f : ControlId → PartsM Reply) : PartsM Reply :=
  withNamed Parts.controls name f

/-- Goes on with the table under a name. -/
def withTable (name : String) (f : TableId → PartsM Reply) : PartsM Reply :=
  withNamed Parts.tables name f

/-- Registers a call with a queue of its own that nobody reads. -/
def registerUnread (t : TableId) (c : ControlId) : StateM Exchange RequestId := do
  let q ← Exchange.newQueue
  Exchange.dropReading q
  Exchange.register t ⟨q, c⟩

/-- Obeys a command. -/
def obey : Command → PartsM Reply
  | .signal name => do nameSignal name (← atExchange Exchange.newSignal)
  | .cloneSignal signal name => withSignal signal (nameSignal name)
  | .cancelSignal control name => withControl control fun c => do
    nameSignal name ((← get).exchange.control c).cancel
  | .shutdownSignal control name => withControl control fun c => do
    nameSignal name ((← get).exchange.control c).shutdown
  | .fire signal => withSignal signal fun s => do return .flag (← atExchange (Exchange.fire s))
  | .isFired signal => withSignal signal fun s => do
    return .flag (← atExchange (Exchange.isFired s))
  | .sameAs signal other => withSignal signal fun s => withSignal other fun s' =>
    return .flag (s = s')
  | .channel name => do
    let q ← atExchange Exchange.newQueue
    modify fun p => { p with queues := p.queues.put name q }
    return .nothing
  | .push queue f => withQueue queue fun q => do
    return .flag (← atExchange (Exchange.push q f))
  | .closeQueue queue => withQueue queue fun q => do
    atExchange (Exchange.closeQueue q)
    return .nothing
  | .closeReading queue => withQueue queue fun q => do
    atExchange (Exchange.closeReading q)
    return .nothing
  | .dropReading queue => withQueue queue fun q => do
    atExchange (Exchange.dropReading q)
    return .nothing
  | .isClosed queue => withQueue queue fun q => do
    return .flag ((← get).exchange.queue q).isClosed
  | .take queue => withQueue queue fun q => do return .taken (← atExchange (Exchange.take q))
  | .control name shutdown => withSignal shutdown fun s => do
    let c ← atExchange (Exchange.newControl s)
    modify fun p => { p with controls := p.controls.put name c }
    return .nothing
  | .claimCompletion control => withControl control fun c => do
    return .flag (← atExchange (Exchange.claimCompletion c))
  | .claimCancellation control => withControl control fun c => do
    return .flag (← atExchange (Exchange.claimCancellation c))
  | .controlState control => withControl control fun c => do
    let x := (← get).exchange
    return .control (x.abandoned c) (x.fired (x.control c).cancel) (x.fired (x.control c).shutdown)
  | .table name lastId => do
    let t ← atExchange (Exchange.newTable lastId)
    modify fun p => { p with tables := p.tables.put name t }
    return .nothing
  | .register table queue control => withTable table fun t => withQueue queue fun q =>
    withControl control fun c => do return .id (← atExchange (Exchange.register t ⟨q, c⟩))
  | .registerMany table control count => withTable table fun t => withControl control fun c => do
    return .ids (← atExchange ((List.replicate count ()).mapM fun _ => registerUnread t c))
  | .resolve table id removing => withTable table fun t => do
    match ← atExchange (Exchange.resolve t id removing) with
    | none => return .nothing
    | some call =>
      let p ← get
      return .call (p.queues.nameOf? call.queue) (p.controls.nameOf? call.control)
  | .remove table id => withTable table fun t => do
    return .flag (← atExchange (Exchange.remove t id))
  | .contains table id => withTable table fun t => do
    return .flag (((← get).exchange.table t).contains id)
  | .size table => withTable table fun t => do
    return .size ((← get).exchange.table t).calls.length
  | .removeOwned table shutdown => withTable table fun t => withSignal shutdown fun s => do
    let removed ← atExchange (Exchange.removeOwned t s)
    let queues := (← get).queues
    return .removed (removed.map fun call => queues.nameOf? call.queue)
  | .deliver table f => withTable table fun t => do
    return .delivery (← atExchange (Switchboard.deliver t f).run)

/-- What a command brings: the reply, the outstanding numbers of each table, and whether each queue is
closed. -/
structure Step where
  reply : Reply
  outstanding : List (List RequestId)
  closed : List Bool

/-- Obeys a command. -/
def step (c : Command) : PartsM Step := do
  let reply ← obey c
  let p ← get
  return { reply
           outstanding := p.tables.map fun t => (p.exchange.table t.2).outstanding
           closed := p.queues.map fun q => (p.exchange.queue q.2).isClosed }

end Parts

end Switchboard.Bench
