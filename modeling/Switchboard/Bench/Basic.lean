import Switchboard.Bench.ApiMethod
import Switchboard.Bench.Names
/-!
A bench for clients: engines, clients, open answers and subscriptions under names, a clock that only moves
when it is told to, and tasks that wait.
-/
namespace Switchboard

namespace Bench

/-- A subscription on the bench. One task at a time may be inside it, and it is let go when neither a
name nor a task holds it. -/
structure Slot where
  inner : Subscription
  handle : Option UInt32 := none
  busy : Bool := false
  named : Bool := true

/-- A slot among those of a bench. -/
structure SlotId where
  index : Nat
  deriving DecidableEq, Repr

/-- How far a task has come. A task of a client holds a copy of the client. -/
inductive Stage where
  | request (client : ClientId) (method : String) (params : Bytes) (limit : Option Nat)
      (report : Reporter)
  | wait (client : Option ClientId) (w : Waiting) (report : Reporter)
  | subscribe (client : ClientId) (opening : NetSubscription.Opening) (keepAs : String)
  | awaitHandle (client : ClientId) (s : Subscription) (keepAs : String)
  | next (slot : SlotId) (entered : Bool) (shape : Option Shape)
  | netNext (slot : SlotId) (entered : Bool)
  | collect (s : Subscription) (shape : Shape) (items : List Result)
  | netCollect (s : NetSubscription) (items : List Result)
  | unsubscribe (client : ClientId) (slot : SlotId)
  | confirm (client : ClientId) (slot : SlotId) (w : Waiting)

/-- A task that has not finished. -/
structure Task where
  name : String
  stage : Stage

end Bench

/-- All that is on a bench. -/
structure Bench where
  world : World := {}
  now : Nat := 0
  nativeTable : Option TableId := none
  tables : Bench.Names TableId := []
  engines : Bench.Names EngineId := []
  clients : Bench.Names ClientId := []
  handles : Bench.Names Listener := []
  slots : List Bench.Slot := []
  subscriptions : Bench.Names Bench.SlotId := []
  netSubscriptions : Bench.Names Bench.SlotId := []
  calls : Bench.Names PendingCall := []
  tasks : List Bench.Task := []

namespace Bench

/-- A step on a bench. -/
abbrev BenchM := StateM Bench

/-- A step of the world. -/
def atWorld {α : Type} (m : StateM World α) : BenchM α := fun b =>
  let (a, world) := m b.world
  (a, { b with world })

/-- A step of the exchange. -/
def atExchange {α : Type} (m : StateM Exchange α) : BenchM α := atWorld (World.atExchange m)

/-- A slot. -/
def slot (b : Bench) (s : SlotId) : Slot :=
  b.slots.getD s.index ⟨⟨⟨0, ⟨0⟩, ⟨0⟩, ⟨0⟩, ⟨0⟩, true⟩, true⟩, none, false, false⟩

/-- Changes a slot. -/
def modifySlot (s : SlotId) (f : Slot → Slot) : BenchM Unit :=
  modify fun b => { b with slots := b.slots.set s.index (f (b.slot s)) }

/-- Adds a slot. -/
def addSlot (slot : Slot) : BenchM SlotId := fun b =>
  (⟨b.slots.length⟩, { b with slots := b.slots ++ [slot] })

/-- Lets the subscription of a slot go if nobody holds it. -/
def sweepSlot (s : SlotId) : BenchM Unit := do
  let slot := (← get).slot s
  if !slot.busy && !slot.named then atExchange slot.inner.listener.release.run

/-- Leaves a slot that a task has been inside. -/
def leaveSlot (s : SlotId) : BenchM Unit := do
  modifySlot s fun slot => { slot with busy := false }
  sweepSlot s

/-- Takes the name of a slot away. -/
def unnameSlot (s : SlotId) : BenchM Unit := do
  modifySlot s fun slot => { slot with named := false }
  sweepSlot s

/-- Keeps a subscription under a name, in place of one that had it. -/
def keepSubscription (name : String) (s : Subscription) : BenchM Unit := do
  let old := (← get).subscriptions.find? name
  let slot ← addSlot { inner := s }
  modify fun b => { b with subscriptions := b.subscriptions.put name slot }
  if let some old := old then unnameSlot old

/-- Keeps a subscription to the network under a name, in place of one that had it. -/
def keepNetSubscription (name : String) (s : NetSubscription) : BenchM Unit := do
  let old := (← get).netSubscriptions.find? name
  let slot ← addSlot { inner := s.inner, handle := some s.handle }
  modify fun b => { b with netSubscriptions := b.netSubscriptions.put name slot }
  if let some old := old then unnameSlot old

/-- Keeps a client under a name, in place of one that had it. -/
def keepClient (name : String) (c : ClientId) : BenchM Unit := do
  let old := (← get).clients.find? name
  modify fun b => { b with clients := b.clients.put name c }
  if let some old := old then atWorld (Client.release old)

/-- Keeps an open answer under a name, in place of one that had it. -/
def keepHandle (name : String) (l : Listener) : BenchM Unit := do
  let old := (← get).handles.find? name
  modify fun b => { b with handles := b.handles.put name l }
  if let some old := old then atExchange old.release.run

/-- Whether a call is held: by a table, or under a name. -/
def holds (b : Bench) (call : PendingCall) : Bool :=
  (b.world.exchange.tables.any fun t => t.calls.any fun c => c.2.queue = call.queue) ||
    b.calls.any fun c => c.2.queue = call.queue

/-- Keeps a call under a name, in place of one that had it. The queue of a call that nobody holds any
more is closed for new fragments. -/
def keepCall (name : String) (call : PendingCall) : BenchM Unit := do
  let old := (← get).calls.find? name
  modify fun b => { b with calls := b.calls.put name call }
  if let some old := old then
    if !(← get).holds old then atExchange (Exchange.closeQueue old.queue)

end Bench

end Switchboard
