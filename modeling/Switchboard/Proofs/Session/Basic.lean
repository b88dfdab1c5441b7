import Switchboard.Client.Basic
/-!
Runs of clients that share one table: what the clients and those who read their calls can do, and what the
engine can deliver, in any order, with a record of what has been delivered, read and unsubscribed.
-/
namespace Switchboard

/-- Who reads the answer of a call: nobody has begun to, it is waited for as a whole, it is read one payload
at a time, the wait has come to its result, or the reader has been dropped. -/
inductive Reader where
  | handle (l : Listener)
  | waiting (w : Waiting)
  | subscription (s : Subscription)
  | answered (r : Except ClientError Bytes)
  | dropped

/-- What a reader can do. -/
inductive Act : Type 1 where
  | wait (now : Nat) (limit : Option Nat)
  | subscribe
  | poll (now : Nat)
  | next
  | nextDecoded {α : Type} (decode : Bytes → Except Fault α)
  | close
  | drop

namespace Reader

/-- Whether there is someone who may still get something. -/
def active : Reader → Bool
  | .handle _ | .waiting _ => true
  | .subscription s => !s.exhausted
  | .answered _ | .dropped => false

/-- Whether the reading end has been given up. -/
def isGone : Reader → Bool
  | .answered _ | .dropped => true
  | _ => false

/-- Which fragments a reader reads, and who reads afterwards. What a reader cannot do changes nothing. -/
def act : Act → Reader → StateM Exchange (List Fragment × Reader)
  | .wait now limit, .handle l => return ([], .waiting (.start l now limit))
  | .subscribe, .handle l => return ([], .subscription ⟨l, false⟩)
  | .poll now, .waiting w => do
    let (read, w, result) ← w.read now
    return (read, result.elim (.waiting w) .answered)
  | .next, .subscription s => do
    let (read, outcome) ← s.read
    return (read, .subscription (outcome.elim s Prod.fst))
  | .nextDecoded decode, .subscription s => do
    let (read, outcome) ← s.read
    let decoded ← Subscription.decoded decode outcome
    return (read, .subscription (decoded.elim s Prod.fst))
  | .close, .subscription s => do
    return ([], .subscription (← s.close.run))
  | .drop, .handle l => do
    l.release.run
    return ([], .dropped)
  | .drop, .waiting w => do
    w.listener.release.run
    return ([], .dropped)
  | .drop, .subscription s => do
    s.listener.release.run
    return ([], .dropped)
  | _, r => return ([], r)

end Reader

/-- A call that has been issued: the client that has issued it, the listener that it got, and who reads. -/
structure Call where
  client : ClientId
  listener : Listener
  reader : Reader

/-- What is put on record: under which number a call has been issued, what has become of a delivery, which
fragment the reader of a call has read, and whether unsubscribing has found a call. -/
inductive Event where
  | issued (id : RequestId)
  | delivery (f : Fragment) (d : Delivery)
  | read (call : Nat) (f : Fragment)
  | unsubscribed (id : RequestId) (found : Bool)

/-- A world, the calls issued in it, and the record. -/
structure Session where
  world : World := {}
  calls : List Call := []
  history : List Event := []

/-- What can happen in a session: a client joins with an engine of its own, an engine changes its mind about
its answers, a client does something, the engine delivers a fragment, or a reader acts. -/
inductive Op : Type 1 where
  | join (e : Engine)
  | teach (e : EngineId) (engine : Engine)
  | createContext (c : ClientId) (settings : Settings)
  | createContextFrom (c : ClientId) (config : String)
  | request (c : ClientId) (method : String) (params : Bytes)
  | deliver (f : Fragment)
  | act (call : Nat) (a : Act)
  | unsubscribe (c : ClientId) (id : RequestId)
  | destroy (c : ClientId)
  | copy (c : ClientId)
  | release (c : ClientId)

namespace Session

/-- The table that all clients share. -/
abbrev shared : TableId := ⟨0⟩

/-- Nobody has joined yet, and the table gives out the number after the given one first. -/
def start (lastId : RequestId) : Session := { world := { exchange := { tables := [{ lastId }] } } }

/-- Whether there is such a client. -/
def HasClient (s : Session) (c : ClientId) : Prop := c.index < s.world.clients.length

instance (s : Session) (c : ClientId) : Decidable (s.HasClient c) :=
  inferInstanceAs (Decidable (_ < _))

/-- One thing happens. -/
def step (s : Session) : Op → Session
  | .join e =>
    let (id, world) := World.addEngine { e with sharedTable := some shared } s.world
    { s with world := (Client.create id world).2 }
  | .teach e engine => { s with world := (World.modifyEngine e (fun _ => engine) s.world).2 }
  | .createContext c settings => { s with world := (Client.createContext c settings s.world).2 }
  | .createContextFrom c config => { s with world := (Client.createContextFrom c config s.world).2 }
  | .request c method params =>
    match Client.requestAnswered c method params s.world with
    | (.error _, world) => { s with world }
    | (.ok (l, outcomes), world) =>
      { world, calls := s.calls ++ [⟨c, l, .handle l⟩]
        history := s.history ++ .issued l.id :: outcomes.map fun (f, d) => .delivery f d }
  | .deliver f =>
    let (d, world) := World.atExchange (Switchboard.deliver shared f).run s.world
    { s with world, history := s.history ++ [.delivery f d] }
  | .act i a =>
    match s.calls[i]? with
    | none => s
    | some call =>
      let ((read, reader), world) := World.atExchange (call.reader.act a) s.world
      { world, calls := s.calls.set i { call with reader }
        history := s.history ++ read.map (.read i) }
  | .unsubscribe c id =>
    if s.HasClient c then
      let (found, world) := (Client.unsubscribe c id).run s.world
      { s with world, history := s.history ++ [.unsubscribed id found] }
    else s
  | .destroy c => if s.HasClient c then { s with world := ((Client.destroy c).run s.world).2 } else s
  | .copy c => { s with world := (Client.copy c s.world).2 }
  | .release c => if s.HasClient c then { s with world := (Client.release c s.world).2 } else s

/-- Things happen one after another. -/
def run (s : Session) (ops : List Op) : Session := ops.foldl step s

theorem run_concat (s : Session) (ops : List Op) (op : Op) :
    s.run (ops ++ [op]) = (s.run ops).step op := by
  simp [run]

end Session

/-- Whether a delivery has been accepted: its fragment is in the queue, or has ended the stream. -/
def Delivery.accepted : Delivery → Bool
  | .delivered | .terminated => true
  | .abandoned | .unknownRequest => false

/-- Whether a last delivery under a number has been accepted, or one who unsubscribes has found the
number. -/
def Event.ends (id : RequestId) : Event → Bool
  | .delivery f d => d.accepted && f.isLast && f.requestId == id
  | .issued _ | .read _ _ => false
  | .unsubscribed id' found => found && id' == id

/-- Where the client of a call stands in its life. -/
def lifecycleOf (clients : List Client) (c : ClientId) : Lifecycle :=
  (clients[c.index]?.map Client.lifecycle).getD .destroyed

/-- Nothing has ended a call: its reader has not been dropped and has not come to an end, its client has not
been destroyed, and neither a last delivery nor one who unsubscribes has found it. -/
structure Call.Unended (call : Call) (clients : List Client) (history : List Event) : Prop where
  active : call.reader.active = true
  client : lifecycleOf clients call.client ≠ .destroyed
  history : ∀ e ∈ history, e.ends call.listener.id = false

/-- A call has been issued under a number, and nothing has ended it. -/
def Session.Outstanding (s : Session) (id : RequestId) : Prop :=
  ∃ call ∈ s.calls, call.listener.id = id ∧ call.Unended s.world.clients s.history

end Switchboard
