import Switchboard.Proofs.Exchange.Live
import Switchboard.Proofs.Shutdown.Basic
import Switchboard.Proofs.Shutdown.Drift
/-!
The points that the programs of a reader and of the other parties can have reached, and what the next step at
each of them can do.
-/
namespace Switchboard.Shutdown

open Exchange Process World

/-- How far a party has come. The reader is about to look, has found its client there and is about to look at the
queue, is about to give up, or leaves its call. A delivery has found the call, is about to claim it, to hand the
fragment over, to seal the queue behind it; or it has ended the call. One who destroys a client has met it, quits
its context, fires its signal, and takes the calls of another client out of the table. Whoever else is at work
passes the call by, or may at most close its queue. -/
inductive Role where
  | looking (r : Watch)
  | taking (r : Watch)
  | trying (w : Waiting) (later : List Nat)
  | leaving (p : Process Exchange Answer)
  | delivers (f : Fragment)
  | found (f : Fragment)
  | claiming (f : Fragment)
  | handing (f : Fragment)
  | sealing (f : Fragment)
  | ended (f : Fragment) (d : Delivery)
  | destroys (c : ClientId)
  | marks (c : ClientId) (client : Client)
  | quits (client : Client) (context : UInt32)
  | fires (client : Client)
  | removes (client : Client)
  | passing (p : Process World Answer)
  | ebbing (p : Process World Answer)

/-- A delivery, up to its answer. -/
def say (f : Fragment) (p : Process Exchange Delivery) : Process Exchange Answer := do
  return .delivery f (← p)

/-- One who destroys a client, from the firing of its signal on. -/
def withdrawing (client : Client) : Process World Answer := do
  Client.withdraw client
  return .destroyed

/-- One who destroys a client, once its signal has been fired. -/
def removing (client : Client) : Process World Answer := do
  let calls ← atomic (atExchange (removeOwned client.table client.shutdown))
  Client.closeAll calls
  return .destroyed

/-- What is left to do in a role. -/
def Role.program (l : Listener) : Role → Process World Answer
  | .looking r => withinExchange r.program
  | .taking r => withinExchange r.taking
  | .trying w later => withinExchange do waitAfter (wait later) (← w.giveUp)
  | .leaving p => withinExchange p
  | .delivers f => (Party.deliver f).program
  | .found f => withinExchange (say f (Delivery.offer l.table l.call f))
  | .claiming f => withinExchange <| say f do
    if ← atomic (claimCompletion l.control) then Delivery.handOver l.table l.call f
    else Delivery.abandon l.table f.requestId l.call
  | .handing f => withinExchange (say f (Delivery.handOver l.table l.call f))
  | .sealing f => withinExchange <| say f do
    atomic (closeQueue l.queue)
    return .delivered
  | .ended f d => .done (.delivery f d)
  | .destroys c => (Party.destroy c).program
  | .marks c client => do
    if let .active context ← atomic (Client.markDestroyed c) then
      atomic (Client.destroyContext client.engine context)
    withdrawing client
  | .quits client context => do
    atomic (Client.destroyContext client.engine context)
    withdrawing client
  | .fires client => withdrawing client
  | .removes client => removing client
  | .passing p | .ebbing p => p

/-- A step of the exchange in a world. -/
def Through (R : Exchange → Exchange → Prop) (w w' : World) : Prop :=
  R w.exchange w'.exchange ∧ w'.clients = w.clients

/-- What the next step in a role can do, and which role comes next. -/
inductive Move (l : Listener) (w : World) : Role → Role → World → Prop where
  | woken {r : Watch} {p : Process Exchange Answer} (hfired : w.exchange.fired l.shutdown = true)
      (hp : p.All (Leaves l) fun a => a.endsWell = false) : Move l w (.looking r) (.leaving p) w
  | looks {r : Watch} (hrunning : w.exchange.fired l.shutdown = false) :
      Move l w (.looking r) (.taking r) w
  | goesOn {r r' : Watch} (hlistener : r'.listener = l) :
      Move l w (.taking r) (.looking r') { w with exchange := (take l.queue w.exchange).2 }
  | stops {r : Watch} {p : Process Exchange Answer} (hp : p.All (Leaves l) fun a => a.endsWell = false) :
      Move l w (.taking r) (.leaving p) { w with exchange := (take l.queue w.exchange).2 }
  | tries {r : Watch} {v : Waiting} {later : List Nat} (hlistener : v.listener = l) :
      Move l w (.taking r) (.trying v later) { w with exchange := (take l.queue w.exchange).2 }
  | ends {r : Watch} {p : Process Exchange Answer} (hdrained : (w.exchange.queue l.queue).fragments = [])
      (hclosed : (w.exchange.queue l.queue).isClosed = true)
      (hp : p.All (Leaves l) fun a => a.endsWell = r.clean) :
      Move l w (.taking r) (.leaving p) { w with exchange := (take l.queue w.exchange).2 }
  | givesUp {v : Waiting} {later : List Nat} {p : Process Exchange Answer}
      (hp : p.All (Leaves l) fun a => a.endsWell = false) :
      Move l w (.trying v later) (.leaving p) { w with exchange := (claimCancellation l.control w.exchange).2 }
  | resumes {v : Waiting} {later : List Nat} {r : Watch} (hlistener : r.listener = l)
      (hclaim : (w.exchange.control l.control).claim = .completing) :
      Move l w (.trying v later) (.looking r) w
  | leaves {next : Exchange → Process Exchange Answer} {effect : Exchange → Exchange} :
      Move l w (.leaving (.step next effect)) (.leaving (next w.exchange))
        { w with exchange := effect w.exchange }
  | goesAstray {f : Fragment} {p : Process World Answer}
      (hp : p.All (Through (Passes l)) fun _ => True) :
      Move l w (.delivers f) (.passing p)
        { w with exchange := (resolve l.table f.requestId f.isLast w.exchange).2 }
  | finds {f : Fragment} (hid : f.requestId = l.id)
      (hfind : (w.exchange.table l.table).find? l.id = some l.call) :
      Move l w (.delivers f) (.found f)
        { w with exchange := (resolve l.table f.requestId f.isLast w.exchange).2 }
  | yields {f : Fragment} {p : Process World Answer} (habandoned : w.exchange.abandoned l.control = true)
      (hp : p.All (Through (Ebbs l)) fun _ => True) : Move l w (.found f) (.ebbing p) w
  | claims {f : Fragment} (hfinished : f.finished = true) : Move l w (.found f) (.claiming f) w
  | hands {f : Fragment} (hfinished : f.finished = false) : Move l w (.found f) (.handing f) w
  | claimed {f : Fragment} (hclaim : (w.exchange.control l.control).claim = .free) :
      Move l w (.claiming f) (.handing f)
        { w with exchange := (claimCompletion l.control w.exchange).2 }
  | refused {f : Fragment} {p : Process World Answer}
      (hclaim : (w.exchange.control l.control).claim ≠ .free)
      (hp : p.All (Through (Ebbs l)) fun _ => True) : Move l w (.claiming f) (.ebbing p) w
  | terminates {f : Fragment} (hstatus : f.status = .streamTerminated) :
      Move l w (.handing f) (.ended f .terminated)
        { w with exchange := (closeQueue l.queue w.exchange).2 }
  | puts {f : Fragment} (hfinished : f.finished = true) :
      Move l w (.handing f) (.sealing f) { w with exchange := (push l.queue f w.exchange).2 }
  | putsMore {f : Fragment} {p : Process World Answer} (hp : p.All (Through (Passes l)) fun _ => True) :
      Move l w (.handing f) (.passing p) { w with exchange := (push l.queue f w.exchange).2 }
  | tooLate {f : Fragment} {p : Process World Answer} (hclosed : (w.exchange.queue l.queue).isClosed = true)
      (hp : p.All (Through (Ebbs l)) fun _ => True) :
      Move l w (.handing f) (.ebbing p) { w with exchange := (push l.queue f w.exchange).2 }
  | seals {f : Fragment} :
      Move l w (.sealing f) (.ended f .delivered) { w with exchange := (closeQueue l.queue w.exchange).2 }
  | meets {c : ClientId} : Move l w (.destroys c) (.marks c (w.client c)) w
  | marksActive {c : ClientId} {client : Client} {context : UInt32} :
      Move l w (.marks c client) (.quits client context) (Client.markDestroyed c w).2
  | marksOther {c : ClientId} {client : Client} :
      Move l w (.marks c client) (.fires client) (Client.markDestroyed c w).2
  | quitsContext {client : Client} {context : UInt32} :
      Move l w (.quits client context) (.fires client) (Client.destroyContext client.engine context w).2
  | firesOwn {client : Client} {p : Process World Answer} (hown : client.shutdown = l.shutdown)
      (hp : p.All (Through (Ebbs l)) fun _ => True) :
      Move l w (.fires client) (.ebbing p) { w with exchange := (fire client.shutdown w.exchange).2 }
  | firesOther {client : Client} (hother : client.shutdown ≠ l.shutdown) :
      Move l w (.fires client) (.removes client) { w with exchange := (fire client.shutdown w.exchange).2 }
  | takesOut {client : Client} {p : Process World Answer} (hp : p.All (Through (Passes l)) fun _ => True) :
      Move l w (.removes client) (.passing p)
        { w with exchange := (removeOwned client.table client.shutdown w.exchange).2 }
  | passes {next : World → Process World Answer} {effect : World → World} :
      Move l w (.passing (.step next effect)) (.passing (next w)) (effect w)
  | ebbs {next : World → Process World Answer} {effect : World → World} :
      Move l w (.ebbing (.step next effect)) (.ebbing (next w)) (effect w)

end Switchboard.Shutdown
