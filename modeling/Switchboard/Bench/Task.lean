import Switchboard.Bench.Basic
/-!
Tasks on the bench. Polling a task takes it as far as it comes for now; tasks are polled in the order in
which they were started, round after round, until a round finishes none.
-/
namespace Switchboard.Bench

/-- What polling a task brings: a stage in which it waits, or its report. -/
inductive Progress where
  | pending (stage : Stage)
  | finished (report : Report)

/-- Finishes a task that holds a copy of a client. -/
def finishFor (client : ClientId) (report : Report) : BenchM Progress := do
  atWorld (Client.release client)
  return .finished report

/-- Polls a wait. -/
def pollWait (client : Option ClientId) (w : Waiting) (report : Reporter) : BenchM Progress := do
  let (w, answer) ← atExchange (w.poll (← get).now)
  match answer, client with
  | none, _ => return .pending (.wait client w report)
  | some answer, some client => finishFor client (report w.events answer)
  | some answer, none => return .finished (report w.events answer)

/-- Polls a task that waits for the handle of a subscription. -/
def pollHandle (client : ClientId) (s : Subscription) (keepAs : String) : BenchM Progress := do
  match ← atExchange (NetSubscription.opened s) with
  | none => return .pending (.awaitHandle client s keepAs)
  | some (.error e) => finishFor client (.result (.error e))
  | some (.ok opened) =>
    keepNetSubscription keepAs opened
    finishFor client (.result (.ok (.number opened.handle)))

/-- Polls a task that waits for the answer to the end of a subscription. -/
def pollConfirm (client : ClientId) (slot : SlotId) (w : Waiting) : BenchM Progress := do
  let (w, answer) ← atExchange (w.poll (← get).now)
  match answer with
  | none => return .pending (.confirm client slot w)
  | some answer =>
    leaveSlot slot
    finishFor client (reportCall (Api.unsubscribe 0) .unit [] answer)

/-- Enters a slot, unless another task is inside it. -/
def enterSlot (slot : SlotId) (entered : Bool) : BenchM Bool := do
  if entered then return true
  if ((← get).slot slot).busy then return false
  modifySlot slot fun s => { s with busy := true }
  return true

/-- The report of an item. -/
def reportItem (item : Option Result) : Report :=
  match item with
  | some r => .result r
  | none => .ended

/-- The next item of a subscription, decoded if a shape is given. -/
def nextItem (shape : Option Shape) (s : Subscription) :
    StateM Exchange (Option (Subscription × Option Result)) := do
  match shape with
  | none =>
    return (← s.next).map fun (s, item) => (s, item.map fun r => r.map .octets)
  | some shape =>
    return (← s.nextDecoded shape.recode).map fun (s, item) =>
      (s, item.map fun r => r.map .text)

/-- The next item of a subscription to the network, as text. -/
def nextNetItem (s : NetSubscription) :
    StateM Exchange (Option (NetSubscription × Option Result)) := do
  return (← s.next).map fun (s, item) =>
    (s, item.map fun r => r.map fun v => .text (Form.value.write v))

/-- Takes items until there is none for now or the sequence has ended, so many at most. -/
def collectAtMost {S : Type} (next : S → StateM Exchange (Option (S × Option Result))) :
    Nat → S → List Result → StateM Exchange (S × List Result × Bool)
  | 0, s, items => return (s, items, false)
  | n + 1, s, items => do
    match ← next s with
    | none => return (s, items, false)
    | some (s, none) => return (s, items, true)
    | some (s, some item) => collectAtMost next n s (items ++ [item])

/-- How many items a subscription may show at once: its fragments, a closing error, and the end. -/
def itemBound (s : Subscription) (x : Exchange) : Nat :=
  (x.queue s.listener.queue).fragments.length + 2

/-- Polls a task. -/
def pollStage : Stage → BenchM Progress
  | .request client method params limit report => do
    match ← atWorld (Client.request client method params) with
    | .error e => finishFor client (report [] (.error e))
    | .ok l => pollWait (some client) (.start l (← get).now limit) report
  | .wait client w report => pollWait client w report
  | .subscribe client opening keepAs => do
    match ← atWorld (Client.request client opening.method (encodeParams opening.params)) with
    | .error e => finishFor client (.result (.error e))
    | .ok l => pollHandle client ⟨l, false⟩ keepAs
  | .awaitHandle client s keepAs => pollHandle client s keepAs
  | .next slot entered shape => do
    if !(← enterSlot slot entered) then return .finished .busy
    match ← atExchange (nextItem shape ((← get).slot slot).inner) with
    | none => return .pending (.next slot true shape)
    | some (s, item) =>
      modifySlot slot fun slot => { slot with inner := s }
      leaveSlot slot
      return .finished (reportItem item)
  | .netNext slot entered => do
    if !(← enterSlot slot entered) then return .finished .busy
    let held := (← get).slot slot
    match ← atExchange (nextNetItem ⟨held.handle.getD 0, held.inner⟩) with
    | none => return .pending (.netNext slot true)
    | some (s, item) =>
      modifySlot slot fun slot => { slot with inner := s.inner }
      leaveSlot slot
      return .finished (reportItem item)
  | .collect s shape items => do
    let bound := itemBound s (← get).world.exchange
    let (s, items, ended) ← atExchange (collectAtMost (nextItem (some shape)) bound s items)
    if !ended then return .pending (.collect s shape items)
    atExchange s.listener.release.run
    return .finished (.items items)
  | .netCollect s items => do
    let bound := itemBound s.inner (← get).world.exchange
    let (s, items, ended) ← atExchange (collectAtMost nextNetItem bound s items)
    if !ended then return .pending (.netCollect s items)
    atExchange s.inner.listener.release.run
    return .finished (.items items)
  | .unsubscribe client slot => do
    if !(← enterSlot slot false) then finishFor client .busy
    else
      let held := (← get).slot slot
      let closed ← atExchange held.inner.close.run
      modifySlot slot fun slot => { slot with inner := closed }
      let call := Api.unsubscribe (held.handle.getD 0)
      match ← atWorld (Client.request client call.method (encodeParams call.params)) with
      | .error e =>
        leaveSlot slot
        finishFor client (.result (.error e))
      | .ok l => pollConfirm client slot (.start l (← get).now none)
  | .confirm client slot w => pollConfirm client slot w

/-- Lets go what a task holds. -/
def dropStage : Stage → BenchM Unit
  | .request client .. => atWorld (Client.release client)
  | .wait client w _ => do
    atExchange w.listener.release.run
    if let some client := client then atWorld (Client.release client)
  | .subscribe client .. => atWorld (Client.release client)
  | .awaitHandle client s _ => do
    atExchange s.listener.release.run
    atWorld (Client.release client)
  | .next slot entered _ => if entered then leaveSlot slot else pure ()
  | .netNext slot entered => if entered then leaveSlot slot else pure ()
  | .collect s .. => atExchange s.listener.release.run
  | .netCollect s _ => atExchange s.inner.listener.release.run
  | .unsubscribe client _ => atWorld (Client.release client)
  | .confirm client slot w => do
    atExchange w.listener.release.run
    leaveSlot slot
    atWorld (Client.release client)

/-- Polls each task of a list once: those that still wait, and the reports of those that do not. -/
def pollEach : List Task → BenchM (List Task × List (String × Report))
  | [] => return ([], [])
  | task :: rest => do
    match ← pollStage task.stage with
    | .pending stage =>
      let (waiting, reports) ← pollEach rest
      return ({ task with stage } :: waiting, reports)
    | .finished report =>
      let (waiting, reports) ← pollEach rest
      return (waiting, (task.name, report) :: reports)

/-- Polls all tasks round after round until a round finishes none, in so many rounds at most. -/
def pollRounds : Nat → BenchM (List (String × Report))
  | 0 => return []
  | n + 1 => do
    let (waiting, reports) ← pollEach (← get).tasks
    modify fun b => { b with tasks := waiting }
    if reports.isEmpty then return []
    return reports ++ (← pollRounds n)

/-- Polls all tasks until none can go on. Each round but the last one finishes a task. -/
def pollAll : BenchM (List (String × Report)) := do
  pollRounds ((← get).tasks.length + 1)

end Switchboard.Bench
