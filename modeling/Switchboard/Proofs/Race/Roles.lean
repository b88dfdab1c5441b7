import Switchboard.Proofs.Exchange.Delivering
/-!
Who may end one call: deliveries of a last fragment, the reader that gives up, and the client that stops
the deliveries. Each of them is a program of several atomic steps. A role is a point that such a program
can have reached.
-/
namespace Switchboard.Race

open Exchange Process

/-- The content of a last fragment. -/
structure LastWord where
  payload : Bytes
  status : Status
  deriving DecidableEq, Repr

/-- The last fragment of a call. -/
def LastWord.fragment (l : Listener) (w : LastWord) : Fragment := ⟨l.id, w.payload, w.status, true⟩

/-- How a reader leaves its call: its time is over, it is let go, or it closes its subscription. -/
inductive Leave where
  | giveUp
  | letGo
  | close
  deriving DecidableEq, Repr

/-- Someone who may end a call. -/
inductive Party where
  | deliver (w : LastWord)
  | leave (how : Leave)
  | unsubscribe
  deriving DecidableEq, Repr

/-- What a party is told in the end. -/
inductive Answer where
  | delivery (w : LastWord) (d : Delivery)
  | gaveUp (cancelled : Bool)
  | gone
  | closed (cancelled : Bool)
  | unsubscribed (found : Bool)
  deriving DecidableEq, Repr

/-- What a party does to the call of a listener. -/
def Party.program (l : Listener) : Party → Process Exchange Answer
  | .deliver w => do return .delivery w (← Switchboard.deliver l.table (w.fragment l))
  | .leave .giveUp => do return .gaveUp (← l.cancel).1
  | .leave .letGo => do
    l.release
    return .gone
  | .leave .close => do
    let s ← Subscription.close ⟨l, false⟩
    return .closed s.listener.done
  | .unsubscribe => do return .unsubscribed (← Client.stopDeliveries l.table l.id)

/-- How far a party has come. A delivery has found the call, is about to claim it, to hand the fragment
over, to seal the queue behind it; or it yields, and then removes the call. A reader has struck the call
out, leaves the table, and drops or closes its end of the queue. One who unsubscribes has lifted the call
out of the table, and shuts its queue. -/
inductive Role where
  | waits (p : Party)
  | found (w : LastWord)
  | claiming (w : LastWord)
  | handing (w : LastWord)
  | sealing (w : LastWord) (placed : Bool)
  | yielding (w : LastWord)
  | removing (w : LastWord)
  | struck (how : Leave)
  | leaving (how : Leave)
  | dropping
  | closing
  | lifted
  | shutting
  | said (a : Answer)

/-- A delivery, up to its answer. -/
def say (w : LastWord) (p : Process Exchange Delivery) : Process Exchange Answer := do
  return .delivery w (← p)

/-- What a reader does once it knows whether it has cancelled its call. -/
def afterCancel (l : Listener) : Leave → Bool → Process Exchange Answer
  | .giveUp, cancelled => return .gaveUp cancelled
  | .letGo, _ => do
    atomic (dropReading l.queue)
    return .gone
  | .close, cancelled => do
    if !cancelled then atomic (closeReading l.queue)
    return .closed cancelled

/-- What is left to do in a role. -/
def Role.program (l : Listener) : Role → Process Exchange Answer
  | .waits p => p.program l
  | .found w => say w (Delivery.offer l.table l.call (w.fragment l))
  | .claiming w => say w do
    if ← atomic (claimCompletion l.control) then Delivery.handOver l.table l.call (w.fragment l)
    else Delivery.abandon l.table l.id l.call
  | .handing w => say w (Delivery.handOver l.table l.call (w.fragment l))
  | .sealing w placed => say w do
    atomic (closeQueue l.queue)
    if placed then return .delivered else Delivery.abandon l.table l.id l.call
  | .yielding w => say w (Delivery.abandon l.table l.id l.call)
  | .removing w => say w do
    discard (atomic (remove l.table l.id))
    return .abandoned
  | .struck how => do
    atomic (closeReading l.queue)
    discard (atomic (remove l.table l.id))
    afterCancel l how true
  | .leaving how => do
    discard (atomic (remove l.table l.id))
    afterCancel l how true
  | .dropping => afterCancel l .letGo true
  | .closing => afterCancel l .close false
  | .lifted => do
    discard (atomic (claimCancellation l.control))
    atomic (closeQueue l.queue)
    return .unsubscribed true
  | .shutting => do
    atomic (closeQueue l.queue)
    return .unsubscribed true
  | .said a => .done a

/-- The role of a reader that knows whether it has cancelled its call. -/
def Role.ofCancel : Leave → Bool → Role
  | .giveUp, cancelled => .said (.gaveUp cancelled)
  | .letGo, _ => .dropping
  | .close, true => .said (.closed true)
  | .close, false => .closing

/-- The role after the next step. -/
def Role.after (l : Listener) (x : Exchange) : Role → Role
  | .waits (.deliver w) =>
    if ((x.table l.table).find? l.id).isSome then .found w else .said (.delivery w .unknownRequest)
  | .waits (.leave how) =>
    if (x.control l.control).claim = .completing then .ofCancel how false else .struck how
  | .waits .unsubscribe =>
    if ((x.table l.table).find? l.id).isSome then .lifted else .said (.unsubscribed false)
  | .found w => if x.abandoned l.control then .yielding w else .claiming w
  | .claiming w => if (x.control l.control).claim = .free then .handing w else .yielding w
  | .handing w =>
    if w.status = .streamTerminated then .said (.delivery w .terminated)
    else .sealing w !(x.queue l.queue).isClosed
  | .sealing w placed => if placed then .said (.delivery w .delivered) else .yielding w
  | .yielding w => .removing w
  | .removing w => .said (.delivery w .abandoned)
  | .struck how => .leaving how
  | .leaving how => .ofCancel how true
  | .dropping => .said .gone
  | .closing => .said (.closed false)
  | .lifted => .shutting
  | .shutting => .said (.unsubscribed true)
  | .said a => .said a

/-- What the next step does. -/
def Role.effect (l : Listener) : Role → Exchange → Exchange
  | .waits (.deliver _), x | .waits .unsubscribe, x => (resolve l.table l.id true x).2
  | .waits (.leave _), x | .lifted, x => (claimCancellation l.control x).2
  | .claiming _, x => (claimCompletion l.control x).2
  | .handing w, x =>
    if w.status = .streamTerminated then (closeQueue l.queue x).2
    else (push l.queue (w.fragment l) x).2
  | .sealing _ _, x | .yielding _, x | .shutting, x => (closeQueue l.queue x).2
  | .removing _, x | .leaving _, x => (remove l.table l.id x).2
  | .struck _, x | .closing, x => (closeReading l.queue x).2
  | .dropping, x => (dropReading l.queue x).2
  | .found _, x | .said _, x => x

variable {l : Listener} {x : Exchange}

/-- A delivery of a last fragment takes the call out of the table, or finds none. -/
theorem Party.deliver_step (w : LastWord)
    (hentry : ∀ c, (x.table l.table).find? l.id = some c → c = l.call) :
    ∃ next, (Party.deliver w).program l = .step next (fun x => (resolve l.table l.id true x).2) ∧
      next x = ((Role.waits (.deliver w)).after l x).program l := by
  have hprogram : (Party.deliver w).program l = say w (Switchboard.deliver l.table (w.fragment l)) := rfl
  rw [hprogram, deliver_eq]
  refine ⟨_, rfl, ?_⟩
  simp only [Role.after, LastWord.fragment]
  cases hfind : (x.table l.table).find? l.id with
  | none => rfl
  | some c =>
    cases hentry c hfind
    rfl

/-- Stopping the deliveries takes the call out of the table, or finds none. -/
theorem Party.unsubscribe_step (hentry : ∀ c, (x.table l.table).find? l.id = some c → c = l.call) :
    ∃ next, Party.unsubscribe.program l = .step next (fun x => (resolve l.table l.id true x).2) ∧
      next x = ((Role.waits .unsubscribe).after l x).program l := by
  refine ⟨_, rfl, ?_⟩
  simp only [Role.after, resolve_fst]
  cases hfind : (x.table l.table).find? l.id with
  | none => rfl
  | some c =>
    cases hentry c hfind
    rfl

theorem Role.after_leave (how : Leave) : (Role.waits (.leave how)).after l x =
    if (claimCancellation l.control x).1 then .struck how else .ofCancel how false := by
  rw [claimCancellation_fst]
  by_cases hclaim : (x.control l.control).claim = .completing <;> simp [Role.after, hclaim]

/-- A reader that leaves tries to cancel the call first, in whichever way it leaves. -/
theorem Party.leave_step (hunread : l.done = false) (how : Leave) :
    ∃ next, (Party.leave how).program l = .step next (fun x => (claimCancellation l.control x).2) ∧
      next x = ((Role.waits (.leave how)).after l x).program l := by
  rw [Role.after_leave]
  cases how with
  | giveUp =>
    refine ⟨_, rfl, ?_⟩
    dsimp only
    cases (claimCancellation l.control x).1 <;> rfl
  | letGo =>
    simp only [program, Listener.release, hunread, Bool.not_false, if_true]
    refine ⟨_, rfl, ?_⟩
    dsimp only
    cases (claimCancellation l.control x).1 <;> rfl
  | close =>
    refine ⟨_, rfl, ?_⟩
    dsimp only
    cases (claimCancellation l.control x).1 with
    | true => rfl
    | false =>
      have hclosing : Role.closing.program l =
          .step (fun _ => .done (.closed l.done)) fun x => (closeReading l.queue x).2 := by
        rw [hunread]
        rfl
      exact hclosing.symm

/-- Roles follow the programs: a step of the program that is left in a role has the effect of the role,
and leaves the program of the role after it. -/
theorem Role.program_step (hunread : l.done = false)
    (hentry : ∀ c, (x.table l.table).find? l.id = some c → c = l.call)
    {role : Role} {next : Exchange → Process Exchange Answer} {effect : Exchange → Exchange}
    (h : role.program l = .step next effect) :
    (role.after l x).program l = next x ∧ role.effect l x = effect x := by
  cases role with
  | waits p =>
    cases p with
    | deliver w =>
      obtain ⟨next', hprogram, hnext⟩ := Party.deliver_step w hentry
      cases hprogram.symm.trans h
      exact ⟨hnext.symm, rfl⟩
    | leave how =>
      obtain ⟨next', hprogram, hnext⟩ := Party.leave_step (x := x) hunread how
      cases hprogram.symm.trans h
      exact ⟨hnext.symm, rfl⟩
    | unsubscribe =>
      obtain ⟨next', hprogram, hnext⟩ := Party.unsubscribe_step hentry
      cases hprogram.symm.trans h
      exact ⟨hnext.symm, rfl⟩
  | found w =>
    cases h
    refine ⟨?_, rfl⟩
    simp only [after, isAbandoned, Listener.call]
    cases x.abandoned l.control <;> rfl
  | claiming w =>
    cases h
    refine ⟨?_, rfl⟩
    simp only [after, claimCompletion_fst]
    by_cases hclaim : (x.control l.control).claim = .free
    · simp only [hclaim, if_true, decide_true]
      rfl
    · simp only [hclaim, if_false, decide_false]
      rfl
  | handing w =>
    obtain ⟨payload, status⟩ := w
    by_cases hstatus : status = .streamTerminated
    · subst hstatus
      cases h
      exact ⟨rfl, rfl⟩
    · simp only [program, Delivery.handOver, LastWord.fragment, hstatus, if_false] at h
      cases h
      simp only [after, effect, hstatus, if_false, Listener.call, push_fst]
      exact ⟨rfl, rfl⟩
  | sealing w placed =>
    cases h
    cases placed <;> exact ⟨rfl, rfl⟩
  | leaving how =>
    cases h
    cases how <;> exact ⟨rfl, rfl⟩
  | said a => cases h
  | yielding | removing | struck | dropping | closing | lifted | shutting =>
    cases h
    exact ⟨rfl, rfl⟩

end Switchboard.Race
