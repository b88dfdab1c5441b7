import Switchboard.Proofs.Shutdown.Reading
/-!
One who waits for an answer with or without a limit, step by step: the points at which the wait can stand, and the
wait without a limit that stands at the same point.
-/
namespace Switchboard

namespace Waiting

variable {v : Waiting} {f : Fragment} {now : Nat}

/-- The same wait without a limit. -/
def unlimited (v : Waiting) : Waiting := { v with limit := 0, deadline := none }

/-- Whether the time of the wait is over. -/
def isOver (now : Nat) (v : Waiting) : Bool := v.deadline.any (· ≤ now)

theorem isOver_iff : v.isOver now = true ↔ ∃ time, v.deadline = some time ∧ time ≤ now := by
  simp [isOver, Option.any_eq_true]

@[simp] theorem limit_add : (v.add f).limit = v.limit := by
  unfold add
  split <;> rfl

@[simp] theorem deadline_add : (v.add f).deadline = v.deadline := by
  unfold add
  split <;> rfl

/-- A limit has no part in what is read. -/
theorem unlimited_add : (v.add f).unlimited = v.unlimited.add f := by
  unfold add
  simp only [unlimited]
  split <;> rfl

theorem lookAtTime_eq (now : Nat) (v : Waiting) :
    v.lookAtTime now = if v.isOver now then v.giveUp else return .pending v := by
  unfold lookAtTime isOver
  cases v.deadline with
  | none => rfl
  | some deadline =>
    by_cases hearly : now < deadline
    · simp [hearly, Nat.not_le.2 hearly]
    · simp [hearly, Nat.le_of_not_lt hearly]

end Waiting

namespace TimeLimit

open Exchange Process
open Shutdown (Answer Watch wait waitAfter)

/-- How far one who waits has come. He looks whether his client is there, at the queue, and at the time, which he
does by trying to cancel the call. If he has cancelled it, he closes his end of the queue and takes the call out of
the table. In the end he drops the queue. -/
inductive Reader where
  | looking (v : Waiting) (now : Nat) (later : List Nat)
  | taking (v : Waiting) (now : Nat) (later : List Nat)
  | trying (v : Waiting) (later : List Nat)
  | closing (limit : Nat)
  | leaving (limit : Nat)
  | dropping (result : Except ClientError Bytes)
  | told (result : Option (Except ClientError Bytes))

namespace Reader

/-- One who goes on to wait. -/
def waits : List Nat → Waiting → Reader
  | [], _ => .told none
  | now :: later, v => .looking v now later

/-- What is left to do. -/
def program (l : Listener) : Reader → Process Exchange Answer
  | .looking v now later => wait (now :: later) v
  | .taking v now later => do waitAfter (wait later) (← v.lookAtQueue now)
  | .trying v later => do waitAfter (wait later) (← v.giveUp)
  | .closing limit => do
    atomic (closeReading l.queue)
    discard (atomic (remove l.table l.id))
    atomic (dropReading l.queue)
    return .waited (some (.error (.timeout limit)))
  | .leaving limit => do
    discard (atomic (remove l.table l.id))
    atomic (dropReading l.queue)
    return .waited (some (.error (.timeout limit)))
  | .dropping result => do
    atomic (dropReading l.queue)
    return .waited (some result)
  | .told result => .done (.waited result)

/-- Where the reader stands after the next step. -/
def after (x : Exchange) : Reader → Reader
  | .looking v now later =>
    if x.fired v.listener.shutdown then .dropping (.error .transportClosed) else .taking v now later
  | .taking v now later =>
    match (take v.listener.queue x).1 with
    | .fragment f => waits later (v.add f)
    | .ended => .dropping v.result
    | .pending => if v.isOver now then .trying v later else waits later v
  | .trying v later =>
    if (x.control v.listener.control).claim = .completing then waits later { v with deadline := none }
    else .closing v.limit
  | .closing limit => .leaving limit
  | .leaving limit => .dropping (.error (.timeout limit))
  | .dropping result => .told (some result)
  | .told result => .told result

/-- What the next step does. -/
def effect (l : Listener) : Reader → Exchange → Exchange
  | .taking v _ _, x => (take v.listener.queue x).2
  | .trying v _, x => (claimCancellation v.listener.control x).2
  | .closing _, x => (closeReading l.queue x).2
  | .leaving _, x => (remove l.table l.id x).2
  | .dropping _, x => (dropReading l.queue x).2
  | .looking _ _ _, x | .told _, x => x

/-- The reader reads the call of a listener. -/
def Reads (l : Listener) : Reader → Prop
  | .looking v _ _ | .taking v _ _ | .trying v _ => v.listener = l
  | .closing _ | .leaving _ | .dropping _ | .told _ => True

variable {l : Listener} {x : Exchange} {r : Reader}

theorem program_waits (later : List Nat) (v : Waiting) : (waits later v).program l = wait later v := by
  cases later <;> rfl

theorem reads_waits {later : List Nat} {v : Waiting} (h : v.listener = l) : (waits later v).Reads l := by
  cases later with
  | nil => trivial
  | cons now later => exact h

theorem reads_after (h : r.Reads l) : (r.after x).Reads l := by
  cases r with
  | looking v now later =>
    simp only [after]
    split
    · trivial
    · exact h
  | taking v now later =>
    simp only [after]
    split
    · exact reads_waits (Waiting.listener_add.trans h)
    · trivial
    · split
      · exact h
      · exact reads_waits h
  | trying v later =>
    simp only [after]
    split
    · exact reads_waits h
    · trivial
  | closing | leaving | dropping | told => trivial

/-- The reader's points follow the reader's program: its next step has the effect of the point, and leaves the
program of the point after it. -/
theorem program_step (hreads : r.Reads l) {next : Exchange → Process Exchange Answer}
    {change : Exchange → Exchange} (h : r.program l = .step next change) :
    (r.after x).program l = next x ∧ r.effect l x = change x := by
  cases r with
  | looking v now later =>
    have hprogram := (Watch.wait v now later).program_eq.symm.trans h
    cases hprogram
    cases hreads
    refine ⟨?_, rfl⟩
    simp only [after, Watch.listener]
    by_cases hfired : x.fired v.listener.shutdown = true
    · simp only [hfired, if_true]
      rfl
    · simp only [hfired, if_false, Bool.false_eq_true]
      rfl
  | taking v now later =>
    have hprogram := (Watch.wait v now later).taking_eq.symm.trans h
    cases hprogram
    cases hreads
    refine ⟨?_, rfl⟩
    simp only [after, Watch.listener]
    cases (take v.listener.queue x).1 with
    | fragment f => exact program_waits later (v.add f)
    | ended => rfl
    | pending =>
      simp only [Watch.takes, Waiting.lookAtTime_eq]
      cases v.isOver now with
      | true => rfl
      | false => exact program_waits later v
  | trying v later =>
    have hprogram := (Shutdown.giveUp_eq v later).symm.trans h
    cases hprogram
    cases hreads
    refine ⟨?_, rfl⟩
    have hclaimed := claimCancellation_fst (c := v.listener.control) (x := x)
    by_cases hclaim : (x.control v.listener.control).claim = .completing
    · simp only [after, hclaimed, hclaim, if_true, ne_eq, not_true_eq_false, decide_false, Bool.false_eq_true,
        if_false]
      exact program_waits later _
    · simp only [after, hclaimed, hclaim, if_false, ne_eq, not_false_eq_true, decide_true, if_true]
      rfl
  | closing | leaving | dropping =>
    cases h
    exact ⟨rfl, rfl⟩
  | told => cases h

theorem program_eq_done {a : Answer} (h : r.program l = .done a) : ∃ result, r = .told result ∧ a = .waited result := by
  cases r with
  | looking v now later =>
    cases (Watch.wait v now later).program_eq.symm.trans h
  | taking v now later =>
    cases (Watch.wait v now later).taking_eq.symm.trans h
  | trying v later =>
    cases (Shutdown.giveUp_eq v later).symm.trans h
  | told result =>
    cases h
    exact ⟨result, rfl, rfl⟩
  | closing | leaving | dropping => cases h

/-- A step of the reader of a call is a step on the call. -/
theorem onward_effect (hreads : r.Reads l) : Onward l x (r.effect l x) := by
  cases r with
  | taking v now later =>
    cases hreads
    exact onward_take
  | trying v later =>
    cases hreads
    exact onward_claimCancellation
  | closing => exact onward_closeReading
  | leaving => exact onward_remove
  | dropping => exact onward_dropReading
  | looking | told => exact .refl l x

section Unlimited

/-- Where the same wait without a limit stands: it has no time to look at, and goes on instead. -/
def unlimited : Reader → Reader
  | .looking v now later => .looking v.unlimited now later
  | .taking v now later => .taking v.unlimited now later
  | .trying v later => waits later v.unlimited
  | .closing limit => .closing limit
  | .leaving limit => .leaving limit
  | .dropping result => .dropping result
  | .told result => .told result

/-- The reader is about to look at the time. -/
def tries : Reader → Bool
  | .trying _ _ => true
  | _ => false

theorem unlimited_waits (later : List Nat) (v : Waiting) :
    (waits later v).unlimited = waits later v.unlimited := by
  cases later <;> rfl

theorem reads_unlimited (h : r.Reads l) : r.unlimited.Reads l := by
  cases r with
  | trying v later => exact reads_waits h
  | _ => exact h

/-- But for the look at the time, the wait without a limit takes the same steps. -/
theorem unlimited_after (h : r.tries = false) :
    r.unlimited.after x = (r.after x).unlimited ∧ r.unlimited.effect l x = r.effect l x := by
  cases r with
  | looking v now later =>
    refine ⟨?_, rfl⟩
    simp only [after, unlimited, Waiting.unlimited]
    split <;> rfl
  | taking v now later =>
    refine ⟨?_, rfl⟩
    have hlistener : v.unlimited.listener = v.listener := rfl
    have hnever : v.unlimited.isOver now = false := rfl
    simp only [after, unlimited, hlistener, hnever]
    cases (take v.listener.queue x).1 with
    | fragment f => exact (congrArg (waits later) Waiting.unlimited_add.symm).trans (unlimited_waits later _).symm
    | ended => rfl
    | pending =>
      dsimp only
      cases v.isOver now with
      | true => rfl
      | false => exact (unlimited_waits later v).symm
  | trying => cases h
  | closing | leaving | dropping | told => exact ⟨rfl, rfl⟩

end Unlimited

end Reader

end TimeLimit

end Switchboard
