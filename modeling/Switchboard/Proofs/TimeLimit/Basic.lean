import Switchboard.Client.MethodCall
import Switchboard.Proofs.Exchange.Looks
import Switchboard.Proofs.Exchange.Stages
import Switchboard.Proofs.TimeLimit.Reader
/-!
One who waits for the answer of a call for at most a limit, while fragments are delivered to the call: when he gives
the call up, and what his answer and those of the deliveries are said to be.
-/
namespace Switchboard.TimeLimit

open Exchange Process
open Shutdown (Answer say wait)

/-- One who waits for the answer of a call, for at most the limit if there is one, with a look at each of the given
times, and fragments that are delivered to the call meanwhile. -/
def company (x : Exchange) (l : Listener) (start : Nat) (limit : Option Nat) (times : List Nat)
    (fs : List Fragment) : Company Exchange Answer :=
  ⟨x, wait times (.start l start limit) :: fs.map fun f => say f (Switchboard.deliver l.table f)⟩

/-- The reader of a call begins to wait. -/
theorem company_eq (x : Exchange) (l : Listener) (start : Nat) (limit : Option Nat) (times : List Nat)
    (fs : List Fragment) : company x l start limit times fs =
      ⟨x, (Reader.waits times (.start l start limit)).program l ::
        fs.map fun f => say f (Switchboard.deliver l.table f)⟩ := by
  rw [company, Reader.program_waits]

/-- The answer of a wait whose time was over. -/
def overdue (limit : Nat) : Answer := .waited (some (.error (.timeout limit)))

/-- What a party is told if the result of the wait is decoded. -/
inductive Told (α : Type) where
  | result (r : Option (Except ClientError α))
  | other (a : Answer)

/-- The meaning of an answer for one who has called a method. -/
def decoded {α : Type} (call : MethodCall α) : Answer → Told α
  | .waited r => .result (r.map call.resultOf)
  | a => .other a

/-- One who waits has found nothing in time: when he last looked, the queue was drained and open, and his time was
over. Since then the others may have taken steps. -/
structure FindsNothing (l : Listener) (start limit : Nat) (c looked m : Company Exchange Answer) (v : Waiting)
    (now : Nat) (later : List Nat) : Prop where
  before : c.Run looked
  listener : v.listener = l
  deadline : v.deadline = some (start + limit)
  due : start + limit ≤ now
  looks : looked.programs[0]? = some ((Reader.taking v now later).program l)
  drained : (looked.state.queue l.queue).fragments = []
  opened : (looked.state.queue l.queue).isClosed = false
  between : (looked.advance 0).Run m
  limit : v.limit = limit

/-- One who waits gives his call up in a run: he has found nothing in time, and when he then tries to cancel the call,
no last delivery has claimed it. -/
structure GivesUp (l : Listener) (start limit : Nat) (c looked tried d : Company Exchange Answer) (v : Waiting)
    (now : Nat) (later : List Nat) : Prop extends FindsNothing l start limit c looked tried v now later where
  tries : tried.programs[0]? = some ((Reader.trying v later).program l)
  unclaimed : (tried.state.control l.control).claim = .free
  after : (tried.advance 0).Run d

/-- A delivery has checked that its call was not given up, and has only to end the stream, with a fragment that is not
marked as the last one. Such a fragment claims nothing. -/
structure EndsUnclaimed (l : Listener) (f : Fragment) (p : Process Exchange Answer) : Prop where
  program : p = say f (Delivery.handOver l.table l.call f)
  status : f.status = .streamTerminated
  unfinished : f.finished = false

/-- What a delivery is told that had not ended yet when its call was given up. If it had not begun, it finds no call.
If it had found the call, it is abandoned, unless it only ends the stream and has claimed nothing: then it goes on to
end it. -/
inductive ToldLate (l : Listener) (f : Fragment) (p : Process Exchange Answer) : Answer → Prop where
  | unknown (hp : p = say f (Switchboard.deliver l.table f)) : ToldLate l f p (.delivery f .unknownRequest)
  | abandoned (hp : p ≠ say f (Switchboard.deliver l.table f)) (hclaims : ¬ EndsUnclaimed l f p) :
      ToldLate l f p (.delivery f .abandoned)
  | terminated (hends : EndsUnclaimed l f p) : ToldLate l f p (.delivery f .terminated)

/-- A call that has been given up: it is out of the table, it has been cancelled, its queue is closed, and no fragment
is delivered to it any more. -/
structure GivenUp (l : Listener) (fs : List Fragment) (d : Company Exchange Answer) : Prop where
  absent : (d.state.table l.table).find? l.id = none
  cancelled : (d.state.control l.control).claim = .cancelled
  closed : (d.state.queue l.queue).isClosed = true
  returns : ∀ i < fs.length, ∃ e, d.Run e ∧ (e.result? (i + 1)).isSome = true
  late : ∀ (i : Nat) (f : Fragment) (p : Process Exchange Answer), fs[i]? = some f → d.programs[i + 1]? = some p →
    d.result? (i + 1) = none → ∀ e, d.Run e → ∀ a, e.result? (i + 1) = some a → ToldLate l f p a

/-- What a wait with a limit comes to after steps of all parties in some order. It is told that its time is over
exactly if it gives the call up, and then the call has been given up. Whatever else it is told, a wait without a limit
can come to it while the deliveries take the same steps in the same order, with everything else the same, too; and
whenever a wait without a limit looks, it comes to no other result if the deliveries take these steps. If the result is
decoded, it is this result that is decoded. -/
structure Outcome (x : Exchange) (l : Listener) (start limit : Nat) (times : List Nat) (fs : List Fragment)
    (order : List Nat) (d : Company Exchange Answer) : Prop where
  overdue_iff : ∀ a, d.result? 0 = some a →
    (a = overdue limit ↔ ∃ looked tried v now later,
      GivesUp l start limit (company x l start (some limit) times fs) looked tried d v now later)
  givenUp : d.result? 0 = some (overdue limit) → GivenUp l fs d
  agrees : ∀ a, d.result? 0 = some a → a ≠ overdue limit → ∃ order' : List Nat, order'.Sublist order ∧
    order'.filter (· ≠ 0) = order.filter (· ≠ 0) ∧ (company x l start none times fs).follow order' = d
  same : ∀ result, d.result? 0 = some (.waited (some result)) → result ≠ .error (.timeout limit) →
    ∀ times' order' : List Nat, order'.filter (· ≠ 0) = order.filter (· ≠ 0) → ∀ result',
      ((company x l start none times' fs).follow order').result? 0 = some (.waited (some result')) → result' = result
  decoded : ∀ (α : Type) (call : MethodCall α),
    (((company x l start (some limit) times fs).answering (decoded call)).follow order).result? 0 =
      (d.result? 0).map (decoded call)

section Polls

variable {w : Waiting} {x : Exchange} {now : Nat}

/-- Looks that show nothing more are as good as none. -/
theorem run_wait_of_pending (hlook : (w.look now).run x = (.pending w, x)) (n : Nat) (later : List Nat) :
    (wait (List.replicate n now ++ later) w).run x = (wait later w).run x := by
  induction n with
  | zero => rfl
  | succ n ih =>
    rw [List.replicate_succ, List.cons_append, wait, run_bind, hlook]
    exact ih

/-- Polling a wait is to look so many times at one moment, and the wait goes on from there. -/
theorem run_wait_poll (now n : Nat) (later : List Nat) (w : Waiting) (x : Exchange) :
    (wait (List.replicate n now ++ later) w).run x =
      (w.readAtMost now n x).1.2.2.elim ((wait later (w.readAtMost now n x).1.2.1).run (w.readAtMost now n x).2)
        fun r => (.waited (some r), (w.readAtMost now n x).2) := by
  induction n generalizing w x with
  | zero => rfl
  | succ n ih =>
    have hshows := Waiting.look_shows now w x
    rw [List.replicate_succ, List.cons_append, wait, run_bind]
    simp only [Waiting.readAtMost, stateM_bind]
    cases hlook : (w.look now).run x with
    | mk look y =>
      rw [hlook] at hshows
      cases look with
      | pending w' =>
        obtain ⟨rfl, rfl⟩ := hshows.pending_eq
        exact run_wait_of_pending hlook n later
      | again w' first => exact ih w' y
      | finished w' r => simp [Shutdown.waitAfter]

end Polls

end Switchboard.TimeLimit
