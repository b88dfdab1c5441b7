import Switchboard.Proofs.Exchange.Stages
import Switchboard.Proofs.Receiving.Basic
/-!
The steps of those who put something into the queue of a call or close it: the points at which each of them can stand,
and what its next step puts into the queue.
-/
namespace Switchboard.Receiving

open Exchange Process

variable {α : Type} {l : Listener} {x y : Exchange}

/-- How far one has come who stops the deliveries to a call. He lifts it out of the table, cancels it, and shuts its
queue. -/
inductive Stop where
  | starting
  | lifted
  | shutting
  | told (found : Bool)

/-- A supplier, and how far it has come. -/
inductive Role where
  | delivery (f : Fragment) (s : Delivery.Stage)
  | stop (s : Stop)

/-- A supplier that has not begun. -/
def Supplier.role : Supplier → Role
  | .deliver f => .delivery f .starting
  | .unsubscribe => .stop .starting

namespace Role

/-- What is left to do in a role. -/
def program (l : Listener) : Role → Process Exchange (Told α)
  | .delivery f s => do return .delivery f (← s.program l f)
  | .stop .starting => do return .unsubscribed (← Client.stopDeliveries l.table l.id)
  | .stop .lifted => do
    discard (atomic (claimCancellation l.control))
    atomic (closeQueue l.queue)
    return .unsubscribed true
  | .stop .shutting => do
    atomic (closeQueue l.queue)
    return .unsubscribed true
  | .stop (.told found) => .done (.unsubscribed found)

/-- The role after the next step. -/
def after (l : Listener) (x : Exchange) : Role → Role
  | .delivery f s => .delivery f (s.after l f x)
  | .stop .starting => .stop (if ((x.table l.table).find? l.id).isSome then .lifted else .told false)
  | .stop .lifted => .stop .shutting
  | .stop .shutting => .stop (.told true)
  | .stop (.told found) => .stop (.told found)

/-- What the next step does. -/
def effect (l : Listener) : Role → Exchange → Exchange
  | .delivery f s, x => s.effect l f x
  | .stop .starting, x => (resolve l.table l.id true x).2
  | .stop .lifted, x => (claimCancellation l.control x).2
  | .stop .shutting, x => (closeQueue l.queue x).2
  | .stop (.told _), x => x

/-- What the next step puts into the queue. -/
def puts (l : Listener) (x : Exchange) : Role → List Fragment
  | .delivery f .handing => if f.status = .streamTerminated ∨ (x.queue l.queue).isClosed = true then [] else [f]
  | _ => []

/-- What has been put into the queue. -/
def placed : Role → List Fragment
  | .delivery f (.sealing true) | .delivery f (.told .delivered) => [f]
  | _ => []

/-- A fragment that is delivered is one for the call. -/
def IsFor (l : Listener) : Role → Prop
  | .delivery f _ => f.requestId = l.id
  | .stop _ => True

/-- What may be relied on in a role: a last fragment has taken the call out of the table once its delivery has found
the call. -/
def Knows (l : Listener) (x : Exchange) : Role → Prop
  | .delivery f .found => f.isLast = true → (x.table l.table).find? l.id = none
  | .delivery _ .claiming => (x.table l.table).find? l.id = none
  | _ => True

/-- The roles follow the programs: the next step has the effect of the role, and leaves the program of the role after
it. -/
theorem program_step (hentry : ∀ c, (x.table l.table).find? l.id = some c → c = l.call) {r : Role}
    (hfor : r.IsFor l) {next : Exchange → Process Exchange (Told α)} {change : Exchange → Exchange}
    (h : r.program l = .step next change) : (r.after l x).program l = next x ∧ r.effect l x = change x := by
  cases r with
  | delivery f s =>
    cases hprogram : s.program l f with
    | done d =>
      simp only [program, hprogram] at h
      cases h
    | step next' change' =>
      have hfor : f.requestId = l.id := hfor
      obtain ⟨hnext, hchange⟩ := Delivery.Stage.program_step (x := x) (hfor ▸ hentry) hprogram
      simp only [program, hprogram] at h
      cases h
      refine ⟨?_, hchange⟩
      simp only [after, program, hnext]
      rfl
  | stop s =>
    cases s with
    | starting =>
      cases h
      refine ⟨?_, rfl⟩
      simp only [after, resolve_fst]
      cases hfind : (x.table l.table).find? l.id with
      | none => rfl
      | some c =>
        cases hentry c hfind
        rfl
    | lifted | shutting =>
      cases h
      exact ⟨rfl, rfl⟩
    | told found => cases h

/-- Who has nothing left to do takes no steps. -/
theorem stays_of_done {r : Role} {a : Told α} (h : r.program l = .done a) :
    r.after l x = r ∧ r.effect l x = x := by
  cases r with
  | delivery f s =>
    cases hprogram : s.program l f with
    | done d =>
      obtain rfl := Delivery.Stage.program_eq_done hprogram
      exact ⟨rfl, rfl⟩
    | step next change =>
      simp only [program, hprogram] at h
      cases h
  | stop s =>
    cases s with
    | told found => exact ⟨rfl, rfl⟩
    | _ => cases h

/-- Who has put his fragment into the queue is told so, and nobody else. -/
theorem delivered?_of_done {r : Role} {a : Told α} (h : r.program l = .done a) :
    a.delivered?.toList = r.placed := by
  cases r with
  | delivery f s =>
    cases hprogram : s.program l f with
    | done d =>
      obtain rfl := Delivery.Stage.program_eq_done hprogram
      cases h
      cases d <;> rfl
    | step next change =>
      simp only [program, hprogram] at h
      cases h
  | stop s =>
    cases s with
    | told found =>
      cases h
      rfl
    | _ => cases h

theorem onward_effect {r : Role} (hfor : r.IsFor l) : Onward l x (r.effect l x) := by
  cases r with
  | delivery f s => exact Delivery.Stage.onward_effect hfor s
  | stop s =>
    cases s with
    | starting => exact onward_resolve
    | lifted => exact onward_claimCancellation
    | shutting => exact onward_closeQueue
    | told found => exact .refl l x

/-- Nobody but the client itself fires its signal. -/
theorem running_effect (hapart : (x.control l.control).cancel ≠ l.shutdown) (r : Role) :
    (r.effect l x).fired l.shutdown = x.fired l.shutdown := by
  cases r with
  | delivery f s => exact Delivery.Stage.fired_effect s l.shutdown
  | stop s =>
    cases s with
    | lifted => exact fired_claimCancellation (Ne.symm hapart)
    | _ => rfl

/-- The next step puts something at the end of the queue, or nothing. -/
theorem fragments_effect (r : Role) :
    ((r.effect l x).queue l.queue).fragments = (x.queue l.queue).fragments ++ r.puts l x := by
  cases r with
  | delivery f s =>
    cases hclosed : (x.queue l.queue).isClosed with
    | true =>
      have hnothing : (Role.delivery f s).puts l x = [] := by
        cases s with
        | handing => simp [puts, hclosed]
        | _ => rfl
      rw [hnothing, List.append_nil]
      exact Delivery.Stage.fragments_effect hclosed s
    | false =>
      cases s with
      | claiming => simp [effect, puts, Delivery.Stage.effect]
      | handing =>
        by_cases hstatus : f.status = .streamTerminated
        · simp [effect, puts, Delivery.Stage.effect, hstatus]
        · simp [effect, puts, Delivery.Stage.effect, hstatus, Queue.fragments_push, hclosed]
      | sealing | yielding => simp [effect, puts, Delivery.Stage.effect]
      | starting | removing | found | told => simp [effect, puts, Delivery.Stage.effect]
  | stop s => cases s <;> simp [effect, puts]

theorem puts_of_closed (hclosed : (x.queue l.queue).isClosed = true) (r : Role) : r.puts l x = [] := by
  unfold puts
  split
  · simp [hclosed]
  · rfl

/-- What the next step puts into the queue has been put there after it. -/
theorem placed_after (r : Role) : (r.after l x).placed = r.placed ++ r.puts l x := by
  cases r with
  | delivery f s =>
    cases s with
    | starting =>
      simp only [after, Delivery.Stage.after]
      split <;> rfl
    | found =>
      simp only [after, Delivery.Stage.after]
      split
      · rfl
      · split <;> rfl
    | claiming =>
      simp only [after, Delivery.Stage.after]
      split <;> rfl
    | handing =>
      simp only [after, Delivery.Stage.after, puts]
      by_cases hstatus : f.status = .streamTerminated
      · simp [hstatus, placed]
      · cases hclosed : (x.queue l.queue).isClosed <;> cases f.finished <;> simp [hstatus, placed]
    | sealing delivered => cases delivered <;> rfl
    | told d => simp [after, Delivery.Stage.after, puts]
    | yielding | removing => rfl
  | stop s =>
    cases s with
    | starting =>
      simp only [after]
      split <;> rfl
    | _ => rfl

theorem IsFor.after {r : Role} (h : r.IsFor l) : (r.after l x).IsFor l := by
  cases r with
  | delivery f s => exact h
  | stop s => cases s <;> trivial

theorem Knows.keep {r : Role} (h : r.Knows l x) (hkeeps : Keeps l x y) : r.Knows l y := by
  cases r with
  | delivery f s =>
    cases s with
    | found => exact fun hlast => hkeeps.absent (h hlast)
    | claiming => exact hkeeps.absent h
    | _ => trivial
  | stop s => trivial

theorem knows_after {r : Role} (hfor : r.IsFor l) (h : r.Knows l x) :
    (r.after l x).Knows l (r.effect l x) := by
  cases r with
  | delivery f s =>
    cases s with
    | starting =>
      have hid : f.requestId = l.id := hfor
      simp only [after, Delivery.Stage.after]
      split
      · intro hlast
        simp [effect, Delivery.Stage.effect, hid, hlast]
      · trivial
    | found =>
      simp only [after, Delivery.Stage.after]
      split
      · trivial
      · split
        case isTrue hfinished => exact h (by simp [Fragment.isLast, hfinished])
        case isFalse => trivial
    | claiming =>
      simp only [after, Delivery.Stage.after]
      split <;> trivial
    | handing =>
      simp only [after, Delivery.Stage.after]
      split
      · trivial
      · split
        · trivial
        · split <;> trivial
    | sealing delivered => cases delivered <;> trivial
    | yielding | removing | told => trivial
  | stop s => cases s <;> trivial

/-- Only a delivery that has taken the call out of the table claims it for its completion. -/
theorem absent_of_completing {r : Role} (hfor : r.IsFor l) (hknows : r.Knows l x)
    (hbefore : (x.control l.control).claim = .completing → (x.table l.table).find? l.id = none)
    (h : ((r.effect l x).control l.control).claim = .completing) :
    ((r.effect l x).table l.table).find? l.id = none := by
  have hkeep (hsame : (r.effect l x).control l.control = x.control l.control) :
      ((r.effect l x).table l.table).find? l.id = none := by
    rw [hsame] at h
    exact (onward_effect hfor).absent (hbefore h)
  cases r with
  | delivery f s =>
    cases s with
    | claiming => exact (onward_effect hfor).absent hknows
    | handing =>
      apply hkeep
      simp only [effect, Delivery.Stage.effect]
      split <;> simp
    | starting | sealing | yielding | removing => exact hkeep (by simp [effect, Delivery.Stage.effect])
    | found | told => exact hkeep rfl
  | stop s =>
    cases s with
    | lifted =>
      refine (onward_effect hfor).absent (hbefore ?_)
      simp only [effect, control_claimCancellation, true_and] at h
      split at h
      · cases h
      · exact h
    | starting | shutting => exact hkeep (by simp [effect])
    | told => exact hkeep rfl

end Role

end Switchboard.Receiving
