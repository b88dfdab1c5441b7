import Switchboard.Proofs.Exchange.Delivering
/-!
A delivery to a call, step by step: the points at which it can stand, for fragments of every kind, and what its next
step does there.
-/
namespace Switchboard.Delivery

open Exchange Process

/-- How far a delivery to a call has come. It looks the call up, checks whether the call has been given up, claims
it, hands the fragment over, and seals the queue behind it; or it yields, and then removes the call. -/
inductive Stage where
  | starting
  | found
  | claiming
  | handing
  | sealing (placed : Bool)
  | yielding
  | removing
  | told (d : Delivery)
  deriving DecidableEq, Repr

namespace Stage

/-- What is left to do at a stage. -/
def program (l : Listener) (f : Fragment) : Stage → Process Exchange Delivery
  | .starting => deliver l.table f
  | .found => offer l.table l.call f
  | .claiming => do
    if ← atomic (claimCompletion l.control) then handOver l.table l.call f
    else abandon l.table f.requestId l.call
  | .handing => handOver l.table l.call f
  | .sealing placed => do
    atomic (closeQueue l.queue)
    if placed then return .delivered else abandon l.table f.requestId l.call
  | .yielding => abandon l.table f.requestId l.call
  | .removing => do
    discard (atomic (remove l.table f.requestId))
    return .abandoned
  | .told d => .done d

/-- The stage after the next step. -/
def after (l : Listener) (f : Fragment) (x : Exchange) : Stage → Stage
  | .starting =>
    if ((x.table l.table).find? f.requestId).isSome then .found else .told .unknownRequest
  | .found => if x.abandoned l.control then .yielding else if f.finished then .claiming else .handing
  | .claiming => if (x.control l.control).claim = .free then .handing else .yielding
  | .handing =>
    if f.status = .streamTerminated then .told .terminated
    else if f.finished then .sealing !(x.queue l.queue).isClosed
    else if (x.queue l.queue).isClosed then .yielding else .told .delivered
  | .sealing placed => if placed then .told .delivered else .yielding
  | .yielding => .removing
  | .removing => .told .abandoned
  | .told d => .told d

/-- What the next step does. -/
def effect (l : Listener) (f : Fragment) : Stage → Exchange → Exchange
  | .starting, x => (resolve l.table f.requestId f.isLast x).2
  | .claiming, x => (claimCompletion l.control x).2
  | .handing, x =>
    if f.status = .streamTerminated then (closeQueue l.queue x).2 else (push l.queue f x).2
  | .sealing _, x | .yielding, x => (closeQueue l.queue x).2
  | .removing, x => (remove l.table f.requestId x).2
  | .found, x | .told _, x => x

variable {l : Listener} {f : Fragment} {x : Exchange}

/-- Handing over a fragment that is not the end of the stream. -/
theorem handOver_eq (hstatus : f.status ≠ .streamTerminated) :
    handOver l.table l.call f = .step
      (fun x => if f.finished then (sealing !(x.queue l.queue).isClosed).program l f
        else if (x.queue l.queue).isClosed then yielding.program l f else .done .delivered)
      fun x => (push l.queue f x).2 := by
  simp only [handOver, hstatus, if_false]
  refine congrArg (Process.step · _) (funext fun x => ?_)
  simp only [Listener.call, push_fst]
  cases f.finished with
  | true => rfl
  | false => cases (x.queue l.queue).isClosed <;> rfl

/-- The stages follow the program of a delivery: its next step has the effect of the stage, and leaves the program
of the stage after it. -/
theorem program_step (hentry : ∀ c, (x.table l.table).find? f.requestId = some c → c = l.call) {s : Stage}
    {next : Exchange → Process Exchange Delivery} {change : Exchange → Exchange}
    (h : s.program l f = .step next change) :
    (s.after l f x).program l f = next x ∧ s.effect l f x = change x := by
  cases s with
  | starting =>
    rw [program, deliver_eq] at h
    cases h
    refine ⟨?_, rfl⟩
    simp only [after]
    cases hfind : (x.table l.table).find? f.requestId with
    | none => rfl
    | some c =>
      cases hentry c hfind
      rfl
  | found =>
    cases h
    refine ⟨?_, rfl⟩
    simp only [after, isAbandoned, Listener.call]
    cases x.abandoned l.control with
    | true => rfl
    | false => cases f.finished <;> rfl
  | claiming =>
    cases h
    refine ⟨?_, rfl⟩
    simp only [after, claimCompletion_fst]
    by_cases hclaim : (x.control l.control).claim = .free
    · simp only [hclaim, if_true, decide_true]
      rfl
    · simp only [hclaim, if_false, decide_false]
      rfl
  | handing =>
    by_cases hstatus : f.status = .streamTerminated
    · simp only [program, handOver, hstatus, if_true] at h
      cases h
      simp only [after, effect, hstatus, if_true]
      exact ⟨rfl, rfl⟩
    · rw [program, handOver_eq hstatus] at h
      cases h
      refine ⟨?_, by simp only [effect, hstatus, if_false]⟩
      simp only [after, hstatus, if_false]
      split
      case isTrue => rfl
      case isFalse => split <;> rfl
  | sealing placed =>
    cases h
    cases placed <;> exact ⟨rfl, rfl⟩
  | yielding | removing =>
    cases h
    exact ⟨rfl, rfl⟩
  | told d => cases h

theorem program_eq_done {s : Stage} {d : Delivery} (h : s.program l f = .done d) : s = .told d := by
  cases s with
  | starting =>
    rw [program, deliver_eq] at h
    cases h
  | handing =>
    simp only [program, handOver] at h
    split at h <;> cases h
  | told d' =>
    cases h
    rfl
  | _ => cases h

/-- The stages at which a delivery can stand when it is next told something, or has been told it. -/
inductive EndsAs : Stage → Delivery → Prop where
  | unknown : EndsAs .starting .unknownRequest
  | terminated : EndsAs .handing .terminated
  | handed : EndsAs .handing .delivered
  | sealed : EndsAs (.sealing true) .delivered
  | removed : EndsAs .removing .abandoned
  | told (d : Delivery) : EndsAs (.told d) d

theorem endsAs_of_after {s : Stage} {d : Delivery} (h : s.after l f x = .told d) : s.EndsAs d := by
  cases s with
  | starting =>
    simp only [after] at h
    split at h <;> cases h
    exact .unknown
  | found =>
    simp only [after] at h
    split at h
    · cases h
    · split at h <;> cases h
  | claiming =>
    simp only [after] at h
    split at h <;> cases h
  | handing =>
    simp only [after] at h
    split at h
    · cases h
      exact .terminated
    · split at h
      · cases h
      · split at h <;> cases h
        exact .handed
  | sealing placed =>
    cases placed <;> cases h
    exact .sealed
  | yielding => cases h
  | removing =>
    cases h
    exact .removed
  | told d =>
    cases h
    exact .told d

/-- Two stages with the same program go on alike: where there is no call, what is told next at one of them is told
next at the other. -/
theorem after_of_program_eq {s t : Stage} {d : Delivery} {next : Exchange → Process Exchange Delivery}
    {change : Exchange → Exchange} (hstep : t.program l f = .step next change) (h : s.program l f = t.program l f)
    (htold : t.after l f {} = .told d) : s.after l f {} = .told d := by
  have hentry (c : PendingCall) (hc : (({} : Exchange).table l.table).find? f.requestId = some c) : c = l.call := by
    cases hc
  obtain ⟨ht, -⟩ := program_step (x := {}) hentry hstep
  obtain ⟨hs, -⟩ := program_step (x := {}) hentry (h.trans hstep)
  rw [htold] at ht
  exact program_eq_done (hs.trans ht.symm)

/-- Only a delivery that has not begun has all of its program before it. -/
theorem eq_starting_of_program {s : Stage} (h : s.program l f = deliver l.table f) : s = .starting := by
  have htold := after_of_program_eq (t := .starting) (deliver_eq l.table f) h rfl
  cases endsAs_of_after htold with
  | unknown => rfl
  | told => cases h.trans (deliver_eq l.table f)

/-- Only a delivery that has checked the call has nothing left to do but to end its stream. -/
theorem eq_handing_of_program (hstatus : f.status = .streamTerminated) {s : Stage}
    (h : s.program l f = handOver l.table l.call f) : s = .handing := by
  obtain ⟨next, change, hstep⟩ : ∃ next change, handOver l.table l.call f = .step next change := by
    simp only [handOver, hstatus, if_true]
    exact ⟨_, _, rfl⟩
  have htold := after_of_program_eq (t := .handing) hstep h (if_pos hstatus)
  cases endsAs_of_after htold with
  | terminated => rfl
  | told => cases h.trans hstep

/-- A step of a delivery to the call is a step on the call. -/
theorem onward_effect (hid : f.requestId = l.id) (s : Stage) : Onward l x (s.effect l f x) := by
  cases s with
  | starting =>
    simp only [effect, hid]
    cases f.isLast with
    | true => exact onward_resolve
    | false =>
      have hsame : (resolve l.table l.id false x).2 = x := onTable_eq_self rfl
      rw [hsame]
      exact .refl l x
  | claiming => exact onward_claimCompletion
  | handing =>
    simp only [effect]
    split
    · exact onward_closeQueue
    · exact onward_push f
  | sealing | yielding => exact onward_closeQueue
  | removing =>
    simp only [effect, hid]
    exact onward_remove
  | found | told => exact .refl l x

/-- A delivery fires no signal. -/
@[simp] theorem fired_effect (s : Stage) (k : SignalId) : (s.effect l f x).fired k = x.fired k := by
  cases s with
  | claiming => exact fired_claimCompletion
  | handing =>
    simp only [effect]
    split <;> rfl
  | _ => rfl

/-- A delivery puts nothing into a queue that is closed. -/
theorem fragments_effect (hclosed : (x.queue l.queue).isClosed = true) (s : Stage) :
    ((s.effect l f x).queue l.queue).fragments = (x.queue l.queue).fragments := by
  cases s with
  | claiming => simp [effect]
  | handing =>
    simp only [effect]
    split
    · simp
    · simp [Queue.fragments_push, hclosed]
  | sealing | yielding => simp [effect]
  | starting | removing | found | told => rfl

/-- A delivery never cancels its call. -/
theorem claim_effect (s : Stage) (h : (x.control l.control).claim ≠ .cancelled) :
    ((s.effect l f x).control l.control).claim ≠ .cancelled := by
  cases s with
  | starting => simpa [effect] using h
  | claiming =>
    simp only [effect, control_claimCompletion, true_and]
    split
    · simp
    · exact h
  | handing =>
    simp only [effect]
    split <;> simpa using h
  | sealing | yielding | removing => simpa [effect] using h
  | found | told => exact h

/-- What may be relied on at a stage: who hands over a fragment that is marked as the last one has claimed the call
for it. -/
def Fits (l : Listener) (f : Fragment) (x : Exchange) : Stage → Prop
  | .handing => f.finished = true → (x.control l.control).claim = .completing
  | .sealing _ => (x.control l.control).claim = .completing
  | _ => True

theorem Fits.keep {y : Exchange} {s : Stage} (h : s.Fits l f x) (hkeeps : Keeps l x y) : s.Fits l f y := by
  have hcompleting (hclaim : (x.control l.control).claim = .completing) :
      (y.control l.control).claim = .completing := by
    rw [hkeeps.claim (by simp [hclaim]), hclaim]
  cases s with
  | handing => exact fun hfinished => hcompleting (h hfinished)
  | sealing => exact hcompleting h
  | _ => trivial

theorem fits_after {s : Stage} (h : s.Fits l f x) : (s.after l f x).Fits l f (s.effect l f x) := by
  cases s with
  | starting => simp only [after]; split <;> trivial
  | found =>
    simp only [after]
    split
    · trivial
    · cases hfinished : f.finished with
      | true => trivial
      | false =>
        intro hfinished'
        rw [hfinished] at hfinished'
        cases hfinished'
  | claiming =>
    by_cases hclaim : (x.control l.control).claim = .free
    · simp [after, effect, Fits, hclaim]
    · simp only [after, hclaim, if_false]
      trivial
  | handing =>
    simp only [after, effect]
    split
    · trivial
    · split
      case isTrue hfinished => simpa [Fits] using h hfinished
      case isFalse => split <;> trivial
  | sealing placed => cases placed <;> trivial
  | yielding | removing | told => trivial

/-- What becomes of a delivery to a call that has been cancelled and is out of its table: it finds no call, or if it
has found it before, it is abandoned. But if it had found the call still uncancelled, and has only to end the stream,
it ends the stream. -/
def late (f : Fragment) : Stage → Delivery
  | .starting => .unknownRequest
  | .handing => if f.status = .streamTerminated then .terminated else .abandoned
  | .told d => d
  | .found | .claiming | .sealing _ | .yielding | .removing => .abandoned

/-- A fragment that is handed to a cancelled call is not marked as the last one. -/
theorem Fits.unfinished (h : handing.Fits l f x) (hclaim : (x.control l.control).claim = .cancelled) :
    f.finished = false := by
  by_contra hfinished
  have hcompleting := h (by simpa using hfinished)
  rw [hclaim] at hcompleting
  cases hcompleting

/-- Each step of a delivery to a cancelled call leads on to the same end. -/
theorem late_after (hid : f.requestId = l.id) (habsent : (x.table l.table).find? l.id = none)
    (hclaim : (x.control l.control).claim = .cancelled) (hclosed : (x.queue l.queue).isClosed = true) {s : Stage}
    (hfits : s.Fits l f x) : (s.after l f x).late f = s.late f := by
  cases s with
  | starting => simp [after, hid, habsent, late]
  | found =>
    have habandoned : x.abandoned l.control = true := by simp [Exchange.abandoned, hclaim]
    simp [after, habandoned, late]
  | claiming => simp [after, hclaim, late]
  | handing =>
    have hunfinished := hfits.unfinished hclaim
    by_cases hstatus : f.status = .streamTerminated
    · simp [after, hstatus, late]
    · simp [after, hstatus, hunfinished, hclosed, late]
  | sealing placed =>
    have hcompleting : (x.control l.control).claim = .completing := hfits
    rw [hclaim] at hcompleting
    cases hcompleting
  | yielding | removing | told => rfl

end Stage

end Switchboard.Delivery
