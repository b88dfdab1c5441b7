import Switchboard.Proofs.TimeLimit.Unlimited
/-!
What one who waits is told depends on what would be in the queue if nobody had read it, and on nothing else: not on
when he looks, and unless his time is over, not on his limit.
-/
namespace Switchboard.TimeLimit

open Exchange Process
open Shutdown (Answer say)

variable {l : Listener} {start : Nat} {limit : Option Nat} {read : List Fragment} {x y : Exchange} {f : Fragment}
  {s : Delivery.Stage} {r : Reader}

/-- What deliveries have put into the queue of a call, and what was in it before, if nobody reads it. -/
def received (x : Exchange) (l : Listener) (fs : List Fragment) (order : List Nat) : List Fragment :=
  (((company x l 0 none [] fs).follow order).state.queue l.queue).fragments

/-- The result of fragments that have been read. -/
def resultOf (l : Listener) (start : Nat) (read : List Fragment) : Except ClientError Bytes :=
  (read.foldl Waiting.add (.start l start none)).result

/-- One state is ahead of another by what has been read in it. Deliveries to the call see no difference. -/
structure Ahead (l : Listener) (read : List Fragment) (x y : Exchange) : Prop where
  tables : y.tables = x.tables
  controls : y.controls = x.controls
  signals : y.signals = x.signals
  closed : (y.queue l.queue).isClosed = (x.queue l.queue).isClosed
  fragments : (y.queue l.queue).fragments = read ++ (x.queue l.queue).fragments

namespace Ahead

variable (h : Ahead l read x y)
include h

theorem table (t : TableId) : y.table t = x.table t := by simp only [Exchange.table, h.tables]

theorem control (c : ControlId) : y.control c = x.control c := by simp only [Exchange.control, h.controls]

theorem fired (k : SignalId) : y.fired k = x.fired k := by simp only [Exchange.fired, h.signals]

theorem abandoned (c : ControlId) : y.abandoned c = x.abandoned c := by
  simp only [Exchange.abandoned, h.control, h.fired]

theorem after (s : Delivery.Stage) : s.after l f y = s.after l f x := by
  cases s <;> simp only [Delivery.Stage.after, h.table, h.abandoned, h.control, h.closed]

/-- A step on the table of the call, whatever it does there. -/
theorem onTable {α : Type} (t : TableId) (g : Table → α × Table) :
    Ahead l read (Exchange.onTable t g x).2 (Exchange.onTable t g y).2 where
  tables := by
    show y.tables.set t.index (g (y.table t)).2 = x.tables.set t.index (g (x.table t)).2
    rw [h.tables, h.table]
  controls := h.controls
  signals := h.signals
  closed := h.closed
  fragments := h.fragments

theorem setClaim (c : ControlId) (claim : Claim) :
    Ahead l read (Exchange.setClaim c claim x).2 (Exchange.setClaim c claim y).2 where
  tables := h.tables
  controls := by
    show y.controls.set c.index { y.control c with claim } = x.controls.set c.index { x.control c with claim }
    rw [h.controls, h.control]
  signals := h.signals
  closed := h.closed
  fragments := h.fragments

theorem claimCompletion (c : ControlId) :
    Ahead l read (Exchange.claimCompletion c x).2 (Exchange.claimCompletion c y).2 := by
  unfold Exchange.claimCompletion
  rw [h.control]
  split
  case isTrue => exact h.setClaim c .completing
  case isFalse => exact h

theorem closeQueue : Ahead l read (Exchange.closeQueue l.queue x).2 (Exchange.closeQueue l.queue y).2 where
  tables := h.tables
  controls := h.controls
  signals := h.signals
  closed := by simp
  fragments := by simpa using h.fragments

theorem push : Ahead l read (Exchange.push l.queue f x).2 (Exchange.push l.queue f y).2 where
  tables := h.tables
  controls := h.controls
  signals := h.signals
  closed := by simpa using h.closed
  fragments := by
    simp only [queue_push, Queue.fragments_push, h.closed, h.fragments, if_true]
    split
    · rfl
    · rw [List.append_assoc]

/-- A delivery does the same in both states. -/
theorem effect (s : Delivery.Stage) : Ahead l read (s.effect l f x) (s.effect l f y) := by
  cases s with
  | starting => exact h.onTable l.table _
  | claiming => exact h.claimCompletion l.control
  | handing =>
    simp only [Delivery.Stage.effect]
    split
    · exact h.closeQueue
    · exact h.push
  | sealing | yielding => exact h.closeQueue
  | removing => exact h.onTable l.table _
  | found | told => exact h

/-- Reading a fragment gets one state further ahead. -/
theorem take {rest : List Fragment} (hqueue : (x.queue l.queue).fragments = f :: rest) :
    Ahead l (read ++ [f]) (Exchange.take l.queue x).2 y where
  tables := h.tables
  controls := h.controls
  signals := h.signals
  closed := by simpa using h.closed
  fragments := by rw [(take_of_cons hqueue).2, h.fragments, hqueue, List.append_assoc]; rfl

/-- Nothing is lost if a queue is dropped that is closed and drained. -/
theorem dropReading (hclosed : (x.queue l.queue).isClosed = true) (hdrained : (x.queue l.queue).fragments = []) :
    Ahead l read (Exchange.dropReading l.queue x).2 y where
  tables := h.tables
  controls := h.controls
  signals := h.signals
  closed := by simp [h.closed, hclosed]
  fragments := by simp [h.fragments, hdrained, Queue.dropReading]

end Ahead

/-- What one who waits has read so far, and if he has come to the end of the queue, what he makes of it. -/
def Holds (l : Listener) (start : Nat) (limit : Option Nat) (read : List Fragment) (x : Exchange) : Reader → Prop
  | .looking v _ _ | .taking v _ _ =>
    v.listener = l ∧ v.unlimited = read.foldl Waiting.add (.start l start none) ∧
      (v.deadline.isSome = true → limit.isSome = true)
  | .trying v _ =>
    v.listener = l ∧ v.unlimited = read.foldl Waiting.add (.start l start none) ∧ limit.isSome = true
  | .closing _ | .leaving _ => False
  | .dropping result | .told (some result) =>
    result = resultOf l start read ∧ (x.queue l.queue).isClosed = true ∧ (x.queue l.queue).fragments = []
  | .told none => True

theorem Holds.reads (h : Holds l start limit read x r) : r.Reads l := by
  cases r with
  | looking | taking | trying => exact h.1
  | closing | leaving | dropping | told => trivial

theorem holds_waits {v : Waiting} {later : List Nat} (hlistener : v.listener = l)
    (hread : v.unlimited = read.foldl Waiting.add (.start l start none))
    (hlimit : v.deadline.isSome = true → limit.isSome = true) :
    Holds l start limit read x (.waits later v) := by
  cases later with
  | nil => trivial
  | cons now later => exact ⟨hlistener, hread, hlimit⟩

/-- What one has read stays read while others take steps, and nothing comes after the end of the queue. -/
theorem Holds.keep (h : Holds l start limit read x r) (hclosed : (x.queue l.queue).isClosed = true →
      (y.queue l.queue).isClosed = true ∧ (y.queue l.queue).fragments = (x.queue l.queue).fragments) :
    Holds l start limit read y r := by
  have hended {result : Except ClientError Bytes} (h : result = resultOf l start read ∧
      (x.queue l.queue).isClosed = true ∧ (x.queue l.queue).fragments = []) : result = resultOf l start read ∧
        (y.queue l.queue).isClosed = true ∧ (y.queue l.queue).fragments = [] := by
    obtain ⟨hresult, hbefore, hdrained⟩ := h
    obtain ⟨hafter, hsame⟩ := hclosed hbefore
    exact ⟨hresult, hafter, hsame.trans hdrained⟩
  cases r with
  | dropping => exact hended h
  | told result =>
    cases result with
    | none => trivial
    | some result => exact hended h
  | _ => exact h

/-- The deliveries of fragments, each at a stage. -/
def deliveries (l : Listener) (ds : List (Fragment × Delivery.Stage)) : List (Process Exchange Answer) :=
  ds.map fun d => say d.1 (d.2.program l d.1)

/-- A company with a reader keeps track of the same company without one. -/
structure Tracks (l : Listener) (start : Nat) (limit : Option Nat) (r : Reader) (read : List Fragment)
    (ds : List (Fragment × Delivery.Stage)) (x y : Exchange) : Prop where
  ahead : Ahead l read x y
  holds : Holds l start limit read x r
  entry : ∀ call, (x.table l.table).find? l.id = some call → call = l.call
  running : x.fired l.shutdown = false
  ids : ∀ d ∈ ds, d.1.requestId = l.id

section Steps

variable {ds : List (Fragment × Delivery.Stage)} {v : Waiting} {now : Nat} {later : List Nat}

/-- One who waits looks at the queue. -/
theorem Tracks.taking (h : Tracks l start limit (.taking v now later) read ds x y) :
    ∃ read', Tracks l start limit ((Reader.taking v now later).after x) read' ds (take l.queue x).2 y := by
  obtain ⟨hahead, ⟨rfl, hread, hlimit⟩, hentry, hrunning, hids⟩ := h
  cases hqueue : (x.queue v.listener.queue).fragments with
  | cons f rest =>
    refine ⟨read ++ [f], hahead.take hqueue, ?_, by simpa using hentry, hrunning, hids⟩
    simp only [Reader.after, (take_of_cons hqueue).1]
    refine holds_waits Waiting.listener_add ?_ ?_
    · rw [Waiting.unlimited_add, hread, List.foldl_append, List.foldl_cons, List.foldl_nil]
    · rw [Waiting.deadline_add]
      exact hlimit
  | nil =>
    refine ⟨read, ?_⟩
    simp only [Reader.after, take_of_empty hqueue, take_fst_of_empty hqueue]
    refine ⟨hahead, ?_, hentry, hrunning, hids⟩
    cases hclosed : (x.queue v.listener.queue).isClosed with
    | true =>
      have hresult : v.unlimited.result = resultOf v.listener start read := congrArg Waiting.result hread
      exact ⟨hresult, hclosed, hqueue⟩
    | false =>
      simp only [Bool.false_eq_true, if_false]
      cases hover : v.isOver now with
      | false => exact holds_waits rfl hread hlimit
      | true =>
        refine ⟨rfl, hread, hlimit ?_⟩
        obtain ⟨time, htime, -⟩ := Waiting.isOver_iff.1 hover
        rw [htime]
        rfl

/-- One who waits looks at the time, and goes on or has cancelled the call. -/
theorem Tracks.trying (h : Tracks l start limit (.trying v later) read ds x y) :
    (limit.isSome = true ∧ ∃ limit', (Reader.trying v later).after x = .closing limit') ∨
      Tracks l start limit ((Reader.trying v later).after x) read ds (claimCancellation l.control x).2 y := by
  obtain ⟨hahead, ⟨rfl, hread, hlimit⟩, hentry, hrunning, hids⟩ := h
  by_cases hclaim : (x.control v.listener.control).claim = .completing
  · right
    have hsame := claimCancellation_of_claimed (c := v.listener.control) (x := x) (by simp [hclaim])
    simp only [Reader.after, hclaim, if_true, hsame]
    exact ⟨hahead, holds_waits rfl hread (fun h => by cases h), hentry, hrunning, hids⟩
  · left
    simp only [Reader.after, hclaim, if_false]
    exact ⟨hlimit, v.limit, rfl⟩

variable (h : Tracks l start limit r read ds x y)
include h

/-- The reader's next step is out of sight of the deliveries, unless it cancels the call. -/
theorem Tracks.reader : (limit.isSome = true ∧ ∃ limit', r.after x = .closing limit') ∨
    ∃ read', Tracks l start limit (r.after x) read' ds (r.effect l x) y := by
  cases r with
  | looking v now later =>
    obtain ⟨hahead, ⟨rfl, hread, hlimit⟩, hentry, hrunning, hids⟩ := h
    refine .inr ⟨read, hahead, ?_, hentry, hrunning, hids⟩
    simp only [Reader.after, hrunning, Bool.false_eq_true, if_false]
    exact ⟨rfl, hread, hlimit⟩
  | taking v now later =>
    right
    simp only [Reader.effect, h.holds.1]
    exact h.taking
  | trying v later =>
    simp only [Reader.effect, h.holds.1]
    exact h.trying.imp id fun hgoesOn => ⟨read, hgoesOn⟩
  | dropping result =>
    obtain ⟨hahead, ⟨hresult, hclosed, hdrained⟩, hentry, hrunning, hids⟩ := h
    refine .inr ⟨read, hahead.dropReading hclosed hdrained, ⟨hresult, ?_, ?_⟩,
      by simpa [Reader.effect] using hentry, hrunning, hids⟩
    · simp [Reader.effect]
    · simp [Reader.effect, Queue.dropReading]
  | told result => exact .inr ⟨read, h⟩
  | closing | leaving => exact h.holds.elim

/-- A delivery takes its next step with and without the reader. -/
theorem Tracks.delivery {i : Nat} (hi : ds[i]? = some (f, s)) :
    Tracks l start limit r read (ds.set i (f, s.after l f x)) (s.effect l f x) (s.effect l f y) := by
  have hid : f.requestId = l.id := h.ids (f, s) (List.mem_of_getElem? hi)
  have honward : Onward l x (s.effect l f x) := s.onward_effect hid
  constructor
  case ahead => exact h.ahead.effect s
  case holds => exact h.holds.keep fun hclosed => ⟨honward.closed hclosed, Delivery.Stage.fragments_effect hclosed s⟩
  case entry => exact fun call hfind => h.entry call (honward.entry call hfind)
  case running => rw [Delivery.Stage.fired_effect, h.running]
  case ids =>
    intro d hd
    obtain hd | rfl := List.mem_or_eq_of_mem_set hd
    · exact h.ids d hd
    · exact hid

end Steps

section Companies

variable {ds : List (Fragment × Delivery.Stage)} {i : Nat}

theorem advance_delivery (p : Process Exchange Answer) (hi : ds[i]? = some (f, s)) (hid : f.requestId = l.id)
    (hentry : ∀ call, (x.table l.table).find? l.id = some call → call = l.call) :
    Company.advance (i + 1) ⟨x, p :: deliveries l ds⟩ =
      ⟨s.effect l f x, p :: deliveries l (ds.set i (f, s.after l f x))⟩ := by
  refine Company.advance_role (fun d : Fragment × Delivery.Stage => say d.1 (d.2.program l d.1)) p hi ?_ ?_
  · intro next change hstep
    cases hprogram : s.program l f with
    | done d =>
      rw [hprogram] at hstep
      cases hstep
    | step next' change' =>
      obtain ⟨hnext, hchange⟩ := Delivery.Stage.program_step (x := x) (hid.symm ▸ hentry) hprogram
      rw [hprogram] at hstep
      cases hstep
      exact ⟨by rw [hnext]; rfl, hchange⟩
  · intro a hdone
    cases hprogram : s.program l f with
    | done d =>
      obtain rfl := Delivery.Stage.program_eq_done hprogram
      exact ⟨rfl, rfl⟩
    | step next change =>
      rw [hprogram] at hdone
      cases hdone

/-- Two companies, with one who waits and without, one ahead of the other. -/
def Pair (l : Listener) (start : Nat) (limit : Option Nat) (c d : Company Exchange Answer) : Prop :=
  ∃ r read ds, Tracks l start limit r read ds c.state d.state ∧
    c.programs = r.program l :: deliveries l ds ∧ d.programs = .done (.waited none) :: deliveries l ds

theorem Pair.advance {c d : Company Exchange Answer} (h : Pair l start limit c d) (i : Nat) :
    (limit.isSome = true ∧ IsOverdue (c.advance i)) ∨ Pair l start limit (c.advance i) (d.advance i) := by
  obtain ⟨x, programs⟩ := c
  obtain ⟨y, programs'⟩ := d
  obtain ⟨r, read, ds, htracks, rfl, rfl⟩ := h
  cases i with
  | zero =>
    rw [advance_reader x _ htracks.holds.reads]
    obtain ⟨hlimit, limit', hcloses⟩ | ⟨read', hafter⟩ := htracks.reader
    · refine .inl ⟨hlimit, _, limit', rfl, ?_⟩
      rw [hcloses]
      exact closing_overdue l limit'
    · exact .inr ⟨_, read', ds, hafter, rfl, rfl⟩
  | succ i =>
    right
    cases hi : ds[i]? with
    | none =>
      rw [deliveries, Company.advance_nobody hi, Company.advance_nobody hi]
      exact ⟨r, read, ds, htracks, rfl, rfl⟩
    | some e =>
      obtain ⟨f, s⟩ := e
      have hid : f.requestId = l.id := htracks.ids _ (List.mem_of_getElem? hi)
      have hentry : ∀ call, (y.table l.table).find? l.id = some call → call = l.call := by
        rw [htracks.ahead.table]
        exact htracks.entry
      rw [advance_delivery _ hi hid htracks.entry, advance_delivery _ hi hid hentry, htracks.ahead.after]
      exact ⟨r, read, _, htracks.delivery hi, rfl, rfl⟩

theorem Pair.follow {c d : Company Exchange Answer} (h : Pair l start limit c d) (order : List Nat) :
    (limit.isSome = true ∧ IsOverdue (c.follow order)) ∨ Pair l start limit (c.follow order) (d.follow order) := by
  induction order generalizing c d with
  | nil => exact .inr h
  | cons i rest ih =>
    obtain ⟨hlimit, hover⟩ | hafter := h.advance i
    · exact .inl ⟨hlimit, hover.follow rest⟩
    · exact ih hafter

end Companies

/-- Where nobody reads, only the steps of the deliveries count. -/
theorem received_filter (x : Exchange) (l : Listener) (fs : List Fragment) (order : List Nat) :
    received x l fs (order.filter (· ≠ 0)) = received x l fs order := by
  have hfollow (y : Exchange) (ps : List (Process Exchange Answer)) :
      Company.follow (order.filter (· ≠ 0)) ⟨y, .done (.waited none) :: ps⟩ =
        Company.follow order ⟨y, .done (.waited none) :: ps⟩ := by
    induction order generalizing y ps with
    | nil => rfl
    | cons i rest ih =>
      cases i with
      | zero => exact ih y ps
      | succ i =>
        obtain ⟨z, qs, hothers⟩ := Company.advance_succ i y ps
        have hkeeps : ((i + 1) :: rest).filter (· ≠ 0) = (i + 1) :: rest.filter (· ≠ 0) := by simp
        rw [hkeeps, Company.follow, Company.follow, hothers, ih]
  exact congrArg (fun c : Company Exchange Answer => (c.state.queue l.queue).fragments) (hfollow x _)

/-- One who waits is told the result of what has been received, unless his time is over. -/
theorem result_of_received (hlive : x.Live l) {fs : List Fragment} (hfs : ∀ f ∈ fs, f.requestId = l.id)
    (start : Nat) (limit : Option Nat) (times order : List Nat) {result : Except ClientError Bytes}
    (hresult : ((company x l start limit times fs).follow order).result? 0 = some (.waited (some result))) :
    (limit.isSome = true ∧ ∃ limit', result = .error (.timeout limit')) ∨
      result = resultOf l start (received x l fs order) := by
  have hstart : Pair l start limit (company x l start limit times fs) (company x l 0 none [] fs) := by
    refine ⟨.waits times (.start l start limit), [], fs.map fun f => (f, .starting), ?_, ?_, ?_⟩
    · constructor
      case ahead => exact ⟨rfl, rfl, rfl, rfl, rfl⟩
      case holds => exact holds_waits rfl rfl fun h => by cases limit <;> simp_all [Waiting.start]
      case entry => exact fun call hfind => Option.some.inj (hfind.symm.trans hlive.entry)
      case running => exact hlive.running
      case ids =>
        intro d hd
        obtain ⟨f, hf, rfl⟩ := List.mem_map.1 hd
        exact hfs f hf
    · rw [company_eq, deliveries, List.map_map]
      rfl
    · rw [company_eq, deliveries, List.map_map]
      rfl
  obtain ⟨hlimit, hover⟩ | ⟨r, read, ds, htracks, hprograms, -⟩ := hstart.follow order
  · obtain ⟨limit', hsame⟩ := hover.eq hresult
    cases hsame
    exact .inl ⟨hlimit, limit', rfl⟩
  · rw [Company.result?_eq_some_iff, hprograms] at hresult
    obtain ⟨told, rfl, hsame⟩ := Reader.program_eq_done (Option.some.inj hresult)
    cases hsame
    obtain ⟨hread, -, hdrained⟩ := htracks.holds
    right
    rw [hread, received, htracks.ahead.fragments, hdrained, List.append_nil]

end Switchboard.TimeLimit
