import Switchboard.Client.Basic
import Switchboard.Proofs.Exchange.Reading
/-!
What destroying a client does to the exchange: its shutdown signal is fired, and its calls are taken out of
the table and their queues closed.
-/
namespace Switchboard

open Exchange Process

variable {x y : Exchange} {w : World} {c : ClientId} {t : TableId} {s : SignalId}

namespace Exchange

/-- The queues of some calls are closed. -/
def closing (calls : List PendingCall) (x : Exchange) : Exchange :=
  calls.foldl (fun x call => (closeQueue call.queue x).2) x

theorem closing_cons {call : PendingCall} {calls : List PendingCall} :
    closing (call :: calls) x = closing calls (closeQueue call.queue x).2 := rfl

theorem queue_closing {calls : List PendingCall} {q : QueueId} :
    (closing calls x).queue q =
      if ∃ call ∈ calls, call.queue = q then (x.queue q).close else x.queue q := by
  induction calls generalizing x with
  | nil => simp [closing]
  | cons call calls ih =>
    rw [closing_cons, ih]
    by_cases hq : q = call.queue
    · subst hq
      simp [Queue.close]
    · simp [hq, Ne.symm hq]

theorem frame_closing {calls : List PendingCall} : SameButQueues x (closing calls x) := by
  induction calls generalizing x with
  | nil => exact ⟨fun _ => rfl, fun _ => rfl, fun _ => rfl⟩
  | cons call calls ih =>
    obtain ⟨hcontrol, hfired, htable⟩ := ih (x := (closeQueue call.queue x).2)
    simpa [closing_cons] using And.intro hcontrol (And.intro hfired htable)

theorem sizes_closing {calls : List PendingCall} : (closing calls x).sizes = x.sizes := by
  induction calls generalizing x with
  | nil => rfl
  | cons call calls ih => rw [closing_cons, ih, sizes_closeQueue]

end Exchange

/-- The contexts that a client still has to give up. -/
def Lifecycle.contexts : Lifecycle → List UInt32
  | .active context => [context]
  | .uninitialized | .destroyed => []

namespace Client

theorem closeAll_run (calls : List PendingCall) (w : World) :
    (closeAll calls).run w = ((), { w with exchange := closing calls w.exchange }) := by
  induction calls generalizing w with
  | nil => rfl
  | cons call calls ih =>
    simp only [closeAll, run_bind, ih]
    rfl

/-- What the closing of each queue keeps. -/
theorem all_closeAll {R : World → World → Prop} {calls : List PendingCall}
    (h : ∀ call ∈ calls, ∀ w, R w (World.atExchange (closeQueue call.queue) w).2) :
    (closeAll calls).All R fun _ => True := by
  induction calls with
  | nil => trivial
  | cons call rest ih =>
    refine (All.atomic (h call List.mem_cons_self)).bind fun _ _ => ?_
    exact ih fun other hother => h other (List.mem_cons_of_mem call hother)

/-- The calls that go with a client. -/
def owned (t : TableId) (s : SignalId) (x : Exchange) : List PendingCall :=
  ((x.table t).removeAll fun call => (x.control call.control).shutdown = s).1

/-- The exchange after a client has been destroyed. -/
def withoutOwned (t : TableId) (s : SignalId) (x : Exchange) : Exchange :=
  closing (owned t s x) (removeOwned t s (fire s x).2).2

theorem mem_owned {call : PendingCall} :
    call ∈ owned t s x ↔
      (x.control call.control).shutdown = s ∧ ∃ id, (id, call) ∈ (x.table t).calls := by
  simp [owned, Table.mem_removeAll]

@[simp] theorem control_withoutOwned {k : ControlId} : (withoutOwned t s x).control k = x.control k :=
  frame_closing.1 k

@[simp] theorem fired_withoutOwned {s' : SignalId} :
    (withoutOwned t s x).fired s' =
      if s' = s ∧ s.index < x.signals.length then true else x.fired s' :=
  (frame_closing.2.1 s').trans fired_fire

@[simp] theorem table_withoutOwned {t' : TableId} :
    (withoutOwned t s x).table t' =
      if t' = t then ((x.table t).removeAll fun call => (x.control call.control).shutdown = s).2
      else x.table t' :=
  (frame_closing.2.2 t').trans table_removeOwned

theorem queue_withoutOwned {q : QueueId} :
    (withoutOwned t s x).queue q =
      if ∃ call ∈ owned t s x, call.queue = q then (x.queue q).close else x.queue q :=
  queue_closing

theorem fragments_withoutOwned {q : QueueId} :
    ((withoutOwned t s x).queue q).fragments = (x.queue q).fragments := by
  rw [queue_withoutOwned]
  split <;> rfl

theorem sizes_withoutOwned : (withoutOwned t s x).sizes = x.sizes :=
  sizes_closing.trans (sizes_removeOwned.trans sizes_fire)

/-- The live calls of a client end with it. -/
theorem withoutOwned_of_owned {l : Listener} (hlive : x.Live l) (hkeyed : (x.table l.table).Keyed)
    (ht : l.table = t) (hs : l.shutdown = s) : (withoutOwned t s x).Ended l := by
  subst ht
  subst hs
  constructor
  case absent =>
    rw [table_withoutOwned, if_pos rfl]
    cases hfind : ((x.table l.table).removeAll _).2.find? l.id with
    | none => rfl
    | some call =>
      obtain ⟨hbefore, hother⟩ := hkeyed.find?_removeAll.1 hfind
      cases hlive.entry.symm.trans hbefore
      simp [Listener.call, hlive.shutdown] at hother
  case closed =>
    have howned : l.call ∈ owned l.table l.shutdown x :=
      mem_owned.2 ⟨hlive.shutdown, l.id, Table.mem_of_find? hlive.entry⟩
    rw [queue_withoutOwned, if_pos ⟨l.call, howned, rfl⟩]
    rfl

/-- The live calls of other clients stay live. -/
theorem withoutOwned_of_other {l : Listener} (hlive : x.Live l) (hkeyed : (x.table l.table).Keyed)
    (hs : l.shutdown ≠ s) (hcancel : (x.control l.control).cancel ≠ s)
    (hqueue : ∀ call ∈ owned t s x, call.queue ≠ l.queue) : (withoutOwned t s x).Live l := by
  have hsame : (withoutOwned t s x).queue l.queue = x.queue l.queue := by
    rw [queue_withoutOwned, if_neg]
    rintro ⟨call, hcall, heq⟩
    exact hqueue call hcall heq
  constructor
  case entry =>
    rw [table_withoutOwned]
    split
    case isFalse => exact hlive.entry
    case isTrue ht =>
      subst ht
      refine hkeyed.find?_removeAll.2 ⟨hlive.entry, ?_⟩
      simp [Listener.call, hlive.shutdown, hs]
  case unread => exact hlive.unread
  all_goals simp [hsame, hlive.unclaimed, hlive.shutdown, hlive.accepting, hlive.reading, hs, hcancel,
    hlive.running, hlive.uncancelled]

theorem withoutOwned_of_ended {l : Listener} (hended : x.Ended l) (hkeyed : (x.table l.table).Keyed) :
    (withoutOwned t s x).Ended l := by
  constructor
  case absent =>
    rw [table_withoutOwned]
    split
    case isFalse => exact hended.absent
    case isTrue ht =>
      subst ht
      cases hfind : ((x.table l.table).removeAll _).2.find? l.id with
      | none => rfl
      | some call =>
        have hbefore := (hkeyed.find?_removeAll.1 hfind).1
        rw [hended.absent] at hbefore
        cases hbefore
  case closed =>
    rw [queue_withoutOwned]
    split
    · rfl
    · exact hended.closed

/-- Destroying a client gives its context up, if it has one, and takes its calls out of the table. -/
theorem destroy_world (c : ClientId) (w : World) :
    ((destroy c).run w).2 =
      { exchange := withoutOwned (w.client c).table (w.client c).shutdown w.exchange
        clients := w.clients.set c.index { w.client c with lifecycle := .destroyed }
        engines := w.engines.set (w.client c).engine.index
          { w.engine (w.client c).engine with
            destroyed := (w.engine (w.client c).engine).destroyed ++ (w.client c).lifecycle.contexts } } := by
  unfold destroy withdraw
  cases hlifecycle : (w.client c).lifecycle with
  | active context =>
    simp only [run_bind, run_atomic, run_discard, stateM_bind, stateM_get, stateM_pure, markDestroyed,
      hlifecycle, destroyContext, closeAll_run]
    rfl
  | uninitialized | destroyed =>
    have hsame : w.engines.set (w.client c).engine.index
        { w.engine (w.client c).engine with
          destroyed := (w.engine (w.client c).engine).destroyed ++ [] } = w.engines := by
      rw [List.append_nil]
      exact set_getD_self
    simp only [run_bind, run_atomic, run_discard, stateM_bind, stateM_get, stateM_pure, markDestroyed,
      hlifecycle, closeAll_run, Lifecycle.contexts, hsame]
    rfl

theorem destroy_run (c : ClientId) (w : World) :
    ((destroy c).run w).2.exchange =
        withoutOwned (w.client c).table (w.client c).shutdown w.exchange ∧
      ((destroy c).run w).2.clients =
        w.clients.set c.index { w.client c with lifecycle := .destroyed } := by
  rw [destroy_world]
  exact ⟨rfl, rfl⟩

end Client

end Switchboard
