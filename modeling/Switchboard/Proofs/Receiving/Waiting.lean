import Switchboard.Client.Waiting
import Switchboard.Proofs.Receiving.Leaving
import Switchboard.Proofs.Shutdown.Basic
/-!
One who waits for the whole answer of a call, as a reader that keeps to the protocol, and what it makes of the fragments
that it reads.
-/
namespace Switchboard

namespace Receiving

open Exchange Process

/-- A wait goes on after a look, or comes to its result. -/
def watchAfter (goOn : Waiting → Process Exchange (Waiting × Option (Except ClientError Bytes))) :
    Waiting.Look → Process Exchange (Waiting × Option (Except ClientError Bytes))
  | .pending w | .again w _ => goOn w
  | .finished w r => do
    w.listener.release
    return (w, some r)

/-- Waits with a look at each of the given times: what has been read, and the result if there is one by then. -/
def watch : List Nat → Waiting → Process Exchange (Waiting × Option (Except ClientError Bytes))
  | [], w => return (w, none)
  | now :: later, w => do watchAfter (watch later) (← w.look now)

/-- Waiting for a result is to watch, and to keep nothing but the result. -/
theorem wait_eq_watch (times : List Nat) (w : Waiting) :
    Shutdown.wait times w = do return .waited (← watch times w).2 := by
  induction times generalizing w with
  | nil => rfl
  | cons now later ih =>
    rw [watch, Process.bind_assoc, Shutdown.wait]
    refine congrArg ((w.look now) >>= ·) (funext fun look => ?_)
    cases look with
    | pending w' | again w' read => exact ih w'
    | finished w' r =>
      simp only [Shutdown.waitAfter, watchAfter, Process.bind_assoc]
      rfl

/-- The payload of the first fragment with a status. -/
def firstOf (status : Status) (fs : List Fragment) : Option Bytes :=
  (fs.find? fun f => f.status = status).map Fragment.payload

/-- The payloads of the events among fragments. -/
def events (fs : List Fragment) : List Bytes :=
  (fs.filter fun f => f.status = .streamEvent).map Fragment.payload

end Receiving

namespace Waiting

open Receiving

variable {w : Waiting}

theorem deadline_foldl_add (fs : List Fragment) : (fs.foldl add w).deadline = w.deadline := by
  induction fs generalizing w with
  | nil => rfl
  | cons f rest ih =>
    rw [List.foldl_cons, ih]
    unfold add
    split <;> rfl

theorem listener_foldl_add (fs : List Fragment) : (fs.foldl add w).listener = w.listener := by
  induction fs generalizing w with
  | nil => rfl
  | cons f rest ih => rw [List.foldl_cons, ih, listener_add]

/-- The first success counts, and only it. -/
theorem data_foldl_add (fs : List Fragment) : (fs.foldl add w).data = (w.data <|> firstOf .success fs) := by
  induction fs generalizing w with
  | nil => simp [firstOf]
  | cons f rest ih =>
    rw [List.foldl_cons, ih]
    unfold add firstOf
    cases hstatus : f.status <;> simp [hstatus]

/-- The first error counts, and only it. -/
theorem error_foldl_add (fs : List Fragment) :
    (fs.foldl add w).error = (w.error <|> (firstOf .error fs).map EngineError.ofPayload) := by
  induction fs generalizing w with
  | nil => simp [firstOf]
  | cons f rest ih =>
    rw [List.foldl_cons, ih]
    unfold add firstOf
    cases hstatus : f.status <;> simp [hstatus]

/-- Every event counts. -/
theorem events_foldl_add (fs : List Fragment) : (fs.foldl add w).events = w.events ++ Receiving.events fs := by
  induction fs generalizing w with
  | nil => simp [Receiving.events]
  | cons f rest ih =>
    rw [List.foldl_cons, ih]
    unfold add Receiving.events
    cases hstatus : f.status <;> simp [hstatus]

end Waiting

namespace Receiving

open Exchange Process

variable {l : Listener} {w : Waiting}

/-- What a look of one who waits shows befits the stand to which it has led. -/
def LookSays (w : Waiting) (read : List Fragment) (looks : Nat) (t : Stand) : Waiting.Look → Prop
  | .pending w' => w' = w ∧ t = ⟨read, looks, .reading⟩
  | .again w' _ => ∃ f, w' = w.add f ∧ t = ⟨read ++ [f], looks, .reading⟩
  | .finished w' r => w' = w.finish ∧ r = w.result ∧ ∃ n, t = ⟨read, n, .ended⟩

/-- A look at the queue is one look less. -/
theorem obeys_take {read : List Fragment} {n m : Nat} (hlooks : n ≤ m + 1) :
    (atomic (take l.queue)).Obeys (Steady l) (Move l) (fun t taken => match taken with
      | .fragment f => t = ⟨read ++ [f], m, .reading⟩
      | .pending => t = ⟨read, m, .reading⟩
      | .ended => t = ⟨read, n, .ended⟩) ⟨read, n, .reading⟩ := by
  refine Obeys.atomic fun x _ => ?_
  cases hqueue : (x.queue l.queue).fragments with
  | cons f rest =>
    rw [(take_of_cons hqueue).1]
    exact ⟨_, .takes hlooks hqueue, rfl⟩
  | nil =>
    rw [take_of_empty hqueue, take_fst_of_empty hqueue]
    cases hclosed : (x.queue l.queue).isClosed with
    | true => exact ⟨_, .ends hqueue hclosed, rfl⟩
    | false => exact ⟨_, .misses hlooks hqueue hclosed, rfl⟩

/-- The client has not gone. -/
theorem obeys_isFired {t : Stand} :
    (atomic (isFired l.shutdown)).Obeys (Steady l) (Move l) (fun t' fired => t' = t ∧ fired = false) t :=
  Obeys.atomic fun _ hx => ⟨t, .rests, rfl, hx.running⟩

theorem obeys_look (now : Nat) (hlistener : w.listener = l) (hlimit : w.deadline = none) {read : List Fragment}
    {n : Nat} : (w.look now).Obeys (Steady l) (Move l) (LookSays w read n) ⟨read, n + 1, .reading⟩ := by
  subst hlistener
  refine obeys_isFired.bind fun t fired h => ?_
  obtain ⟨rfl, rfl⟩ := h
  refine (obeys_take (Nat.le_refl _)).bind fun t taken ht => ?_
  cases taken with
  | fragment f => exact ⟨f, rfl, ht⟩
  | ended =>
    exact ⟨rfl, rfl, _, ht⟩
  | pending =>
    show (w.lookAtTime now).Obeys _ _ _ _
    rw [Waiting.lookAtTime, hlimit]
    exact ⟨rfl, ht⟩

/-- What one who has begun to wait comes to: it has no look left, or it has come to the end of the queue, and to the
result of all that it has read. -/
inductive Watched (w : Waiting) : Stand → Waiting × Option (Except ClientError Bytes) → Prop where
  | looked {read : List Fragment} : Watched w ⟨read, 0, .reading⟩ (read.foldl Waiting.add w, none)
  | ended {read : List Fragment} {n : Nat} :
      Watched w ⟨read, n, .ended⟩ ((read.foldl Waiting.add w).finish, some (read.foldl Waiting.add w).result)

theorem obeys_watch (hlistener : w.listener = l) (hlimit : w.deadline = none) (times : List Nat)
    (read : List Fragment) : (watch times (read.foldl Waiting.add w)).Obeys (Steady l) (Move l) (Watched w)
      ⟨read, times.length, .reading⟩ := by
  induction times generalizing read with
  | nil => exact .looked
  | cons now later ih =>
    have hreader : (read.foldl Waiting.add w).listener = l := (Waiting.listener_foldl_add read).trans hlistener
    have hlook : ((read.foldl Waiting.add w).look now).Obeys (Steady l) (Move l)
        (LookSays (read.foldl Waiting.add w) read later.length) ⟨read, later.length + 1, .reading⟩ :=
      obeys_look now hreader ((Waiting.deadline_foldl_add read).trans hlimit)
    refine hlook.bind fun t look ht => ?_
    cases look with
    | pending w' =>
      obtain ⟨rfl, rfl⟩ := ht
      exact ih read
    | again w' taken =>
      obtain ⟨f, rfl, rfl⟩ := ht
      have hmore := ih (read ++ [f])
      rw [List.foldl_append] at hmore
      exact hmore
    | finished w' r =>
      obtain ⟨rfl, rfl, n, rfl⟩ := ht
      have hfinish : (read.foldl Waiting.add w).finish.listener.finish = l.finish := by
        rw [← hreader]
        rfl
      refine (obeys_release hfinish Phase.noConfusion Phase.noConfusion).bind fun t' _ ht' => ?_
      subst ht'
      exact .ended

theorem endsWithin_look (now : Nat) (w : Waiting) : (w.look now).EndsWithin 5 := by
  refine EndsWithin.bind (m := 1) (n := 4) (.atomic _) fun fired => ?_
  cases fired with
  | true => trivial
  | false =>
    refine EndsWithin.bind (m := 1) (n := 3) (.atomic _) fun taken => ?_
    cases taken with
    | fragment f => trivial
    | ended => trivial
    | pending =>
      show (w.lookAtTime now).EndsWithin 3
      unfold Waiting.lookAtTime
      cases w.deadline with
      | none => trivial
      | some deadline =>
        dsimp only
        split
        · trivial
        · refine EndsWithin.bind (m := 3) (n := 0) (endsWithin_cancel _) fun r => ?_
          obtain ⟨cancelled, m⟩ := r
          cases cancelled <;> trivial

/-- A wait makes no more than five steps for each look, and four at its end. -/
theorem endsWithin_watch (times : List Nat) (w : Waiting) : (watch times w).EndsWithin (5 * times.length + 4) := by
  induction times generalizing w with
  | nil => trivial
  | cons now later ih =>
    have hlater (look : Waiting.Look) : (watchAfter (watch later) look).EndsWithin (5 * later.length + 4) := by
      cases look with
      | pending w' | again w' read => exact ih w'
      | finished w' r =>
        have hrelease := (endsWithin_release w'.listener).bind (n := 0)
          (f := fun _ => (pure (w', some r) : Process Exchange _)) fun _ => trivial
        exact hrelease.mono (by omega)
    have hall := (endsWithin_look now w).bind hlater
    exact hall.mono (by rw [List.length_cons]; omega)

end Receiving

end Switchboard
