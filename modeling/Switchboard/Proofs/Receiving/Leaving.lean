import Switchboard.Proofs.Receiving.Protocol
/-!
How a reader leaves its call, as moves of the protocol: it cancels the call unless a last delivery has claimed it, and
such a call is out of the table, too.
-/
namespace Switchboard.Receiving

open Exchange Process

variable {l m : Listener} {t : Stand}

/-- The stand of one who has left the call for good; whoever has come to the end of the queue stays there. -/
def Stand.out (t : Stand) : Stand := if t.phase = .reading then { t with phase := .left } else t

theorem Stand.out_of_ne (h : t.phase ≠ .reading) : t.out = t := if_neg h

/-- Whoever does not read any more can take any step back. -/
theorem obeys_retreat {α : Type} {step : StateM Exchange α} (ht : t.phase ≠ .reading)
    (hstep : ∀ x, Steady l x → Retreats l x (step x).2) :
    (atomic step).Obeys (Steady l) (Move l) (fun t' _ => t' = t) t :=
  Obeys.atomic fun x hx => ⟨t, .stays ht (hstep x hx), rfl⟩

section Cancelling

variable (hm : m.finish = l.finish)
include hm

/-- Listeners that differ in whether they are done only are of the same call. -/
theorem parts_of_finish : m.queue = l.queue ∧ m.control = l.control ∧ m.table = l.table ∧ m.id = l.id := by
  obtain ⟨id, queue, control, table, shutdown, done⟩ := m
  cases l
  cases hm
  exact ⟨rfl, rfl, rfl, rfl⟩

/-- A reader cancels its call, or finds it claimed by a last delivery; in both cases the call is out of the table
afterwards. -/
theorem obeys_cancel (ht : t.phase ≠ .leaving) : m.cancel.Obeys (Steady l) (Move l)
    (fun t' r => r.2.finish = l.finish ∧ t' = t.out) t := by
  obtain ⟨hqueue, hcontrol, htable, hid⟩ := parts_of_finish hm
  unfold Listener.cancel
  rw [hqueue, hcontrol, htable, hid]
  by_cases hreading : t.phase = .reading
  · obtain ⟨read, n, phase⟩ := t
    cases hreading
    have hclaims : (atomic (claimCancellation l.control)).Obeys (Steady l) (Move l)
        (fun t' claimed => t' = if claimed then ⟨read, n, .leaving⟩ else ⟨read, n, .left⟩)
        (⟨read, n, .reading⟩ : Stand) := by
      refine Obeys.atomic fun x hx => ?_
      rw [claimCancellation_fst]
      by_cases hclaim : (x.control l.control).claim = .completing
      · refine ⟨⟨read, n, .left⟩, .goes Phase.noConfusion (.claimCancellation hx) ?_, by simp [hclaim]⟩
        rw [table_claimCancellation]
        exact hx.absent hclaim
      · exact ⟨⟨read, n, .leaving⟩, .leaves (.claimCancellation hx), by simp [hclaim]⟩
    refine hclaims.bind fun t' claimed ht' => ?_
    subst ht'
    cases claimed with
    | true =>
      refine (obeys_retreat Phase.noConfusion fun x _ => .closeReading).bind fun t' _ ht' => ?_
      subst ht'
      intro x _
      exact ⟨⟨read, n, .left⟩, .goes Phase.noConfusion .remove (by simp), hm, rfl⟩
    | false => exact ⟨hm, rfl⟩
  · rw [Stand.out_of_ne hreading]
    refine (obeys_retreat hreading fun x hx => .claimCancellation hx).bind fun t' claimed ht' => ?_
    subst ht'
    cases claimed with
    | true =>
      refine (obeys_retreat hreading fun x _ => .closeReading).bind fun t' _ ht' => ?_
      subst ht'
      intro x _
      exact ⟨t', .stays hreading .remove, hm, rfl⟩
    | false => exact ⟨hm, rfl⟩

/-- One who has left the call, or has come to its end, lets the queue go. -/
theorem obeys_release (ht : t.phase ≠ .reading) (ht' : t.phase ≠ .leaving) :
    m.release.Obeys (Steady l) (Move l) (fun t' _ => t' = t) t := by
  have hdrops : (atomic (dropReading m.queue)).Obeys (Steady l) (Move l) (fun t' _ => t' = t) t := by
    rw [(parts_of_finish hm).1]
    exact obeys_retreat ht fun x _ => .dropReading
  unfold Listener.release
  cases m.done with
  | true => exact hdrops
  | false =>
    refine Obeys.bind (Q := fun t' _ => t' = t) ?_ fun t' _ heq => by subst heq; exact hdrops
    refine (obeys_cancel hm ht').bind fun t' r hr => ?_
    rw [Stand.out_of_ne ht] at hr
    exact hr.2

end Cancelling

theorem endsWithin_cancel (m : Listener) : m.cancel.EndsWithin 3 := by
  refine EndsWithin.bind (m := 1) (n := 2) (.atomic _) fun claimed => ?_
  cases claimed with
  | true => exact ⟨1, rfl, fun _ => ⟨0, rfl, fun _ => trivial⟩⟩
  | false => trivial

theorem endsWithin_release (m : Listener) : m.release.EndsWithin 4 := by
  unfold Listener.release
  have hdrops : (atomic (dropReading m.queue)).EndsWithin 1 := .atomic _
  cases m.done with
  | true => exact hdrops.mono (by decide)
  | false =>
    have hcancels : (discard m.cancel).EndsWithin 3 :=
      EndsWithin.bind (n := 0) (endsWithin_cancel m) fun _ => trivial
    exact hcancels.bind fun _ => hdrops

end Switchboard.Receiving
