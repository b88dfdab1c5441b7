import Switchboard.Proofs.Exchange.Looks
import Switchboard.Proofs.Shutdown.Roles
/-!
What the next step of a reader can do.
-/
namespace Switchboard.Shutdown

open Exchange Process World

variable {l : Listener} {x : Exchange} {w : World}

namespace Watch

/-- What the reader does once it has found that its client has gone. -/
def wakes : Watch → Process Exchange Answer
  | .wait v _ later => waitAfter (Shutdown.wait later) (.finished v.finish (.error .transportClosed))
  | .read l items later =>
    Shutdown.read later (items ++ [.error .transportClosed]) (Subscription.finish ⟨l, false⟩)

/-- What the reader does with what it has found in the queue. -/
def takes : Watch → Taken → Process Exchange Answer
  | .wait v _ later, .fragment f => Shutdown.wait later (v.add f)
  | .wait v _ later, .ended => waitAfter (Shutdown.wait later) (.finished v.finish v.result)
  | .wait v now later, .pending => do waitAfter (Shutdown.wait later) (← v.lookAtTime now)
  | .read l items later, .fragment f =>
    if f.status = .error then do
      let s ← Subscription.close ⟨l, false⟩
      Shutdown.read later (items ++ [.error (.foreign (EngineError.ofPayload f.payload))]) s
    else if f.payload.isEmpty then Shutdown.read later items ⟨l, false⟩
    else Shutdown.read later (items ++ [.ok f.payload]) ⟨l, false⟩
  | .read _ items _, .ended => return .sequence items true
  | .read l items later, .pending => Shutdown.read later items ⟨l, false⟩

theorem program_eq (r : Watch) :
    r.program = .step (fun x => if x.fired r.listener.shutdown then r.wakes else r.taking) fun x => x := by
  cases r with
  | wait v now later =>
    refine congrArg (Process.step · _) (funext fun x => ?_)
    cases hfired : x.fired v.listener.shutdown with
    | true =>
      simp only [isFired, listener, hfired, if_true]
      rfl
    | false =>
      simp only [isFired, listener, hfired]
      rfl
  | read l items later =>
    refine congrArg (Process.step · _) (funext fun x => ?_)
    cases hfired : x.fired l.shutdown with
    | true =>
      simp only [isFired, listener, hfired, if_true]
      rfl
    | false =>
      simp only [isFired, listener, hfired]
      rfl

theorem taking_eq (r : Watch) :
    r.taking = .step (fun x => r.takes (take r.listener.queue x).1) fun x => (take r.listener.queue x).2 := by
  cases r with
  | wait v now later =>
    refine congrArg (Process.step · _) (funext fun x => ?_)
    simp only [listener]
    cases (take v.listener.queue x).1 <;> rfl
  | read l items later =>
    refine congrArg (Process.step · _) (funext fun x => ?_)
    simp only [listener]
    cases (take l.queue x).1 with
    | fragment f =>
      show (if f.status = .error then _ else _ : Process Exchange Subscription.Look) >>= _ = _
      simp only [takes]
      by_cases hstatus : f.status = .error
      · rw [if_pos hstatus, if_pos hstatus, Process.bind_assoc]
        rfl
      · rw [if_neg hstatus, if_neg hstatus]
        split <;> rfl
    | _ => rfl

end Watch

section Leaving

theorem leaves_cancel (l : Listener) : l.cancel.All (Leaves l) fun r => r = (true, l.finish) ∨ r = (false, l) :=
  l.all_cancel (fun _ => leaves_claimCancellation) (fun _ => leaves_closeReading) fun _ => passes_remove.leaves

theorem leaves_release (l : Listener) : l.finish.release.All (Leaves l) fun _ => True :=
  Process.All.atomic fun _ => leaves_dropReading

theorem leaves_close (l : Listener) :
    (Subscription.close ⟨l, false⟩).All (Leaves l) fun s => s.exhausted = true := by
  refine (leaves_cancel l).bind fun r hr => ?_
  obtain rfl | rfl := hr
  · exact rfl
  · exact ⟨fun _ => leaves_closeReading, fun _ => rfl⟩

/-- A sequence that is over ends at the next look. -/
theorem read_of_exhausted {R : Exchange → Exchange → Prop} {s : Subscription} (hdone : s.exhausted = true)
    {items : List (Except ClientError Bytes)} (herror : items.all Except.isOk = false) (later : Nat) :
    (read later items s).All R fun a => a.endsWell = false := by
  cases later with
  | zero => rfl
  | succ n =>
    simp only [read, Subscription.look, hdone, if_true, Process.pure_bind]
    exact herror

/-- What a reader goes on with: it is about to look again, or it leaves and has not come to a good end. -/
def GoesOn (l : Listener) (p : Process Exchange Answer) : Prop :=
  (∃ r : Watch, r.listener = l ∧ r.program = p) ∨ p.All (Leaves l) fun a => a.endsWell = false

theorem goesOn_wait {v : Waiting} (hlistener : v.listener = l) (later : List Nat) :
    GoesOn l (wait later v) := by
  cases later with
  | nil => exact .inr rfl
  | cons now later => exact .inl ⟨.wait v now later, hlistener, rfl⟩

theorem goesOn_read (items : List (Except ClientError Bytes)) (later : Nat) :
    GoesOn l (read later items ⟨l, false⟩) := by
  cases later with
  | zero => exact .inr rfl
  | succ n => exact .inl ⟨.read l items n, rfl, rfl⟩

theorem leaves_waitAfter (goOn : Waiting → Process Exchange Answer) {v : Waiting}
    {result : Except ClientError Bytes} (hlistener : v.listener = l.finish) :
    (waitAfter goOn (.finished v result)).All (Leaves l) fun a => a = .waited (some result) := by
  simp only [waitAfter, hlistener]
  exact (leaves_release l).bind fun _ _ => rfl

theorem leaves_wakes (r : Watch) : r.wakes.All (Leaves r.listener) fun a => a.endsWell = false := by
  cases r with
  | wait v now later =>
    have hwoken : (Watch.wait v now later).wakes.All (Leaves v.listener) _ :=
      leaves_waitAfter (wait later) rfl
    refine hwoken.imp fun a ha => ?_
    rw [ha]
    rfl
  | read l items later => exact read_of_exhausted rfl (by simp [Except.isOk, Except.toBool]) later

theorem leaves_ended (r : Watch) :
    (r.takes .ended).All (Leaves r.listener) fun a => a.endsWell = r.clean := by
  cases r with
  | wait v now later =>
    have hended : ((Watch.wait v now later).takes .ended).All (Leaves v.listener) _ :=
      leaves_waitAfter (wait later) rfl
    refine hended.imp fun a ha => ?_
    rw [ha]
    cases herror : v.error <;> simp [Answer.endsWell, Waiting.result, Watch.clean, herror]
  | read l items later => exact rfl

theorem goesOn_fragment (r : Watch) (f : Fragment) : GoesOn r.listener (r.takes (.fragment f)) := by
  cases r with
  | wait v now later => exact goesOn_wait Waiting.listener_add later
  | read l items later =>
    simp only [Watch.takes]
    by_cases hstatus : f.status = .error
    · rw [if_pos hstatus]
      refine .inr ((leaves_close l).bind fun s hdone => ?_)
      exact read_of_exhausted hdone (by simp [Except.isOk, Except.toBool]) later
    · rw [if_neg hstatus]
      split
      · exact goesOn_read items later
      · exact goesOn_read _ later

/-- When there is nothing in the queue, the reader goes on, or tries to give up as its time is over. -/
theorem goesOn_pending (r : Watch) : GoesOn r.listener (r.takes .pending) ∨
    ∃ (v : Waiting) (later : List Nat), v.listener = r.listener ∧
      r.takes .pending = (do waitAfter (wait later) (← v.giveUp)) := by
  cases r with
  | read l items later => exact .inl (goesOn_read items later)
  | wait v now later =>
    simp only [Watch.takes, Waiting.lookAtTime]
    cases v.deadline with
    | none => exact .inl (goesOn_wait rfl later)
    | some deadline =>
      by_cases hearly : now < deadline
      · simp only [hearly, if_true, Process.pure_bind]
        exact .inl (goesOn_wait rfl later)
      · simp only [hearly, if_false]
        exact .inr ⟨v, later, rfl, rfl⟩

end Leaving

section Moves

variable {next : World → Process World Answer} {effect : World → World}

theorem withinExchange_step {α : Type} (next : Exchange → Process Exchange α) (effect : Exchange → Exchange) :
    withinExchange (.step next effect) =
      .step (fun w => withinExchange (next w.exchange)) fun w => { w with exchange := effect w.exchange } := rfl

theorem looking_move {r : Watch} (hlistener : r.listener = l)
    (h : (Role.looking r).program l = .step next effect) :
    ∃ role', role'.program l = next w ∧ Move l w (.looking r) role' (effect w) := by
  subst hlistener
  simp only [Role.program, Watch.program_eq, withinExchange_step] at h
  cases h
  cases hfired : w.exchange.fired r.listener.shutdown with
  | true => exact ⟨.leaving r.wakes, by simp [Role.program, hfired], .woken hfired (leaves_wakes r)⟩
  | false => exact ⟨.taking r, by simp [Role.program, hfired], .looks hfired⟩

theorem taking_move {r : Watch} (hlistener : r.listener = l)
    (h : (Role.taking r).program l = .step next effect) :
    ∃ role', role'.program l = next w ∧ Move l w (.taking r) role' (effect w) := by
  subst hlistener
  simp only [Role.program, Watch.taking_eq, withinExchange_step] at h
  cases h
  have hgoesOn : GoesOn r.listener (r.takes (take r.listener.queue w.exchange).1) →
      ∃ role', role'.program r.listener =
          withinExchange (r.takes (take r.listener.queue w.exchange).1) ∧
        Move r.listener w (.taking r) role'
          { w with exchange := (take r.listener.queue w.exchange).2 } := by
    rintro (⟨r', hsame, hprogram⟩ | hleaves)
    · exact ⟨.looking r', by rw [Role.program, hprogram], .goesOn hsame⟩
    · exact ⟨.leaving _, rfl, .stops hleaves⟩
  cases hqueue : (w.exchange.queue r.listener.queue).fragments with
  | cons f rest =>
    apply hgoesOn
    rw [(take_of_cons hqueue).1]
    exact goesOn_fragment r f
  | nil =>
    have htake := take_fst_of_empty hqueue
    cases hclosed : (w.exchange.queue r.listener.queue).isClosed with
    | true =>
      rw [hclosed, if_pos rfl] at htake
      refine ⟨.leaving (r.takes .ended), ?_, .ends hqueue hclosed (leaves_ended r)⟩
      show _ = withinExchange (r.takes (take r.listener.queue w.exchange).1)
      rw [htake]
      rfl
    | false =>
      rw [hclosed, if_neg Bool.false_ne_true] at htake
      obtain hpending | ⟨v, later, hsame, hprogram⟩ := goesOn_pending r
      · apply hgoesOn
        rw [htake]
        exact hpending
      · refine ⟨.trying v later, ?_, .tries hsame⟩
        show _ = withinExchange (r.takes (take r.listener.queue w.exchange).1)
        rw [htake, hprogram]
        rfl

theorem giveUp_eq (v : Waiting) (later : List Nat) :
    (do waitAfter (wait later) (← v.giveUp)) = Process.step
      (fun x => if (claimCancellation v.listener.control x).1 then do
          atomic (closeReading v.listener.queue)
          discard (atomic (remove v.listener.table v.listener.id))
          waitAfter (wait later) (.finished { v with listener := v.listener.finish } (.error (.timeout v.limit)))
        else wait later { v with deadline := none })
      fun x => (claimCancellation v.listener.control x).2 := by
  refine congrArg (Process.step · _) (funext fun x => ?_)
  dsimp only
  cases (claimCancellation v.listener.control x).1 <;> rfl

theorem trying_move {v : Waiting} {later : List Nat} (hlistener : v.listener = l)
    (h : (Role.trying v later).program l = .step next effect) :
    ∃ role', role'.program l = next w ∧ Move l w (.trying v later) role' (effect w) := by
  subst hlistener
  simp only [Role.program, giveUp_eq, withinExchange_step] at h
  cases h
  have hclaimed := claimCancellation_fst (c := v.listener.control) (x := w.exchange)
  by_cases hclaim : (w.exchange.control v.listener.control).claim = .completing
  · rw [decide_eq_false (by simp [hclaim])] at hclaimed
    have hsame := claimCancellation_of_claimed (c := v.listener.control) (x := w.exchange)
      (by simp [hclaim])
    obtain ⟨r, hr, hprogram⟩ | hleaves :=
      goesOn_wait (l := v.listener) (v := { v with deadline := none }) rfl later
    · refine ⟨.looking r, by simp [Role.program, hclaimed, hprogram], ?_⟩
      simp only [hsame]
      exact .resumes hr hclaim
    · exact ⟨.leaving _, by simp [Role.program, hclaimed], .givesUp hleaves⟩
  · rw [decide_eq_true hclaim] at hclaimed
    simp only [hclaimed, if_true]
    refine ⟨.leaving _, rfl, .givesUp ?_⟩
    refine (Process.All.atomic fun _ => leaves_closeReading).bind fun _ _ => ?_
    refine All.bind (Q := fun _ => True) ⟨fun _ => passes_remove.leaves, fun _ => trivial⟩ fun _ _ => ?_
    refine (leaves_waitAfter (wait later) rfl).imp fun a ha => ?_
    rw [ha]
    rfl

end Moves

end Switchboard.Shutdown
