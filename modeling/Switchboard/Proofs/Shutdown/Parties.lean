import Switchboard.Proofs.Client.Destroying
import Switchboard.Proofs.Exchange.Delivering
import Switchboard.Proofs.Shutdown.Reading
/-!
What the next step of a delivery and of one who destroys a client can do.
-/
namespace Switchboard.Shutdown

open Exchange Process World

variable {l : Listener} {w : World} {f : Fragment} {next : World → Process World Answer}
  {effect : World → World}

theorem through_within {R : Exchange → Exchange → Prop} {α : Type} {P : α → Prop} {p : Process Exchange α}
    (h : p.All R P) : (withinExchange p).All (Through R) P :=
  All.within (fun _ _ hR => ⟨hR, rfl⟩) h

theorem through_atomic {R : Exchange → Exchange → Prop} {α : Type} {m : StateM Exchange α}
    (h : ∀ x, R x (m x).2) : (atomic (atExchange m)).All (Through R) fun _ => True :=
  All.atomic fun w => ⟨h w.exchange, rfl⟩

section Deliveries

theorem ebbs_abandon (l : Listener) (id : RequestId) :
    (Delivery.abandon l.table id l.call).All (Ebbs l) fun _ => True :=
  (Delivery.all_abandon (fun _ => ebbs_closeQueue) fun _ => passes_remove.toEbbs).imp fun _ _ => trivial

/-- A delivery to another call passes a call by. -/
theorem passes_offer {call : PendingCall} (hqueue : call.queue ≠ l.queue) (hcontrol : call.control ≠ l.control)
    (t : TableId) (f : Fragment) : (Delivery.offer t call f).All (Passes l) fun _ => True := by
  have hoffers : (Delivery.offer t call f).All (Passes l) _ :=
    Delivery.all_offer (fun _ => passes_closeQueue hqueue) (fun _ => passes_remove) (fun _ => passes_push) (.refl l)
      fun _ _ => passes_claimCompletion hcontrol
  exact hoffers.imp fun _ _ => trivial

theorem all_say {R : Exchange → Exchange → Prop} {p : Process Exchange Delivery}
    (h : p.All R fun _ => True) : (withinExchange (say f p)).All (Through R) fun _ => True :=
  through_within (h.bind fun _ _ => trivial)

theorem delivers_move (htable : l.table = Session.shared)
    (hentries : ∀ e ∈ (w.exchange.table l.table).calls, (e.1 = l.id → e.2 = l.call) ∧
      (e.1 ≠ l.id → e.2.queue ≠ l.queue ∧ e.2.control ≠ l.control))
    (h : (Role.delivers f).program l = .step next effect) :
    ∃ role', role'.program l = next w ∧ Move l w (.delivers f) role' (effect w) := by
  have hprogram : (Role.delivers f).program l = withinExchange (say f (deliver l.table f)) := by
    rw [htable]; rfl
  rw [deliver_eq] at hprogram
  cases hprogram.symm.trans h
  dsimp only
  cases hfind : (w.exchange.table l.table).find? f.requestId with
  | none => exact ⟨.passing _, rfl, .goesAstray trivial⟩
  | some call =>
    obtain ⟨hown, hother⟩ := hentries _ (Table.mem_of_find? hfind)
    by_cases hid : f.requestId = l.id
    · cases hown hid
      exact ⟨.found f, rfl, .finds hid (hid ▸ hfind)⟩
    · obtain ⟨hqueue, hcontrol⟩ := hother hid
      exact ⟨.passing _, rfl, .goesAstray (all_say (passes_offer hqueue hcontrol l.table f))⟩

theorem found_move (h : (Role.found f).program l = .step next effect) :
    ∃ role', role'.program l = next w ∧ Move l w (.found f) role' (effect w) := by
  have hprogram : (Role.found f).program l = withinExchange (.step
      (fun x => say f (if x.abandoned l.control then Delivery.abandon l.table f.requestId l.call
        else if f.finished then do
          if ← atomic (claimCompletion l.control) then Delivery.handOver l.table l.call f
          else Delivery.abandon l.table f.requestId l.call
        else Delivery.handOver l.table l.call f))
      fun x => x) := rfl
  rw [hprogram, withinExchange_step] at h
  cases h
  dsimp only
  cases habandoned : w.exchange.abandoned l.control with
  | true =>
    have hyields := all_say (f := f) (ebbs_abandon l f.requestId)
    exact ⟨.ebbing _, rfl, .yields habandoned hyields⟩
  | false =>
    cases hfinished : f.finished with
    | true => exact ⟨.claiming f, rfl, .claims hfinished⟩
    | false => exact ⟨.handing f, rfl, .hands hfinished⟩

theorem claiming_move (h : (Role.claiming f).program l = .step next effect) :
    ∃ role', role'.program l = next w ∧ Move l w (.claiming f) role' (effect w) := by
  have hprogram : (Role.claiming f).program l = withinExchange (.step
      (fun x => say f (if (claimCompletion l.control x).1 then Delivery.handOver l.table l.call f
        else Delivery.abandon l.table f.requestId l.call))
      fun x => (claimCompletion l.control x).2) := rfl
  rw [hprogram, withinExchange_step] at h
  cases h
  dsimp only
  rw [claimCompletion_fst]
  by_cases hclaim : (w.exchange.control l.control).claim = .free
  · rw [decide_eq_true hclaim]
    exact ⟨.handing f, rfl, .claimed hclaim⟩
  · have hsame : (claimCompletion l.control w.exchange).2 = w.exchange := by
      unfold claimCompletion
      rw [if_neg hclaim]
    rw [decide_eq_false hclaim]
    refine ⟨.ebbing _, rfl, ?_⟩
    simp only [hsame]
    exact .refused hclaim (all_say (ebbs_abandon l f.requestId))

theorem handing_move (h : (Role.handing f).program l = .step next effect) :
    ∃ role', role'.program l = next w ∧ Move l w (.handing f) role' (effect w) := by
  by_cases hstatus : f.status = .streamTerminated
  · simp only [Role.program, Delivery.handOver, if_pos hstatus] at h
    cases h
    exact ⟨.ended f .terminated, rfl, .terminates hstatus⟩
  · have hprogram : (Role.handing f).program l = withinExchange (.step
        (fun x => say f do
          if f.finished then atomic (closeQueue l.queue)
          if (push l.queue f x).1 then return .delivered
          else Delivery.abandon l.table f.requestId l.call)
        fun x => (push l.queue f x).2) := by
      simp only [Role.program, Delivery.handOver, if_neg hstatus]
      rfl
    rw [hprogram, withinExchange_step] at h
    cases h
    dsimp only
    rw [push_fst]
    cases hclosed : (w.exchange.queue l.queue).isClosed with
    | true =>
      refine ⟨.ebbing _, rfl, .tooLate hclosed (all_say ?_)⟩
      cases f.finished with
      | true =>
        exact (Process.All.atomic fun _ => ebbs_closeQueue).bind fun _ _ => ebbs_abandon l f.requestId
      | false => exact ebbs_abandon l f.requestId
    | false =>
      cases hfinished : f.finished with
      | true => exact ⟨.sealing f, rfl, .puts hfinished⟩
      | false =>
        refine ⟨.passing _, rfl, .putsMore (all_say ?_)⟩
        exact trivial

end Deliveries

section Destroying

variable {c : ClientId} {client : Client}

theorem destroys_eq : (Role.destroys c).program l =
    .step (fun w => (Role.marks c (w.client c)).program l) fun w => w := by
  refine congrArg (Process.step · _) (funext fun w => ?_)
  refine congrArg (Process.step · _) (funext fun w' => ?_)
  dsimp only
  cases (Client.markDestroyed c w').1 <;> rfl

theorem marks_eq : (Role.marks c client).program l = .step
    (fun w => match (Client.markDestroyed c w).1 with
      | .active context => (Role.quits client context).program l
      | _ => (Role.fires client).program l)
    fun w => (Client.markDestroyed c w).2 := rfl

theorem fires_eq : (Role.fires client).program l = .step
    (fun _ => (Role.removes client).program l)
    fun w => { w with exchange := (fire client.shutdown w.exchange).2 } := rfl

theorem removes_eq : (Role.removes client).program l = .step
    (fun w => do
      Client.closeAll (Client.owned client.table client.shutdown w.exchange)
      return .destroyed)
    fun w => { w with exchange := (removeOwned client.table client.shutdown w.exchange).2 } := rfl

theorem destroys_move (h : (Role.destroys c).program l = .step next effect) :
    ∃ role', role'.program l = next w ∧ Move l w (.destroys c) role' (effect w) := by
  rw [destroys_eq] at h
  cases h
  exact ⟨_, rfl, .meets⟩

theorem marks_move (h : (Role.marks c client).program l = .step next effect) :
    ∃ role', role'.program l = next w ∧ Move l w (.marks c client) role' (effect w) := by
  rw [marks_eq] at h
  cases h
  dsimp only
  cases (Client.markDestroyed c w).1 with
  | active context => exact ⟨.quits client context, rfl, .marksActive⟩
  | uninitialized | destroyed => exact ⟨.fires client, rfl, .marksOther⟩

theorem fires_move (h : (Role.fires client).program l = .step next effect) :
    ∃ role', role'.program l = next w ∧ Move l w (.fires client) role' (effect w) := by
  rw [fires_eq] at h
  cases h
  by_cases hown : client.shutdown = l.shutdown
  · refine ⟨.ebbing (removing client), rfl, .firesOwn hown ?_⟩
    refine (through_atomic fun _ => passes_removeOwned.toEbbs).bind fun calls _ => ?_
    exact (Client.all_closeAll fun call _ w => ⟨ebbs_closeQueue, rfl⟩).bind fun _ _ => trivial
  · exact ⟨.removes client, rfl, .firesOther hown⟩

/-- The calls of another client are none of a call's business. -/
theorem removes_move (htable : client.table = l.table) (hother : client.shutdown ≠ l.shutdown)
    (hshutdown : (w.exchange.control l.control).shutdown = l.shutdown)
    (hentries : ∀ e ∈ (w.exchange.table l.table).calls, (e.1 = l.id → e.2 = l.call) ∧
      (e.1 ≠ l.id → e.2.queue ≠ l.queue ∧ e.2.control ≠ l.control))
    (h : (Role.removes client).program l = .step next effect) :
    ∃ role', role'.program l = next w ∧ Move l w (.removes client) role' (effect w) := by
  rw [removes_eq] at h
  cases h
  refine ⟨.passing _, rfl, .takesOut ((Client.all_closeAll fun call hcall w => ?_).bind fun _ _ => trivial)⟩
  refine ⟨passes_closeQueue ?_, rfl⟩
  obtain ⟨howner, id, hmem⟩ := Client.mem_owned.1 hcall
  rw [htable] at hmem
  obtain ⟨hown, hapart⟩ := hentries _ hmem
  refine (hapart fun hid => ?_).1
  rw [show call = l.call from hown hid] at howner
  exact hother (howner.symm.trans hshutdown)

end Destroying

end Switchboard.Shutdown
