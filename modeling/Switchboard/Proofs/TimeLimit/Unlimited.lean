import Switchboard.Proofs.TimeLimit.Basic
/-!
A wait with a limit and the same wait without one: as long as the call is not given up, they stand at the same point
while the deliveries take the same steps.
-/
namespace Switchboard.TimeLimit

open Exchange Process
open Shutdown (Answer)

variable {l : Listener} {r : Reader} (x : Exchange) (ps : List (Process Exchange Answer))

/-- The reader takes its next step. -/
theorem advance_reader (hreads : r.Reads l) :
    Company.advance 0 ⟨x, r.program l :: ps⟩ = ⟨r.effect l x, (r.after x).program l :: ps⟩ := by
  cases hprogram : r.program l with
  | done a =>
    obtain ⟨result, rfl, rfl⟩ := Reader.program_eq_done hprogram
    rfl
  | step next change =>
    obtain ⟨hnext, hchange⟩ := Reader.program_step (x := x) hreads hprogram
    rw [hnext, hchange]
    rfl

/-- One who has cancelled his call is told nothing but that his time is over. -/
theorem closing_overdue (l : Listener) (limit : Nat) :
    ((Reader.closing limit).program l).All (fun _ _ => True) (· = overdue limit) :=
  ⟨fun _ => trivial, fun _ => ⟨fun _ => trivial, fun _ => ⟨fun _ => trivial, fun _ => rfl⟩⟩⟩

/-- The first party will be told nothing but that its time is over. -/
def IsOverdue (c : Company Exchange Answer) : Prop :=
  ∃ p limit, c.programs[0]? = some p ∧ p.All (fun _ _ => True) (· = overdue limit)

theorem IsOverdue.follow {c : Company Exchange Answer} (h : IsOverdue c) (order : List Nat) :
    IsOverdue (c.follow order) := by
  obtain ⟨p, limit, hp, hall⟩ := h
  obtain ⟨q, hq, hall'⟩ := (Company.run_follow c order).all hp hall
  exact ⟨q, limit, hq, hall'⟩

theorem IsOverdue.eq {c : Company Exchange Answer} (h : IsOverdue c) {a : Answer} (ha : c.result? 0 = some a) :
    ∃ limit, a = overdue limit := by
  obtain ⟨p, limit, hp, hall⟩ := h
  rw [Company.result?_eq_some_iff, hp] at ha
  cases ha
  exact ⟨limit, hall⟩

/-- The look at the time changes nothing if a last delivery has claimed the call, and cancels it if not. -/
theorem advance_trying {v : Waiting} {later : List Nat} (hreads : (Reader.trying v later).Reads l) :
    Company.advance 0 ⟨x, (Reader.trying v later).program l :: ps⟩ =
        ⟨x, (Reader.waits later { v with deadline := none }).program l :: ps⟩ ∨
      IsOverdue (Company.advance 0 ⟨x, (Reader.trying v later).program l :: ps⟩) := by
  rw [advance_reader x ps hreads]
  by_cases hclaim : (x.control v.listener.control).claim = .completing
  · left
    have hsame := claimCancellation_of_claimed (c := v.listener.control) (x := x) (by simp [hclaim])
    simp only [Reader.after, Reader.effect, hclaim, if_true, hsame]
  · right
    simp only [Reader.after, hclaim, if_false]
    exact ⟨_, v.limit, rfl, closing_overdue l v.limit⟩

/-- A wait with a limit is overtaken by its time, or the same wait without a limit can follow it, step by step but for
the looks at the time, while the others take the same steps. -/
theorem follow_unlimited (order : List Nat) (hreads : r.Reads l) :
    IsOverdue (Company.follow order ⟨x, r.program l :: ps⟩) ∨
      ∃ (r' : Reader) (y : Exchange) (qs : List (Process Exchange Answer)) (order' : List Nat),
        order'.Sublist order ∧ order'.filter (· ≠ 0) = order.filter (· ≠ 0) ∧
        Company.follow order ⟨x, r.program l :: ps⟩ = ⟨y, r'.program l :: qs⟩ ∧
        Company.follow order' ⟨x, r.unlimited.program l :: ps⟩ = ⟨y, r'.unlimited.program l :: qs⟩ := by
  induction order generalizing r x ps with
  | nil => exact .inr ⟨r, x, ps, [], .refl _, rfl, rfl, rfl⟩
  | cons i rest ih =>
    simp only [Company.follow]
    cases i with
    | succ i =>
      obtain ⟨y, qs, hothers⟩ := Company.advance_succ i x ps
      rw [hothers]
      obtain hover | ⟨r', z, ps', order', hsub, hfilter, hlimited, hunlimited⟩ := ih y qs hreads
      · exact .inl hover
      · refine .inr ⟨r', z, ps', (i + 1) :: order', hsub.cons_cons _, ?_, hlimited, ?_⟩
        · simpa using hfilter
        · rw [Company.follow, hothers, hunlimited]
    | zero =>
      cases htries : r.tries with
      | true =>
        cases r with
        | trying v later =>
          obtain hresumes | hover := advance_trying x ps hreads
          · rw [hresumes]
            -- Here the wait without a limit does nothing.
            obtain hover | ⟨r', z, ps', order', hsub, hfilter, hlimited, hunlimited⟩ :=
              ih x ps (r := .waits later { v with deadline := none }) (Reader.reads_waits hreads)
            · exact .inl hover
            · refine .inr ⟨r', z, ps', order', hsub.cons _, by simpa using hfilter, hlimited, ?_⟩
              rw [← hunlimited, Reader.unlimited_waits]
              rfl
          · exact .inl (hover.follow rest)
        | _ => cases htries
      | false =>
        obtain ⟨hafter, heffect⟩ := Reader.unlimited_after (l := l) (x := x) htries
        rw [advance_reader x ps hreads]
        obtain hover | ⟨r', z, ps', order', hsub, hfilter, hlimited, hunlimited⟩ :=
          ih (r.effect l x) ps (Reader.reads_after (x := x) hreads)
        · exact .inl hover
        · refine .inr ⟨r', z, ps', 0 :: order', hsub.cons_cons _, by simpa using hfilter, hlimited, ?_⟩
          rw [Company.follow, advance_reader x ps (Reader.reads_unlimited hreads), hafter, heffect, hunlimited]

/-- Whatever a wait with a limit is told, but that its time is over, it is told without a limit, too. -/
theorem agrees_unless_overdue (x : Exchange) (l : Listener) (start limit : Nat) (times : List Nat)
    (fs : List Fragment) (order : List Nat) {a : Answer}
    (ha : ((company x l start (some limit) times fs).follow order).result? 0 = some a) :
    (∃ limit', a = overdue limit') ∨ ∃ order' : List Nat, order'.Sublist order ∧
      order'.filter (· ≠ 0) = order.filter (· ≠ 0) ∧
      (company x l start none times fs).follow order' = (company x l start (some limit) times fs).follow order := by
  have hreads : (Reader.waits times (.start l start (some limit))).Reads l := Reader.reads_waits rfl
  have hunlimited : (Reader.waits times (.start l start (some limit))).unlimited =
      .waits times (.start l start none) := Reader.unlimited_waits times _
  rw [company_eq] at ha ⊢
  obtain hover | ⟨r, y, qs, order', hsub, hfilter, hlimited, hwithout⟩ := follow_unlimited x _ order hreads
  · exact .inl (hover.eq ha)
  · rw [hlimited, Company.result?_eq_some_iff] at ha
    obtain ⟨result, rfl, -⟩ := Reader.program_eq_done (Option.some.inj ha)
    refine .inr ⟨order', hsub, hfilter, ?_⟩
    rw [hunlimited] at hwithout
    rw [company_eq, hwithout, hlimited]
    rfl

end Switchboard.TimeLimit
