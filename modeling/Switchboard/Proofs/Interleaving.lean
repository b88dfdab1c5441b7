import Switchboard.Exchange.Process
import Mathlib.Logic.Relation
/-!
Programs of several parties on one state, and all the orders in which their atomic steps can fall.
-/
namespace Switchboard

variable {σ τ ρ γ : Type}

namespace Process

protected theorem pure_bind (a : ρ) (f : ρ → Process σ γ) : (pure a : Process σ ρ) >>= f = f a := rfl

protected theorem bind_assoc (p : Process σ τ) (f : τ → Process σ ρ) (g : ρ → Process σ γ) :
    p >>= f >>= g = p >>= fun a => f a >>= g := by
  induction p with
  | done a => rfl
  | step next effect ih => exact congrArg (Process.step · effect) (funext ih)

/-- Whatever state the program meets before each of its steps, the step changes the state only as allowed, and
in the end there is an answer of the kind. -/
def All (R : σ → σ → Prop) (P : ρ → Prop) : Process σ ρ → Prop
  | .done a => P a
  | .step next effect => (∀ s, R s (effect s)) ∧ ∀ s, (next s).All R P

namespace All

variable {R : σ → σ → Prop} {P : ρ → Prop} {Q : γ → Prop}

theorem mono {R' : σ → σ → Prop} {P' : ρ → Prop} (hR : ∀ s t, R s t → R' s t) (hP : ∀ a, P a → P' a)
    {p : Process σ ρ} (h : p.All R P) : p.All R' P' := by
  induction p with
  | done a => exact hP a h
  | step next effect ih => exact ⟨fun s => hR s _ (h.1 s), fun s => ih s (h.2 s)⟩

theorem imp {P' : ρ → Prop} (hP : ∀ a, P a → P' a) {p : Process σ ρ} (h : p.All R P) : p.All R P' :=
  h.mono (fun _ _ hR => hR) hP

theorem bind {p : Process σ γ} {f : γ → Process σ ρ} (h : p.All R Q) (hf : ∀ a, Q a → (f a).All R P) :
    (p >>= f).All R P := by
  induction p with
  | done a => exact hf a h
  | step next effect ih => exact ⟨h.1, fun s => ih s (h.2 s)⟩

theorem atomic {m : StateM σ ρ} (hR : ∀ s, R s (m s).2) : (Process.atomic m).All R fun _ => True :=
  ⟨hR, fun _ => trivial⟩

theorem discard {p : Process σ γ} (h : p.All R Q) : (discard p).All R fun _ => True := h.bind fun _ _ => trivial

/-- What each step of a program keeps is kept by all of them together. -/
theorem run (hrefl : ∀ s, R s s) (htrans : ∀ s t u, R s t → R t u → R s u) {p : Process σ ρ} (h : p.All R P) (s : σ) :
    R s (p.run s).2 := by
  induction p generalizing s with
  | done a => exact hrefl s
  | step next effect ih => exact htrans _ _ _ (h.1 s) (ih s (h.2 s) (effect s))

theorem answer {p : Process σ ρ} (h : p.All R P) (s : σ) : P (p.run s).1 := by
  induction p generalizing s with
  | done a => exact h
  | step next effect ih => exact ih s (h.2 s) (effect s)

theorem within {get : σ → τ} {set : τ → σ → σ} {S : τ → τ → Prop}
    (hset : ∀ s t, S (get s) t → R s (set t s)) {p : Process τ ρ} (h : p.All S P) :
    (p.within get set).All R P := by
  induction p with
  | done a => exact h
  | step next effect ih => exact ⟨fun s => hset s _ (h.1 _), fun s => ih _ (h.2 _)⟩

end All

/-- The program comes to its end within so many steps of its own, whatever state it meets before each of them. -/
def EndsWithin : Process σ ρ → Nat → Prop
  | .done _, _ => True
  | .step next _, n => ∃ m, n = m + 1 ∧ ∀ s, (next s).EndsWithin m

namespace EndsWithin

variable {m n : Nat}

theorem mono {p : Process σ ρ} (h : p.EndsWithin m) (hle : m ≤ n) : p.EndsWithin n := by
  induction p generalizing m n with
  | done a => trivial
  | step next effect ih =>
    obtain ⟨k, rfl, hnext⟩ := h
    exact ⟨n - 1, by omega, fun s => ih s (hnext s) (by omega)⟩

theorem bind {p : Process σ γ} {f : γ → Process σ ρ} (h : p.EndsWithin m) (hf : ∀ a, (f a).EndsWithin n) :
    (p >>= f).EndsWithin (m + n) := by
  induction p generalizing m with
  | done a => exact (hf a).mono (Nat.le_add_left n m)
  | step next effect ih =>
    obtain ⟨k, rfl, hnext⟩ := h
    exact ⟨k + n, by omega, fun s => ih s (hnext s)⟩

theorem atomic (m : StateM σ ρ) : (Process.atomic m).EndsWithin 1 := ⟨0, rfl, fun _ => trivial⟩

theorem within {get : σ → τ} {set : τ → σ → σ} {p : Process τ ρ} (h : p.EndsWithin n) :
    (p.within get set).EndsWithin n := by
  induction p generalizing n with
  | done a => trivial
  | step next effect ih =>
    obtain ⟨k, rfl, hnext⟩ := h
    exact ⟨k, rfl, fun s => ih (get s) (hnext (get s))⟩

end EndsWithin

/-- The program keeps to a protocol. Whatever state of the expected kind it meets, each of its steps is a move of
the protocol from the stand that it has to another one, and its answer befits the stand in which it gives it. -/
def Obeys (I : σ → Prop) (R : τ → σ → σ → τ → Prop) (P : τ → ρ → Prop) : Process σ ρ → τ → Prop
  | .done a, t => P t a
  | .step next effect, t => ∀ s, I s → ∃ t', R t s (effect s) t' ∧ (next s).Obeys I R P t'

section Obeys

variable {I : σ → Prop} {R : τ → σ → σ → τ → Prop} {P : τ → ρ → Prop} {t : τ}

theorem Obeys.bind {Q : τ → γ → Prop} {p : Process σ γ} {f : γ → Process σ ρ} (h : p.Obeys I R Q t)
    (hf : ∀ t a, Q t a → (f a).Obeys I R P t) : (p >>= f).Obeys I R P t := by
  induction p generalizing t with
  | done a => exact hf t a h
  | step next effect ih =>
    intro s hs
    obtain ⟨t', hmove, hnext⟩ := h s hs
    exact ⟨t', hmove, ih s hnext⟩

theorem Obeys.mono {P' : τ → ρ → Prop} {p : Process σ ρ} (h : p.Obeys I R P t) (hP : ∀ t a, P t a → P' t a) :
    p.Obeys I R P' t := by
  induction p generalizing t with
  | done a => exact hP t a h
  | step next effect ih =>
    intro s hs
    obtain ⟨t', hmove, hnext⟩ := h s hs
    exact ⟨t', hmove, ih s hnext⟩

theorem Obeys.atomic {m : StateM σ ρ} (h : ∀ s, I s → ∃ t', R t s (m s).2 t' ∧ P t' (m s).1) :
    (Process.atomic m).Obeys I R P t := h

/-- A program all of whose steps are moves that leave its stand as it is. -/
theorem All.obeys {S : σ → σ → Prop} {Q : ρ → Prop} {p : Process σ ρ} (h : p.All S Q)
    (hR : ∀ s s', S s s' → R t s s' t) (hP : ∀ a, Q a → P t a) : p.Obeys I R P t := by
  induction p with
  | done a => exact hP a h
  | step next effect ih => exact fun s _ => ⟨t, hR s _ (h.1 s), ih s (h.2 s)⟩

theorem Obeys.within {J : γ → Prop} {S : τ → γ → γ → τ → Prop} {get : σ → γ} {set : γ → σ → σ}
    (hI : ∀ s, I s → J (get s)) (hR : ∀ t s x t', S t (get s) x t' → R t s (set x s) t') {p : Process γ ρ}
    (h : p.Obeys J S P t) : (p.within get set).Obeys I R P t := by
  induction p generalizing t with
  | done a => exact h
  | step next effect ih =>
    intro s hs
    obtain ⟨t', hmove, hnext⟩ := h (get s) (hI s hs)
    exact ⟨t', hR t s _ t' hmove, ih _ hnext⟩

end Obeys

end Process

/-- A state, and what each party still has to do on it. -/
structure Company (σ ρ : Type) where
  state : σ
  programs : List (Process σ ρ)

namespace Company

/-- One party takes its next atomic step. -/
inductive StepOf (i : Nat) : Company σ ρ → Company σ ρ → Prop where
  | step {c : Company σ ρ} {next : σ → Process σ ρ} {effect : σ → σ}
      (h : c.programs[i]? = some (.step next effect)) :
      StepOf i c ⟨effect c.state, c.programs.set i (next c.state)⟩

/-- Some party takes its next atomic step. -/
def Step (c d : Company σ ρ) : Prop := ∃ i, StepOf i c d

/-- Steps of any parties in any order. -/
abbrev Run : Company σ ρ → Company σ ρ → Prop := Relation.ReflTransGen Step

/-- What a party has come to, once it has nothing left to do. -/
def result? (c : Company σ ρ) (i : Nat) : Option ρ :=
  match c.programs[i]? with
  | some (.done a) => some a
  | _ => none

/-- What the parties that have nothing left to do have come to. -/
def answers (c : Company σ ρ) : List ρ :=
  c.programs.filterMap fun
    | .done a => some a
    | .step _ _ => none

/-- Nobody has anything left to do. -/
def Settled (c : Company σ ρ) : Prop := ∀ p ∈ c.programs, ∃ a, p = .done a

theorem result?_eq_some_iff {c : Company σ ρ} {i : Nat} {a : ρ} :
    c.result? i = some a ↔ c.programs[i]? = some (.done a) := by
  unfold result?
  split
  case h_1 b hb => simp [hb]
  case h_2 hother =>
    constructor
    · intro h
      cases h
    · intro h
      exact absurd h (hother a)

theorem mem_answers_iff {c : Company σ ρ} {a : ρ} : a ∈ c.answers ↔ ∃ i, c.result? i = some a := by
  simp only [answers, List.mem_filterMap, result?_eq_some_iff]
  constructor
  · rintro ⟨p, hp, heq⟩
    cases p with
    | done b =>
      cases heq
      exact List.getElem?_of_mem hp
    | step => cases heq
  · rintro ⟨i, hi⟩
    exact ⟨_, List.mem_of_getElem? hi, rfl⟩

/-- The next step of one party, if it has one. -/
def advance (i : Nat) (c : Company σ ρ) : Company σ ρ :=
  match c.programs[i]? with
  | some (.step next effect) => ⟨effect c.state, c.programs.set i (next c.state)⟩
  | _ => c

/-- Steps of the parties in a given order. -/
def follow : List Nat → Company σ ρ → Company σ ρ
  | [], c => c
  | i :: rest, c => (c.advance i).follow rest

theorem follow_append (before after : List Nat) (c : Company σ ρ) :
    c.follow (before ++ after) = (c.follow before).follow after := by
  induction before generalizing c with
  | nil => rfl
  | cons i rest ih => exact ih (c.advance i)

theorem Run.advance (c : Company σ ρ) (i : Nat) : c.Run (c.advance i) := by
  unfold Company.advance
  split
  case h_1 next effect h => exact .single ⟨i, .step h⟩
  case h_2 => exact .refl

theorem StepOf.advance_eq {i : Nat} {c d : Company σ ρ} (h : StepOf i c d) : c.advance i = d := by
  cases h with
  | step h => simp only [advance, h]

/-- The runs are the ways to put the steps of the parties in an order. -/
theorem run_iff_follow {c d : Company σ ρ} : c.Run d ↔ ∃ order, c.follow order = d := by
  constructor
  · intro h
    induction h using Relation.ReflTransGen.head_induction_on with
    | refl => exact ⟨[], rfl⟩
    | head hstep _ ih =>
      obtain ⟨i, hstep⟩ := hstep
      obtain ⟨order, horder⟩ := ih
      exact ⟨i :: order, by rw [follow, hstep.advance_eq, horder]⟩
  · rintro ⟨order, rfl⟩
    induction order generalizing c with
    | nil => exact .refl
    | cons i rest ih => exact (Run.advance c i).trans ih

theorem run_follow (c : Company σ ρ) (order : List Nat) : c.Run (c.follow order) :=
  run_iff_follow.2 ⟨order, rfl⟩

/-- The steps of the others do not depend on what the first party still has to do. -/
theorem advance_succ (i : Nat) (s : σ) (ps : List (Process σ ρ)) :
    ∃ s' ps', ∀ p : Process σ ρ, advance (i + 1) ⟨s, p :: ps⟩ = ⟨s', p :: ps'⟩ := by
  cases h : ps[i]? with
  | none => exact ⟨s, ps, fun p => by simp only [advance, List.getElem?_cons_succ, h]⟩
  | some q =>
    cases q with
    | done a => exact ⟨s, ps, fun p => by simp only [advance, List.getElem?_cons_succ, h]⟩
    | step next effect =>
      refine ⟨effect s, ps.set i (next s), fun p => ?_⟩
      simp only [advance, List.getElem?_cons_succ, h, List.set_cons_succ]

/-- One of the others, each of whom has the program of a role, takes a step into another role. -/
theorem advance_role (program : γ → Process σ ρ) {roles : List γ} {i : Nat} {role role' : γ} {s s' : σ}
    (p : Process σ ρ) (hi : roles[i]? = some role)
    (hstep : ∀ next effect, program role = .step next effect → program role' = next s ∧ s' = effect s)
    (hdone : ∀ a, program role = .done a → role' = role ∧ s' = s) :
    advance (i + 1) ⟨s, p :: roles.map program⟩ = ⟨s', p :: (roles.set i role').map program⟩ := by
  have hturn : (p :: roles.map program)[i + 1]? = some (program role) := by
    rw [List.getElem?_cons_succ, List.getElem?_map, hi]
    rfl
  cases hprogram : program role with
  | done a =>
    obtain ⟨rfl, rfl⟩ := hdone a hprogram
    have hsame : roles.set i role' = roles := by
      obtain ⟨hlt, rfl⟩ := List.getElem?_eq_some_iff.1 hi
      exact List.set_getElem_self hlt
    rw [hprogram] at hturn
    simp only [advance, hturn, hsame]
  | step next effect =>
    obtain ⟨hnext, rfl⟩ := hstep next effect hprogram
    rw [hprogram] at hturn
    simp only [advance, hturn, List.set_cons_succ, List.map_set, hnext]

theorem advance_nobody {program : γ → Process σ ρ} {roles : List γ} {i : Nat} (hi : roles[i]? = none) (s : σ)
    (p : Process σ ρ) : advance (i + 1) ⟨s, p :: roles.map program⟩ = ⟨s, p :: roles.map program⟩ := by
  have hturn : (p :: roles.map program)[i + 1]? = none := by
    rw [List.getElem?_cons_succ, List.getElem?_map, hi]
    rfl
  simp only [advance, hturn]

/-- The same parties, each of which makes something else of its answer. -/
def answering (g : ρ → γ) (c : Company σ ρ) : Company σ γ :=
  ⟨c.state, c.programs.map fun p => do return g (← p)⟩

theorem advance_answering (g : ρ → γ) (c : Company σ ρ) (i : Nat) :
    (c.answering g).advance i = (c.advance i).answering g := by
  simp only [advance, answering, List.getElem?_map]
  cases c.programs[i]? with
  | none => rfl
  | some p =>
    cases p with
    | done a => rfl
    | step next effect =>
      show Company.mk _ _ = Company.mk _ _
      rw [List.map_set]
      rfl

/-- What a party makes of its answer has no part in the steps. -/
theorem follow_answering (g : ρ → γ) (c : Company σ ρ) (order : List Nat) :
    (c.answering g).follow order = (c.follow order).answering g := by
  induction order generalizing c with
  | nil => rfl
  | cons i rest ih => rw [follow, advance_answering, ih, follow]

theorem result?_answering (g : ρ → γ) (c : Company σ ρ) (i : Nat) :
    (c.answering g).result? i = (c.result? i).map g := by
  simp only [result?, answering, List.getElem?_map]
  cases c.programs[i]? with
  | none => rfl
  | some p => cases p <;> rfl

/-- Whoever has something left to do can come to his end. -/
theorem exists_result {c : Company σ ρ} {i : Nat} {p : Process σ ρ} (hp : c.programs[i]? = some p) :
    ∃ d, c.Run d ∧ (d.result? i).isSome = true := by
  induction p generalizing c with
  | done a => exact ⟨c, .refl, by simp [result?_eq_some_iff.2 hp]⟩
  | step next effect ih =>
    have hlt := (List.getElem?_eq_some_iff.1 hp).1
    have hadvance : c.advance i = ⟨effect c.state, c.programs.set i (next c.state)⟩ := by
      simp only [advance, hp]
    obtain ⟨d, hrun, hd⟩ := ih c.state (c := c.advance i) (by rw [hadvance, List.getElem?_set_self hlt])
    exact ⟨d, (Run.advance c i).trans hrun, hd⟩

/-- The step of another party leaves a party where it is. -/
theorem programs_advance_of_ne {i j : Nat} (hij : j ≠ i) (c : Company σ ρ) :
    (c.advance j).programs[i]? = c.programs[i]? := by
  unfold advance
  split
  case h_1 => exact List.getElem?_set_ne hij
  case h_2 => rfl

/-- What a party has come to, it stays with. -/
theorem result?_follow {c : Company σ ρ} {i : Nat} {a : ρ} (h : c.result? i = some a) (order : List Nat) :
    (c.follow order).result? i = some a := by
  induction order generalizing c with
  | nil => exact h
  | cons j rest ih =>
    refine ih ?_
    rw [result?_eq_some_iff] at h ⊢
    by_cases hij : j = i
    · subst hij
      simp only [advance, h]
    · rw [programs_advance_of_ne hij, h]

/-- Whoever comes to his end within so many steps has come to it once he has taken them. -/
theorem result?_of_endsWithin {c : Company σ ρ} {i n : Nat} {p : Process σ ρ} (hp : c.programs[i]? = some p)
    (hends : p.EndsWithin n) {order : List Nat} (hsteps : n ≤ order.count i) :
    ((c.follow order).result? i).isSome = true := by
  induction order generalizing c p n with
  | nil =>
    cases p with
    | done a => simp [follow, result?_eq_some_iff.2 hp]
    | step next effect =>
      obtain ⟨m, rfl, -⟩ := hends
      simp at hsteps
  | cons j rest ih =>
    by_cases hij : j = i
    · subst hij
      rw [List.count_cons_self] at hsteps
      cases p with
      | done a =>
        have hstays : c.advance j = c := by simp only [advance, hp]
        rw [follow, hstays]
        exact ih hp (n := 0) trivial (Nat.zero_le _)
      | step next effect =>
        obtain ⟨m, rfl, hnext⟩ := hends
        have hturn : (c.advance j).programs[j]? = some (next c.state) := by
          simp only [advance, hp]
          exact List.getElem?_set_self (List.getElem?_eq_some_iff.1 hp).1
        exact ih hturn (hnext c.state) (by omega)
    · rw [List.count_cons_of_ne hij] at hsteps
      exact ih ((programs_advance_of_ne hij c).trans hp) hends hsteps

/-- Steps of the others leave a party where it is. -/
theorem programs_follow_of_not_mem {i : Nat} {order : List Nat} (hi : i ∉ order) (c : Company σ ρ) :
    (c.follow order).programs[i]? = c.programs[i]? := by
  induction order generalizing c with
  | nil => rfl
  | cons j rest ih =>
    rw [List.mem_cons, not_or] at hi
    rw [follow, ih hi.2, programs_advance_of_ne (Ne.symm hi.1)]

section All

variable {R : σ → σ → Prop} (hrefl : ∀ s, R s s)
include hrefl

/-- What every party keeps in each of its steps is kept by the next step, whoever takes it. -/
theorem advance_all {c : Company σ ρ} (h : ∀ p ∈ c.programs, p.All R fun _ => True) (i : Nat) :
    R c.state (c.advance i).state ∧ ∀ p ∈ (c.advance i).programs, p.All R fun _ => True := by
  unfold advance
  split
  case h_1 next effect hi =>
    obtain ⟨hstep, hnext⟩ := h _ (List.mem_of_getElem? hi)
    refine ⟨hstep _, fun p hp => ?_⟩
    obtain hp | rfl := List.mem_or_eq_of_mem_set hp
    · exact h p hp
    · exact hnext _
  case h_2 => exact ⟨hrefl _, h⟩

theorem follow_all (htrans : ∀ s t u, R s t → R t u → R s u) {c : Company σ ρ}
    (h : ∀ p ∈ c.programs, p.All R fun _ => True) (order : List Nat) : R c.state (c.follow order).state := by
  induction order generalizing c with
  | nil => exact hrefl _
  | cons i rest ih =>
    obtain ⟨hstep, hall⟩ := advance_all hrefl h i
    exact htrans _ _ _ hstep (ih hall)

end All

theorem stepOf_of_role {program : γ → Process σ ρ} {c d : Company σ ρ} {roles : List γ} {i : Nat}
    (hprograms : c.programs = roles.map program) (h : StepOf i c d) :
    ∃ role next effect, roles[i]? = some role ∧ program role = .step next effect ∧
      d = ⟨effect c.state, c.programs.set i (next c.state)⟩ := by
  cases h with
  | step hi =>
    rw [hprograms, List.getElem?_map, Option.map_eq_some_iff] at hi
    obtain ⟨role, hrole, hprogram⟩ := hi
    exact ⟨role, _, _, hrole, hprogram, rfl⟩

/-- Suppose every program that a party can be left with is that of a role, and a step in any role leads
to a role again and keeps a property of the company and all roles. Then every run keeps the property. -/
theorem Run.induction (program : γ → Process σ ρ) (Inv : Company σ ρ → List γ → Prop) {c d : Company σ ρ}
    (hstep : ∀ m roles i role next effect, Run c m → m.programs = roles.map program →
      roles[i]? = some role → program role = .step next effect → Inv m roles →
        ∃ role', program role' = next m.state ∧
          Inv ⟨effect m.state, m.programs.set i (next m.state)⟩ (roles.set i role'))
    (hrun : Run c d) {roles : List γ} (hprograms : c.programs = roles.map program) (hinv : Inv c roles) :
    ∃ roles', d.programs = roles'.map program ∧ Inv d roles' := by
  induction hrun with
  | refl => exact ⟨roles, hprograms, hinv⟩
  | tail hbefore hlast ih =>
    obtain ⟨before, hroles, hkept⟩ := ih
    obtain ⟨i, hlast⟩ := hlast
    obtain ⟨role, next, effect, hrole, hprogram, rfl⟩ := stepOf_of_role hroles hlast
    obtain ⟨role', hnext, hafter⟩ := hstep _ before i role next effect hbefore hroles hrole hprogram hkept
    refine ⟨before.set i role', ?_, hafter⟩
    simp only [hroles, List.map_set, hnext]

/-- The same for a property of the state and all roles. -/
theorem Run.invariant (program : γ → Process σ ρ) (Inv : σ → List γ → Prop)
    (hstep : ∀ s roles i role next effect, roles[i]? = some role → program role = .step next effect →
      Inv s roles → ∃ role', program role' = next s ∧ Inv (effect s) (roles.set i role'))
    {c d : Company σ ρ} (hrun : Run c d) {roles : List γ} (hprograms : c.programs = roles.map program)
    (hinv : Inv c.state roles) :
    ∃ roles', d.programs = roles'.map program ∧ Inv d.state roles' :=
  Run.induction program (fun m => Inv m.state)
    (fun m roles i role next effect _ _ => hstep m.state roles i role next effect) hrun hprograms hinv

/-- A party that will answer in a certain way, whatever it meets, goes on to do so. -/
theorem Run.all {P : ρ → Prop} {c d : Company σ ρ} (hrun : Run c d) {i : Nat} {p : Process σ ρ}
    (hp : c.programs[i]? = some p) (hall : p.All (fun _ _ => True) P) :
    ∃ q, d.programs[i]? = some q ∧ q.All (fun _ _ => True) P := by
  induction hrun with
  | refl => exact ⟨p, hp, hall⟩
  | tail _ hlast ih =>
    obtain ⟨q, hq, hqall⟩ := ih
    obtain ⟨j, hlast⟩ := hlast
    cases hlast with
    | step hj =>
      by_cases hij : j = i
      · subst hij
        cases hj.symm.trans hq
        exact ⟨_, List.getElem?_set_self (List.getElem?_eq_some_iff.1 hj).1, hqall.2 _⟩
      · exact ⟨q, by rw [List.getElem?_set_ne hij, hq], hqall⟩

section Obeys

variable {I : σ → Prop} {R : τ → σ → σ → τ → Prop} {P : τ → ρ → Prop}

/-- All parties keep to a protocol, each from its stand. -/
def Obey (I : σ → Prop) (R : τ → σ → σ → τ → Prop) (P : τ → ρ → Prop) (c : Company σ ρ) (stands : List τ) : Prop :=
  ∀ (i : Nat) (p : Process σ ρ), c.programs[i]? = some p → ∃ t, stands[i]? = some t ∧ p.Obeys I R P t

/-- One party goes on from another stand. -/
theorem Obey.set {c : Company σ ρ} {stands : List τ} (h : c.Obey I R P stands) {i : Nat} {t t' : τ}
    {q : Process σ ρ} (hi : stands[i]? = some t) (hq : q.Obeys I R P t') (s : σ) :
    Obey I R P ⟨s, c.programs.set i q⟩ (stands.set i t') := by
  intro j p hj
  by_cases hij : i = j
  · subst hij
    have hlt : i < c.programs.length := by simpa using (List.getElem?_eq_some_iff.1 hj).1
    rw [List.getElem?_set_self hlt] at hj
    cases hj
    exact ⟨t', List.getElem?_set_self (List.getElem?_eq_some_iff.1 hi).1, hq⟩
  · rw [List.getElem?_set_ne hij] at hj ⊢
    exact h j p hj

/-- Suppose the moves of a protocol keep a property of the state and all stands. Then the property holds after every
run of parties that keep to the protocol, and they go on to do so. -/
theorem Run.obeys {Inv : σ → List τ → Prop} (hI : ∀ s stands, Inv s stands → I s)
    (hmove : ∀ s stands i t s' t', stands[i]? = some t → R t s s' t' → Inv s stands →
      Inv s' (stands.set i t'))
    {c d : Company σ ρ} (hrun : c.Run d) {stands : List τ} (hobey : c.Obey I R P stands)
    (hinv : Inv c.state stands) : ∃ stands', d.Obey I R P stands' ∧ Inv d.state stands' := by
  induction hrun with
  | refl => exact ⟨stands, hobey, hinv⟩
  | tail _ hlast ih =>
    obtain ⟨before, hbefore, hkept⟩ := ih
    obtain ⟨i, hlast⟩ := hlast
    cases hlast with
    | step hi =>
      obtain ⟨t, ht, hall⟩ := hbefore i _ hi
      obtain ⟨t', hto, hnext⟩ := hall _ (hI _ _ hkept)
      exact ⟨before.set i t', hbefore.set ht hnext _, hmove _ _ _ _ _ _ ht hto hkept⟩

/-- What a party has come to befits its stand. -/
theorem Obey.befits {c : Company σ ρ} {stands : List τ} (h : c.Obey I R P stands) {i : Nat} {a : ρ}
    (ha : c.result? i = some a) : ∃ t, stands[i]? = some t ∧ P t a :=
  h i _ (result?_eq_some_iff.1 ha)

end Obeys

theorem Run.answers {P : ρ → Prop} {c d : Company σ ρ} (hrun : Run c d) {i : Nat} {p : Process σ ρ}
    (hp : c.programs[i]? = some p) (hall : p.All (fun _ _ => True) P) {a : ρ} (ha : d.result? i = some a) :
    P a := by
  obtain ⟨q, hq, hqall⟩ := hrun.all hp hall
  rw [result?_eq_some_iff, hq] at ha
  cases ha
  exact hqall

end Company

end Switchboard
