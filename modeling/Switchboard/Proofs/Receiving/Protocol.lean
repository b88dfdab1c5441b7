import Switchboard.Proofs.Exchange.Looks
import Switchboard.Proofs.Receiving.Suppliers
import Mathlib.Data.List.Basic
/-!
The protocol that a reader of a call keeps to, whatever it makes of what it reads. The fragments that it has read and
those that are still in the queue are, in this order, the ones that the queue has accepted, until the reader leaves.
-/
namespace Switchboard.Receiving

open Exchange Process

variable {α : Type} {l : Listener} {x y : Exchange}

/-- Where a reader stands: it reads, it has come to the end of the queue, it is leaving the call, or it has left it. -/
inductive Phase where
  | reading
  | ended
  | leaving
  | left
  deriving DecidableEq

/-- The stand of a reader: what it has read so far, how often it will look at the queue again at least, and its
phase. -/
structure Stand where
  read : List Fragment
  looks : Nat
  phase : Phase := .reading

/-- What a reader may rely on before each of its steps: its client has not gone and will not by what is done to the
call, and a call that has been claimed for its completion is out of the table. -/
structure Steady (l : Listener) (x : Exchange) : Prop where
  running : x.fired l.shutdown = false
  apart : (x.control l.control).cancel ≠ l.shutdown
  absent : (x.control l.control).claim = .completing → (x.table l.table).find? l.id = none

/-- A step by which a reader leaves its call: it puts nothing into the queue, and does not claim the call for its
completion. -/
structure Retreats (l : Listener) (x y : Exchange) : Prop where
  onward : Onward l x y
  running : y.fired l.shutdown = x.fired l.shutdown
  claim : (y.control l.control).claim = .completing → (x.control l.control).claim = .completing
  fragments : (y.queue l.queue).fragments.length ≤ (x.queue l.queue).fragments.length

/-- The moves of a reader. It sees that its client is still there, looks at the queue, and leaves the call; once it
has come to the end of the queue, it does nothing to the call that matters. -/
inductive Move (l : Listener) : Stand → Exchange → Exchange → Stand → Prop where
  | rests {t : Stand} {x : Exchange} : Move l t x x t
  | misses {read : List Fragment} {n m : Nat} {x : Exchange} (hlooks : n ≤ m + 1)
      (hqueue : (x.queue l.queue).fragments = []) (hopen : (x.queue l.queue).isClosed = false) :
      Move l ⟨read, n, .reading⟩ x x ⟨read, m, .reading⟩
  | takes {read rest : List Fragment} {f : Fragment} {n m : Nat} {x : Exchange} (hlooks : n ≤ m + 1)
      (hqueue : (x.queue l.queue).fragments = f :: rest) :
      Move l ⟨read, n, .reading⟩ x (take l.queue x).2 ⟨read ++ [f], m, .reading⟩
  | ends {read : List Fragment} {n : Nat} {x : Exchange} (hqueue : (x.queue l.queue).fragments = [])
      (hclosed : (x.queue l.queue).isClosed = true) : Move l ⟨read, n, .reading⟩ x x ⟨read, n, .ended⟩
  | leaves {read : List Fragment} {n : Nat} {x y : Exchange} (hstep : Retreats l x y) :
      Move l ⟨read, n, .reading⟩ x y ⟨read, n, .leaving⟩
  | goes {read : List Fragment} {n : Nat} {phase : Phase} {x y : Exchange} (hphase : phase ≠ .ended)
      (hstep : Retreats l x y) (habsent : (y.table l.table).find? l.id = none) :
      Move l ⟨read, n, phase⟩ x y ⟨read, n, .left⟩
  | stays {t : Stand} {x y : Exchange} (hphase : t.phase ≠ .reading) (hstep : Retreats l x y) : Move l t x y t

namespace Retreats

theorem closeReading : Retreats l x (closeReading l.queue x).2 :=
  ⟨onward_closeReading, rfl, id, by simp⟩

theorem dropReading : Retreats l x (dropReading l.queue x).2 :=
  ⟨onward_dropReading, rfl, id, by simp [Queue.dropReading]⟩

theorem remove : Retreats l x (remove l.table l.id x).2 := ⟨onward_remove, rfl, id, by simp⟩

theorem claimCancellation (h : Steady l x) : Retreats l x (claimCancellation l.control x).2 where
  onward := onward_claimCancellation
  running := fired_claimCancellation (Ne.symm h.apart)
  claim hclaim := by
    simp only [control_claimCancellation, true_and] at hclaim
    split at hclaim
    · cases hclaim
    · exact hclaim
  fragments := by simp

theorem steady (h : Retreats l x y) (hx : Steady l x) : Steady l y where
  running := by rw [h.running, hx.running]
  apart := by rw [h.onward.cancel]; exact hx.apart
  absent hclaim := h.onward.absent (hx.absent (h.claim hclaim))

end Retreats

/-- What a stand says about the fragments that the queue has accepted. -/
def Stand.Holds (l : Listener) (accepted : List Fragment) (x : Exchange) (t : Stand) : Prop :=
  match t.phase with
  | .reading => accepted = t.read ++ (x.queue l.queue).fragments
  | .ended => accepted = t.read ∧ (x.queue l.queue).isClosed = true
  | .leaving => t.read <+: accepted
  | .left => t.read <+: accepted ∧ (x.table l.table).find? l.id = none

/-- Nothing more comes into the queue, and a reader that reads on has looks enough for what is in it, and for its
end. -/
structure Stand.Lasts (l : Listener) (t : Stand) (x : Exchange) : Prop where
  closed : (x.queue l.queue).isClosed = true
  looks : t.phase = .reading → (x.queue l.queue).fragments.length + 1 ≤ t.looks

/-- How the reader and the suppliers stand to the call, after the queue has accepted some fragments. -/
structure Inv (l : Listener) (before : List Fragment) (t : Stand) (roles : List Role) (new : List Fragment)
    (x : Exchange) : Prop where
  entry : ∀ call, (x.table l.table).find? l.id = some call → call = l.call
  steady : Steady l x
  isFor : ∀ r ∈ roles, r.IsFor l
  knows : ∀ r ∈ roles, r.Knows l x
  placed : new.Perm (roles.flatMap Role.placed)
  holds : t.Holds l (before ++ new) x

section Steps

variable {before new : List Fragment} {t t' : Stand} {roles : List Role}

theorem appended_of_le {q : QueueId} (h : (y.queue q).fragments.length ≤ (x.queue q).fragments.length) :
    appended q x y = [] := List.drop_eq_nil_of_le h

theorem Move.onward (h : Move l t x y t') : Onward l x y := by
  cases h with
  | rests | misses | ends => exact .refl l x
  | takes => exact onward_take
  | leaves hstep | goes _ hstep | stays _ hstep => exact hstep.onward

theorem Move.steady (h : Move l t x y t') (hx : Steady l x) : Steady l y := by
  cases h with
  | rests | misses | ends => exact hx
  | takes => exact ⟨hx.running, hx.apart, hx.absent⟩
  | leaves hstep | goes _ hstep | stays _ hstep => exact hstep.steady hx

/-- A reader puts nothing into the queue. -/
theorem Move.fragments_le (h : Move l t x y t') :
    (y.queue l.queue).fragments.length ≤ (x.queue l.queue).fragments.length := by
  cases h with
  | rests | misses | ends => exact Nat.le_refl _
  | takes hlooks hqueue =>
    rw [(take_of_cons hqueue).2, hqueue]
    exact Nat.le_succ _
  | leaves hstep | goes _ hstep | stays _ hstep => exact hstep.fragments

theorem Move.looks_le (h : Move l t x y t') : t.looks ≤ t'.looks + 1 := by
  cases h with
  | misses hlooks | takes hlooks => exact hlooks
  | rests | ends | leaves | goes | stays => exact Nat.le_succ _

theorem Move.lasts (h : Move l t x y t') (hlasts : t.Lasts l x) : t'.Lasts l y := by
  refine ⟨h.onward.closed hlasts.closed, fun hreading => ?_⟩
  cases h with
  | rests => exact hlasts.looks hreading
  | misses hlooks hqueue hopen =>
    rw [hlasts.closed] at hopen
    cases hopen
  | takes hlooks hqueue =>
    have hmany := hlasts.looks rfl
    rw [hqueue, List.length_cons] at hmany
    rw [(take_of_cons hqueue).2]
    exact Nat.le_of_succ_le_succ (Nat.le_trans hmany hlooks)
  | ends | leaves | goes => cases hreading
  | stays hphase => exact absurd hreading hphase

/-- Every move leads to a stand that says the truth about what has been accepted. -/
theorem Move.holds {accepted : List Fragment} (h : Move l t x y t') (ht : t.Holds l accepted x) :
    t'.Holds l accepted y := by
  cases h with
  | rests => exact ht
  | misses => exact ht
  | takes hlooks hqueue =>
    have hread : accepted = _ := ht
    show accepted = _
    rw [(take_of_cons hqueue).2, hread, hqueue, List.append_assoc]
    rfl
  | ends hqueue hclosed =>
    have hread : accepted = _ := ht
    rw [hqueue, List.append_nil] at hread
    exact ⟨hread, hclosed⟩
  | leaves hstep =>
    have hread : accepted = _ := ht
    exact hread ▸ List.prefix_append _ _
  | @goes read n phase _ _ hphase hstep habsent =>
    refine ⟨?_, habsent⟩
    cases phase with
    | reading =>
      have hread : accepted = _ := ht
      exact hread ▸ List.prefix_append _ _
    | ended => exact absurd rfl hphase
    | leaving => exact ht
    | left => exact ht.1
  | @stays _ _ _ hphase hstep =>
    obtain ⟨read, n, phase⟩ := t
    cases phase with
    | reading => exact absurd rfl hphase
    | ended => exact ⟨ht.1, hstep.onward.closed ht.2⟩
    | leaving => exact ht
    | left => exact ⟨ht.1, hstep.onward.absent ht.2⟩

theorem Inv.reader (h : Inv l before t roles new x) (hmove : Move l t x y t') :
    Inv l before t' roles (new ++ appended l.queue x y) y := by
  rw [appended_of_le hmove.fragments_le, List.append_nil]
  exact {
    entry := fun call hfind => h.entry call (hmove.onward.entry call hfind)
    steady := hmove.steady h.steady
    isFor := h.isFor
    knows := fun r hr => (h.knows r hr).keep hmove.onward.toKeeps
    placed := h.placed
    holds := hmove.holds h.holds }

/-- What one of several has more is more in all of them together. -/
theorem perm_flatMap_set {β γ : Type} {f : β → List γ} {more : List γ} {bs : List β} {i : Nat} {b b' : β}
    (hi : bs[i]? = some b) (hmore : f b' = f b ++ more) : ((bs.set i b').flatMap f).Perm (bs.flatMap f ++ more) := by
  induction bs generalizing i with
  | nil => cases hi
  | cons c rest ih =>
    cases i with
    | zero =>
      cases hi
      rw [List.set_cons_zero, List.flatMap_cons, List.flatMap_cons, hmore, List.append_assoc, List.append_assoc]
      exact (List.perm_append_left_iff _).2 List.perm_append_comm
    | succ i =>
      rw [List.set_cons_succ, List.flatMap_cons, List.flatMap_cons, List.append_assoc]
      exact (List.perm_append_left_iff _).2 (ih hi)

/-- What a supplier puts into the queue is what it finds there in the end, and a reader learns it from the queue. -/
theorem Stand.Holds.supply {accepted : List Fragment} {r : Role} (hfor : r.IsFor l) (h : t.Holds l accepted x) :
    t.Holds l (accepted ++ r.puts l x) (r.effect l x) := by
  have honward : Onward l x (r.effect l x) := Role.onward_effect hfor
  obtain ⟨read, n, phase⟩ := t
  cases phase with
  | reading =>
    have hread : accepted = _ := h
    show accepted ++ r.puts l x = _
    rw [Role.fragments_effect, hread, List.append_assoc]
  | ended => exact ⟨by rw [Role.puts_of_closed h.2, List.append_nil]; exact h.1, honward.closed h.2⟩
  | leaving => exact List.IsPrefix.trans h (List.prefix_append _ _)
  | left => exact ⟨h.1.trans (List.prefix_append _ _), honward.absent h.2⟩

theorem appended_effect (r : Role) : appended l.queue x (r.effect l x) = r.puts l x := by
  rw [appended, Role.fragments_effect, List.drop_left]

theorem Inv.supplier (h : Inv l before t roles new x) {i : Nat} {r : Role} (hi : roles[i]? = some r) :
    Inv l before t (roles.set i (r.after l x)) (new ++ appended l.queue x (r.effect l x)) (r.effect l x) := by
  have hr := List.mem_of_getElem? hi
  have hfor := h.isFor r hr
  have honward : Onward l x (r.effect l x) := Role.onward_effect hfor
  rw [appended_effect]
  constructor
  case entry => exact fun call hfind => h.entry call (honward.entry call hfind)
  case steady =>
    constructor
    case running => rw [Role.running_effect h.steady.apart, h.steady.running]
    case apart => rw [honward.cancel]; exact h.steady.apart
    case absent => exact Role.absent_of_completing hfor (h.knows r hr) h.steady.absent
  case isFor =>
    intro s hs
    obtain hs | rfl := List.mem_or_eq_of_mem_set hs
    · exact h.isFor s hs
    · exact hfor.after
  case knows =>
    intro s hs
    obtain hs | rfl := List.mem_or_eq_of_mem_set hs
    · exact (h.knows s hs).keep honward.toKeeps
    · exact Role.knows_after hfor (h.knows r hr)
  case placed =>
    exact ((List.perm_append_right_iff _).2 h.placed).trans (perm_flatMap_set hi (Role.placed_after r)).symm
  case holds =>
    rw [← List.append_assoc]
    exact h.holds.supply hfor

theorem Stand.Lasts.supply (h : t.Lasts l x) {r : Role} (hfor : r.IsFor l) : t.Lasts l (r.effect l x) := by
  refine ⟨(Role.onward_effect hfor).closed h.closed, fun hreading => ?_⟩
  rw [Role.fragments_effect, Role.puts_of_closed h.closed, List.append_nil]
  exact h.looks hreading

end Steps

/-- In a company, one who keeps to the protocol reads, and the others supply. -/
structure Stands (l : Listener) (P : Stand → α → Prop) (before : List Fragment) (t : Stand) (roles : List Role)
    (new : List Fragment) (c : Company Exchange (Told α)) : Prop where
  inv : Inv l before t roles new c.state
  programs : ∃ p : Process Exchange α, c.programs = (do return .read (← p)) :: roles.map (Role.program l) ∧
    p.Obeys (Steady l) (Move l) P t

section Runs

variable {P : Stand → α → Prop} {before new : List Fragment} {t : Stand} {roles : List Role}
  {c : Company Exchange (Told α)}

theorem Stands.advance (h : Stands l P before t roles new c) (i : Nat) :
    ∃ t' roles', Stands l P before t' roles' (new ++ appended l.queue c.state (c.advance i).state) (c.advance i) ∧
      t.looks ≤ t'.looks + [i].count 0 ∧ (t.Lasts l c.state → t'.Lasts l (c.advance i).state) := by
  obtain ⟨x, programs⟩ := c
  obtain ⟨hinv, p, rfl, hobeys⟩ := h
  cases i with
  | zero =>
    cases p with
    | done a =>
      refine ⟨t, roles, ⟨hinv.reader .rests, _, rfl, hobeys⟩, Nat.le_add_right _ _, id⟩
    | step next effect =>
      obtain ⟨t', hmove, hnext⟩ := hobeys x hinv.steady
      exact ⟨t', roles, ⟨hinv.reader hmove, _, rfl, hnext⟩, hmove.looks_le, hmove.lasts⟩
  | succ i =>
    cases hi : roles[i]? with
    | none =>
      rw [Company.advance_nobody hi]
      exact ⟨t, roles, ⟨hinv.reader .rests, p, rfl, hobeys⟩, Nat.le_add_right _ _, id⟩
    | some r =>
      have hfor := hinv.isFor r (List.mem_of_getElem? hi)
      rw [Company.advance_role _ _ hi (fun _ _ => Role.program_step hinv.entry hfor) fun _ => Role.stays_of_done]
      exact ⟨t, _, ⟨hinv.supplier hi, p, rfl, hobeys⟩, Nat.le_add_right _ _, fun hlasts => hlasts.supply hfor⟩

theorem Stands.follow (h : Stands l P before t roles new c) (order : List Nat) :
    ∃ t' roles', Stands l P before t' roles' (new ++ entered l.queue order c) (c.follow order) ∧
      t.looks ≤ t'.looks + order.count 0 ∧ (t.Lasts l c.state → t'.Lasts l (c.follow order).state) := by
  induction order generalizing t roles new c with
  | nil =>
    rw [entered, List.append_nil]
    exact ⟨t, roles, h, Nat.le_add_right _ _, id⟩
  | cons i rest ih =>
    obtain ⟨t₁, roles₁, hfirst, hlooks, hlasts⟩ := h.advance i
    obtain ⟨t', roles', hrest, hlooks', hlasts'⟩ := ih hfirst
    rw [List.append_assoc] at hrest
    refine ⟨t', roles', hrest, ?_, hlasts' ∘ hlasts⟩
    rw [← List.singleton_append, List.count_append]
    omega

/-- Before the first step. -/
theorem stands_company (hready : x.Ready l) {suppliers : List Supplier} (hfor : ∀ s ∈ suppliers, s.IsFor l)
    {reader : Process Exchange α} {looks : Nat} (hobeys : reader.Obeys (Steady l) (Move l) P ⟨[], looks, .reading⟩) :
    Stands l P (x.queue l.queue).fragments ⟨[], looks, .reading⟩ (suppliers.map Supplier.role) []
      (company x l reader suppliers) := by
  have hprograms : suppliers.map (Supplier.program l) =
      (suppliers.map Supplier.role).map (Role.program (α := α) l) := by
    rw [List.map_map]
    exact List.map_congr_left fun s _ => by cases s <;> rfl
  refine ⟨?_, reader, by rw [company, hprograms], hobeys⟩
  constructor
  case entry => exact fun call hfind => Option.some.inj (hfind.symm.trans hready.entry)
  case steady =>
    refine ⟨hready.running, hready.apart, fun hclaim => ?_⟩
    have hfree := hready.unclaimed
    simp only [company] at hclaim
    rw [hclaim] at hfree
    cases hfree
  case isFor =>
    intro r hr
    obtain ⟨s, hs, rfl⟩ := List.mem_map.1 hr
    have hs := hfor s hs
    cases s <;> exact hs
  case knows =>
    intro r hr
    obtain ⟨s, -, rfl⟩ := List.mem_map.1 hr
    cases s <;> trivial
  case placed =>
    rw [List.flatMap_map]
    refine List.Perm.of_eq (List.flatMap_eq_nil_iff.2 fun s _ => ?_).symm
    cases s <;> rfl
  case holds => exact List.append_nil _

/-- What the reader is told in the end befits its stand. -/
theorem Stands.told (h : Stands l P before t roles new c) {told : Told α} (htold : c.result? 0 = some told) :
    ∃ a, told = .read a ∧ P t a := by
  obtain ⟨-, p, hprograms, hobeys⟩ := h
  rw [Company.result?_eq_some_iff, hprograms] at htold
  cases p with
  | done a =>
    cases htold
    exact ⟨a, rfl, hobeys⟩
  | step next effect => cases htold

theorem delivered_of_done {roles : List Role} (hdone : ∀ r ∈ roles, ∃ a : Told α, r.program l = .done a) :
    (Company.answers ⟨x, roles.map (Role.program (α := α) l)⟩).filterMap Told.delivered? =
      roles.flatMap Role.placed := by
  induction roles with
  | nil => rfl
  | cons r rest ih =>
    obtain ⟨a, ha⟩ := hdone r List.mem_cons_self
    have hrest := ih fun s hs => hdone s (List.mem_cons_of_mem r hs)
    have hplaced := Role.delivered?_of_done ha
    simp only [Company.answers, List.map_cons, ha, List.filterMap_cons, List.flatMap_cons] at hrest ⊢
    rw [← hplaced, ← hrest]
    cases a.delivered? <;> rfl

/-- Once nobody has anything left to do, the fragments that have come into the queue are those of whose deliveries
this has been told. -/
theorem Stands.perm_delivered (h : Stands l P before t roles new c) (hsettled : c.Settled) :
    new.Perm (c.answers.filterMap Told.delivered?) := by
  obtain ⟨x, programs⟩ := c
  obtain ⟨hinv, p, rfl, -⟩ := h
  have hroles : ∀ r ∈ roles, ∃ a : Told α, r.program l = .done a := fun r hr =>
    hsettled _ (List.mem_cons_of_mem _ (List.mem_map_of_mem hr))
  have hothers := delivered_of_done (x := x) hroles
  obtain ⟨told, hdone⟩ := hsettled _ List.mem_cons_self
  cases p with
  | done a =>
    refine hinv.placed.trans (List.Perm.of_eq ?_)
    rw [← hothers]
    rfl
  | step next effect => cases hdone

end Runs

section Readers

variable {P : Stand → α → Prop} {suppliers : List Supplier} {reader : Process Exchange α} {looks : Nat}
  (hready : x.Ready l) (hfor : ∀ s ∈ suppliers, s.IsFor l)
  (hobeys : reader.Obeys (Steady l) (Move l) P ⟨[], looks, .reading⟩)
include hready hfor hobeys

/-- How all stand after some steps. -/
theorem stands_follow (order : List Nat) : ∃ t roles,
    Stands l P (x.queue l.queue).fragments t roles (entered l.queue order (company x l reader suppliers))
      ((company x l reader suppliers).follow order) := by
  obtain ⟨t, roles, hstands, -⟩ := (stands_company hready hfor hobeys).follow order
  exact ⟨t, roles, hstands⟩

/-- A reader that has taken all its steps is told something. If nothing more could come into the queue after some of
the steps, and it could then still look often enough, it has not stopped reading for want of looks. -/
theorem exists_told {n : Nat} (hends : reader.EndsWithin n) {before after order : List Nat}
    (horder : before ++ after = order)
    (hclosed : (((company x l reader suppliers).follow before).state.queue l.queue).isClosed = true)
    (hlooks : before.count 0 +
      (((company x l reader suppliers).follow before).state.queue l.queue).fragments.length + 1 ≤ looks)
    (hsteps : n ≤ order.count 0) : ∃ t roles a,
      Stands l P (x.queue l.queue).fragments t roles (entered l.queue order (company x l reader suppliers))
          ((company x l reader suppliers).follow order) ∧
        ((company x l reader suppliers).follow order).result? 0 = some (.read a) ∧ P t a ∧
          (t.phase = .reading → 0 < t.looks) := by
  obtain ⟨t, roles, hstands, hleft, -⟩ := (stands_company hready hfor hobeys).follow before
  have hleft : looks ≤ t.looks + before.count 0 := hleft
  obtain ⟨t', roles', hstands', -, hlasts⟩ := hstands.follow after
  rw [List.nil_append, ← entered_append, ← Company.follow_append, horder] at hstands'
  have hread : (do return Told.read (← reader)).EndsWithin n := EndsWithin.bind (n := 0) hends fun _ => trivial
  have htold := Company.result?_of_endsWithin (c := company x l reader suppliers) (i := 0) rfl hread hsteps
  obtain ⟨told, htold⟩ := Option.isSome_iff_exists.1 htold
  obtain ⟨a, rfl, ha⟩ := hstands'.told htold
  have hmore := hlasts ⟨hclosed, fun _ => by omega⟩
  refine ⟨t', roles', a, hstands', htold, ha, fun hreading => ?_⟩
  exact Nat.lt_of_succ_le (Nat.le_of_add_left_le (hmore.looks hreading))

end Readers

end Switchboard.Receiving
