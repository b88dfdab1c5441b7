import Switchboard.Proofs.Exchange.Looks
import Switchboard.Proofs.Feed.Others
import Switchboard.Proofs.Receiving.Protocol
/-!
The protocol that one keeps to who opens a subscription and reads it, while others may close the queue and fire the
signal of the client. What he has read and what is still in the queue are, in this order, the fragments that the queue
has accepted, until his reading is over.
-/
namespace Switchboard.Feed

open Exchange Process Receiving

variable {l : Listener} {x y : Exchange}

/-- How reading comes to its end: the reader finds the queue empty and closed, it sees that the client has gone, it
leaves the call, or it leaves it because it has not been given another look. -/
inductive End where
  | drained
  | lost
  | left
  | spent
  deriving DecidableEq

/-- Where a reader is: it waits until its next look, it has seen that the client is there and will look at the queue,
or its reading is over, and it may know that the call is out of the table. -/
inductive Phase where
  | waiting
  | looking
  | isOver (ending : End) (out : Bool)

/-- How many looks have begun. -/
def Phase.begun : Phase → Nat
  | .looking => 1
  | .waiting | .isOver _ _ => 0

/-- The stand of a reader: what it has read, how often it will look again at least until the subscription opens, how
often it will ask for an item at least, and where it is. -/
structure Stand where
  read : List Fragment
  looks : Nat
  asks : Nat
  phase : Phase := .waiting

namespace Stand

/-- Whether what has been read decides about the opening. -/
def decided (t : Stand) : Bool := t.read.any decides

/-- One has used up the looks for what comes next. -/
def Spent (t : Stand) : Prop := if t.decided then t.asks = 0 else t.looks = 0

variable {t : Stand}

theorem Spent.asks_eq_zero (h : t.Spent) (hdecided : t.decided = true) : t.asks = 0 := by
  rwa [Spent, if_pos hdecided] at h

theorem Spent.looks_eq_zero (h : t.Spent) (hundecided : t.decided = false) : t.looks = 0 := by
  rwa [Spent, if_neg (by simp [hundecided])] at h

end Stand

/-- The moves of a reader: it asks whether the client is there, looks at the queue, and leaves the call. What it does
to the call after its reading is over, it does for a reason. -/
inductive Move (l : Listener) : Stand → Exchange → Exchange → Stand → Prop where
  | looks {read : List Fragment} {n n' k k' : Nat} {x : Exchange} (hlooks : n ≤ n' + 1) (hasks : k ≤ k' + 1)
      (hrunning : x.fired l.shutdown = false) : Move l ⟨read, n, k, .waiting⟩ x x ⟨read, n', k', .looking⟩
  | wakes {read : List Fragment} {n k : Nat} {x : Exchange} (hfired : x.fired l.shutdown = true) :
      Move l ⟨read, n, k, .waiting⟩ x x ⟨read, n, k, .isOver .lost false⟩
  | misses {read : List Fragment} {n k : Nat} {x : Exchange} (hqueue : (x.queue l.queue).fragments = [])
      (hopen : (x.queue l.queue).isClosed = false) : Move l ⟨read, n, k, .looking⟩ x x ⟨read, n, k, .waiting⟩
  | takes {read rest : List Fragment} {f : Fragment} {n k : Nat} {x : Exchange}
      (hqueue : (x.queue l.queue).fragments = f :: rest) :
      Move l ⟨read, n, k, .looking⟩ x (take l.queue x).2 ⟨read ++ [f], n, k, .waiting⟩
  | drains {read : List Fragment} {n k : Nat} {x : Exchange} (hqueue : (x.queue l.queue).fragments = [])
      (hclosed : (x.queue l.queue).isClosed = true) :
      Move l ⟨read, n, k, .looking⟩ x x ⟨read, n, k, .isOver .drained false⟩
  | leaves {read : List Fragment} {n k : Nat} {e : End} {out : Bool} {x y : Exchange}
      (hend : e = .left ∨ e = .spent ∧ Stand.Spent ⟨read, n, k, .waiting⟩) (hstep : Keeps l x y)
      (hfragments : (y.queue l.queue).fragments.length ≤ (x.queue l.queue).fragments.length)
      (hclaimed : (y.control l.control).claim ≠ .free) (hout : out = true → Out l y) :
      Move l ⟨read, n, k, .waiting⟩ x y ⟨read, n, k, .isOver e out⟩
  | retreats {read : List Fragment} {n k : Nat} {e : End} {out out' : Bool} {x y : Exchange}
      (hstep : Due l x → Keeps l x y)
      (hfragments : (y.queue l.queue).fragments.length ≤ (x.queue l.queue).fragments.length)
      (hout : out' = true → out = true ∨ Out l y) :
      Move l ⟨read, n, k, .isOver e out⟩ x y ⟨read, n, k, .isOver e out'⟩

/-- What is so once reading is over. -/
structure Past (l : Listener) (accepted : List Fragment) (x : Exchange) (t : Stand) (e : End) (out : Bool) : Prop where
  begins : t.read <+: accepted
  due : Due l x
  out : out = true → Out l x
  drained : e = .drained →
    accepted = t.read ∧ (x.queue l.queue).isClosed = true ∧ (Out l x ∨ x.fired l.shutdown = true)
  lost : e = .lost → x.fired l.shutdown = true
  spent : e = .spent → t.Spent

/-- What a stand says about the call and the fragments that its queue has accepted. Only one who knows that the call is
out of the table has cancelled it while the reader has not. -/
def Stand.Holds (l : Listener) (accepted : List Fragment) (x : Exchange) (t : Stand) : Prop :=
  match t.phase with
  | .waiting | .looking => accepted = t.read ++ (x.queue l.queue).fragments ∧
      ((x.control l.control).claim = .cancelled → Out l x)
  | .isOver e out => Past l accepted x t e out

section Holding

variable {t t' : Stand} {accepted more : List Fragment} {e : End} {out : Bool}

theorem Past.keep (h : Past l accepted x t e out) (hstep : Keeps l x y)
    (hmore : (x.queue l.queue).isClosed = true → more = []) : Past l (accepted ++ more) y t e out where
  begins := h.begins.trans (List.prefix_append _ _)
  due := hstep.due h.due
  out hout := out_of_entries hstep.entries (h.out hout)
  drained he := by
    obtain ⟨hread, hclosed, hgone⟩ := h.drained he
    refine ⟨by rw [hmore hclosed, List.append_nil, hread], hstep.closed hclosed, ?_⟩
    exact hgone.imp (out_of_entries hstep.entries) hstep.fired
  lost he := hstep.fired (h.lost he)
  spent := h.spent

/-- What others put into the queue is what is found there in the end. -/
theorem Stand.Holds.supply (h : t.Holds l accepted x) (hstep : Supplies l x y) :
    t.Holds l (accepted ++ appended l.queue x y) y := by
  obtain ⟨new, hnew, hclosed⟩ := hstep.puts
  have happended : appended l.queue x y = new := by rw [appended, hnew, List.drop_left]
  rw [happended]
  obtain ⟨read, n, k, phase⟩ := t
  cases phase with
  | waiting | looking =>
    obtain ⟨hread, hcancelled⟩ := h
    refine ⟨by rw [hnew, hread, List.append_assoc], fun hclaim => ?_⟩
    obtain hbefore | hout := hstep.cancelled hclaim
    · exact out_of_entries hstep.entries (hcancelled hbefore)
    · exact hout
  | isOver e out => exact Past.keep h hstep.toKeeps hclosed

/-- A reader puts nothing into the queue. -/
theorem Move.fragments_le (h : Move l t x y t') :
    (y.queue l.queue).fragments.length ≤ (x.queue l.queue).fragments.length := by
  cases h with
  | looks | wakes | misses | drains => exact Nat.le_refl _
  | takes hqueue =>
    rw [(take_of_cons hqueue).2, hqueue]
    exact Nat.le_succ _
  | leaves _ _ hfragments | retreats _ hfragments => exact hfragments

theorem Move.keeps (h : Move l t x y t') (hx : Sound l x) (ht : t.Holds l accepted x) : Keeps l x y := by
  cases h with
  | looks | wakes | misses | drains => exact keeps_refl hx
  | takes => exact keeps_take hx
  | leaves _ hstep => exact hstep
  | retreats hstep => exact hstep ht.due

/-- Every move leads to a stand that says the truth. -/
theorem Move.holds (h : Move l t x y t') (hx : Sound l x) (ht : t.Holds l accepted x) : t'.Holds l accepted y := by
  have hkeeps := h.keeps hx ht
  cases h with
  | looks | misses => exact ht
  | wakes hfired =>
    obtain ⟨hread, -⟩ := ht
    exact ⟨hread ▸ List.prefix_append _ _, .inr (.inl hfired), Bool.noConfusion, End.noConfusion, fun _ => hfired,
      End.noConfusion⟩
  | takes hqueue =>
    obtain ⟨hread, hcancelled⟩ := ht
    refine ⟨?_, hcancelled⟩
    rw [hread, hqueue, (take_of_cons hqueue).2, List.append_assoc]
    rfl
  | drains hqueue hclosed =>
    obtain ⟨hread, hcancelled⟩ := ht
    rw [hqueue, List.append_nil] at hread
    refine ⟨hread ▸ List.prefix_rfl, hx.closed hclosed, Bool.noConfusion, fun _ => ⟨hread, hclosed, ?_⟩,
      End.noConfusion, End.noConfusion⟩
    obtain hout | hfired | hclaim := hx.closed hclosed
    · exact .inl hout
    · exact .inr hfired
    · exact .inl (hcancelled hclaim)
  | leaves hend _ _ hclaimed hout =>
    obtain ⟨hread, -⟩ := ht
    have hdue : Due l y := hkeeps.sound.due_of_claimed hclaimed
    have hbegins : _ <+: accepted := hread ▸ List.prefix_append _ _
    obtain rfl | ⟨rfl, hspent⟩ := hend
    · exact ⟨hbegins, hdue, hout, End.noConfusion, End.noConfusion, End.noConfusion⟩
    · exact ⟨hbegins, hdue, hout, End.noConfusion, End.noConfusion, fun _ => hspent⟩
  | retreats _ _ hout =>
    have hpast : Past l (accepted ++ []) y _ _ _ := Past.keep ht hkeeps fun _ => rfl
    rw [List.append_nil] at hpast
    exact ⟨hpast.begins, hpast.due, fun h => (hout h).elim hpast.out id, hpast.drained, hpast.lost, hpast.spent⟩

end Holding

/-- A reader with so many looks left comes upon a fragment that stops it, the end of the queue, or that the client has
gone. Looks that have begun cannot see the latter any more. -/
def Meets (l : Listener) (x : Exchange) (stops : Fragment → Prop) (begun looks : Nat) : Prop :=
  (x.fired l.shutdown = true ∧ 0 < looks) ∨
    ∃ i < looks + begun, (∃ f, (x.queue l.queue).fragments[i]? = some f ∧ stops f) ∨
      (x.queue l.queue).fragments.length = i ∧ (x.queue l.queue).isClosed = true

/-- A reader will not give the opening up for want of looks. -/
def Stand.Opens (l : Listener) (x : Exchange) (t : Stand) : Prop :=
  match t.phase with
  | .waiting | .looking => t.decided = true ∨ Meets l x (decides · = true) t.phase.begun t.looks
  | .isOver e _ => e = .spent → t.decided = true

/-- A reader asks often enough to come to the end. -/
def Stand.Ends (l : Listener) (x : Exchange) (t : Stand) : Prop :=
  match t.phase with
  | .waiting | .looking => Meets l x (fun _ => False) t.phase.begun t.asks
  | .isOver e _ => e = .spent → t.decided = false

section Meeting

variable {stops : Fragment → Prop} {n n' : Nat} {t t' : Stand}

/-- Without a look left, nothing is met. -/
theorem Meets.ne_zero (h : Meets l x stops 0 n) : n ≠ 0 := by
  rintro rfl
  obtain ⟨-, hlooks⟩ | ⟨i, hi, -⟩ := h
  · cases hlooks
  · cases hi

theorem Meets.looks (h : Meets l x stops 0 n) (hlooks : n ≤ n' + 1) (hrunning : x.fired l.shutdown = false) :
    Meets l x stops 1 n' := by
  obtain ⟨hfired, -⟩ | ⟨i, hi, hmet⟩ := h
  · rw [hrunning] at hfired
    cases hfired
  · exact .inr ⟨i, by omega, hmet⟩

/-- A look that shows nothing has not been at the end. -/
theorem Meets.misses (h : Meets l x stops 1 n) (hqueue : (x.queue l.queue).fragments = [])
    (hopen : (x.queue l.queue).isClosed = false) : Meets l x stops 0 n := by
  obtain hfired | ⟨i, -, ⟨f, hf, -⟩ | ⟨-, hclosed⟩⟩ := h
  · exact .inl hfired
  · simp [hqueue] at hf
  · rw [hopen] at hclosed
    cases hclosed

/-- A fragment that does not stop the reader brings it nearer to what does. -/
theorem Meets.takes (h : Meets l x stops 1 n) {f : Fragment} {rest : List Fragment}
    (hqueue : (x.queue l.queue).fragments = f :: rest) (hf : ¬stops f) : Meets l (take l.queue x).2 stops 0 n := by
  obtain hfired | ⟨i, hi, hmet⟩ := h
  · exact .inl hfired
  · rw [hqueue] at hmet
    cases i with
    | zero =>
      obtain ⟨g, hg, hstops⟩ | ⟨hlength, -⟩ := hmet
      · cases hg
        exact absurd hstops hf
      · cases hlength
    | succ i =>
      refine .inr ⟨i, by omega, ?_⟩
      rw [(take_of_cons hqueue).2]
      obtain hstops | ⟨hlength, hclosed⟩ := hmet
      · exact .inl hstops
      · exact .inr ⟨Nat.succ.inj hlength, by simpa using hclosed⟩

theorem Meets.supply {begun : Nat} (h : Meets l x stops begun n) (hstep : Supplies l x y) :
    Meets l y stops begun n := by
  obtain ⟨hfired, hlooks⟩ | ⟨i, hi, hmet⟩ := h
  · exact .inl ⟨hstep.fired hfired, hlooks⟩
  · obtain ⟨new, hnew, hnothing⟩ := hstep.puts
    refine .inr ⟨i, hi, ?_⟩
    rw [hnew]
    obtain ⟨f, hf, hstops⟩ | ⟨hlength, hclosed⟩ := hmet
    · have hlt := (List.getElem?_eq_some_iff.1 hf).1
      exact .inl ⟨f, by rw [List.getElem?_append_left hlt, hf], hstops⟩
    · exact .inr ⟨by rw [hnothing hclosed, List.append_nil, hlength], hstep.closed hclosed⟩

theorem Stand.Opens.supply (h : t.Opens l x) (hstep : Supplies l x y) : t.Opens l y := by
  obtain ⟨read, n, k, phase⟩ := t
  cases phase with
  | waiting | looking => exact h.imp_right (·.supply hstep)
  | isOver e out => exact h

theorem Stand.Ends.supply (h : t.Ends l x) (hstep : Supplies l x y) : t.Ends l y := by
  obtain ⟨read, n, k, phase⟩ := t
  cases phase with
  | waiting | looking => exact Meets.supply h hstep
  | isOver e out => exact h

theorem Move.opens (h : Move l t x y t') (ht : t.Opens l x) : t'.Opens l y := by
  cases h with
  | looks hlooks _ hrunning => exact ht.imp_right (·.looks hlooks hrunning)
  | wakes | drains => exact End.noConfusion
  | misses hqueue hopen => exact ht.imp_right (·.misses hqueue hopen)
  | @takes read rest f n k _ hqueue =>
    cases hf : decides f with
    | true => exact .inl (by simp [Stand.decided, hf])
    | false =>
      refine Or.imp (fun hread => ?_) (fun hmeets => ?_) ht
      · have hread : read.any decides = true := hread
        simp [Stand.decided, hread]
      · exact Meets.takes hmeets hqueue (by simp [hf])
  | leaves hend =>
    intro he
    obtain rfl | ⟨-, hspent⟩ := hend
    · cases he
    · obtain hdecided | hmeets := ht
      · exact hdecided
      · by_contra hundecided
        exact hmeets.ne_zero (hspent.looks_eq_zero (Bool.not_eq_true _ ▸ hundecided))
  | retreats => exact ht

theorem Move.ends (h : Move l t x y t') (ht : t.Ends l x) : t'.Ends l y := by
  cases h with
  | looks _ hasks hrunning => exact Meets.looks ht hasks hrunning
  | misses hqueue hopen => exact Meets.misses ht hqueue hopen
  | takes hqueue => exact Meets.takes ht hqueue id
  | wakes | drains => exact End.noConfusion
  | leaves hend =>
    intro he
    obtain rfl | ⟨-, hspent⟩ := hend
    · cases he
    · by_contra hdecided
      exact Meets.ne_zero ht (hspent.asks_eq_zero (Bool.not_eq_false _ ▸ hdecided))
  | retreats => exact ht

/-- After so many steps of its own a reader has so many looks and asks less at most, and comes to an end if it would
have come to one before. -/
structure Progress (l : Listener) (steps : Nat) (t : Stand) (x : Exchange) (t' : Stand) (x' : Exchange) : Prop where
  looks : t.looks ≤ t'.looks + steps
  asks : t.asks ≤ t'.asks + steps
  opens : t.Opens l x → t'.Opens l x'
  ends : t.Ends l x → t'.Ends l x'
  fired : x.fired l.shutdown = true → x'.fired l.shutdown = true

theorem Progress.trans {t'' : Stand} {x' x'' : Exchange} {steps steps' : Nat} (h : Progress l steps t x t' x')
    (h' : Progress l steps' t' x' t'' x'') : Progress l (steps + steps') t x t'' x'' where
  looks := by have := h.looks; have := h'.looks; omega
  asks := by have := h.asks; have := h'.asks; omega
  opens := h'.opens ∘ h.opens
  ends := h'.ends ∘ h.ends
  fired := h'.fired ∘ h.fired

theorem Progress.refl (steps : Nat) (t : Stand) (x : Exchange) : Progress l steps t x t x :=
  ⟨Nat.le_add_right _ _, Nat.le_add_right _ _, id, id, id⟩

theorem Move.progress (h : Move l t x y t') (hkeeps : Keeps l x y) : Progress l 1 t x t' y where
  looks := by
    cases h with
    | looks hlooks => exact hlooks
    | _ => exact Nat.le_succ _
  asks := by
    cases h with
    | looks _ hasks => exact hasks
    | _ => exact Nat.le_succ _
  opens := h.opens
  ends := h.ends
  fired := hkeeps.fired

theorem Supplies.progress (h : Supplies l x y) : Progress l 0 t x t y :=
  ⟨Nat.le_refl _, Nat.le_refl _, (·.supply h), (·.supply h), h.fired⟩

end Meeting

end Switchboard.Feed
