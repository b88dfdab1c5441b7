import Switchboard.Proofs.Exchange.Footprint
import Switchboard.Proofs.Race.Roles
/-!
What the parties to the end of a call can rely on, whatever the others do in between.
-/
namespace Switchboard.Race

open Exchange

variable {l : Listener} {x x₀ : Exchange}

namespace Role

/-- It has taken the call out of the table. -/
def holds : Role → Bool
  | .found _ | .claiming _ | .handing _ | .sealing _ _ | .yielding _ | .removing _ => true
  | .lifted | .shutting | .said (.unsubscribed true) => true
  | .said (.delivery _ d) => d ≠ .unknownRequest
  | _ => false

/-- The last word that it has put into the queue. -/
def placed? : Role → Option LastWord
  | .sealing w true | .said (.delivery w .delivered) => some w
  | _ => none

/-- It has taken the call out of the table and is still to close its queue. -/
def owes : Role → Bool
  | .found _ | .claiming _ | .handing _ | .sealing _ _ | .yielding _ | .lifted | .shutting => true
  | _ => false

theorem holds_of_placed? {r : Role} {w : LastWord} (h : r.placed? = some w) : r.holds = true := by
  unfold placed? at h
  split at h <;> simp_all [holds]

/-- The last word stands in the queue, unless the reader has let the queue go. -/
def Placed (l : Listener) (x₀ x : Exchange) (w : LastWord) : Prop :=
  (x.queue l.queue).reading ≠ .dropped →
    (x.queue l.queue).fragments = (x₀.queue l.queue).fragments ++ [w.fragment l]

/-- What may be relied on in a role. -/
def Asserts (l : Listener) (x₀ x : Exchange) : Role → Prop
  | .waits _ => True
  | .struck _ => (x.control l.control).claim = .cancelled
  | .leaving _ => (x.control l.control).claim = .cancelled ∧ (x.queue l.queue).isClosed = true
  | .handing _ =>
    (x.table l.table).find? l.id = none ∧ (x.control l.control).claim = .completing
  | .sealing w placed =>
    (x.table l.table).find? l.id = none ∧ (x.control l.control).claim = .completing ∧
      (placed = true → Placed l x₀ x w)
  | .said (.delivery w .delivered) =>
    (x.table l.table).find? l.id = none ∧ (x.control l.control).claim = .completing ∧
      (x.queue l.queue).accepting = false ∧ Placed l x₀ x w
  | .said (.delivery _ .terminated) =>
    (x.table l.table).find? l.id = none ∧ (x.control l.control).claim = .completing ∧
      (x.queue l.queue).accepting = false
  | .said (.gaveUp true) | .said (.closed true) =>
    (x.table l.table).find? l.id = none ∧ (x.control l.control).claim = .cancelled
  | .found _ | .claiming _ | .yielding _ | .removing _ | .lifted | .shutting | .dropping | .closing
  | .said _ => (x.table l.table).find? l.id = none

/-- A step of a party is a step on the call. -/
theorem onward_effect (r : Role) : Onward l x (r.effect l x) := by
  cases r with
  | waits p =>
    cases p with
    | deliver w => exact onward_resolve
    | leave how => exact onward_claimCancellation
    | unsubscribe => exact onward_resolve
  | found w => exact .refl l x
  | claiming w => exact onward_claimCompletion
  | handing w =>
    simp only [effect]
    split
    · exact onward_closeQueue
    · exact onward_push _
  | sealing w placed => exact onward_closeQueue
  | yielding w => exact onward_closeQueue
  | removing w => exact onward_remove
  | struck how => exact onward_closeReading
  | leaving how => exact onward_remove
  | dropping => exact onward_dropReading
  | closing => exact onward_closeReading
  | lifted => exact onward_claimCancellation
  | shutting => exact onward_closeQueue
  | said a => exact .refl l x

/-- The last word that the next step puts into the queue. -/
def puts? (l : Listener) (x : Exchange) : Role → Option LastWord
  | .handing w =>
    if w.status = .streamTerminated ∨ (x.queue l.queue).isClosed = true then none else some w
  | _ => none

/-- As long as the queue has a reading end, it grows by what the step puts into it. -/
theorem fragments_effect (r : Role) (h : ((r.effect l x).queue l.queue).reading ≠ .dropped) :
    ((r.effect l x).queue l.queue).fragments =
      (x.queue l.queue).fragments ++ ((r.puts? l x).map (LastWord.fragment l)).toList := by
  cases r with
  | waits p => cases p <;> simp [effect, puts?]
  | handing w =>
    by_cases hstatus : w.status = .streamTerminated
    · simp [effect, puts?, hstatus]
    · cases hclosed : (x.queue l.queue).isClosed with
      | true => simp [effect, puts?, hstatus, hclosed, Queue.fragments_push]
      | false => simp [effect, puts?, hstatus, hclosed, Queue.fragments_push]
  | dropping => simp [effect] at h
  | _ => simp [effect, puts?]

theorem holds_of_puts? {r : Role} {w : LastWord} (h : r.puts? l x = some w) : r.holds = true := by
  unfold puts? at h
  split at h <;> simp_all [holds]

theorem placed?_after (r : Role) : (r.after l x).placed? = (r.puts? l x).or r.placed? := by
  cases r with
  | waits p =>
    cases p with
    | deliver w => simp only [after]; split <;> rfl
    | leave how => simp only [after]; split <;> cases how <;> rfl
    | unsubscribe => simp only [after]; split <;> rfl
  | found w => simp only [after]; split <;> rfl
  | claiming w => simp only [after]; split <;> rfl
  | handing w =>
    by_cases hstatus : w.status = .streamTerminated
    · simp [after, puts?, placed?, hstatus]
    · cases hclosed : (x.queue l.queue).isClosed <;> simp [after, puts?, placed?, hstatus, hclosed]
  | sealing w placed => cases placed <;> rfl
  | leaving how => cases how <;> rfl
  | _ => rfl

/-- A party that did not have the call in its hands has it after its step only if it has just taken it
out of the table. -/
theorem holds_after {r : Role} (h : (r.after l x).holds = true) :
    r.holds = true ∨ ((x.table l.table).find? l.id).isSome = true := by
  cases r with
  | waits p =>
    cases p with
    | deliver w =>
      simp only [after] at h
      split at h
      case isTrue hfound => exact .inr hfound
      case isFalse => simp [holds] at h
    | leave how =>
      simp only [after] at h
      split at h <;> cases how <;> simp [holds, ofCancel] at h
    | unsubscribe =>
      simp only [after] at h
      split at h
      case isTrue hfound => exact .inr hfound
      case isFalse => simp [holds] at h
  | leaving how => cases how <;> simp [after, holds, ofCancel] at h
  | struck | dropping | closing => simp [after, holds] at h
  | said a => exact .inl h
  | _ => exact .inl rfl

/-- What a party relies on is not disturbed by a step of another, unless this puts something into the
queue. -/
theorem Asserts.keep {y : Exchange} {r : Role} (h : r.Asserts l x₀ x) (hkeeps : Keeps l x y)
    (hqueue : ∀ w, r.placed? = some w → (y.queue l.queue).reading ≠ .dropped →
      (y.queue l.queue).fragments = (x.queue l.queue).fragments) : r.Asserts l x₀ y := by
  have habsent := hkeeps.absent
  have hcompleting : (x.control l.control).claim = .completing →
      (y.control l.control).claim = .completing := fun hclaim => by
    rw [hkeeps.claim (by simp [hclaim]), hclaim]
  have hcancelled : (x.control l.control).claim = .cancelled →
      (y.control l.control).claim = .cancelled := fun hclaim => by
    rw [hkeeps.claim (by simp [hclaim]), hclaim]
  have hplaced : ∀ w, r.placed? = some w → Placed l x₀ x w → Placed l x₀ y w := by
    intro w hw hbefore hreading
    rw [hqueue w hw hreading]
    exact hbefore (hkeeps.dropped hreading)
  cases r with
  | waits p => trivial
  | struck how => exact hcancelled h
  | leaving how => exact ⟨hcancelled h.1, hkeeps.closed h.2⟩
  | handing w => exact ⟨habsent h.1, hcompleting h.2⟩
  | sealing w placed =>
    refine ⟨habsent h.1, hcompleting h.2.1, fun hput => ?_⟩
    subst hput
    exact hplaced w rfl (h.2.2 rfl)
  | said a =>
    cases a with
    | delivery w d =>
      cases d with
      | delivered =>
        exact ⟨habsent h.1, hcompleting h.2.1, hkeeps.accepting h.2.2.1, hplaced w rfl h.2.2.2⟩
      | terminated => exact ⟨habsent h.1, hcompleting h.2.1, hkeeps.accepting h.2.2⟩
      | abandoned | unknownRequest => exact habsent h
    | gaveUp cancelled =>
      cases cancelled with
      | true => exact ⟨habsent h.1, hcancelled h.2⟩
      | false => exact habsent h
    | closed cancelled =>
      cases cancelled with
      | true => exact ⟨habsent h.1, hcancelled h.2⟩
      | false => exact habsent h
    | gone | unsubscribed => exact habsent h
  | found | claiming | yielding | removing | lifted | shutting | dropping | closing => exact habsent h

theorem absent_of_holds {r : Role} (h : r.Asserts l x₀ x) (hholds : r.holds = true) :
    (x.table l.table).find? l.id = none := by
  cases r with
  | said a =>
    cases a with
    | delivery w d => cases d <;> simp_all [Asserts, holds]
    | unsubscribed => exact h
    | _ => cases hholds
  | handing w => exact h.1
  | sealing w placed => exact h.1
  | found | claiming | yielding | removing | lifted | shutting => exact h
  | _ => cases hholds

/-- Only a party that has the call in its hands claims it for a last delivery. -/
theorem absent_of_completing {r : Role} (h : r.Asserts l x₀ x)
    (hbefore : (x.control l.control).claim ≠ .completing)
    (hafter : ((r.effect l x).control l.control).claim = .completing) :
    (x.table l.table).find? l.id = none := by
  by_cases hfree : (x.control l.control).claim = .free
  · cases r with
    | claiming w => exact h
    | waits p => cases p <;> simp_all [effect]
    | handing w => exact h.1
    | _ => simp_all [effect]
  · rw [(onward_effect r).claim hfree] at hafter
    exact absurd hafter hbefore

/-- After its step a party may rely on what its new role asserts. -/
theorem asserts_after {r : Role} (h : r.Asserts l x₀ x)
    (hcompleting : (x.control l.control).claim = .completing → (x.table l.table).find? l.id = none)
    (huntouched : ∀ w, r.puts? l x = some w → (x.queue l.queue).reading ≠ .dropped →
      (x.queue l.queue).fragments = (x₀.queue l.queue).fragments) :
    (r.after l x).Asserts l x₀ (r.effect l x) := by
  have hkeeps := (onward_effect (l := l) (x := x) r).toKeeps
  cases r with
  | waits p =>
    cases p with
    | deliver w => simp only [after]; split <;> simp [Asserts, effect]
    | leave how =>
      by_cases hclaim : (x.control l.control).claim = .completing
      · cases how <;> simp [after, hclaim, ofCancel, Asserts, effect, hcompleting]
      · cases hfree : (x.control l.control).claim <;> simp_all [after, Asserts, effect]
    | unsubscribe => simp only [after]; split <;> simp [Asserts, effect]
  | found w => simp only [after]; split <;> exact h
  | claiming w =>
    by_cases hclaim : (x.control l.control).claim = .free
    · simpa [after, hclaim, Asserts, effect] using h
    · simpa [after, hclaim, Asserts, effect] using h
  | handing w =>
    obtain ⟨habsent, hclaim⟩ := h
    by_cases hstatus : w.status = .streamTerminated
    · simp [after, hstatus, Asserts, effect, habsent, hclaim]
    · simp only [after, hstatus, if_false, Asserts, Bool.not_eq_true']
      refine ⟨hkeeps.absent habsent, ?_, ?_⟩
      · rw [hkeeps.claim (by simp [hclaim]), hclaim]
      · intro hopen hreading
        have hputs : (handing w).puts? l x = some w := by simp [puts?, hstatus, hopen]
        rw [fragments_effect _ hreading, hputs, huntouched w hputs (hkeeps.dropped hreading)]
        rfl
  | sealing w placed =>
    obtain ⟨habsent, hclaim, hplaced⟩ := h
    cases placed with
    | false => exact hkeeps.absent habsent
    | true =>
      simp only [after, if_true, Asserts, effect]
      refine ⟨by simpa using habsent, by simpa using hclaim, by simp, ?_⟩
      intro hreading
      simpa using hplaced rfl (by simpa using hreading)
  | struck how =>
    simp only [after, Asserts, effect]
    have hclaim : (x.control l.control).claim = .cancelled := h
    exact ⟨by simpa using hclaim, by simp⟩
  | leaving how =>
    have hclaim := h.1
    cases how <;> simp [after, ofCancel, Asserts, effect, hclaim]
  | said a => exact h
  | yielding | removing | dropping | closing | lifted | shutting => exact hkeeps.absent h

/-- Whoever takes the call out of the table, or still has to close its queue, closes the queue or has to
close it afterwards. -/
theorem owes_after {r : Role} (h : r.Asserts l x₀ x)
    (hbefore : ((x.table l.table).find? l.id).isSome = true ∨ r.owes = true)
    (hout : ((r.effect l x).table l.table).find? l.id = none) :
    ((r.effect l x).queue l.queue).isClosed = true ∨ (r.after l x).owes = true := by
  cases r with
  | waits p =>
    cases p with
    | deliver w =>
      obtain hfound | howes := hbefore
      · simp [after, hfound, owes]
      · cases howes
    | leave how =>
      simp only [effect, table_claimCancellation] at hout
      simp [hout, owes] at hbefore
    | unsubscribe =>
      obtain hfound | howes := hbefore
      · simp [after, hfound, owes]
      · cases howes
  | found w => simp only [after]; split <;> exact .inr rfl
  | claiming w => simp only [after]; split <;> exact .inr rfl
  | handing w =>
    simp only [after, effect]
    split
    · simp
    · exact .inr rfl
  | leaving how =>
    left
    simpa [effect] using h.2
  | removing w =>
    have habsent : (x.table l.table).find? l.id = none := h
    simp [habsent, owes] at hbefore
  | said a =>
    have habsent : (x.table l.table).find? l.id = none := hout
    simp [habsent, owes] at hbefore
  | lifted => exact .inr rfl
  | sealing | yielding | struck | dropping | closing | shutting => simp [effect]

end Role

/-- What holds throughout a race: at most one party has the call in its hands, nobody has put anything
into the queue but the party that has claimed the call, and if the call is out of the table its queue is
closed or about to be closed. -/
structure Inv (l : Listener) (x₀ x : Exchange) (roles : List Role) : Prop where
  entry : ∀ c, (x.table l.table).find? l.id = some c → c = l.call
  completing : (x.control l.control).claim = .completing → (x.table l.table).find? l.id = none
  cancel : (x.control l.control).cancel = (x₀.control l.control).cancel
  uncancelled : (x.control l.control).claim ≠ .cancelled →
    x.fired (x₀.control l.control).cancel = false
  one : ∀ (i j : Nat) (r r' : Role), roles[i]? = some r → roles[j]? = some r' →
    r.holds = true → r'.holds = true → i = j
  asserts : ∀ (i : Nat) (r : Role), roles[i]? = some r → r.Asserts l x₀ x
  untouched : (∀ (i : Nat) (r : Role), roles[i]? = some r → r.placed? = none) →
    (x.queue l.queue).reading ≠ .dropped →
    (x.queue l.queue).fragments = (x₀.queue l.queue).fragments
  owed : (x.table l.table).find? l.id = none →
    (x.queue l.queue).isClosed = true ∨ ∃ (i : Nat) (r : Role), roles[i]? = some r ∧ r.owes = true

/-- What holds throughout a race holds before any party has taken a step. -/
theorem inv_of_live (hlive : x.Live l) (parties : List Party) : Inv l x x (parties.map .waits) where
  entry c hfind := by
    rw [hlive.entry] at hfind
    exact (Option.some.inj hfind).symm
  completing hclaim := by simp [hlive.unclaimed] at hclaim
  cancel := rfl
  uncancelled _ := hlive.uncancelled
  one i j r r' hi _ hr _ := by
    obtain ⟨p, -, rfl⟩ := List.mem_map.1 (List.mem_of_getElem? hi)
    cases hr
  asserts i r hi := by
    obtain ⟨p, -, rfl⟩ := List.mem_map.1 (List.mem_of_getElem? hi)
    trivial
  untouched _ _ := rfl
  owed hfind := by simp [hlive.entry] at hfind

section Step

variable {roles : List Role} (h : Inv l x₀ x roles) {i : Nat} {r : Role} (hi : roles[i]? = some r)
include h hi

/-- Whoever puts a last word into the queue is the only one who can have done so. -/
theorem Inv.placed?_eq_none {w : LastWord} (hputs : r.puts? l x = some w) {j : Nat} {r' : Role}
    (hj : roles[j]? = some r') : r'.placed? = none := by
  cases hplaced : r'.placed? with
  | none => rfl
  | some w' =>
    have hji := h.one j i r' r hj hi (Role.holds_of_placed? hplaced) (Role.holds_of_puts? hputs)
    subst hji
    cases hj.symm.trans hi
    unfold Role.puts? at hputs
    split at hputs <;> simp_all [Role.placed?]

/-- A party that has just found the call is the only one that has it. -/
theorem Inv.eq_of_holds_after (hafter : (r.after l x).holds = true) {j : Nat} {r' : Role}
    (hj : roles[j]? = some r') (hr' : r'.holds = true) : j = i := by
  obtain hr | hfound := Role.holds_after hafter
  · exact h.one j i r' r hj hi hr' hr
  · have habsent := Role.absent_of_holds (h.asserts j r' hj) hr'
    simp [habsent] at hfound

theorem Inv.one_after {j k : Nat} {r' r'' : Role} (hj : (roles.set i (r.after l x))[j]? = some r')
    (hk : (roles.set i (r.after l x))[k]? = some r'') (hr' : r'.holds = true) (hr'' : r''.holds = true) :
    j = k := by
  obtain ⟨rfl, rfl⟩ | ⟨-, hoj⟩ := eq_or_of_getElem?_set hj
  · obtain ⟨rfl, -⟩ | ⟨-, hok⟩ := eq_or_of_getElem?_set hk
    · rfl
    · exact (h.eq_of_holds_after hi hr' hok hr'').symm
  · obtain ⟨rfl, rfl⟩ | ⟨-, hok⟩ := eq_or_of_getElem?_set hk
    · exact h.eq_of_holds_after hi hr'' hoj hr'
    · exact h.one j k r' r'' hoj hok hr' hr''

theorem Inv.asserts_after {j : Nat} {r' : Role} (hj : (roles.set i (r.after l x))[j]? = some r') :
    r'.Asserts l x₀ (r.effect l x) := by
  obtain ⟨rfl, rfl⟩ | ⟨-, hj⟩ := eq_or_of_getElem?_set hj
  · refine Role.asserts_after (h.asserts j r hi) h.completing fun w hputs => ?_
    exact h.untouched fun k r' hk => h.placed?_eq_none hi hputs hk
  · refine (h.asserts j r' hj).keep (Role.onward_effect r).toKeeps fun w hplaced hreading => ?_
    cases hputs : r.puts? l x with
    | none => simpa [hputs] using Role.fragments_effect r hreading
    | some w' =>
      have hnone := h.placed?_eq_none hi hputs hj
      rw [hplaced] at hnone
      cases hnone

theorem Inv.untouched_after
    (hnobody : ∀ (j : Nat) (r' : Role), (roles.set i (r.after l x))[j]? = some r' → r'.placed? = none)
    (hreading : ((r.effect l x).queue l.queue).reading ≠ .dropped) :
    ((r.effect l x).queue l.queue).fragments = (x₀.queue l.queue).fragments := by
  have hlt := (List.getElem?_eq_some_iff.1 hi).1
  have hafter := hnobody i _ (List.getElem?_set_self hlt)
  rw [Role.placed?_after, Option.or_eq_none_iff] at hafter
  have hsame := Role.fragments_effect r hreading
  simp only [hafter.1, Option.map_none, Option.toList_none, List.append_nil] at hsame
  rw [hsame]
  refine h.untouched (fun j r' hj => ?_) ((Role.onward_effect r).dropped hreading)
  obtain ⟨-, rfl⟩ | hj := eq_or_getElem?_set hi hj (r.after l x)
  · exact hafter.2
  · exact hnobody j r' hj

theorem Inv.owed_after (hout : ((r.effect l x).table l.table).find? l.id = none) :
    ((r.effect l x).queue l.queue).isClosed = true ∨
      ∃ (j : Nat) (r' : Role), (roles.set i (r.after l x))[j]? = some r' ∧ r'.owes = true := by
  have hlt := (List.getElem?_eq_some_iff.1 hi).1
  have hmine (hbefore : ((x.table l.table).find? l.id).isSome = true ∨ r.owes = true) :
      ((r.effect l x).queue l.queue).isClosed = true ∨
        ∃ (j : Nat) (r' : Role), (roles.set i (r.after l x))[j]? = some r' ∧ r'.owes = true := by
    obtain hclosed | howes := Role.owes_after (h.asserts i r hi) hbefore hout
    · exact .inl hclosed
    · exact .inr ⟨i, _, List.getElem?_set_self hlt, howes⟩
  cases hfind : (x.table l.table).find? l.id with
  | some c => exact hmine (.inl (by simp [hfind]))
  | none =>
    obtain hclosed | ⟨j, r', hj, howes⟩ := h.owed hfind
    · exact .inl ((Role.onward_effect r).closed hclosed)
    · obtain ⟨-, rfl⟩ | hj := eq_or_getElem?_set hi hj (r.after l x)
      · exact hmine (.inr howes)
      · exact .inr ⟨j, r', hj, howes⟩

/-- A step of one party keeps what holds throughout a race. -/
theorem Inv.step : Inv l x₀ (r.effect l x) (roles.set i (r.after l x)) := by
  have hkeeps := (Role.onward_effect (l := l) (x := x) r).toKeeps
  refine
    { entry := fun c hc => h.entry c (hkeeps.entry c hc)
      cancel := hkeeps.cancel.trans h.cancel
      one := fun j k r' r'' hj hk => h.one_after hi hj hk
      asserts := fun j r' hj => h.asserts_after hi hj
      untouched := h.untouched_after hi
      owed := h.owed_after hi
      completing := ?completing, uncancelled := ?uncancelled }
  case completing =>
    intro hclaim
    by_cases hbefore : (x.control l.control).claim = .completing
    · exact hkeeps.absent (h.completing hbefore)
    · exact hkeeps.absent (Role.absent_of_completing (h.asserts i r hi) hbefore hclaim)
  case uncancelled =>
    intro hclaim
    have hbefore : (x.control l.control).claim ≠ .cancelled := by
      intro hcancelled
      apply hclaim
      rw [hkeeps.claim (by simp [hcancelled]), hcancelled]
    rw [← h.cancel, hkeeps.uncancelled hclaim, h.cancel]
    exact h.uncancelled hbefore

end Step

end Switchboard.Race
