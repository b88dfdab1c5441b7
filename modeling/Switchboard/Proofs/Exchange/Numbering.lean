import Switchboard.Proofs.Exchange.Delivering
import Switchboard.Proofs.Exchange.Table
/-!
The numbers a table gives out. Whatever is removed in between, the numbers follow each other round the circle of all
numbers but zero, so that until they have come round none of them stands for a second call.
-/
namespace Switchboard.Table

variable {start id : RequestId} {t : Table} {c : PendingCall} {cs : List PendingCall} {acts : List Act}

/-- What can be done to a table. -/
inductive Act where
  | register (c : PendingCall)
  | resolve (id : RequestId) (removing : Bool)
  | remove (id : RequestId)
  | removeAll (p : PendingCall → Bool)

namespace Act

/-- The call that is registered. -/
def call? : Act → Option PendingCall
  | .register c => some c
  | .resolve .. | .remove _ | .removeAll _ => none

/-- The number that is given out, with the call that is registered under it. -/
def issued? (t : Table) : Act → Option (RequestId × PendingCall)
  | .register c => some ((t.register c).1, c)
  | .resolve .. | .remove _ | .removeAll _ => none

/-- The table afterwards. -/
def perform (t : Table) : Act → Table
  | .register c => (t.register c).2
  | .resolve id removing => (t.resolve id removing).2
  | .remove id => (t.remove id).2
  | .removeAll p => (t.removeAll p).2

/-- An act that registers nothing takes calls out of the table, or none, and does nothing else. -/
theorem perform_of_call?_eq_none {a : Act} (h : a.call? = none) :
    (a.perform t).lastId = t.lastId ∧ (a.perform t).calls.Sublist t.calls := by
  cases a with
  | register => cases h
  | resolve id removing =>
    cases removing with
    | true => exact ⟨rfl, List.filter_sublist⟩
    | false => exact ⟨rfl, List.Sublist.refl _⟩
  | remove => exact ⟨rfl, List.filter_sublist⟩
  | removeAll => exact ⟨rfl, List.filter_sublist⟩

end Act

/-- The table after acts. -/
def run (t : Table) (acts : List Act) : Table := acts.foldl (fun t a => a.perform t) t

/-- The calls that acts register. -/
def registered (acts : List Act) : List PendingCall := acts.filterMap Act.call?

@[simp] theorem registered_nil : registered [] = [] := rfl

theorem registered_cons (a : Act) (acts : List Act) :
    registered (a :: acts) = a.call?.toList ++ registered acts := by
  cases hcall : a.call? <;> simp [registered, hcall]

/-- The numbers that acts are given out, with the calls that are registered under them. -/
def issued (t : Table) : List Act → List (RequestId × PendingCall)
  | [] => []
  | a :: acts => (a.issued? t).toList ++ issued (a.perform t) acts

theorem find?_of_sublist {t' : Table} (h : t'.calls.Sublist t.calls) (hfind : t.find? id = none) :
    t'.find? id = none :=
  find?_eq_none_iff.2 fun e he => find?_eq_none_iff.1 hfind e (h.subset he)

/-- Calls with the numbers that follow a number. -/
def numberedCalls (start : RequestId) (cs : List PendingCall) : List (RequestId × PendingCall) :=
  cs.mapIdx fun i c => (numbered start (i + 1), c)

section NumberedCalls

@[simp] theorem numberedCalls_nil : numberedCalls start [] = [] := rfl

theorem numberedCalls_concat (cs : List PendingCall) (c : PendingCall) :
    numberedCalls start (cs ++ [c]) = numberedCalls start cs ++ [(numbered start (cs.length + 1), c)] :=
  List.mapIdx_concat

theorem getElem?_numberedCalls (n : Nat) :
    (numberedCalls start cs)[n]? = cs[n]?.map (numbered start (n + 1), ·) := List.getElem?_mapIdx

theorem mem_numberedCalls {e : RequestId × PendingCall} :
    e ∈ numberedCalls start cs ↔ ∃ n, cs[n]? = some e.2 ∧ e.1 = numbered start (n + 1) := by
  simp only [List.mem_iff_getElem?, getElem?_numberedCalls, Option.map_eq_some_iff]
  constructor
  · rintro ⟨n, c, hc, rfl⟩
    exact ⟨n, hc, rfl⟩
  · rintro ⟨n, hc, hnumber⟩
    exact ⟨n, e.2, hc, Prod.ext hnumber.symm rfl⟩

theorem map_snd_numberedCalls : (numberedCalls start cs).map Prod.snd = cs := by
  refine List.ext_getElem? fun n => ?_
  rw [List.getElem?_map, getElem?_numberedCalls]
  cases cs[n]? <;> rfl

/-- As long as the numbers have not come round, no number stands for two calls. -/
theorem nodup_numberedCalls (hfew : cs.length ≤ 4294967295) : ((numberedCalls start cs).map Prod.fst).Nodup := by
  refine List.pairwise_iff_getElem.2 fun i j hi hj hij heq => ?_
  have hlength : ((numberedCalls start cs).map Prod.fst).length = cs.length := by simp [numberedCalls]
  have hsame : numbered start (i + 1) = numbered start (j + 1) := by simpa [numberedCalls] using heq
  have hindex := numbered_injective (by omega) (by omega) hsame
  omega

theorem numbered_succ_ne_zero (start : RequestId) (n : Nat) : numbered start (n + 1) ≠ 0 := by
  intro hzero
  have hnat := toNat_numbered_succ start n
  rw [hzero] at hnat
  cases hnat

end NumberedCalls

/-- A table in which these calls have been registered one after another, whatever has been removed. -/
structure Numbered (start : RequestId) (cs : List PendingCall) (t : Table) : Prop where
  lastId : t.lastId = numbered start cs.length
  entries : ∀ e ∈ t.calls, e ∈ numberedCalls start cs

namespace Numbered

theorem empty (start : RequestId) : Numbered start [] ⟨start, []⟩ := ⟨rfl, by simp⟩

/-- The next number is the one after the last, since no call has come to it yet. -/
theorem next (h : Numbered start cs t) (hfew : cs.length < 4294967295) :
    t.nextId = numbered start (cs.length + 1) ∧ t.find? t.nextId = none := by
  refine nextId_of_numbered h.lastId (fun e he => ?_) hfew
  obtain ⟨i, hi, hnumber⟩ := mem_numberedCalls.1 (h.entries e he)
  exact ⟨i, (List.getElem?_eq_some_iff.1 hi).1, hnumber⟩

theorem register (h : Numbered start cs t) (hfew : cs.length < 4294967295) (c : PendingCall) :
    Numbered start (cs ++ [c]) (t.register c).2 := by
  obtain ⟨hnext, -⟩ := h.next hfew
  refine ⟨by simpa [Table.register] using hnext, fun e he => ?_⟩
  rw [numberedCalls_concat, ← hnext]
  exact List.mem_append.2 ((List.mem_append.1 he).imp_left (h.entries e))

theorem room_of_register (hfew : (cs ++ (Act.register c).call?.toList).length ≤ 4294967295) :
    cs.length < 4294967295 := by
  simp only [Act.call?, Option.toList_some, List.length_append, List.length_singleton] at hfew
  omega

section Step

variable {a : Act} (hfew : (cs ++ a.call?.toList).length ≤ 4294967295)
include hfew

/-- What one act does. -/
theorem perform (h : Numbered start cs t) : Numbered start (cs ++ a.call?.toList) (a.perform t) ∧
    numberedCalls start cs ++ (a.issued? t).toList = numberedCalls start (cs ++ a.call?.toList) := by
  cases hcall : a.call? with
  | some c =>
    cases a with
    | register d =>
      obtain rfl : d = c := Option.some.inj hcall
      have hroom := room_of_register hfew
      refine ⟨h.register hroom d, ?_⟩
      rw [Option.toList_some, numberedCalls_concat, ← (h.next hroom).1]
      rfl
    | resolve | remove | removeAll => cases hcall
  | none =>
    obtain ⟨hlastId, hcalls⟩ := Act.perform_of_call?_eq_none (t := t) hcall
    rw [Option.toList_none, List.append_nil]
    refine ⟨⟨hlastId.trans h.lastId, fun e he => h.entries e (hcalls.subset he)⟩, ?_⟩
    cases a with
    | register => cases hcall
    | resolve | remove | removeAll => exact List.append_nil _

/-- A number that has been given out and is not outstanding any more is not outstanding after another act either. -/
theorem find?_perform (h : Numbered start cs t) {n : Nat} (hn : n < cs.length)
    (hgone : t.find? (numbered start (n + 1)) = none) : (a.perform t).find? (numbered start (n + 1)) = none := by
  cases hcall : a.call? with
  | none => exact find?_of_sublist (Act.perform_of_call?_eq_none hcall).2 hgone
  | some c =>
    cases a with
    | register d =>
      have hroom := room_of_register hfew
      obtain ⟨hnext, hfree⟩ := h.next hroom
      have hother : numbered start (n + 1) ≠ t.nextId := by
        rw [hnext]
        intro heq
        have hindex := numbered_injective (by omega) hroom heq
        omega
      rw [Act.perform, find?_register hfree, if_neg hother, hgone]
    | resolve | remove | removeAll => cases hcall

end Step

/-- What acts do one after another. A number that has been given out before them and is not outstanding any more never
comes back. -/
theorem run (h : Numbered start cs t) (acts : List Act) (hfew : (cs ++ registered acts).length ≤ 4294967295) :
    Numbered start (cs ++ registered acts) (t.run acts) ∧
      numberedCalls start cs ++ issued t acts = numberedCalls start (cs ++ registered acts) ∧
      ∀ n < cs.length, t.find? (numbered start (n + 1)) = none →
        (t.run acts).find? (numbered start (n + 1)) = none := by
  induction acts generalizing cs t with
  | nil =>
    rw [registered_nil, List.append_nil]
    exact ⟨h, List.append_nil _, fun _ _ hgone => hgone⟩
  | cons a acts ih =>
    rw [registered_cons, ← List.append_assoc] at hfew ⊢
    have hfirst : (cs ++ a.call?.toList).length ≤ 4294967295 := by rw [List.length_append] at hfew; omega
    obtain ⟨hperform, hissued⟩ := h.perform hfirst
    obtain ⟨hrun, hrest, hstays⟩ := ih hperform hfew
    refine ⟨hrun, ?_, fun n hn hgone => hstays n ?_ (h.find?_perform hfirst hn hgone)⟩
    · rw [issued, ← List.append_assoc, hissued, hrest]
    · rw [List.length_append]
      omega

end Numbered

section Absent

variable (h : t.find? id = none)
include h

theorem resolve_of_absent (removing : Bool) : t.resolve id removing = (none, t) := by
  cases removing with
  | true => exact Prod.ext h (erase_eq_self h)
  | false => exact Prod.ext h rfl

theorem remove_of_absent : t.remove id = (false, t) :=
  Prod.ext (contains_eq_false_iff.2 h) (erase_eq_self h)

end Absent

/-- As long as a table has given out no more numbers than there are but zero, it gives them out in their order, whatever
has been removed. None of them is zero and none stands for two calls; whatever is outstanding is outstanding under the
number it has been given; and a number that is not outstanding any more stands for nothing ever after, so that whoever
still looks it up, removes it or delivers to it finds nothing and changes nothing. -/
theorem numbers_fresh (start : RequestId) (acts : List Act) (hfew : (registered acts).length ≤ 4294967295) :
    ((issued ⟨start, []⟩ acts).map Prod.snd = registered acts ∧ ∀ (n : Nat) (id : RequestId) (c : PendingCall),
        (issued ⟨start, []⟩ acts)[n]? = some (id, c) → id.toNat = (start.toNat + n) % 4294967295 + 1) ∧
      ((∀ e ∈ issued ⟨start, []⟩ acts, e.1 ≠ 0) ∧ ((issued ⟨start, []⟩ acts).map Prod.fst).Nodup) ∧
      (∀ (id : RequestId) (c : PendingCall), (run ⟨start, []⟩ acts).find? id = some c →
        (id, c) ∈ issued ⟨start, []⟩ acts) ∧
      ∀ earlier later : List Act, acts = earlier ++ later → ∀ e ∈ issued ⟨start, []⟩ earlier,
        (run ⟨start, []⟩ earlier).find? e.1 = none → ∀ t, t = run ⟨start, []⟩ acts →
          (∀ removing, t.resolve e.1 removing = (none, t)) ∧ t.remove e.1 = (false, t) ∧
            ∀ (x : Exchange) (i : TableId) (f : Fragment), x.table i = t → f.requestId = e.1 →
              (deliver i f).run x = (.unknownRequest, x) := by
  obtain ⟨hrun, hissued, -⟩ := (Numbered.empty start).run acts hfew
  rw [numberedCalls_nil, List.nil_append, List.nil_append] at hissued
  rw [hissued]
  refine ⟨⟨map_snd_numberedCalls, ?_⟩, ⟨?_, nodup_numberedCalls hfew⟩, ?_, ?_⟩
  · intro n id c hid
    rw [getElem?_numberedCalls, Option.map_eq_some_iff] at hid
    obtain ⟨d, -, heq⟩ := hid
    cases heq
    exact toNat_numbered_succ start n
  · intro e he
    obtain ⟨n, -, hnumber⟩ := mem_numberedCalls.1 he
    rw [hnumber]
    exact numbered_succ_ne_zero start n
  · exact fun id c hfind => hrun.entries _ (mem_of_find? hfind)
  · -- once more from the beginning, but only as far as where the number is known not to be outstanding
    rintro earlier later rfl e he hgone t rfl
    have hsplit : registered (earlier ++ later) = registered earlier ++ registered later := List.filterMap_append
    rw [hsplit] at hfew
    have hfirst : (registered earlier).length ≤ 4294967295 := by rw [List.length_append] at hfew; omega
    obtain ⟨hearlier, hnumbers, -⟩ := (Numbered.empty start).run earlier hfirst
    rw [numberedCalls_nil, List.nil_append, List.nil_append] at hnumbers
    rw [hnumbers] at he
    obtain ⟨n, hn, hnumber⟩ := mem_numberedCalls.1 he
    have hlt := (List.getElem?_eq_some_iff.1 hn).1
    have habsent : (run ⟨start, []⟩ (earlier ++ later)).find? e.1 = none := by
      rw [hnumber] at hgone ⊢
      rw [run, List.foldl_append]
      exact (hearlier.run later hfew).2.2 n hlt hgone
    refine ⟨resolve_of_absent habsent, remove_of_absent habsent, fun x i f hx hf => deliver_of_absent ?_⟩
    rw [hx, hf, habsent]

/-- Acts that give out the last number and go on with the first ones, while calls are removed in every way. -/
def roundTheCircle : List Act :=
  [.register ⟨⟨0⟩, ⟨0⟩⟩, .remove 4294967295, .register ⟨⟨1⟩, ⟨1⟩⟩, .resolve 1 true, .register ⟨⟨2⟩, ⟨2⟩⟩,
    .removeAll fun _ => true, .register ⟨⟨3⟩, ⟨3⟩⟩]

/-- A delivery to the last number comes too late, and changes nothing for the call that is outstanding. -/
theorem numbers_fresh_round : (registered roundTheCircle).length ≤ 4294967295 ∧
    (issued ⟨4294967294, []⟩ roundTheCircle).map Prod.fst = [4294967295, 1, 2, 3] ∧
    ((issued ⟨4294967294, []⟩ roundTheCircle).map Prod.fst).Nodup ∧
    ∀ (x : Exchange) (i : TableId) (f : Fragment), x.table i = run ⟨4294967294, []⟩ roundTheCircle →
      f.requestId = 4294967295 → (deliver i f).run x = (.unknownRequest, x) := by
  have hfew : (registered roundTheCircle).length ≤ 4294967295 := by decide
  obtain ⟨-, ⟨-, hnodup⟩, -, hstale⟩ := numbers_fresh 4294967294 roundTheCircle hfew
  obtain ⟨-, -, hdeliver⟩ := hstale (roundTheCircle.take 2) (roundTheCircle.drop 2) rfl
    (4294967295, ⟨⟨0⟩, ⟨0⟩⟩) (by decide) rfl _ rfl
  exact ⟨hfew, rfl, hnodup, hdeliver⟩

end Switchboard.Table
