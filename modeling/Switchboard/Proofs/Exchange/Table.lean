import Switchboard.Exchange.Table
import Switchboard.Proofs.Lookup
import Mathlib.Data.List.Nodup
import Mathlib.Data.List.Perm.Subperm
/-!
Lookups in a table of outstanding requests, and the numbers it gives out.
-/
namespace Switchboard.Table

variable {t : Table} {id id' : RequestId} {c : PendingCall}

theorem find?_eq_none_iff : t.find? id = none ↔ ∀ e ∈ t.calls, e.1 ≠ id := by
  simp [find?, List.find?_eq_none]

theorem contains_iff : t.contains id = true ↔ ∃ c, t.find? id = some c := by
  simp [contains, Option.isSome_iff_exists]

theorem contains_eq_false_iff : t.contains id = false ↔ t.find? id = none := by
  simp [contains]

theorem mem_of_find? (h : t.find? id = some c) : (id, c) ∈ t.calls := by
  obtain ⟨⟨key, value⟩, hfind, rfl⟩ := Option.map_eq_some_iff.1 h
  have hkey : key = id := by simpa using List.find?_some hfind
  subst hkey
  exact List.mem_of_find?_eq_some hfind

@[simp] theorem erase_lastId : (t.erase id).lastId = t.lastId := rfl

/-- Removing a number hides its call and no other. -/
theorem find?_erase : (t.erase id).find? id' = if id' = id then none else t.find? id' := by
  have hcalls : (t.erase id).calls = t.calls.filter fun e => e.1 != id := by
    simp only [erase, ne_eq, decide_not]
    rfl
  have hfind (u : Table) : u.find? id' = (u.calls.find? fun e => e.1 == id').map Prod.snd := rfl
  rw [hfind, hfind, hcalls, find?_removed]
  split <;> rfl

@[simp] theorem find?_erase_self : (t.erase id).find? id = none := by simp [find?_erase]

/-- Removing a number that is not outstanding changes nothing. -/
theorem erase_eq_self (h : t.find? id = none) : t.erase id = t := by
  have hkeys := find?_eq_none_iff.1 h
  have hfilter : t.calls.filter (fun e => e.1 ≠ id) = t.calls := by
    rw [List.filter_eq_self]
    intro e he
    simpa using hkeys e he
  simp only [erase, hfilter]

/-- A number stands in the table only once. -/
def Keyed (t : Table) : Prop := (t.calls.map Prod.fst).Nodup

theorem Keyed.erase (h : t.Keyed) : (t.erase id).Keyed :=
  h.sublist (List.filter_sublist.map Prod.fst)

theorem Keyed.find?_eq_some_iff (h : t.Keyed) : t.find? id = some c ↔ (id, c) ∈ t.calls := by
  refine ⟨mem_of_find?, fun hmem => ?_⟩
  cases hfind : t.find? id with
  | none => exact absurd rfl (find?_eq_none_iff.1 hfind _ hmem)
  | some d =>
    have hsame := List.inj_on_of_nodup_map h (mem_of_find? hfind) hmem rfl
    exact congrArg some (congrArg Prod.snd hsame)

theorem Keyed.removeAll (h : t.Keyed) (p : PendingCall → Bool) : (t.removeAll p).2.Keyed :=
  h.sublist (List.filter_sublist.map Prod.fst)

/-- Removing the calls with a property hides exactly these. -/
theorem Keyed.find?_removeAll (h : t.Keyed) {p : PendingCall → Bool} :
    (t.removeAll p).2.find? id = some c ↔ t.find? id = some c ∧ p c = false := by
  rw [(h.removeAll p).find?_eq_some_iff, h.find?_eq_some_iff]
  simp [Table.removeAll]

theorem mem_removeAll {p : PendingCall → Bool} :
    c ∈ (t.removeAll p).1 ↔ p c = true ∧ ∃ id, (id, c) ∈ t.calls := by
  simp only [removeAll, List.mem_map, List.mem_filter, Prod.exists]
  constructor
  · rintro ⟨id, _, ⟨hmem, hp⟩, rfl⟩
    exact ⟨hp, id, hmem⟩
  · rintro ⟨hp, id, hmem⟩
    exact ⟨id, c, ⟨hmem, hp⟩, rfl⟩

/-- If the next number is not outstanding, it is given out. -/
theorem nextId_eq (h : t.find? (after t.lastId) = none) : t.nextId = after t.lastId := by
  unfold nextId
  cases t.calls.length with
  | zero => rfl
  | succ n => simp [firstFree, contains_eq_false_iff.2 h]

theorem find?_register (h : t.find? t.nextId = none) :
    (t.register c).2.find? id = if id = t.nextId then some c else t.find? id := by
  unfold find? register
  rw [List.find?_append]
  split
  case isTrue hid =>
    subst hid
    have hnone : t.calls.find? (fun e => e.1 = t.nextId) = none := by simpa [find?] using h
    simp [hnone]
  case isFalse hid =>
    simp [Ne.symm hid]

theorem Keyed.register (h : t.Keyed) (hfree : t.find? t.nextId = none) : (t.register c).2.Keyed := by
  have hkeys := find?_eq_none_iff.1 hfree
  unfold Keyed Table.register
  simp only [List.map_append, List.map_cons, List.map_nil]
  refine List.nodup_append.2 ⟨h, by simp, ?_⟩
  rintro a ha b hb rfl
  obtain ⟨e, he, rfl⟩ := List.mem_map.1 ha
  exact hkeys e he (by simpa using hb)

/-- The last number given out after so many registrations, if none of the numbers on the way is
outstanding when its turn comes. -/
def numbered (start : RequestId) : Nat → RequestId
  | 0 => start
  | n + 1 => after (numbered start n)

theorem toNat_after (id : RequestId) : (after id).toNat = id.toNat % 4294967295 + 1 := by
  have hbound := id.toNat_lt
  unfold after
  by_cases h : id + 1 = 0
  · have hlast : id.toNat = 4294967295 := by
      have hsum := congrArg UInt32.toNat h
      simp only [UInt32.toNat_add, UInt32.toNat_one, UInt32.toNat_zero] at hsum
      omega
    simp [h, hlast]
  · have hlast : id.toNat ≠ 4294967295 := by
      intro hlast
      apply h
      apply UInt32.toNat_inj.1
      simp [UInt32.toNat_add, hlast]
    simp only [h, if_false, UInt32.toNat_add, UInt32.toNat_one]
    omega

theorem toNat_numbered_succ (start : RequestId) (n : Nat) :
    (numbered start (n + 1)).toNat = (start.toNat + n) % 4294967295 + 1 := by
  induction n with
  | zero => simp [numbered, toNat_after]
  | succ n ih =>
    rw [numbered, toNat_after, ih]
    omega

/-- The numbers go round, but only after all of them have been given out. -/
theorem numbered_injective {start : RequestId} {i j : Nat} (hi : i < 4294967295) (hj : j < 4294967295)
    (h : numbered start (i + 1) = numbered start (j + 1)) : i = j := by
  have hnat := congrArg UInt32.toNat h
  simp only [toNat_numbered_succ] at hnat
  omega

/-- A table that has given out so many numbers, and has calls under these only, gives out the next one. -/
theorem nextId_of_numbered {start : RequestId} {n : Nat} (hlastId : t.lastId = numbered start n)
    (hentries : ∀ e ∈ t.calls, ∃ i < n, e.1 = numbered start (i + 1)) (hfew : n < 4294967295) :
    t.nextId = numbered start (n + 1) ∧ t.find? t.nextId = none := by
  have hlast : after t.lastId = numbered start (n + 1) := congrArg after hlastId
  have hfree : t.find? (numbered start (n + 1)) = none := by
    refine find?_eq_none_iff.2 fun e he heq => ?_
    obtain ⟨i, hi, hnumber⟩ := hentries e he
    have hsame := numbered_injective (by omega) hfew (hnumber.symm.trans heq)
    omega
  have hnext : t.nextId = numbered start (n + 1) := by rw [nextId_eq (by rw [hlast]; exact hfree), hlast]
  exact ⟨hnext, by rw [hnext]; exact hfree⟩

theorem numbered_after (id : RequestId) (n : Nat) : numbered (after id) n = numbered id (n + 1) := by
  induction n with
  | zero => rfl
  | succ n ih => exact congrArg after ih

/-- Whoever tries enough numbers finds one that is not outstanding, if there is one among these. -/
theorem find?_firstFree {n k : Nat} (hk : k ≤ n) (hfree : t.find? (numbered id k) = none) :
    t.find? (t.firstFree id n) = none := by
  induction n generalizing id k with
  | zero =>
    obtain rfl : k = 0 := by omega
    exact hfree
  | succ n ih =>
    unfold firstFree
    cases hid : t.contains id with
    | false => simpa using contains_eq_false_iff.1 hid
    | true =>
      cases k with
      | zero =>
        have habsent : t.contains id = false := contains_eq_false_iff.2 hfree
        rw [hid] at habsent
        cases habsent
      | succ k =>
        rw [if_pos rfl]
        exact ih (k := k) (by omega) (by rw [numbered_after]; exact hfree)

/-- As long as not all numbers are outstanding, the next number is not. -/
theorem find?_nextId (hroom : t.calls.length < 4294967295) : t.find? t.nextId = none := by
  by_contra hnext
  have hall : ∀ k ≤ t.calls.length, numbered (after t.lastId) k ∈ t.calls.map Prod.fst := by
    intro k hk
    by_contra hk'
    refine hnext (find?_firstFree hk (find?_eq_none_iff.2 fun e he heq => hk' ?_))
    exact List.mem_map.2 ⟨e, he, heq⟩
  have hdistinct : ((List.range (t.calls.length + 1)).map (numbered (after t.lastId))).Nodup := by
    refine List.nodup_range.map_on fun i hi j hj heq => ?_
    rw [List.mem_range] at hi hj
    rw [numbered_after, numbered_after] at heq
    exact numbered_injective (by omega) (by omega) heq
  have hsubset : (List.range (t.calls.length + 1)).map (numbered (after t.lastId)) ⊆
      t.calls.map Prod.fst := by
    intro id hid
    obtain ⟨k, hk, rfl⟩ := List.mem_map.1 hid
    rw [List.mem_range] at hk
    exact hall k (by omega)
  have hlength := (List.subperm_of_subset hdistinct hsubset).length_le
  simp only [List.length_map, List.length_range] at hlength
  omega

/-- Whoever has more numbers outstanding, but not the one that is found, finds the same one. -/
theorem firstFree_eq {t' : Table} {n n' : Nat} (hn : n ≤ n')
    (hmore : ∀ id, t.contains id = true → t'.contains id = true)
    (hfree : t'.contains (t.firstFree id n) = false) : t'.firstFree id n' = t.firstFree id n := by
  induction n generalizing id n' with
  | zero =>
    cases n' with
    | zero => rfl
    | succ n' =>
      unfold firstFree at hfree ⊢
      rw [hfree]
      rfl
  | succ n ih =>
    cases n' with
    | zero => omega
    | succ n' =>
      unfold firstFree at hfree ⊢
      cases hid : t.contains id with
      | true =>
        rw [hid, if_pos rfl] at hfree
        rw [hmore id hid, if_pos rfl, if_pos rfl]
        exact ih (by omega) hfree
      | false =>
        rw [hid] at hfree
        simp only [Bool.false_eq_true, if_false] at hfree ⊢
        rw [hfree]
        rfl

/-- More calls leave the next number as it is, if none of them is outstanding under it. -/
theorem nextId_of_subset {t' : Table} (hlastId : t'.lastId = t.lastId) (hkeyed : t.Keyed)
    (hmore : ∀ e ∈ t.calls, e ∈ t'.calls) (hfree : t'.find? t.nextId = none) : t'.nextId = t.nextId := by
  have hlength : t.calls.length ≤ t'.calls.length := by
    have hdistinct : t.calls.Nodup := List.Nodup.of_map _ hkeyed
    exact (List.subperm_of_subset hdistinct hmore).length_le
  unfold nextId
  rw [hlastId]
  refine firstFree_eq hlength (fun id hid => ?_) (contains_eq_false_iff.2 hfree)
  cases hid' : t'.contains id with
  | true => rfl
  | false =>
    obtain ⟨pending, hfind⟩ := contains_iff.1 hid
    have habsent := find?_eq_none_iff.1 (contains_eq_false_iff.1 hid')
    exact absurd rfl (habsent _ (hmore _ (mem_of_find? hfind)))

end Switchboard.Table
