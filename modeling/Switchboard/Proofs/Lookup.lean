/-!
Lists that things are looked up in, by their places or by keys: what is found after something has been put in a place,
and what is found under a key after another one has been removed or a value has been put under it.
-/
namespace Switchboard

section Places

variable {α : Type} {as : List α} {a d : α} {i j : Nat}

theorem getD_set : (as.set i a).getD j d = if j = i ∧ i < as.length then a else as.getD j d := by
  simp only [List.getD_eq_getElem?_getD, List.getElem?_set]
  by_cases hij : j = i
  · subst hij
    by_cases hlt : j < as.length <;> simp [hlt]
  · simp [hij, Ne.symm hij]

/-- A function that leaves the default as it is changes the place it is meant for, whether there is such a
place or not. -/
theorem getD_set_of_default {f : α → α} (hdefault : f d = d) :
    (as.set i (f (as.getD i d))).getD j d = if j = i then f (as.getD i d) else as.getD j d := by
  rw [getD_set]
  by_cases hlt : i < as.length
  · simp [hlt]
  · by_cases hij : j = i
    · subst hij
      simp [hlt, hdefault]
    · simp [hij]

theorem set_getD_self : as.set i (as.getD i d) = as := by
  by_cases hlt : i < as.length
  · simp [List.getD_eq_getElem?_getD, hlt]
  · exact List.set_eq_of_length_le (by omega)

/-- What is made of a place that has just been set is made of what it has been set to. -/
theorem set_getD_set {f : α → α} :
    (as.set i a).set i (f ((as.set i a).getD i d)) = as.set i (f a) := by
  rw [List.set_set, getD_set]
  by_cases hlt : i < as.length
  · rw [if_pos ⟨rfl, hlt⟩]
  · rw [List.set_eq_of_length_le (by omega), List.set_eq_of_length_le (by omega)]

theorem map_set_of_getElem? {β : Type} {g : α → β} {b : α} (hi : as[i]? = some b) (hsame : g a = g b) :
    (as.set i a).map g = as.map g := by
  obtain ⟨hlt, rfl⟩ := List.getElem?_eq_some_iff.1 hi
  rw [List.map_set, hsame, ← List.getElem_map g (h := by simpa using hlt), List.set_getElem_self]

/-- A change that does not show leaves what shows as it is. -/
theorem map_set_getD {β : Type} {f : α → α} {g : α → β} (hf : ∀ a, g (f a) = g a) :
    (as.set i (f (as.getD i d))).map g = as.map g := by
  cases hi : as[i]? with
  | none => rw [List.set_eq_of_length_le (List.getElem?_eq_none_iff.1 hi)]
  | some b =>
    refine map_set_of_getElem? hi ?_
    rw [hf, List.getD_eq_getElem?_getD, hi]
    rfl

theorem getD_concat : (as ++ [a]).getD i d = if i = as.length then a else as.getD i d := by
  simp only [List.getD_eq_getElem?_getD]
  obtain hlt | rfl | hgt := Nat.lt_trichotomy i as.length
  · rw [List.getElem?_append_left hlt, if_neg (Nat.ne_of_lt hlt)]
  · simp
  · rw [List.getElem?_eq_none (by simp; omega), List.getElem?_eq_none (by omega),
      if_neg (Nat.ne_of_gt hgt)]

theorem getElem?_concat : (as ++ [a])[i]? = some d ↔ as[i]? = some d ∨ i = as.length ∧ a = d := by
  rw [List.getElem?_append]
  split
  case isTrue hlt =>
    constructor
    · exact .inl
    · rintro (hd | ⟨rfl, -⟩)
      · exact hd
      · omega
  case isFalse hge =>
    rw [List.getElem?_eq_none (by omega : as.length ≤ i), List.getElem?_singleton]
    by_cases hi : i - as.length = 0
    · simp [show i = as.length by omega]
    · simp [hi, show i ≠ as.length by omega]

theorem eq_or_getElem?_set {b : α} (hi : as[i]? = some b) (hj : as[j]? = some d) (a : α) :
    j = i ∧ d = b ∨ (as.set i a)[j]? = some d := by
  by_cases hij : j = i
  · subst hij
    exact .inl ⟨rfl, Option.some.inj (hj.symm.trans hi)⟩
  · exact .inr (by rw [List.getElem?_set_ne (Ne.symm hij), hj])

theorem eq_or_of_getElem?_set (h : (as.set i a)[j]? = some d) :
    j = i ∧ d = a ∨ j ≠ i ∧ as[j]? = some d := by
  by_cases hij : j = i
  · subst hij
    have hlt : j < as.length := by simpa using (List.getElem?_eq_some_iff.1 h).1
    rw [List.getElem?_set_self hlt] at h
    exact .inl ⟨rfl, (Option.some.inj h).symm⟩
  · rw [List.getElem?_set_ne (Ne.symm hij)] at h
    exact .inr ⟨hij, h⟩

end Places

section Keys

variable {κ α : Type} [DecidableEq κ] {key other : κ} {a : α}

/-- Removing a key hides what is under it, and nothing else. -/
theorem find?_removed (entries : List (κ × α)) :
    ((entries.filter fun e => e.1 != key).find? fun e => e.1 == other) =
      if other = key then none else entries.find? fun e => e.1 == other := by
  rw [List.find?_filter]
  split
  case isTrue h =>
    subst h
    simp
  case isFalse h =>
    congr 1
    funext e
    by_cases he : e.1 = other <;> simp [he, h]

/-- Putting a value under a key, in the place of the one that was there, changes what is under this key only. -/
theorem find?_replaced (entries : List (κ × α)) :
    ((entries.filter (fun e => e.1 != key) ++ [(key, a)]).find? fun e => e.1 == other).map Prod.snd =
      if other = key then some a else (entries.find? fun e => e.1 == other).map Prod.snd := by
  rw [List.find?_append, find?_removed]
  split
  case isTrue h => simp [h]
  case isFalse h => simp [Ne.symm h]

end Keys

end Switchboard
