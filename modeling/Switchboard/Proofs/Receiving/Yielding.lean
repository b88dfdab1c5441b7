import Switchboard.Proofs.Receiving.Sequence
/-!
Whoever reads the answer of a call item by item gets the sequence that the fragments stand for which the queue has
accepted, whenever they come and whenever he asks, and after its end only that there is no more.
-/
namespace Switchboard.Receiving

open Exchange Process

variable {α : Type} {l : Listener} {x : Exchange} {m : Manner α}

namespace Manner

/-- The sequence goes on after these fragments, and nothing in it has failed so far. -/
structure Goes (m : Manner α) (fs : List Fragment) : Prop where
  append : ∀ more, m.sequence (fs ++ more) = m.sequence fs ++ m.sequence more
  ok : ∀ a ∈ m.sequence fs, ∃ b, a = .ok b

/-- The sequence is over after these fragments, whatever follows. -/
def Stops (m : Manner α) (fs : List Fragment) : Prop := ∀ more, m.sequence (fs ++ more) = m.sequence fs

variable {f : Fragment} {fs gs : List Fragment}

theorem goes_nil (m : Manner α) : m.Goes [] := ⟨fun _ => rfl, fun _ ha => by cases ha⟩

theorem Goes.trans (hfs : m.Goes fs) (hgs : m.Goes gs) : m.Goes (fs ++ gs) where
  append more := by rw [List.append_assoc, hfs.append, hgs.append, hfs.append, List.append_assoc]
  ok a ha := by
    rw [hfs.append, List.mem_append] at ha
    exact ha.elim (hfs.ok a) (hgs.ok a)

theorem Goes.stops (hfs : m.Goes fs) (hgs : m.Stops gs) : m.Stops (fs ++ gs) := by
  intro more
  rw [List.append_assoc, hfs.append, hgs more, hfs.append]

/-- A fragment that is passed over. -/
structure Passes (f : Fragment) : Prop where
  status : f.status ≠ .error
  empty : f.payload.isEmpty = true

theorem goes_of_passes (hfs : ∀ f ∈ fs, Passes f) : m.Goes fs ∧ m.sequence fs = [] := by
  induction fs with
  | nil => exact ⟨m.goes_nil, rfl⟩
  | cons f rest ih =>
    obtain ⟨hrest, hnothing⟩ := ih fun g hg => hfs g (List.mem_cons_of_mem f hg)
    obtain ⟨hstatus, hempty⟩ := hfs f List.mem_cons_self
    have hsame (more : List Fragment) : m.sequence (f :: more) = m.sequence more :=
      sequence_cons_empty hstatus hempty
    refine ⟨⟨fun more => ?_, fun a ha => ?_⟩, by rw [hsame, hnothing]⟩
    · rw [List.cons_append, hsame, hsame, hrest.append]
    · rw [hsame, hnothing] at ha
      cases ha

/-- Passing fragments over changes nothing. -/
theorem Goes.passed (hfs : m.Goes fs) (hgs : ∀ f ∈ gs, Passes f) :
    m.Goes (fs ++ gs) ∧ m.sequence (fs ++ gs) = m.sequence fs := by
  obtain ⟨hmore, hnothing⟩ := goes_of_passes (m := m) hgs
  exact ⟨hfs.trans hmore, by rw [hfs.append, hnothing, List.append_nil]⟩

/-- A payload that is turned into an item. -/
theorem goes_of_ok (hstatus : f.status ≠ .error) (hpayload : f.payload.isEmpty = false) {a : α}
    (hturn : m.turn (.ok f.payload) = .ok a) : m.Goes [f] ∧ m.sequence [f] = [.ok a] := by
  have hcons (more : List Fragment) : m.sequence (f :: more) = .ok a :: m.sequence more := by
    rw [sequence_cons_payload hstatus hpayload, hturn]
    rfl
  refine ⟨⟨fun more => ?_, fun b hb => ?_⟩, hcons []⟩
  · rw [List.singleton_append, hcons, hcons]
    rfl
  · rw [hcons] at hb
    exact ⟨a, List.mem_singleton.1 hb⟩

/-- A payload that is turned into a failure. -/
theorem stops_of_turn (hstatus : f.status ≠ .error) (hpayload : f.payload.isEmpty = false) {e : ClientError}
    (hturn : m.turn (.ok f.payload) = .error e) : m.Stops [f] ∧ m.sequence [f] = [.error e] := by
  have hcons (more : List Fragment) : m.sequence (f :: more) = [.error e] := by
    rw [sequence_cons_payload hstatus hpayload, hturn]
    rfl
  exact ⟨fun more => by rw [List.singleton_append, hcons, hcons], hcons []⟩

/-- An error of the engine. -/
theorem stops_of_error (hstatus : f.status = .error) :
    m.Stops [f] ∧ m.sequence [f] = [.error (.foreign (EngineError.ofPayload f.payload))] :=
  ⟨fun more => by rw [List.singleton_append, sequence_cons_error hstatus, sequence_cons_error hstatus],
    sequence_cons_error hstatus⟩

end Manner

section Yields

/-- What one gets of a sequence, and what is left of it: one item after another, and after the last one only that there
is no more; and once one has closed it, only that there is no more. -/
inductive Yields : List (Except ClientError α) → List (Got α) → List (Except ClientError α) → Prop where
  | nothing (as : List (Except ClientError α)) : Yields as [] as
  | item {a : Except ClientError α} {as bs : List (Except ClientError α)} {got : List (Got α)}
      (h : Yields as got bs) : Yields (a :: as) (.next (some a) :: got) bs
  | noMore {bs : List (Except ClientError α)} {got : List (Got α)} (h : Yields [] got bs) :
      Yields [] (.next none :: got) bs
  | closed {as bs : List (Except ClientError α)} {got : List (Got α)} (h : Yields [] got bs) :
      Yields as (.closed :: got) bs

variable {as bs cs : List (Except ClientError α)} {got got' : List (Got α)}

theorem Yields.trans (h : Yields as got bs) (h' : Yields bs got' cs) : Yields as (got ++ got') cs := by
  induction h with
  | nothing => exact h'
  | item _ ih => exact .item (ih h')
  | noMore _ ih => exact .noMore (ih h')
  | closed _ ih => exact .closed (ih h')

/-- What one has got of a sequence that has not ended. -/
def shown (as : List (Except ClientError α)) : List (Got α) := as.map fun a => .next (some a)

theorem yields_shown (as bs : List (Except ClientError α)) : Yields (as ++ bs) (shown as) bs := by
  induction as with
  | nil => exact .nothing bs
  | cons a rest ih => exact .item ih

/-- Whether it can be seen from what one gets that the sequence has ended. -/
def Got.Ends : Got α → Prop
  | .next (some (.ok _)) => False
  | .next (some (.error _)) | .next none | .closed => True

end Yields

section Reading

variable {s : Subscription} {t : Stand} {read passed : List Fragment} {n k : Nat}

theorem obeys_close (hs : s.listener.finish = l.finish) (ht : t.phase ≠ .leaving) :
    s.close.Obeys (Steady l) (Move l)
      (fun t' s' => s'.exhausted = true ∧ s'.listener.finish = l.finish ∧ t' = t.out) t := by
  refine (obeys_cancel hs ht).bind fun t' r hr => ?_
  obtain ⟨cancelled, listener⟩ := r
  obtain ⟨hlistener, rfl⟩ := hr
  cases cancelled with
  | true => exact ⟨rfl, hlistener, rfl⟩
  | false =>
    have hout : t.out.phase ≠ .reading := by
      unfold Stand.out
      split
      · exact Phase.noConfusion
      · assumption
    have hcloses : (atomic (closeReading listener.queue)).Obeys (Steady l) (Move l) (fun t' _ => t' = t.out) t.out := by
      rw [(parts_of_finish hlistener).1]
      exact obeys_retreat hout fun x _ => .closeReading
    exact hcloses.bind fun t' _ ht' => ⟨rfl, hlistener, ht'⟩

/-- Where a reader stands that has asked for the next item, and what it is told: nothing yet, the end, a payload, or an
error. It has passed some fragments over. -/
inductive Nexts (l : Listener) (read : List Fragment) (k : Nat) :
    Stand → Option (Subscription × Option (Except ClientError Bytes)) → Prop where
  | givenUp {passed : List Fragment} (hpassed : ∀ f ∈ passed, Manner.Passes f) :
      Nexts l read k ⟨read ++ passed, k, .reading⟩ none
  | ended {passed : List Fragment} {n : Nat} (hpassed : ∀ f ∈ passed, Manner.Passes f) :
      Nexts l read k ⟨read ++ passed, n, .ended⟩ (some (⟨l.finish, true⟩, none))
  | payload {passed : List Fragment} {f : Fragment} (hpassed : ∀ f ∈ passed, Manner.Passes f)
      (hstatus : f.status ≠ .error) (hpayload : f.payload.isEmpty = false) :
      Nexts l read k ⟨read ++ passed ++ [f], k, .reading⟩ (some (⟨l, false⟩, some (.ok f.payload)))
  | failed {passed : List Fragment} {f : Fragment} {n : Nat} {s : Subscription}
      (hpassed : ∀ f ∈ passed, Manner.Passes f) (hstatus : f.status = .error) (hdone : s.exhausted = true)
      (hlistener : s.listener.finish = l.finish) :
      Nexts l read k ⟨read ++ passed ++ [f], n, .left⟩
        (some (s, some (.error (.foreign (EngineError.ofPayload f.payload)))))

/-- The same for a single look, after some fragments have been passed over. -/
def LookTells (l : Listener) (read passed : List Fragment) (k : Nat) (t : Stand) : Subscription.Look → Prop
  | .pending => t = ⟨read ++ passed, k, .reading⟩
  | .again f => Manner.Passes f ∧ t = ⟨read ++ passed ++ [f], k, .reading⟩
  | .item s item _ => Nexts l read k t (some (s, item))

theorem obeys_look_sequence (hpassed : ∀ f ∈ passed, Manner.Passes f) (hlooks : n ≤ k + 1) :
    (Subscription.look ⟨l, false⟩).Obeys (Steady l) (Move l) (LookTells l read passed k)
      ⟨read ++ passed, n, .reading⟩ := by
  refine obeys_isFired.bind fun t fired h => ?_
  obtain ⟨rfl, rfl⟩ := h
  refine (obeys_take hlooks).bind fun t taken ht => ?_
  cases taken with
  | pending => exact ht
  | ended =>
    subst ht
    exact .ended hpassed
  | fragment f =>
    subst ht
    show (if f.status = .error then _ else _ : Process Exchange Subscription.Look).Obeys _ _ _ _
    by_cases hstatus : f.status = .error
    · rw [if_pos hstatus]
      refine (obeys_close (l := l) rfl Phase.noConfusion).bind fun t' s hs => ?_
      obtain ⟨hdone, hlistener, rfl⟩ := hs
      exact .failed hpassed hstatus hdone hlistener
    · rw [if_neg hstatus]
      cases hpayload : f.payload.isEmpty with
      | true => exact ⟨⟨hstatus, hpayload⟩, rfl⟩
      | false => exact .payload hpassed hstatus hpayload

/-- Asking for the next item uses up one of the looks that are counted, unless one does not look at all. -/
theorem obeys_nextWithin (looks : Nat) (hpassed : ∀ f ∈ passed, Manner.Passes f) (hlooks : n ≤ k + 1)
    (hnone : looks = 0 → n = k) : (nextWithin looks ⟨l, false⟩).Obeys (Steady l) (Move l) (Nexts l read k)
      ⟨read ++ passed, n, .reading⟩ := by
  induction looks generalizing n passed with
  | zero =>
    obtain rfl := hnone rfl
    exact .givenUp hpassed
  | succ looks ih =>
    refine (obeys_look_sequence hpassed hlooks).bind fun t look ht => ?_
    cases look with
    | pending =>
      subst ht
      exact ih hpassed (Nat.le_succ k) fun _ => rfl
    | again f =>
      obtain ⟨hf, rfl⟩ := ht
      rw [List.append_assoc]
      refine ih (fun g hg => ?_) (Nat.le_succ k) fun _ => rfl
      obtain hg | hg := List.mem_append.1 hg
      · exact hpassed g hg
      · rw [List.mem_singleton.1 hg]
        exact hf
    | item s item taken => exact ht

/-- Where a reader stands that has asked for the next item in some manner, and what it is told. -/
inductive Passed (m : Manner α) (l : Listener) (read : List Fragment) (k : Nat) :
    Stand → Option (Subscription × Option (Except ClientError α)) → Prop where
  | givenUp {read' : List Fragment} (hgoes : m.Goes read') (hsame : m.sequence read' = m.sequence read) :
      Passed m l read k ⟨read', k, .reading⟩ none
  | ended {read' : List Fragment} {n : Nat} (hgoes : m.Goes read') (hsame : m.sequence read' = m.sequence read) :
      Passed m l read k ⟨read', n, .ended⟩ (some (⟨l.finish, true⟩, none))
  | item {read' : List Fragment} {a : α} (hgoes : m.Goes read')
      (hitem : m.sequence read' = m.sequence read ++ [.ok a]) :
      Passed m l read k ⟨read', k, .reading⟩ (some (⟨l, false⟩, some (.ok a)))
  | failed {read' : List Fragment} {n : Nat} {s : Subscription} {e : ClientError} (hstops : m.Stops read')
      (hitem : m.sequence read' = m.sequence read ++ [.error e]) (hdone : s.exhausted = true)
      (hlistener : s.listener.finish = l.finish) :
      Passed m l read k ⟨read', n, .left⟩ (some (s, some (.error e)))

theorem obeys_next (hgoes : m.Goes read) (looks : Nat) (hlooks : n ≤ k + 1) (hnone : looks = 0 → n = k) :
    (m.next looks ⟨l, false⟩).Obeys (Steady l) (Move l) (Passed m l read k) ⟨read, n, .reading⟩ := by
  have hnext : (nextWithin looks ⟨l, false⟩).Obeys (Steady l) (Move l) (Nexts l read k) ⟨read ++ [], n, .reading⟩ :=
    obeys_nextWithin looks (List.forall_mem_nil _) hlooks hnone
  rw [List.append_nil] at hnext
  refine hnext.bind fun t r ht => ?_
  cases ht with
  | givenUp hpassed =>
    obtain ⟨hmore, hsame⟩ := hgoes.passed hpassed
    exact .givenUp hmore hsame
  | ended hpassed =>
    obtain ⟨hmore, hsame⟩ := hgoes.passed hpassed
    exact .ended hmore hsame
  | @payload passed f hpassed hstatus hpayload =>
    obtain ⟨hmore, hsame⟩ := hgoes.passed hpassed
    show (do return some (← m.pass _ _) : Process Exchange _).Obeys _ _ _ _
    unfold Manner.pass
    dsimp only
    cases hturn : m.turn (.ok f.payload) with
    | ok a =>
      obtain ⟨hitem, hsequence⟩ := Manner.goes_of_ok hstatus hpayload hturn
      refine .item (hmore.trans hitem) ?_
      rw [hmore.append, hsame, hsequence]
    | error e =>
      obtain ⟨hitem, hsequence⟩ := Manner.stops_of_turn hstatus hpayload hturn
      have hcloses : m.closes = true := by
        by_contra hopen
        obtain ⟨a, ha⟩ := m.turn_ok (by simpa using hopen) f.payload
        rw [hturn] at ha
        cases ha
      simp only [hcloses, if_true, Process.bind_assoc, Process.pure_bind]
      refine (obeys_close (l := l) rfl Phase.noConfusion).bind fun t' s hs => ?_
      obtain ⟨hdone, hlistener, rfl⟩ := hs
      refine .failed (hmore.stops hitem) ?_ hdone hlistener
      rw [hmore.append, hsame, hsequence]
  | @failed passed f n s hpassed hstatus hdone hlistener =>
    obtain ⟨hmore, hsame⟩ := hgoes.passed hpassed
    obtain ⟨hitem, hsequence⟩ := Manner.stops_of_error (m := m) hstatus
    have hwhole : m.sequence (read ++ passed ++ [f]) =
        m.sequence read ++ [.error (.foreign (EngineError.ofPayload f.payload))] := by
      rw [hmore.append, hsame, hsequence]
    show (do return some (← m.pass _ _) : Process Exchange _).Obeys _ _ _ _
    simp only [Manner.pass, m.turn_error]
    cases m.closes with
    | true =>
      simp only [if_true, Process.bind_assoc, Process.pure_bind]
      refine (obeys_close hlistener Phase.noConfusion).bind fun t' s' hs' => ?_
      obtain ⟨hdone', hlistener', rfl⟩ := hs'
      exact .failed (hmore.stops hitem) hwhole hdone' hlistener'
    | false => exact .failed (hmore.stops hitem) hwhole hdone hlistener

end Reading

end Switchboard.Receiving
