import Switchboard.Proofs.Receiving.Answer
import Switchboard.Proofs.Receiving.Yielding
/-!
A sequence stays at its end: a reader that asks for items in whatever way gets the sequence of the fragments that the
queue has accepted, and from its end on nothing but that it is over. A call whose sequence has failed is out of its
table.
-/
namespace Switchboard.Receiving

open Exchange Process

variable {α : Type} {l : Listener} {x : Exchange} {m : Manner α} {suppliers : List Supplier} {wishes : List Wish}
  {order : List Nat} {got : List (Got α)} {s : Subscription} {t : Stand} {k : Nat}

/-- How often one asks for the next item with at least one look. -/
def asked : List Wish → Nat
  | [] => 0
  | .next 0 :: later | .close :: later => asked later
  | .next (_ + 1) :: later => asked later + 1

/-- How many steps a wish may take. -/
def Wish.steps : Wish → Nat
  | .next looks => 6 * looks + 8
  | .close => 4

/-- How many steps one may take who reads as he wishes. -/
def stepsFor (wishes : List Wish) : Nat := wishes.foldr (fun wish n => wish.steps + n) 0

/-- At the end of a sequence there is no more, at once and whatever happens to the call. -/
theorem next_of_exhausted (hdone : s.exhausted = true) (m : Manner α) (looks : Nat) :
    m.next (looks + 1) s = pure (some (s, none)) := by
  rw [Manner.next, nextWithin, Subscription.look, if_pos hdone]
  rfl

/-- One has come to the end of a sequence, and has got all of it unless one has closed it. -/
structure Over (m : Manner α) (l : Listener) (t : Stand) (got : List (Got α)) (s : Subscription) : Prop where
  phase : t.phase = .ended ∨ t.phase = .left
  exhausted : s.exhausted = true
  listener : s.listener.finish = l.finish
  yields : ∀ accepted, t.read <+: accepted → (t.phase = .ended → accepted = t.read) →
    Yields (m.sequence accepted) got []
  ends : ∃ g ∈ got, g.Ends
  failed : ∀ e, .next (some (.error e)) ∈ got → t.phase = .left

namespace Over

theorem phase_ne_reading (h : Over m l t got s) : t.phase ≠ .reading := by
  obtain hphase | hphase := h.phase <;> rw [hphase] <;> exact Phase.noConfusion

theorem phase_ne_leaving (h : Over m l t got s) : t.phase ≠ .leaving := by
  obtain hphase | hphase := h.phase <;> rw [hphase] <;> exact Phase.noConfusion

/-- One gets nothing more that is an item. -/
theorem append (h : Over m l t got s) {g : Got α} (hg : Yields [] [g] []) {s' : Subscription}
    (hdone : s'.exhausted = true) (hlistener : s'.listener.finish = l.finish) : Over m l t (got ++ [g]) s' where
  phase := h.phase
  exhausted := hdone
  listener := hlistener
  yields accepted hread hended := (h.yields accepted hread hended).trans hg
  ends := by
    obtain ⟨g', hg', hends⟩ := h.ends
    exact ⟨g', List.mem_append_left _ hg', hends⟩
  failed e he := by
    obtain he | he := List.mem_append.1 he
    · exact h.failed e he
    · cases List.mem_singleton.1 he
      cases hg

end Over

/-- Where one stands who has read as he wished and has so many looks left that are counted, with what he has got: he
can go on to read, or has come to the end. -/
inductive Consumed (m : Manner α) (l : Listener) (k : Nat) : Stand → List (Got α) × Subscription → Prop where
  | reading {read : List Fragment} (hgoes : m.Goes read) :
      Consumed m l k ⟨read, k, .reading⟩ (shown (m.sequence read), ⟨l, false⟩)
  | isOver {t : Stand} {got : List (Got α)} {s : Subscription} (h : Over m l t got s) : Consumed m l k t (got, s)

theorem shown_append (as : List (Except ClientError α)) (a : Except ClientError α) :
    shown (as ++ [a]) = shown as ++ [.next (some a)] := List.map_append

theorem not_mem_shown_of_goes {read : List Fragment} (hgoes : m.Goes read) (e : ClientError) :
    .next (some (.error e)) ∉ shown (m.sequence read) := by
  intro he
  obtain ⟨a, ha, heq⟩ := List.mem_map.1 he
  obtain ⟨b, rfl⟩ := hgoes.ok a ha
  cases heq

/-- The sequence has ended, and one is told so. -/
theorem over_of_ended {read : List Fragment} {n : Nat} (hgoes : m.Goes read) :
    Over m l ⟨read, n, .ended⟩ (shown (m.sequence read) ++ [.next none]) ⟨l.finish, true⟩ where
  phase := .inl rfl
  exhausted := rfl
  listener := rfl
  yields accepted _ hended := by
    rw [hended rfl]
    have hall := yields_shown (m.sequence read) []
    rw [List.append_nil] at hall
    exact hall.trans (.noMore (.nothing []))
  ends := ⟨_, List.mem_append_right _ (List.mem_singleton_self _), trivial⟩
  failed e he := by
    obtain he | he := List.mem_append.1 he
    · exact absurd he (not_mem_shown_of_goes hgoes e)
    · cases List.mem_singleton.1 he

/-- The sequence has failed, and nothing behind the failure is got. -/
theorem over_of_failed {read : List Fragment} {n : Nat} {as : List (Except ClientError α)} {e : ClientError}
    (hstops : m.Stops read) (hitem : m.sequence read = as ++ [.error e]) (hdone : s.exhausted = true)
    (hlistener : s.listener.finish = l.finish) :
    Over m l ⟨read, n, .left⟩ (shown as ++ [.next (some (.error e))]) s where
  phase := .inr rfl
  exhausted := hdone
  listener := hlistener
  yields accepted hread _ := by
    obtain ⟨more, rfl⟩ := hread
    rw [hstops more, hitem, ← shown_append]
    have hall := yields_shown (as ++ [.error e]) []
    rwa [List.append_nil] at hall
  ends := ⟨_, List.mem_append_right _ (List.mem_singleton_self _), trivial⟩
  failed _ _ := rfl

/-- The sequence has been closed. -/
theorem over_of_closed {read : List Fragment} {n : Nat} (hgoes : m.Goes read) (hdone : s.exhausted = true)
    (hlistener : s.listener.finish = l.finish) :
    Over m l ⟨read, n, .left⟩ (shown (m.sequence read) ++ [.closed]) s where
  phase := .inr rfl
  exhausted := hdone
  listener := hlistener
  yields accepted hread _ := by
    obtain ⟨more, rfl⟩ := hread
    rw [hgoes.append]
    exact (yields_shown _ _).trans (.closed (.nothing []))
  ends := ⟨_, List.mem_append_right _ (List.mem_singleton_self _), trivial⟩
  failed _ _ := rfl

/-- Whoever reads as he wishes keeps to the protocol, and gets what he has read. -/
theorem obeys_consume (wishes : List Wish) (h : Consumed m l (asked wishes) t (got, s)) :
    (consume m wishes got s).Obeys (Steady l) (Move l) (Consumed m l 0) t := by
  induction wishes generalizing t got s with
  | nil => exact h
  | cons wish later ih =>
    cases wish with
    | close =>
      cases h with
      | @reading read hgoes =>
        refine (obeys_close (l := l) rfl Phase.noConfusion).bind fun t' s' hs' => ?_
        obtain ⟨hdone, hlistener, rfl⟩ := hs'
        exact ih (.isOver (over_of_closed hgoes hdone hlistener))
      | isOver h =>
        refine (obeys_close h.listener h.phase_ne_leaving).bind fun t' s' hs' => ?_
        obtain ⟨hdone, hlistener, rfl⟩ := hs'
        rw [Stand.out_of_ne h.phase_ne_reading]
        exact ih (.isOver (h.append (.closed (.nothing [])) hdone hlistener))
    | next looks =>
      cases h with
      | @reading read hgoes =>
        have hlooks : asked (.next looks :: later) ≤ asked later + 1 := by
          cases looks with
          | zero => exact Nat.le_succ _
          | succ looks => exact Nat.le_refl _
        have hnone (hzero : looks = 0) : asked (.next looks :: later) = asked later := by rw [hzero, asked]
        refine (obeys_next hgoes looks hlooks hnone).bind fun t' r hr => ?_
        cases hr with
        | givenUp hgoes' hsame =>
          rw [← hsame]
          exact ih (.reading hgoes')
        | item hgoes' hitem =>
          dsimp only
          rw [← shown_append, ← hitem]
          exact ih (.reading hgoes')
        | failed hstops hitem hdone hlistener => exact ih (.isOver (over_of_failed hstops hitem hdone hlistener))
        | @ended read' n hgoes' hsame =>
          rw [← hsame]
          have hover := over_of_ended (l := l) (n := n) hgoes'
          dsimp only
          split
          · refine (obeys_release hover.listener Phase.noConfusion Phase.noConfusion).bind fun t' _ ht' => ?_
            subst ht'
            exact .isOver hover
          · exact ih (.isOver hover)
      | isOver h =>
        cases looks with
        | zero => exact ih (.isOver h)
        | succ looks =>
          rw [consume, next_of_exhausted h.exhausted, Process.pure_bind]
          have hmore := h.append (.noMore (.nothing [])) h.exhausted h.listener
          dsimp only
          split
          · refine (obeys_release h.listener h.phase_ne_reading h.phase_ne_leaving).bind fun t' _ ht' => ?_
            subst ht'
            exact .isOver hmore
          · exact ih (.isOver hmore)

section Ending

theorem endsWithin_close (s : Subscription) : s.close.EndsWithin 4 := by
  refine EndsWithin.bind (m := 3) (n := 1) (endsWithin_cancel _) fun r => ?_
  obtain ⟨cancelled, listener⟩ := r
  cases cancelled with
  | true => trivial
  | false => exact ⟨0, rfl, fun _ => trivial⟩

theorem endsWithin_look_sequence (s : Subscription) : s.look.EndsWithin 6 := by
  unfold Subscription.look
  split
  · trivial
  · refine EndsWithin.bind (m := 1) (n := 5) (.atomic _) fun fired => ?_
    cases fired with
    | true => trivial
    | false =>
      refine EndsWithin.bind (m := 1) (n := 4) (.atomic _) fun taken => ?_
      cases taken with
      | pending | ended => trivial
      | fragment f =>
        show (if f.status = .error then _ else _ : Process Exchange Subscription.Look).EndsWithin 4
        split
        · exact EndsWithin.bind (n := 0) (endsWithin_close s) fun _ => trivial
        · split <;> trivial

theorem endsWithin_nextWithin (looks : Nat) (s : Subscription) : (nextWithin looks s).EndsWithin (6 * looks) := by
  induction looks generalizing s with
  | zero => trivial
  | succ looks ih =>
    have hall : (nextWithin (looks + 1) s).EndsWithin (6 + 6 * looks) := by
      refine (endsWithin_look_sequence s).bind fun look => ?_
      cases look with
      | pending | again f => exact ih s
      | item s' item read => trivial
    exact hall.mono (by omega)

theorem endsWithin_pass (m : Manner α) (s : Subscription) (item : Option (Except ClientError Bytes)) :
    (m.pass s item).EndsWithin 4 := by
  unfold Manner.pass
  split
  · trivial
  · split
    · trivial
    · split
      · exact EndsWithin.bind (n := 0) (endsWithin_close s) fun _ => trivial
      · trivial

theorem endsWithin_next (m : Manner α) (looks : Nat) (s : Subscription) :
    (m.next looks s).EndsWithin (6 * looks + 4) := by
  refine (endsWithin_nextWithin looks s).bind fun r => ?_
  cases r with
  | none => trivial
  | some r => exact EndsWithin.bind (n := 0) (endsWithin_pass m r.1 r.2) fun _ => trivial

theorem endsWithin_consume (m : Manner α) (wishes : List Wish) (got : List (Got α)) (s : Subscription) :
    (consume m wishes got s).EndsWithin (stepsFor wishes) := by
  induction wishes generalizing got s with
  | nil => trivial
  | cons wish later ih =>
    have hsteps : stepsFor (wish :: later) = wish.steps + stepsFor later := by simp [stepsFor]
    rw [hsteps]
    cases wish with
    | close => exact (endsWithin_close s).bind fun s' => ih _ s'
    | next looks =>
      refine EndsWithin.mono ((endsWithin_next m looks s).bind (n := stepsFor later + 4) fun r => ?_)
        (by rw [Wish.steps]; omega)
      cases r with
      | none => exact (ih got s).mono (Nat.le_add_right _ _)
      | some r =>
        obtain ⟨s', item⟩ := r
        cases item with
        | some a => exact (ih _ s').mono (Nat.le_add_right _ _)
        | none =>
          dsimp only
          split
          · refine EndsWithin.mono (m := 4 + 0) ?_ (by omega)
            exact (endsWithin_release s'.listener).bind fun _ => trivial
          · exact (ih _ s').mono (Nat.le_add_right _ _)

end Ending

/-- What one comes to who reads the answer of a call item by item, after steps of all parties in some order. He gets the
sequence that the accepted fragments stand for. Once he sees that it has ended, he has got all of it, unless he has
closed it, and gets no more, at once whenever he asks. He comes to the end once the queue is closed and he has asked
often enough. A call whose sequence has failed is out of the table, and whatever is delivered under its number finds no
call. -/
structure Sequenced (m : Manner α) (l : Listener) (wishes : List Wish) (order : List Nat)
    (c : Company Exchange (Told (List (Got α) × Subscription))) : Prop where
  arrived : (c.follow order).Settled →
    (entered l.queue order c).Perm ((c.follow order).answers.filterMap Told.delivered?)
  yields : ∀ got s, (c.follow order).result? 0 = some (.read (got, s)) →
    ∃ rest, Yields (m.sequence (accepted l order c)) got rest
  fused : ∀ got s, (c.follow order).result? 0 = some (.read (got, s)) → (∃ g ∈ got, g.Ends) →
    Yields (m.sequence (accepted l order c)) got [] ∧ ∀ looks, m.next (looks + 1) s = return some (s, none)
  returns : ∀ before after, before ++ after = order → ((c.follow before).state.queue l.queue).isClosed = true →
    before.count 0 + ((c.follow before).state.queue l.queue).fragments.length + 1 ≤ asked wishes →
    stepsFor wishes ≤ order.count 0 →
    ∃ got s, (c.follow order).result? 0 = some (.read (got, s)) ∧ ∃ g ∈ got, g.Ends
  failed : ∀ got s, (c.follow order).result? 0 = some (.read (got, s)) → (∃ e, .next (some (.error e)) ∈ got) →
    ∀ later, ((c.follow (order ++ later)).state.table l.table).find? l.id = none ∧
      ∀ f, f.requestId = l.id → (deliver l.table f).run (c.follow (order ++ later)).state =
        (.unknownRequest, (c.follow (order ++ later)).state)

/-- A reader of items, and the others. -/
def reading (m : Manner α) (x : Exchange) (l : Listener) (wishes : List Wish) (suppliers : List Supplier) :
    Company Exchange (Told (List (Got α) × Subscription)) :=
  company x l (consume m wishes [] ⟨l, false⟩) suppliers

theorem obeys_reading (m : Manner α) (l : Listener) (wishes : List Wish) :
    (consume m wishes [] ⟨l, false⟩).Obeys (Steady l) (Move l) (Consumed m l 0) ⟨[], asked wishes, .reading⟩ :=
  obeys_consume wishes (.reading m.goes_nil)

theorem Over.read_of_holds (h : Over m l t got s) {accepted : List Fragment} (ht : t.Holds l accepted x) :
    t.read <+: accepted ∧ (t.phase = .ended → accepted = t.read) := by
  obtain ⟨read, n, phase⟩ := t
  obtain hphase | hphase := h.phase
  · cases hphase
    obtain ⟨hread, -⟩ := ht
    exact ⟨hread ▸ List.prefix_rfl, fun _ => hread⟩
  · cases hphase
    exact ⟨ht.1, fun hended => Phase.noConfusion hended⟩

/-- Once one has got something that ends a sequence, one is at its end. -/
theorem Consumed.over_of_ends (h : Consumed m l k t (got, s)) (hends : ∃ g ∈ got, g.Ends) : Over m l t got s := by
  cases h with
  | reading hgoes =>
    obtain ⟨g, hg, hend⟩ := hends
    obtain ⟨a, ha, rfl⟩ := List.mem_map.1 hg
    obtain ⟨b, rfl⟩ := hgoes.ok a ha
    exact hend.elim
  | isOver h => exact h

/-- Fragments are delivered to a call, and its deliveries are stopped, while one reads its answer item by item, in one
of several manners and as he wishes. In whatever order the steps fall, he gets the sequence that the accepted fragments
stand for, and then nothing but that it is over. -/
theorem sequence_is_fused (m : Manner α) (hready : x.Ready l) (hfor : ∀ s ∈ suppliers, s.IsFor l)
    (wishes : List Wish) (order : List Nat) :
    Sequenced m l wishes order (reading m x l wishes suppliers) := by
  constructor
  case arrived =>
    obtain ⟨t, roles, hstands⟩ := stands_follow hready hfor (obeys_reading m l wishes) order
    exact hstands.perm_delivered
  case yields =>
    intro got s h
    obtain ⟨t, roles, hstands⟩ := stands_follow hready hfor (obeys_reading m l wishes) order
    obtain ⟨a, ha, hconsumed⟩ := hstands.told h
    cases ha
    cases hconsumed with
    | @reading read hgoes =>
      have haccepted : accepted l order (reading m x l wishes suppliers) = _ := hstands.inv.holds
      rw [haccepted, hgoes.append]
      exact ⟨_, yields_shown _ _⟩
    | isOver hover =>
      obtain ⟨hread, hended⟩ := hover.read_of_holds hstands.inv.holds
      exact ⟨[], hover.yields _ hread hended⟩
  case fused =>
    intro got s h hends
    obtain ⟨t, roles, hstands⟩ := stands_follow hready hfor (obeys_reading m l wishes) order
    obtain ⟨a, ha, hconsumed⟩ := hstands.told h
    cases ha
    have hover := hconsumed.over_of_ends hends
    obtain ⟨hread, hended⟩ := hover.read_of_holds hstands.inv.holds
    exact ⟨hover.yields _ hread hended, next_of_exhausted hover.exhausted m⟩
  case returns =>
    intro before after horder hclosed hlooks hsteps
    obtain ⟨t, roles, ⟨got, s⟩, -, htold, hconsumed, hmore⟩ := exists_told hready hfor (obeys_reading m l wishes)
      (endsWithin_consume m wishes [] ⟨l, false⟩) horder hclosed hlooks hsteps
    cases hconsumed with
    | reading => exact absurd (hmore rfl) (Nat.lt_irrefl 0)
    | isOver hover => exact ⟨got, s, htold, hover.ends⟩
  case failed =>
    rintro got s h ⟨e, he⟩ later
    obtain ⟨t, roles, hstands⟩ := stands_follow hready hfor (obeys_reading m l wishes) (order ++ later)
    have hlate := Company.result?_follow h later
    rw [← Company.follow_append] at hlate
    obtain ⟨a, ha, hconsumed⟩ := hstands.told hlate
    cases ha
    have hover := hconsumed.over_of_ends ⟨_, he, trivial⟩
    have hholds := hstands.inv.holds
    rw [Stand.Holds, hover.failed e he] at hholds
    refine ⟨hholds.2, fun f hf => deliver_of_absent ?_⟩
    rw [hf]
    exact hholds.2

/-- A truth value, nothing, what is no truth value, another truth value, and one more that is marked as the last. -/
def truths : List Supplier :=
  [.deliver ⟨1, Utf8.encode "true", .streamEvent, false⟩, .deliver ⟨1, [], .success, false⟩,
    .deliver ⟨1, [49], .streamEvent, false⟩, .deliver ⟨1, Utf8.encode "false", .streamEvent, false⟩,
    .deliver ⟨1, Utf8.encode "false", .success, true⟩]

/-- One asks too early and gives the asking up, and then asks three times more. -/
def patience : List Wish := [.next 1, .next 3, .next 3, .next 1]

/-- The last one comes when the sequence has failed already. -/
def failingOrder : List Nat := [0, 0, 1, 1, 1, 2, 2, 2, 3, 3, 3, 0, 4, 4, 4, 0, 0, 0, 0, 0, 0, 0, 0, 5]

/-- One gets the first truth value, that there is something else, and no more. -/
theorem sequence_is_fused_failing :
    Sequenced (Manner.decoded Form.bool.ofPayload) Race.firstCall.1 patience failingOrder
        (reading (Manner.decoded Form.bool.ofPayload) Race.firstCall.2 Race.firstCall.1 patience truths) ∧
      ((reading (Manner.decoded Form.bool.ofPayload) Race.firstCall.2 Race.firstCall.1 patience truths).follow
          failingOrder).result? 0 =
        some (.read ([.next (some (.ok true)), .next (some (.error (.decode .malformed))), .next none],
          ⟨Race.firstCall.1.finish, true⟩)) ∧
      ((reading (Manner.decoded Form.bool.ofPayload) Race.firstCall.2 Race.firstCall.1 patience truths).follow
          failingOrder).result? 5 =
        some (.delivery ⟨1, Utf8.encode "false", .success, true⟩ .unknownRequest) := by
  have hready : Race.firstCall.2.Ready Race.firstCall.1 :=
    Client.ready_openCall (by decide) (by decide) rfl (by decide)
  exact ⟨sequence_is_fused _ hready (by decide) patience failingOrder, rfl, rfl⟩

end Switchboard.Receiving
