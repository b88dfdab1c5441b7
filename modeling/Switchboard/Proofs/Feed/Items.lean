import Switchboard.Proofs.Feed.Reading
/-!
The items of a subscription that is open: whoever reads them as he wishes gets the sequence that the fragments behind
the opening stand for, until its end or until the client has gone, and after that only that there is no more.
-/
namespace Switchboard.Feed

open Exchange Process Receiving

variable {l : Listener} {t : Stand} {first read : List Fragment} {n k : Nat} {e : End} {s : Subscription}
  {got : List (Got Value)}

section Next

/-- Where a reader stands that has asked for the next item, and what it is told. -/
inductive Passed (l : Listener) (first read : List Fragment) (k : Nat) :
    Stand → Option (Subscription × Option (Except ClientError Value)) → Prop where
  | givenUp {read' : List Fragment} {n : Nat} (hgoes : manner.Goes read')
      (hsame : manner.sequence read' = manner.sequence read) :
      Passed l first read k ⟨first ++ read', n, k, .waiting⟩ none
  | drained {read' : List Fragment} {n k' : Nat} (hgoes : manner.Goes read')
      (hsame : manner.sequence read' = manner.sequence read) :
      Passed l first read k ⟨first ++ read', n, k', .isOver .drained false⟩ (some (⟨l.finish, true⟩, none))
  | lost {read' : List Fragment} {n k' : Nat} {s : Subscription} (hgoes : manner.Goes read')
      (hsame : manner.sequence read' = manner.sequence read) (hdone : s.exhausted = true)
      (hlistener : s.listener.finish = l.finish) :
      Passed l first read k ⟨first ++ read', n, k', .isOver .lost true⟩ (some (s, some (.error .transportClosed)))
  | item {read' : List Fragment} {n : Nat} {a : Value} (hgoes : manner.Goes read')
      (hitem : manner.sequence read' = manner.sequence read ++ [.ok a]) :
      Passed l first read k ⟨first ++ read', n, k, .waiting⟩ (some (⟨l, false⟩, some (.ok a)))
  | failed {read' : List Fragment} {n k' : Nat} {s : Subscription} {err : ClientError} (hstops : manner.Stops read')
      (hitem : manner.sequence read' = manner.sequence read ++ [.error err]) (hdone : s.exhausted = true)
      (hlistener : s.listener.finish = l.finish) :
      Passed l first read k ⟨first ++ read', n, k', .isOver .left true⟩ (some (s, some (.error err)))

/-- A failure is passed on after the subscription has been closed. -/
theorem obeys_pass_error {item : Except ClientError Bytes} {err : ClientError} (hturn : manner.turn item = .error err)
    (hs : s.listener.finish = l.finish) (ht : t.Leaves e) :
    (manner.pass s (some item)).Obeys (Sound l) (Move l)
      (fun t' r => r.1.exhausted = true ∧ r.1.listener.finish = l.finish ∧ r.2 = some (.error err) ∧ t' = t.gone e)
      t := by
  simp only [Manner.pass, hturn]
  exact (obeys_close hs ht).bind fun t' s' hs' => ⟨hs'.1, hs'.2.1, rfl, hs'.2.2⟩

theorem obeys_next (hgoes : manner.Goes read) (looks : Nat) {k' : Nat} (hasks : k ≤ k' + 1)
    (hnone : looks = 0 → k = k') : (manner.next looks ⟨l, false⟩).Obeys (Sound l) (Move l) (Passed l first read k')
      ⟨first ++ read, n, k, .waiting⟩ := by
  -- The first look counts as the asking, and no other.
  have hnext : (nextWithin looks ⟨l, false⟩).Obeys (Sound l) (Move l)
      (Nexts l (first ++ read) looks (fun _ => n) fun left => if left < looks then k' else k)
      ⟨first ++ read ++ [], n, if looks < looks then k' else k, .waiting⟩ :=
    obeys_nextWithin looks (fun _ => Nat.le_succ _) (fun left => by split <;> split <;> omega) (List.forall_mem_nil _)
  rw [List.append_nil, if_neg (Nat.lt_irrefl looks)] at hnext
  refine hnext.bind fun t r ht => ?_
  cases r with
  | none =>
    obtain ⟨passed, hpassed, rfl⟩ := ht
    obtain ⟨hmore, hsame⟩ := hgoes.passed hpassed
    have hcount : (if 0 < looks then k' else k) = k' := by
      split
      · rfl
      case isFalse hzero => exact hnone (Nat.eq_zero_of_not_pos hzero)
    dsimp only
    rw [hcount, List.append_assoc]
    exact .givenUp hmore hsame
  | some shown =>
    obtain ⟨left, hlt, hshows⟩ := ht
    have hwhole (passed : List Fragment) (f : Fragment) :
        first ++ read ++ passed ++ [f] = first ++ (read ++ passed ++ [f]) := by simp only [List.append_assoc]
    dsimp only at hshows
    rw [if_pos hlt] at hshows
    cases hshows with
    | drained hpassed =>
      obtain ⟨hmore, hsame⟩ := hgoes.passed hpassed
      rw [List.append_assoc]
      exact .drained hmore hsame
    | lost hpassed =>
      obtain ⟨hmore, hsame⟩ := hgoes.passed hpassed
      rw [List.append_assoc]
      refine (obeys_pass_error (manner.turn_error _) (l := l) rfl .isOver).bind fun t' r hr => ?_
      obtain ⟨s', item⟩ := r
      obtain ⟨hdone, hlistener, rfl, rfl⟩ := hr
      exact .lost hmore hsame hdone hlistener
    | @payload passed f hpassed hstatus hpayload =>
      obtain ⟨hmore, hsame⟩ := hgoes.passed hpassed
      rw [hwhole]
      cases hturn : manner.turn (.ok f.payload) with
      | ok a =>
        obtain ⟨hitem, hsequence⟩ := Manner.goes_of_ok hstatus hpayload hturn
        have hpass : manner.pass ⟨l, false⟩ (some (.ok f.payload)) = pure (⟨l, false⟩, some (.ok a)) := by
          simp only [Manner.pass, hturn]
        show (do return some (← manner.pass _ _) : Process Exchange _).Obeys _ _ _ _
        rw [hpass]
        refine .item (hmore.trans hitem) ?_
        rw [hmore.append, hsame, hsequence]
      | error err =>
        obtain ⟨hitem, hsequence⟩ := Manner.stops_of_turn hstatus hpayload hturn
        refine (obeys_pass_error hturn (l := l) rfl .reading).bind fun t' r hr => ?_
        obtain ⟨s', item⟩ := r
        obtain ⟨hdone, hlistener, rfl, rfl⟩ := hr
        refine .failed (hmore.stops hitem) ?_ hdone hlistener
        rw [hmore.append, hsame, hsequence]
    | @failed passed f _ _ s hpassed hstatus hdone hlistener =>
      obtain ⟨hmore, hsame⟩ := hgoes.passed hpassed
      obtain ⟨hitem, hsequence⟩ := Manner.stops_of_error (m := manner) hstatus
      rw [hwhole]
      refine (obeys_pass_error (manner.turn_error _) hlistener .isOver).bind fun t' r hr => ?_
      obtain ⟨s', item⟩ := r
      obtain ⟨hdone', hlistener', rfl, rfl⟩ := hr
      refine .failed (hmore.stops hitem) ?_ hdone' hlistener'
      rw [hmore.append, hsame, hsequence]

end Next

/-- One has come to the end of the items, and has got all of them, or all until the client had gone. -/
structure Over (l : Listener) (read : List Fragment) (e : End) (got : List (Got Value)) (s : Subscription) : Prop where
  exhausted : s.exhausted = true
  listener : s.listener.finish = l.finish
  yields : ∀ more, (e = .drained → more = []) → ∃ as, Heard (e = .lost) (read ++ more) as ∧ Yields as got []
  ends : ∃ g ∈ got, g.Ends

/-- Where one stands who has read items as he wished and has so many asks left, with what he has got. -/
inductive Consumed (l : Listener) (first : List Fragment) (k : Nat) : Stand → List (Got Value) × Subscription → Prop where
  | reading {read : List Fragment} {n : Nat} (hgoes : manner.Goes read) :
      Consumed l first k ⟨first ++ read, n, k, .waiting⟩ (shown (manner.sequence read), ⟨l, false⟩)
  | isOver {read : List Fragment} {n k' : Nat} {e : End} {out : Bool} {got : List (Got Value)} {s : Subscription}
      (h : Over l read e got s) : Consumed l first k ⟨first ++ read, n, k', .isOver e out⟩ (got, s)

section Consume

/-- One gets nothing more that is an item. -/
theorem Over.append (h : Over l read e got s) {g : Got Value} (hg : Yields [] [g] []) {s' : Subscription}
    (hdone : s'.exhausted = true) (hlistener : s'.listener.finish = l.finish) : Over l read e (got ++ [g]) s' where
  exhausted := hdone
  listener := hlistener
  yields more hmore := by
    obtain ⟨as, has, hyields⟩ := h.yields more hmore
    exact ⟨as, has, hyields.trans hg⟩
  ends := by
    obtain ⟨g', hg', hends⟩ := h.ends
    exact ⟨g', List.mem_append_left _ hg', hends⟩

theorem yields_all (as : List (Except ClientError Value)) : Yields as (shown as) [] := by
  have hall := yields_shown as []
  rwa [List.append_nil] at hall

theorem over_of_drained :
    Over l read .drained (shown (manner.sequence read) ++ [.next none]) ⟨l.finish, true⟩ where
  exhausted := rfl
  listener := rfl
  yields more hmore := by
    rw [hmore rfl, List.append_nil]
    exact ⟨_, .all, (yields_all _).trans (.noMore (.nothing []))⟩
  ends := ⟨_, List.mem_append_right _ (List.mem_singleton_self _), trivial⟩

/-- The client has gone, and one is told so and hears of nothing behind it. -/
theorem over_of_lost (hgoes : manner.Goes read) (hdone : s.exhausted = true) (hlistener : s.listener.finish = l.finish) :
    Over l read .lost (shown (manner.sequence read) ++ [.next (some (.error .transportClosed))]) s where
  exhausted := hdone
  listener := hlistener
  yields more _ := by
    refine ⟨manner.sequence read ++ [.error .transportClosed], .cut rfl ?_, ?_⟩
    · rw [hgoes.append]
      exact List.prefix_append _ _
    · rw [← shown_append]
      exact yields_all _
  ends := ⟨_, List.mem_append_right _ (List.mem_singleton_self _), trivial⟩

theorem over_of_failed {as : List (Except ClientError Value)} {err : ClientError} (hstops : manner.Stops read)
    (hitem : manner.sequence read = as ++ [.error err]) (hdone : s.exhausted = true)
    (hlistener : s.listener.finish = l.finish) :
    Over l read .left (shown as ++ [.next (some (.error err))]) s where
  exhausted := hdone
  listener := hlistener
  yields more _ := by
    refine ⟨_, .all, ?_⟩
    rw [hstops more, hitem, ← shown_append]
    exact yields_all _
  ends := ⟨_, List.mem_append_right _ (List.mem_singleton_self _), trivial⟩

theorem over_of_closed (hgoes : manner.Goes read) (hdone : s.exhausted = true)
    (hlistener : s.listener.finish = l.finish) :
    Over l read .left (shown (manner.sequence read) ++ [.closed]) s where
  exhausted := hdone
  listener := hlistener
  yields more _ := by
    refine ⟨_, .all, ?_⟩
    rw [hgoes.append]
    exact (yields_shown _ _).trans (.closed (.nothing []))
  ends := ⟨_, List.mem_append_right _ (List.mem_singleton_self _), trivial⟩

/-- Whoever reads items as he wishes keeps to the protocol, and gets what he has read. -/
theorem obeys_consume (wishes : List Wish) (h : Consumed l first (asked wishes) t (got, s)) :
    (consume manner wishes got s).Obeys (Sound l) (Move l) (Consumed l first 0) t := by
  induction wishes generalizing t got s with
  | nil => exact h
  | cons wish later ih =>
    cases wish with
    | close =>
      cases h with
      | reading hgoes =>
        refine (obeys_close (l := l) rfl .reading).bind fun t' s' hs' => ?_
        obtain ⟨hdone, hlistener, rfl⟩ := hs'
        exact ih (.isOver (over_of_closed hgoes hdone hlistener))
      | isOver h =>
        refine (obeys_close h.listener .isOver).bind fun t' s' hs' => ?_
        obtain ⟨hdone, hlistener, rfl⟩ := hs'
        exact ih (.isOver (h.append (.closed (.nothing [])) hdone hlistener))
    | next looks =>
      cases h with
      | reading hgoes =>
        have hasks : asked (.next looks :: later) ≤ asked later + 1 := by
          cases looks with
          | zero => exact Nat.le_succ _
          | succ looks => exact Nat.le_refl _
        have hnone (hzero : looks = 0) : asked (.next looks :: later) = asked later := by rw [hzero, asked]
        refine (obeys_next hgoes looks hasks hnone).bind fun t' r hr => ?_
        cases hr with
        | givenUp hgoes' hsame =>
          rw [← hsame]
          exact ih (.reading hgoes')
        | item hgoes' hitem =>
          dsimp only
          rw [← shown_append, ← hitem]
          exact ih (.reading hgoes')
        | failed hstops hitem hdone hlistener => exact ih (.isOver (over_of_failed hstops hitem hdone hlistener))
        | lost hgoes' hsame hdone hlistener =>
          rw [← hsame]
          exact ih (.isOver (over_of_lost hgoes' hdone hlistener))
        | drained hgoes' hsame =>
          rw [← hsame]
          exact ih (.isOver over_of_drained)
      | isOver h =>
        cases looks with
        | zero => exact ih (.isOver h)
        | succ looks =>
          rw [consume, next_of_exhausted h.exhausted, Process.pure_bind]
          exact ih (.isOver (h.append (.noMore (.nothing [])) h.exhausted h.listener))

end Consume

/-- Where one stands who has read the items of a subscription that is open, and has perhaps closed it then, with the
subscription and what he has got of it. -/
inductive Items (l : Listener) (first : List Fragment) (closing : Bool) :
    Stand → Subscription → List (Got Value) → Prop where
  | reading {read : List Fragment} {n : Nat} (hgoes : manner.Goes read) (hopen : closing = false) :
      Items l first closing ⟨first ++ read, n, 0, .waiting⟩ ⟨l, false⟩ (shown (manner.sequence read))
  | closed {read : List Fragment} {n : Nat} {s : Subscription} (hgoes : manner.Goes read)
      (hdone : s.exhausted = true) :
      Items l first closing ⟨first ++ read, n, 0, .isOver .spent true⟩ s (shown (manner.sequence read))
  | isOver {read : List Fragment} {n k : Nat} {e : End} {out : Bool} {s : Subscription} {got : List (Got Value)}
      (h : Over l read e got s) (hout : closing = true → out = true) :
      Items l first closing ⟨first ++ read, n, k, .isOver e out⟩ s got

/-- Where one stands who has opened a subscription and read it, and what he has come to. -/
inductive Comes (l : Listener) (closing : Bool) : Stand → Use → Prop where
  | givenUp {read : List Fragment} {k : Nat} (hpassed : ∀ f ∈ read, Manner.Passes f) :
      Comes l closing ⟨read, 0, k, .isOver .spent true⟩ .givenUp
  | failed {t : Stand} {k : Nat} {err : ClientError} (h : Opened l k t (some (.error err))) :
      Comes l closing t (.failed err)
  | kept {t : Stand} {first : List Fragment} {handle : UInt32} {s : Subscription} {got : List (Got Value)}
      (hopening : openingOf first = some (.ok handle)) (hbehind : ∀ more, behindOpening (first ++ more) = more)
      (hitems : Items l first closing t s got) : Comes l closing t (.kept ⟨handle, s⟩ got)

theorem decided_of_opening {phase : Phase} {r : Except ClientError UInt32} (hopening : openingOf first = some r) :
    Stand.decided ⟨first ++ read, n, k, phase⟩ = true := by
  by_contra hundecided
  have hnone : openingOf first = none := openingOf_eq_none_iff.2 fun f hf => by
    by_contra hdecides
    refine hundecided (List.any_eq_true.2 ⟨f, List.mem_append_left _ hf, ?_⟩)
    simpa using hdecides
  rw [hnone] at hopening
  cases hopening

/-- Whoever opens a subscription and reads it keeps to the protocol. -/
theorem obeys_reads (hfresh : l.done = false) (looks : Nat) (wishes : List Wish) (closing : Bool) :
    (reads looks wishes closing l).Obeys (Sound l) (Move l) (Comes l closing) ⟨[], looks, asked wishes, .waiting⟩ := by
  refine (obeys_openedWithin hfresh looks (asked wishes)).bind fun t r hr => ?_
  cases hr with
  | givenUp hpassed => exact .givenUp hpassed
  | lost hpassed => exact .failed (k := asked wishes) (.lost hpassed)
  | drained hpassed he => exact .failed (k := asked wishes) (.drained hpassed he)
  | refused hopening => exact .failed (k := asked wishes) (.refused hopening)
  | @isOpen first n handle hopening hbehind =>
    have hconsume : (consume manner wishes [] ⟨l, false⟩).Obeys (Sound l) (Move l) (Consumed l first 0)
        ⟨first, n, asked wishes, .waiting⟩ := by
      refine obeys_consume wishes ?_
      have hreading : Consumed l first (asked wishes) ⟨first ++ [], n, asked wishes, .waiting⟩ ([], ⟨l, false⟩) :=
        .reading manner.goes_nil
      rwa [List.append_nil] at hreading
    refine hconsume.bind fun t r hr => ?_
    obtain ⟨got, s⟩ := r
    cases closing with
    | false =>
      cases hr with
      | reading hgoes => exact .kept hopening hbehind (.reading hgoes rfl)
      | isOver h => exact .kept hopening hbehind (.isOver h Bool.noConfusion)
    | true =>
      cases hr with
      | @reading read n hgoes =>
        have hspent : Stand.Spent ⟨first ++ read, n, 0, .waiting⟩ := by
          rw [Stand.Spent, if_pos (decided_of_opening hopening)]
        refine (obeys_close (l := l) rfl (.spent hspent)).bind fun t' s' hs' => ?_
        obtain ⟨hdone, -, rfl⟩ := hs'
        exact .kept hopening hbehind (.closed hgoes hdone)
      | isOver h =>
        refine (obeys_close h.listener .isOver).bind fun t' s' hs' => ?_
        obtain ⟨hdone, hlistener, rfl⟩ := hs'
        exact .kept hopening hbehind (.isOver ⟨hdone, hlistener, h.yields, h.ends⟩ fun _ => rfl)

theorem endsWithin_reads (looks : Nat) (wishes : List Wish) (closing : Bool) :
    (reads looks wishes closing l).EndsWithin (6 * looks + stepsFor wishes + 8) := by
  have hopened : (NetSubscription.openedWithin looks ⟨l, false⟩).EndsWithin (6 * looks + 4) := by
    refine (endsWithin_nextWithin looks _).bind fun r => ?_
    have hreleases (m : Listener) (r : Option (Except ClientError NetSubscription)) :
        (do m.release; return r : Process Exchange _).EndsWithin 4 :=
      EndsWithin.bind (n := 0) (endsWithin_release m) fun _ => trivial
    cases r with
    | none => exact hreleases _ _
    | some r =>
      obtain ⟨s, first⟩ := r
      dsimp only
      cases NetSubscription.handleOf first with
      | ok handle => trivial
      | error err => exact hreleases _ _
  refine EndsWithin.mono (m := 6 * looks + 4 + (stepsFor wishes + 4)) (hopened.bind fun r => ?_) (by omega)
  cases r with
  | none => trivial
  | some r =>
    cases r with
    | error err => trivial
    | ok opened =>
      refine (endsWithin_consume manner wishes [] opened.inner).bind fun r => ?_
      cases closing with
      | false => trivial
      | true => exact EndsWithin.bind (n := 0) (endsWithin_close r.2) fun _ => trivial

end Switchboard.Feed
