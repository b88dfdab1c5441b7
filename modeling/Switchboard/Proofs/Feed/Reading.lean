import Switchboard.Proofs.Feed.Protocol
import Switchboard.Proofs.Receiving.Fused
/-!
One who opens a subscription and reads its items, as a reader that keeps to the protocol: how it leaves the call, what
it is told by each look, and what it makes of the fragments that it reads.
-/
namespace Switchboard.Feed

open Exchange Process Receiving

variable {l m : Listener} {t : Stand} {e : End}

/-- The call can be left, and reading comes to its end by that unless it has come to it before. -/
inductive Stand.Leaves : Stand → End → Prop where
  | reading {read : List Fragment} {n k : Nat} : Leaves ⟨read, n, k, .waiting⟩ .left
  | spent {read : List Fragment} {n k : Nat} (hspent : Stand.Spent ⟨read, n, k, .waiting⟩) :
      Leaves ⟨read, n, k, .waiting⟩ .spent
  | isOver {read : List Fragment} {n k : Nat} {e : End} {out : Bool} : Leaves ⟨read, n, k, .isOver e out⟩ e

/-- The stand of one who has come to the end and knows that the call is out of the table. -/
def Stand.gone (t : Stand) (e : End) : Stand := { t with phase := .isOver e true }

section Leaving

/-- Once reading is over, one may do to the call what there is a reason for. -/
theorem obeys_retreat {α : Type} {step : StateM Exchange α} {read : List Fragment} {n k : Nat} {out : Bool}
    (hstep : ∀ x, Sound l x → Due l x → Keeps l x (step x).2)
    (hfragments : ∀ x, ((step x).2.queue l.queue).fragments.length ≤ (x.queue l.queue).fragments.length) :
    (atomic step).Obeys (Sound l) (Move l) (fun t' _ => t' = ⟨read, n, k, .isOver e out⟩)
      ⟨read, n, k, .isOver e out⟩ :=
  Obeys.atomic fun x hx => ⟨_, .retreats (hstep x hx) (hfragments x) .inl, rfl⟩

/-- Who tries to cancel the call has come to the end of his reading. If a last delivery has claimed it before, he knows
that the call is out of the table. -/
theorem obeys_claims (ht : t.Leaves e) : (atomic (claimCancellation l.control)).Obeys (Sound l) (Move l)
    (fun t' claimed => ∃ out, t' = { t with phase := .isOver e out } ∧ (claimed = false → out = true)) t := by
  refine Obeys.atomic fun x hx => ?_
  have hclaimed : ((claimCancellation l.control x).2.control l.control).claim ≠ .free := by
    rw [control_claimCancellation]
    split
    · exact Claim.noConfusion
    case isFalse hfree => exact fun hclaim => hfree ⟨rfl, hclaim⟩
  have hout (hlost : (claimCancellation l.control x).1 = false) : Out l (claimCancellation l.control x).2 := by
    rw [claimCancellation_fst, decide_eq_false_iff_not, not_not] at hlost
    rw [Out, table_claimCancellation]
    exact hx.completing hlost
  have hleaves {read : List Fragment} {n k : Nat} (hend : e = .left ∨ e = .spent ∧ Stand.Spent ⟨read, n, k, .waiting⟩) :
      Move l ⟨read, n, k, .waiting⟩ x (claimCancellation l.control x).2
        ⟨read, n, k, .isOver e (!(claimCancellation l.control x).1)⟩ :=
    .leaves hend (keeps_claimCancellation hx) (by simp) hclaimed fun h => hout (by simpa using h)
  have hknows (h : (claimCancellation l.control x).1 = false) : (!(claimCancellation l.control x).1) = true := by
    rw [h, Bool.not_false]
  cases ht with
  | reading => exact ⟨_, hleaves (.inl rfl), _, rfl, hknows⟩
  | spent hspent => exact ⟨_, hleaves (.inr ⟨rfl, hspent⟩), _, rfl, hknows⟩
  | @isOver read n k e out =>
    refine ⟨⟨read, n, k, .isOver e (out || !(claimCancellation l.control x).1)⟩,
      .retreats (fun _ => keeps_claimCancellation hx) (by simp) fun h => ?_, _, rfl, fun h => ?_⟩
    · exact ((Bool.or_eq_true _ _).mp h).imp_right fun h => hout (by simpa using h)
    · rw [hknows h, Bool.or_true]

variable (hm : m.finish = l.finish)
include hm

/-- Whoever cancels the call, or finds that a last delivery has claimed it, knows in the end that it is out of the
table. -/
theorem obeys_cancel (ht : t.Leaves e) : m.cancel.Obeys (Sound l) (Move l)
    (fun t' r => r.2.finish = l.finish ∧ t' = t.gone e) t := by
  obtain ⟨hqueue, hcontrol, htable, hid⟩ := parts_of_finish hm
  unfold Listener.cancel
  rw [hqueue, hcontrol, htable, hid]
  refine (obeys_claims ht).bind fun t' claimed ht' => ?_
  obtain ⟨out, rfl, hlost⟩ := ht'
  cases claimed with
  | false =>
    cases hlost rfl
    exact ⟨hm, rfl⟩
  | true =>
    have hcloses : (atomic (closeReading l.queue)).Obeys (Sound l) (Move l)
        (fun t' _ => t' = { t with phase := .isOver e out }) { t with phase := .isOver e out } :=
      obeys_retreat (fun x hx hdue => keeps_closeReading hx hdue) fun x => by simp
    refine hcloses.bind fun t' _ ht' => ?_
    subst ht'
    exact fun x hx => ⟨t.gone e, .retreats (fun _ => keeps_remove hx) (by simp) fun _ => .inr (by simp [Out]), hm, rfl⟩

/-- Whoever lets the call go leaves it, unless he has come to its end before. -/
theorem obeys_release (ht : t.Leaves e) (hdone : m.done = true → ∃ out, t.phase = .isOver e out) :
    m.release.Obeys (Sound l) (Move l) (fun t' _ => t' = if m.done then t else t.gone e) t := by
  have hdrops {read : List Fragment} {n k : Nat} {out : Bool} : (atomic (dropReading m.queue)).Obeys (Sound l) (Move l)
      (fun t' _ => t' = ⟨read, n, k, .isOver e out⟩) ⟨read, n, k, .isOver e out⟩ := by
    rw [(parts_of_finish hm).1]
    exact obeys_retreat (fun x hx hdue => keeps_dropReading hx hdue) fun x => by simp [Queue.dropReading]
  unfold Listener.release
  cases hfinished : m.done with
  | true =>
    obtain ⟨out, hphase⟩ := hdone hfinished
    obtain ⟨read, n, k, phase⟩ := t
    cases hphase
    exact hdrops
  | false =>
    refine Obeys.bind (Q := fun t' _ => t' = t.gone e) ?_ fun t' _ ht' => by subst ht'; exact hdrops
    exact (obeys_cancel hm ht).bind fun t' r hr => hr.2

end Leaving

section Looking

variable {s : Subscription} {read passed : List Fragment}

theorem obeys_close (hs : s.listener.finish = l.finish) (ht : t.Leaves e) :
    s.close.Obeys (Sound l) (Move l)
      (fun t' s' => s'.exhausted = true ∧ s'.listener.finish = l.finish ∧ t' = t.gone e) t := by
  refine (obeys_cancel hs ht).bind fun t' r hr => ?_
  obtain ⟨cancelled, listener⟩ := r
  obtain ⟨hlistener, rfl⟩ := hr
  cases cancelled with
  | true => exact ⟨rfl, hlistener, rfl⟩
  | false =>
    have hcloses : (atomic (closeReading listener.queue)).Obeys (Sound l) (Move l) (fun t' _ => t' = t.gone e)
        (t.gone e) := by
      rw [(parts_of_finish hlistener).1]
      exact obeys_retreat (fun x hx hdue => keeps_closeReading hx hdue) fun x => by simp
    exact hcloses.bind fun t' _ ht' => ⟨rfl, hlistener, ht'⟩

/-- What a reader is told that has seen an item, or the end, after it has passed some fragments over: the end, that the
client has gone, a payload, or an error of the engine. The counts are those with which it goes on. -/
inductive Shows (l : Listener) (read : List Fragment) (n k : Nat) :
    Stand → Subscription × Option (Except ClientError Bytes) → Prop where
  | drained {passed : List Fragment} {n' k' : Nat} (hpassed : ∀ f ∈ passed, Manner.Passes f) :
      Shows l read n k ⟨read ++ passed, n', k', .isOver .drained false⟩ (⟨l.finish, true⟩, none)
  | lost {passed : List Fragment} {n' k' : Nat} (hpassed : ∀ f ∈ passed, Manner.Passes f) :
      Shows l read n k ⟨read ++ passed, n', k', .isOver .lost false⟩
        (⟨l.finish, true⟩, some (.error .transportClosed))
  | payload {passed : List Fragment} {f : Fragment} (hpassed : ∀ f ∈ passed, Manner.Passes f)
      (hstatus : f.status ≠ .error) (hpayload : f.payload.isEmpty = false) :
      Shows l read n k ⟨read ++ passed ++ [f], n, k, .waiting⟩ (⟨l, false⟩, some (.ok f.payload))
  | failed {passed : List Fragment} {f : Fragment} {n' k' : Nat} {s : Subscription}
      (hpassed : ∀ f ∈ passed, Manner.Passes f) (hstatus : f.status = .error) (hdone : s.exhausted = true)
      (hlistener : s.listener.finish = l.finish) :
      Shows l read n k ⟨read ++ passed ++ [f], n', k', .isOver .left true⟩
        (s, some (.error (.foreign (EngineError.ofPayload f.payload))))

/-- The same for a single look. -/
def LookShows (l : Listener) (read passed : List Fragment) (n k : Nat) (t : Stand) : Subscription.Look → Prop
  | .pending => t = ⟨read ++ passed, n, k, .waiting⟩
  | .again f => Manner.Passes f ∧ t = ⟨read ++ passed ++ [f], n, k, .waiting⟩
  | .item s item _ => Shows l read n k t (s, item)

/-- What a look at the queue finds. -/
theorem obeys_take {n k : Nat} : (atomic (take l.queue)).Obeys (Sound l) (Move l) (fun t taken => match taken with
    | .fragment f => t = ⟨read ++ [f], n, k, .waiting⟩
    | .pending => t = ⟨read, n, k, .waiting⟩
    | .ended => t = ⟨read, n, k, .isOver .drained false⟩) ⟨read, n, k, .looking⟩ := by
  refine Obeys.atomic fun x _ => ?_
  cases hqueue : (x.queue l.queue).fragments with
  | cons f rest =>
    rw [(take_of_cons hqueue).1]
    exact ⟨_, .takes hqueue, rfl⟩
  | nil =>
    rw [take_of_empty hqueue, take_fst_of_empty hqueue]
    cases hclosed : (x.queue l.queue).isClosed with
    | true => exact ⟨_, .drains hqueue hclosed, rfl⟩
    | false => exact ⟨_, .misses hqueue hclosed, rfl⟩

/-- Whether the client has gone. -/
theorem obeys_isFired {n n' k k' : Nat} (hlooks : n ≤ n' + 1) (hasks : k ≤ k' + 1) :
    (atomic (isFired l.shutdown)).Obeys (Sound l) (Move l) (fun t fired =>
      t = if fired then ⟨read, n, k, .isOver .lost false⟩ else ⟨read, n', k', .looking⟩) ⟨read, n, k, .waiting⟩ := by
  refine Obeys.atomic fun x _ => ?_
  show ∃ t', Move l _ x x t' ∧ t' = if x.fired l.shutdown then _ else _
  cases hfired : x.fired l.shutdown with
  | true => exact ⟨_, .wakes hfired, rfl⟩
  | false => exact ⟨_, .looks hlooks hasks hfired, rfl⟩

theorem obeys_look {n n' k k' : Nat} (hpassed : ∀ f ∈ passed, Manner.Passes f) (hlooks : n ≤ n' + 1)
    (hasks : k ≤ k' + 1) : (Subscription.look ⟨l, false⟩).Obeys (Sound l) (Move l) (LookShows l read passed n' k')
      ⟨read ++ passed, n, k, .waiting⟩ := by
  refine (obeys_isFired hlooks hasks).bind fun t fired ht => ?_
  subst ht
  cases fired with
  | true => exact .lost hpassed
  | false =>
    refine obeys_take.bind fun t taken ht => ?_
    cases taken with
    | pending => exact ht
    | ended =>
      subst ht
      exact .drained hpassed
    | fragment f =>
      subst ht
      show (if f.status = .error then _ else _ : Process Exchange Subscription.Look).Obeys _ _ _ _
      by_cases hstatus : f.status = .error
      · rw [if_pos hstatus]
        refine (obeys_close (l := l) rfl .reading).bind fun t' s hs => ?_
        obtain ⟨hdone, hlistener, rfl⟩ := hs
        exact .failed hpassed hstatus hdone hlistener
      · rw [if_neg hstatus]
        cases hpayload : f.payload.isEmpty with
        | true => exact ⟨⟨hstatus, hpayload⟩, rfl⟩
        | false => exact .payload hpassed hstatus hpayload

/-- What a reader is told that has asked for an item with so many looks, where the counts depend on the looks that are
left. -/
def Nexts (l : Listener) (read : List Fragment) (looks : Nat) (n k : Nat → Nat) (t : Stand) :
    Option (Subscription × Option (Except ClientError Bytes)) → Prop
  | none => ∃ passed : List Fragment, (∀ f ∈ passed, Manner.Passes f) ∧ t = ⟨read ++ passed, n 0, k 0, .waiting⟩
  | some shown => ∃ left < looks, Shows l read (n left) (k left) t shown

theorem obeys_nextWithin (looks : Nat) {n k : Nat → Nat} (hlooks : ∀ left, n (left + 1) ≤ n left + 1)
    (hasks : ∀ left, k (left + 1) ≤ k left + 1) (hpassed : ∀ f ∈ passed, Manner.Passes f) :
    (nextWithin looks ⟨l, false⟩).Obeys (Sound l) (Move l) (Nexts l read looks n k)
      ⟨read ++ passed, n looks, k looks, .waiting⟩ := by
  induction looks generalizing passed with
  | zero => exact ⟨passed, hpassed, rfl⟩
  | succ looks ih =>
    have hmore (t : Stand) (r) (h : Nexts l read looks n k t r) : Nexts l read (looks + 1) n k t r := by
      cases r with
      | none => exact h
      | some shown =>
        obtain ⟨left, hlt, hshows⟩ := h
        exact ⟨left, Nat.lt_succ_of_lt hlt, hshows⟩
    refine (obeys_look hpassed (hlooks looks) (hasks looks)).bind fun t look ht => ?_
    cases look with
    | pending =>
      subst ht
      exact (ih hpassed).mono hmore
    | again f =>
      obtain ⟨hf, rfl⟩ := ht
      rw [List.append_assoc]
      have hpassed' : ∀ g ∈ passed ++ [f], Manner.Passes g := by
        intro g hg
        obtain hg | hg := List.mem_append.1 hg
        · exact hpassed g hg
        · rw [List.mem_singleton.1 hg]
          exact hf
      exact (ih hpassed').mono hmore
    | item s item taken => exact ⟨looks, Nat.lt_succ_self looks, ht⟩

end Looking

section Opening

/-- Without a payload there is no handle. -/
theorem exists_handleOf_none : ∃ f, NetSubscription.handleOf none = .error (.decode f) := ⟨_, rfl⟩

/-- What one has come to who has waited for the handle: he has given the opening up, or it has failed as the client has
gone, as the call has ended, or as the fragments say, or the subscription is open. -/
inductive Opened (l : Listener) (k : Nat) : Stand → Option (Except ClientError NetSubscription) → Prop where
  | givenUp {read : List Fragment} (hpassed : ∀ f ∈ read, Manner.Passes f) :
      Opened l k ⟨read, 0, k, .isOver .spent true⟩ none
  | lost {read : List Fragment} {n k' : Nat} (hpassed : ∀ f ∈ read, Manner.Passes f) :
      Opened l k ⟨read, n, k', .isOver .lost false⟩ (some (.error .transportClosed))
  | drained {read : List Fragment} {n k' : Nat} {e : ClientError} (hpassed : ∀ f ∈ read, Manner.Passes f)
      (he : NetSubscription.handleOf none = .error e) : Opened l k ⟨read, n, k', .isOver .drained false⟩ (some (.error e))
  | refused {read : List Fragment} {n k' : Nat} {e : ClientError} (hopening : openingOf read = some (.error e)) :
      Opened l k ⟨read, n, k', .isOver .left true⟩ (some (.error e))
  | isOpen {read : List Fragment} {n : Nat} {handle : UInt32} (hopening : openingOf read = some (.ok handle))
      (hbehind : ∀ more, behindOpening (read ++ more) = more) :
      Opened l k ⟨read, n, k, .waiting⟩ (some (.ok ⟨handle, ⟨l, false⟩⟩))

theorem decided_of_passes {read : List Fragment} {n k : Nat} {phase : Phase} (hpassed : ∀ f ∈ read, Manner.Passes f) :
    Stand.decided ⟨read, n, k, phase⟩ = false := by
  simpa [Stand.decided] using fun f hf => decides_of_passes (hpassed f hf)

theorem obeys_openedWithin (hfresh : l.done = false) (looks k : Nat) :
    (NetSubscription.openedWithin looks ⟨l, false⟩).Obeys (Sound l) (Move l) (Opened l k)
      ⟨[], looks, k, .waiting⟩ := by
  have hnext : (nextWithin looks ⟨l, false⟩).Obeys (Sound l) (Move l) (Nexts l [] looks id fun _ => k)
      ⟨[], looks, k, .waiting⟩ :=
    obeys_nextWithin looks (fun _ => Nat.le_refl _) (fun _ => Nat.le_succ _) (List.forall_mem_nil _)
  refine hnext.bind fun t r ht => ?_
  cases r with
  | none =>
    obtain ⟨passed, hpassed, rfl⟩ := ht
    have hspent : Stand.Spent ⟨passed, 0, k, .waiting⟩ := by
      rw [Stand.Spent, decided_of_passes hpassed]
      rfl
    refine (obeys_release (l := l) rfl (.spent hspent) fun h => by simp [hfresh] at h).bind fun t' _ ht' => ?_
    rw [hfresh] at ht'
    subst ht'
    exact .givenUp hpassed
  | some shown =>
    obtain ⟨left, -, hshows⟩ := ht
    -- Who is at the end of the call already lets the queue go and stays where he is.
    have hreleases {t : Stand} {e : End} {m : Listener} (hm : m.finish = l.finish) (ht : t.Leaves e)
        (hdone : m.done = true → ∃ out, t.phase = .isOver e out) {r : Option (Except ClientError NetSubscription)}
        (hr : Opened l k (if m.done then t else t.gone e) r) :
        (do m.release; return r : Process Exchange _).Obeys (Sound l) (Move l) (Opened l k) t := by
      refine (obeys_release hm ht hdone).bind fun t' _ ht' => ?_
      subst ht'
      exact hr
    cases hshows with
    | drained hpassed =>
      obtain ⟨f, hf⟩ := exists_handleOf_none
      dsimp only
      rw [hf]
      exact hreleases (m := l.finish) rfl .isOver (fun _ => ⟨_, rfl⟩) (.drained hpassed hf)
    | lost hpassed => exact hreleases (m := l.finish) rfl .isOver (fun _ => ⟨_, rfl⟩) (.lost hpassed)
    | @payload passed f hpassed hstatus hpayload =>
      have hopening : openingOf (passed ++ [f]) = _ := openingOf_decided hpassed (by simp [decides, hpayload])
      rw [if_neg hstatus] at hopening
      have hhandle : NetSubscription.handleOf (some (.ok f.payload)) = NetSubscription.handleOf.handleIn f.payload := rfl
      dsimp only
      rw [hhandle]
      cases hdecoded : NetSubscription.handleOf.handleIn f.payload with
      | ok handle =>
        rw [hdecoded] at hopening
        refine .isOpen hopening fun more => ?_
        rw [List.append_assoc]
        exact behindOpening_decided hpassed (by simp [decides, hpayload])
      | error e =>
        rw [hdecoded] at hopening
        refine hreleases rfl .reading (fun h => by simp [hfresh] at h) ?_
        rw [hfresh]
        exact .refused hopening
    | @failed passed f _ _ s hpassed hstatus hdone hlistener =>
      have hopening : openingOf (passed ++ [f]) = _ := openingOf_decided hpassed (by simp [decides, hstatus])
      rw [if_pos hstatus] at hopening
      refine hreleases hlistener .isOver (fun _ => ⟨_, rfl⟩) ?_
      rw [Stand.gone, ite_self]
      exact .refused hopening

end Opening

end Switchboard.Feed
