import Switchboard.Proofs.Exchange.Reading
/-!
What looks at a call show, what reading it to the end of what is there takes out of its queue, and whether
the call is over afterwards.
-/
namespace Switchboard

open Exchange Process

variable {l : Listener} {x y : Exchange}

namespace Exchange

theorem take_of_cons {q : QueueId} {f : Fragment} {rest : List Fragment}
    (h : (x.queue q).fragments = f :: rest) :
    (take q x).1 = .fragment f ∧ ((take q x).2.queue q).fragments = rest := by
  simp [take_fst, Queue.take, h]

theorem take_fst_of_empty {q : QueueId} (h : (x.queue q).fragments = []) :
    (take q x).1 = if (x.queue q).isClosed then .ended else .pending := by
  simp only [take_fst, Queue.take, h]
  split <;> rfl

/-- If there is nothing for now, the queue is drained and open. -/
theorem drained_of_pending {q : QueueId} (h : (take q x).1 = .pending) :
    (x.queue q).fragments = [] ∧ (x.queue q).isClosed = false := by
  cases hqueue : (x.queue q).fragments with
  | cons f rest =>
    rw [(take_of_cons hqueue).1] at h
    cases h
  | nil =>
    rw [take_fst_of_empty hqueue] at h
    refine ⟨rfl, ?_⟩
    split at h
    case isTrue => cases h
    case isFalse hopen => simpa using hopen

theorem Live.take (h : x.Live l) : (take l.queue x).2.Live l := by
  constructor
  case unread => exact h.unread
  all_goals simp [h.entry, h.unclaimed, h.shutdown, h.uncancelled, h.running, h.accepting, h.reading]

/-- What reading a call does: it takes the oldest fragments out of its queue. A live call stays live, or it
is over. Only a queue whose reading end has been given up may have lost what was left in it. -/
structure Reads (l : Listener) (x : Exchange) (read : List Fragment) (closing gone : Bool)
    (y : Exchange) : Prop where
  onward : Onward l x y
  taken : read <+: (x.queue l.queue).fragments
  left : gone = false → (x.queue l.queue).fragments = read ++ (y.queue l.queue).fragments
  live : x.Live l → closing = false → y.Live l
  ended : x.Live l → closing = true → y.Ended l

theorem Reads.nothing (l : Listener) (x : Exchange) : Reads l x [] false false x where
  onward := .refl l x
  taken := List.nil_prefix
  left _ := rfl
  live hlive _ := hlive
  ended _ hover := by cases hover

/-- The oldest fragment is taken out. -/
theorem Reads.one {f : Fragment} {rest : List Fragment}
    (hqueue : (x.queue l.queue).fragments = f :: rest) :
    Reads l x [f] false false (Exchange.take l.queue x).2 where
  onward := onward_take
  taken := by rw [hqueue]; exact List.prefix_append [f] rest
  left _ := by rw [(take_of_cons hqueue).2, hqueue]; rfl
  live hlive _ := hlive.take
  ended _ hover := by cases hover

theorem Reads.trans {z : Exchange} {read read' : List Fragment} {closing gone : Bool}
    (h : Reads l x read false false y) (h' : Reads l y read' closing gone z) :
    Reads l x (read ++ read') closing gone z where
  onward := h.onward.trans h'.onward
  taken := by
    rw [h.left rfl]
    exact (List.prefix_append_right_inj read).2 h'.taken
  left hgone := by rw [h.left rfl, h'.left hgone, List.append_assoc]
  live hlive hover := h'.live (h.live hlive rfl) hover
  ended hlive hover := h'.ended (h.live hlive rfl) hover

theorem Reads.last (honward : Onward l x y)
    (hqueue : (y.queue l.queue).fragments = (x.queue l.queue).fragments)
    (hended : x.Live l → y.Ended l) : Reads l x [] true false y where
  onward := honward
  taken := List.nil_prefix
  left _ := hqueue.symm
  live _ hover := by cases hover
  ended hlive _ := hended hlive

/-- A reading end that is given up may lose what is left. -/
theorem Reads.gone (honward : Onward l x y) (hended : x.Live l → y.Ended l) : Reads l x [] true true y where
  onward := honward
  taken := List.nil_prefix
  left hgone := by cases hgone
  live _ hover := by cases hover
  ended hlive _ := hended hlive

end Exchange

namespace Waiting

@[simp] theorem listener_add {w : Waiting} {f : Fragment} : (w.add f).listener = w.listener := by
  unfold add
  split <;> rfl

/-- The result of what has been read is never that the time is over. -/
theorem result_ne_timeout (w : Waiting) (limit : Nat) : w.result ≠ .error (.timeout limit) := by
  intro h
  unfold result at h
  split at h <;> cases h

/-- What a look at a call can show, and what it leaves behind. -/
inductive Shows (now : Nat) (w : Waiting) (x : Exchange) : Look → Exchange → Prop where
  | shutdown (hfired : x.fired w.listener.shutdown = true) :
      Shows now w x (.finished w.finish (.error .transportClosed)) x
  | fragment {f : Fragment} {rest : List Fragment} (hrunning : x.fired w.listener.shutdown = false)
      (hqueue : (x.queue w.listener.queue).fragments = f :: rest) :
      Shows now w x (.again (w.add f) (some f)) (take w.listener.queue x).2
  | ended (hrunning : x.fired w.listener.shutdown = false)
      (hqueue : (x.queue w.listener.queue).fragments = [])
      (hclosed : (x.queue w.listener.queue).isClosed = true) :
      Shows now w x (.finished w.finish w.result) x
  | pending (hrunning : x.fired w.listener.shutdown = false)
      (hqueue : (x.queue w.listener.queue).fragments = [])
      (hopen : (x.queue w.listener.queue).isClosed = false)
      (hearly : ∀ deadline, w.deadline = some deadline → now < deadline) :
      Shows now w x (.pending w) x
  | timeout {deadline : Nat} (hrunning : x.fired w.listener.shutdown = false)
      (hqueue : (x.queue w.listener.queue).fragments = [])
      (hopen : (x.queue w.listener.queue).isClosed = false)
      (hdeadline : w.deadline = some deadline) (hlate : deadline ≤ now)
      (hclaim : (x.control w.listener.control).claim ≠ .completing) :
      Shows now w x (.finished w.finish (.error (.timeout w.limit))) (w.listener.cancel.run x).2
  | claimed {deadline : Nat} (hrunning : x.fired w.listener.shutdown = false)
      (hqueue : (x.queue w.listener.queue).fragments = [])
      (hopen : (x.queue w.listener.queue).isClosed = false)
      (hdeadline : w.deadline = some deadline) (hlate : deadline ≤ now)
      (hclaim : (x.control w.listener.control).claim = .completing) :
      Shows now w x (.again { w with deadline := none } none) x

theorem look_shows (now : Nat) (w : Waiting) (x : Exchange) :
    Shows now w x ((w.look now).run x).1 ((w.look now).run x).2 := by
  cases hfired : x.fired w.listener.shutdown with
  | true =>
    have hlook : (w.look now).run x = (.finished w.finish (.error .transportClosed), x) := by
      simp [look, isFired, hfired]
    rw [hlook]
    exact .shutdown hfired
  | false =>
    cases hqueue : (x.queue w.listener.queue).fragments with
    | cons f rest =>
      have htake := (take_of_cons hqueue).1
      have hlook : (w.look now).run x = (.again (w.add f) (some f), (take w.listener.queue x).2) := by
        simp [look, lookAtQueue, isFired, hfired, htake]
      rw [hlook]
      exact .fragment hfired hqueue
    | nil =>
      have htake := take_fst_of_empty hqueue
      have hsame := take_of_empty hqueue
      cases hclosed : (x.queue w.listener.queue).isClosed with
      | true =>
        have hlook : (w.look now).run x = (.finished w.finish w.result, x) := by
          simp [look, lookAtQueue, isFired, hfired, htake, hclosed, hsame]
        rw [hlook]
        exact .ended hfired hqueue hclosed
      | false =>
        have hlook : (w.look now).run x = (w.lookAtTime now).run x := by
          simp [look, lookAtQueue, isFired, hfired, htake, hclosed, hsame]
        rw [hlook]
        cases hdeadline : w.deadline with
        | none =>
          have htime : (w.lookAtTime now).run x = (.pending w, x) := by simp [lookAtTime, hdeadline]
          rw [htime]
          exact .pending hfired hqueue hclosed (by simp [hdeadline])
        | some deadline =>
          by_cases hearly : now < deadline
          · have htime : (w.lookAtTime now).run x = (.pending w, x) := by
              simp [lookAtTime, hdeadline, hearly]
            rw [htime]
            exact .pending hfired hqueue hclosed (by simp [hdeadline, hearly])
          · by_cases hclaim : (x.control w.listener.control).claim = .completing
            · have htime : (w.lookAtTime now).run x = (.again { w with deadline := none } none, x) := by
                simp [lookAtTime, giveUp, hdeadline, hearly, Listener.cancel_run, hclaim]
              rw [htime]
              exact .claimed hfired hqueue hclosed hdeadline (by omega) hclaim
            · have htime : (w.lookAtTime now).run x =
                  (.finished w.finish (.error (.timeout w.limit)), (w.listener.cancel.run x).2) := by
                simp [lookAtTime, giveUp, hdeadline, hearly, Listener.cancel_run, hclaim, finish]
              rw [htime]
              exact .timeout hfired hqueue hclosed hdeadline (by omega) hclaim

theorem Shows.pending_eq {now : Nat} {w w' : Waiting} (h : Shows now w x (.pending w') y) :
    w' = w ∧ y = x := by
  cases h
  exact ⟨rfl, rfl⟩

theorem Shows.again_reads {now : Nat} {w w' : Waiting} {read : Option Fragment}
    (h : Shows now w x (.again w' read) y) :
    w'.listener = w.listener ∧ Reads w.listener x read.toList false false y := by
  cases h with
  | fragment hrunning hqueue => exact ⟨listener_add, .one hqueue⟩
  | claimed => exact ⟨rfl, .nothing _ _⟩

theorem Shows.finished_reads {now : Nat} {w w' : Waiting} {r : Except ClientError Bytes}
    (h : Shows now w x (.finished w' r) y) : w' = w.finish ∧ Reads w.listener x [] true false y := by
  cases h with
  | shutdown hfired =>
    refine ⟨rfl, .last (.refl _ _) rfl fun hlive => ?_⟩
    rw [hlive.running] at hfired
    cases hfired
  | ended hrunning hqueue hclosed =>
    refine ⟨rfl, .last (.refl _ _) rfl fun hlive => ?_⟩
    rw [hlive.isOpen] at hclosed
    cases hclosed
  | timeout =>
    refine ⟨rfl, .last (w.listener.onward_cancel x) Listener.fragments_cancel fun hlive => ?_⟩
    exact (Listener.cancel_of_live hlive).2

/-- Reading on ends a wait together with its call, or leaves both as they are. -/
theorem readAtMost_reads (now n : Nat) (w : Waiting) (x : Exchange) :
    Reads w.listener x (w.readAtMost now n x).1.1 (w.readAtMost now n x).1.2.2.isSome
        (w.readAtMost now n x).1.2.2.isSome (w.readAtMost now n x).2 ∧
      ((w.readAtMost now n x).1.2.2 = none →
        (w.readAtMost now n x).1.2.1.listener = w.listener) := by
  induction n generalizing w x with
  | zero => exact ⟨.nothing _ _, fun _ => rfl⟩
  | succ n ih =>
    have hshows := look_shows now w x
    simp only [readAtMost, stateM_bind]
    cases hlook : ((w.look now).run x).1 with
    | pending w' =>
      rw [hlook] at hshows
      obtain ⟨rfl, hsame⟩ := hshows.pending_eq
      simp only [hsame, stateM_pure]
      exact ⟨.nothing _ _, fun _ => trivial⟩
    | again w' first =>
      rw [hlook] at hshows
      obtain ⟨hlistener, hfirst⟩ := hshows.again_reads
      obtain ⟨hmore, hsame⟩ := ih w' ((w.look now).run x).2
      rw [hlistener] at hmore hsame
      exact ⟨hfirst.trans hmore, hsame⟩
    | finished w' r =>
      rw [hlook] at hshows
      obtain ⟨rfl, hover⟩ := hshows.finished_reads
      have hrelease := (w.listener.finish.onward_release ((w.look now).run x).2).of_finish
      refine ⟨.gone (hover.onward.trans hrelease) ?_, fun hnone => by cases hnone⟩
      intro hlive
      exact hrelease.ended (hover.ended hlive rfl)

theorem read_reads (now : Nat) (w : Waiting) (x : Exchange) :
    Reads w.listener x (w.read now x).1.1 (w.read now x).1.2.2.isSome (w.read now x).1.2.2.isSome
        (w.read now x).2 ∧
      ((w.read now x).1.2.2 = none → (w.read now x).1.2.1.listener = w.listener) :=
  w.readAtMost_reads now _ x

/-- Whether a result is that of the call itself, and not that the wait was given up. -/
def OfCall (r : Except ClientError Bytes) : Prop :=
  r ≠ .error .transportClosed ∧ ∀ limit, r ≠ .error (.timeout limit)

theorem Shows.finished_of_call {now : Nat} {w w' : Waiting} {r : Except ClientError Bytes}
    (h : Shows now w x (.finished w' r) y) (hr : OfCall r) :
    (x.queue w.listener.queue).fragments = [] := by
  cases h with
  | shutdown => exact absurd rfl hr.1
  | ended _ hqueue => exact hqueue
  | timeout => exact absurd rfl (hr.2 _)

/-- A wait that comes to the result of its call has read all of it. -/
theorem readAtMost_of_call (now n : Nat) (w : Waiting) (x : Exchange) {r : Except ClientError Bytes}
    (hresult : (w.readAtMost now n x).1.2.2 = some r) (hr : OfCall r) :
    (w.readAtMost now n x).1.1 = (x.queue w.listener.queue).fragments := by
  induction n generalizing w x with
  | zero => cases hresult
  | succ n ih =>
    have hshows := look_shows now w x
    simp only [readAtMost, stateM_bind] at hresult ⊢
    cases hlook : ((w.look now).run x).1 with
    | pending w' =>
      rw [hlook] at hresult
      cases hresult
    | again w' first =>
      rw [hlook] at hshows hresult
      obtain ⟨hlistener, hreads⟩ := hshows.again_reads
      have hrest := ih w' ((w.look now).run x).2 hresult
      rw [hlistener] at hrest
      rw [hreads.left rfl, ← hrest]
      rfl
    | finished w' result =>
      rw [hlook] at hshows hresult
      cases hresult
      exact (hshows.finished_of_call hr).symm

/-- A wait for a call whose queue is closed has a fragment to read or comes to its result. -/
theorem Shows.of_closed {now : Nat} {w : Waiting} {look : Look} (h : Shows now w x look y)
    (hclosed : (x.queue w.listener.queue).isClosed = true) :
    (∃ w' f, look = .again w' (some f)) ∨ ∃ w' r, look = .finished w' r := by
  cases h with
  | shutdown | ended => exact .inr ⟨_, _, rfl⟩
  | fragment => exact .inl ⟨_, _, rfl⟩
  | pending _ _ hopen | timeout _ _ hopen | claimed _ _ hopen =>
    rw [hclosed] at hopen
    cases hopen

/-- It comes to its result at once. -/
theorem read_of_closed (now : Nat) (w : Waiting) (x : Exchange)
    (hclosed : (x.queue w.listener.queue).isClosed = true) : (w.read now x).1.2.2.isSome = true := by
  have hmany (n : Nat) (hn : (x.queue w.listener.queue).fragments.length < n) :
      (w.readAtMost now n x).1.2.2.isSome = true := by
    induction n generalizing w x with
    | zero => omega
    | succ n ih =>
      have hshows := look_shows now w x
      simp only [readAtMost, stateM_bind]
      obtain ⟨w', f, hlook⟩ | ⟨w', r, hlook⟩ := hshows.of_closed hclosed
      · rw [hlook] at hshows ⊢
        obtain ⟨hlistener, hreads⟩ := hshows.again_reads
        refine ih w' _ ?_ ?_
        · rw [hlistener]
          exact hreads.onward.closed hclosed
        · rw [hreads.left rfl] at hn
          simp only [hlistener, Option.toList_some, List.length_append, List.length_singleton] at hn ⊢
          omega
      · rw [hlook]
        rfl
  exact hmany _ (by omega)

end Waiting

namespace Subscription

/-- What a look at a subscription can show, and what it leaves behind. -/
inductive Shows (s : Subscription) (x : Exchange) : Look → Exchange → Prop where
  | exhausted (hdone : s.exhausted = true) : Shows s x (.item s none none) x
  | shutdown (hmore : s.exhausted = false) (hfired : x.fired s.listener.shutdown = true) :
      Shows s x (.item s.finish (some (.error .transportClosed)) none) x
  | pending (hmore : s.exhausted = false) (hrunning : x.fired s.listener.shutdown = false)
      (hqueue : (x.queue s.listener.queue).fragments = [])
      (hopen : (x.queue s.listener.queue).isClosed = false) : Shows s x .pending x
  | ended (hmore : s.exhausted = false) (hrunning : x.fired s.listener.shutdown = false)
      (hqueue : (x.queue s.listener.queue).fragments = [])
      (hclosed : (x.queue s.listener.queue).isClosed = true) : Shows s x (.item s.finish none none) x
  | failed {f : Fragment} {rest : List Fragment} (hmore : s.exhausted = false)
      (hrunning : x.fired s.listener.shutdown = false)
      (hqueue : (x.queue s.listener.queue).fragments = f :: rest) (hstatus : f.status = .error) :
      Shows s x
        (.item (s.close.run (take s.listener.queue x).2).1
          (some (.error (.foreign (EngineError.ofPayload f.payload)))) (some f))
        (s.close.run (take s.listener.queue x).2).2
  | empty {f : Fragment} {rest : List Fragment} (hmore : s.exhausted = false)
      (hrunning : x.fired s.listener.shutdown = false)
      (hqueue : (x.queue s.listener.queue).fragments = f :: rest) (hstatus : f.status ≠ .error)
      (hempty : f.payload = []) : Shows s x (.again f) (take s.listener.queue x).2
  | payload {f : Fragment} {rest : List Fragment} (hmore : s.exhausted = false)
      (hrunning : x.fired s.listener.shutdown = false)
      (hqueue : (x.queue s.listener.queue).fragments = f :: rest) (hstatus : f.status ≠ .error)
      (hpayload : f.payload ≠ []) :
      Shows s x (.item s (some (.ok f.payload)) (some f)) (take s.listener.queue x).2

theorem look_shows (s : Subscription) (x : Exchange) :
    Shows s x (s.look.run x).1 (s.look.run x).2 := by
  cases hdone : s.exhausted with
  | true =>
    have hlook : s.look.run x = (.item s none none, x) := by simp [look, hdone]
    rw [hlook]
    exact .exhausted hdone
  | false =>
    cases hfired : x.fired s.listener.shutdown with
    | true =>
      have hlook : s.look.run x = (.item s.finish (some (.error .transportClosed)) none, x) := by
        simp [look, isFired, hdone, hfired]
      rw [hlook]
      exact .shutdown hdone hfired
    | false =>
      cases hqueue : (x.queue s.listener.queue).fragments with
      | nil =>
        have htake := take_fst_of_empty hqueue
        have hsame := take_of_empty hqueue
        cases hclosed : (x.queue s.listener.queue).isClosed with
        | true =>
          have hlook : s.look.run x = (.item s.finish none none, x) := by
            simp [look, lookAtQueue, hdone, isFired, hfired, htake, hclosed, hsame]
          rw [hlook]
          exact .ended hdone hfired hqueue hclosed
        | false =>
          have hlook : s.look.run x = (.pending, x) := by
            simp [look, lookAtQueue, hdone, isFired, hfired, htake, hclosed, hsame]
          rw [hlook]
          exact .pending hdone hfired hqueue hclosed
      | cons f rest =>
        have htake := (take_of_cons hqueue).1
        by_cases hstatus : f.status = .error
        · have hlook : s.look.run x =
              (.item (s.close.run (take s.listener.queue x).2).1
                (some (.error (.foreign (EngineError.ofPayload f.payload)))) (some f),
              (s.close.run (take s.listener.queue x).2).2) := by
            simp [look, lookAtQueue, hdone, isFired, hfired, htake, hstatus]
          rw [hlook]
          exact .failed hdone hfired hqueue hstatus
        · by_cases hempty : f.payload = []
          · have hlook : s.look.run x = (.again f, (take s.listener.queue x).2) := by
              simp [look, lookAtQueue, hdone, isFired, hfired, htake, hstatus, hempty]
            rw [hlook]
            exact .empty hdone hfired hqueue hstatus hempty
          · have hlook : s.look.run x =
                (.item s (some (.ok f.payload)) (some f), (take s.listener.queue x).2) := by
              simp [look, lookAtQueue, hdone, isFired, hfired, htake, hstatus, hempty]
            rw [hlook]
            exact .payload hdone hfired hqueue hstatus hempty

/-- A reading end that is closed stays on the same call. -/
theorem close_listener (s : Subscription) (x : Exchange) :
    (s.close.run x).1.listener = s.listener ∨ (s.close.run x).1.listener = s.listener.finish := by
  rw [close_run]
  split
  · exact .inl rfl
  · exact .inr rfl

theorem close_exhausted (s : Subscription) (x : Exchange) : (s.close.run x).1.exhausted = true := by
  rw [close_run]
  split <;> rfl

/-- Who reads on: either nothing has been ended, or the sequence is over. -/
def Follows (s s' : Subscription) : Prop :=
  s' = s ∨ s'.exhausted = true ∧ (s'.listener = s.listener ∨ s'.listener = s.listener.finish)

theorem Shows.again_reads {s : Subscription} {f : Fragment} (h : Shows s x (.again f) y) :
    Reads s.listener x [f] false false y := by
  cases h with
  | empty hmore hrunning hqueue => exact .one hqueue

theorem Shows.pending_eq {s : Subscription} (h : Shows s x .pending y) : y = x := by
  cases h
  rfl

theorem Shows.item_reads {s s' : Subscription} {item : Option (Except ClientError Bytes)}
    {read : Option Fragment} (hmore : s.exhausted = false) (h : Shows s x (.item s' item read) y) :
    s.Follows s' ∧ Reads s.listener x read.toList s'.exhausted false y := by
  cases h with
  | exhausted hdone =>
    rw [hmore] at hdone
    cases hdone
  | shutdown _ hfired =>
    refine ⟨.inr ⟨rfl, .inr rfl⟩, .last (.refl _ _) rfl fun hlive => ?_⟩
    rw [hlive.running] at hfired
    cases hfired
  | ended _ _ _ hclosed =>
    refine ⟨.inr ⟨rfl, .inr rfl⟩, .last (.refl _ _) rfl fun hlive => ?_⟩
    rw [hlive.isOpen] at hclosed
    cases hclosed
  | failed _ _ hqueue =>
    have hexhausted := s.close_exhausted (take s.listener.queue x).2
    refine ⟨.inr ⟨hexhausted, s.close_listener _⟩, ?_⟩
    rw [hexhausted]
    refine (Reads.one hqueue).trans (.last (s.onward_close _) fragments_close fun hlive => ?_)
    exact (close_of_live hlive).2
  | payload _ _ hqueue =>
    rw [hmore]
    exact ⟨.inl rfl, .one hqueue⟩

/-- Reading on ends a sequence together with its call, or leaves both as they are. -/
theorem readAtMost_reads (n : Nat) (s : Subscription) (hmore : s.exhausted = false) (x : Exchange) :
    s.Follows ((s.readAtMost n x).1.2.elim s Prod.fst) ∧
      Reads s.listener x (s.readAtMost n x).1.1
        ((s.readAtMost n x).1.2.elim s Prod.fst).exhausted false (s.readAtMost n x).2 := by
  induction n generalizing x with
  | zero =>
    refine ⟨.inl rfl, ?_⟩
    simp only [readAtMost, stateM_pure, Option.elim_none, hmore]
    exact .nothing _ _
  | succ n ih =>
    have hshows := look_shows s x
    simp only [readAtMost, stateM_bind]
    cases hlook : (s.look.run x).1 with
    | pending =>
      rw [hlook] at hshows
      simp only [hshows.pending_eq, stateM_pure, Option.elim_none, hmore]
      exact ⟨.inl rfl, .nothing _ _⟩
    | again f =>
      rw [hlook] at hshows
      obtain ⟨hfollows, hmore'⟩ := ih (s.look.run x).2
      exact ⟨hfollows, hshows.again_reads.trans hmore'⟩
    | item s' item read =>
      rw [hlook] at hshows
      exact hshows.item_reads hmore

theorem read_reads {s : Subscription} (hmore : s.exhausted = false) (x : Exchange) :
    s.Follows ((s.read x).1.2.elim s Prod.fst) ∧
      Reads s.listener x (s.read x).1.1 ((s.read x).1.2.elim s Prod.fst).exhausted false (s.read x).2 :=
  readAtMost_reads _ s hmore x

theorem read_of_exhausted {s : Subscription} (hdone : s.exhausted = true) (x : Exchange) :
    s.read x = (([], some (s, none)), x) := by
  simp [read, readAtMost, look, hdone]

/-- A subscription to a call whose queue is closed has a fragment to pass over, a next item, or has come to
its end. -/
theorem Shows.of_closed {s : Subscription} {look : Look} (h : Shows s x look y)
    (hclosed : (x.queue s.listener.queue).isClosed = true) :
    (∃ f, look = .again f) ∨ ∃ s' item read, look = .item s' item read := by
  cases h with
  | exhausted | shutdown | ended | failed | payload => exact .inr ⟨_, _, _, rfl⟩
  | empty => exact .inl ⟨_, rfl⟩
  | pending _ _ _ hopen =>
    rw [hclosed] at hopen
    cases hopen

theorem read_of_closed (s : Subscription) (x : Exchange)
    (hclosed : (x.queue s.listener.queue).isClosed = true) : (s.read x).1.2.isSome = true := by
  have hmany (n : Nat) (hn : (x.queue s.listener.queue).fragments.length < n) :
      (s.readAtMost n x).1.2.isSome = true := by
    induction n generalizing x with
    | zero => omega
    | succ n ih =>
      have hshows := look_shows s x
      simp only [readAtMost, stateM_bind]
      obtain ⟨f, hlook⟩ | ⟨s', item, read, hlook⟩ := hshows.of_closed hclosed
      · rw [hlook] at hshows ⊢
        have hreads := hshows.again_reads
        refine ih _ (hreads.onward.closed hclosed) ?_
        rw [hreads.left rfl] at hn
        simp only [List.length_append, List.length_singleton] at hn
        omega
      · rw [hlook]
        rfl
  exact hmany _ (by omega)

theorem Follows.queue {s s' : Subscription} (h : s.Follows s') : s'.listener.queue = s.listener.queue := by
  obtain rfl | ⟨-, hlistener | hlistener⟩ := h
  · rfl
  · rw [hlistener]
  · rw [hlistener]
    rfl

theorem Follows.onward {s s' : Subscription} (h : s.Follows s') (honward : Onward s'.listener x y) :
    Onward s.listener x y := by
  obtain rfl | ⟨-, hlistener | hlistener⟩ := h
  · exact honward
  · rwa [hlistener] at honward
  · rw [hlistener] at honward
    exact honward.of_finish

theorem Follows.close {s s' : Subscription} (h : s.Follows s') (x : Exchange) :
    s.Follows (s'.close.run x).1 := by
  refine .inr ⟨s'.close_exhausted x, ?_⟩
  obtain rfl | ⟨-, hlistener | hlistener⟩ := h
  · exact s'.close_listener x
  · rw [← hlistener]
    exact s'.close_listener x
  · have hclosed := s'.close_listener x
    rw [hlistener] at hclosed
    exact .inr (hclosed.elim id id)

/-- A sequence that is closed after it has been read is over. -/
theorem Follows.reads_close {s s' : Subscription} {read : List Fragment} (h : s.Follows s')
    (hreads : Reads s.listener x read s'.exhausted false y) :
    Reads s.listener x read true false (s'.close.run y).2 := by
  have honward := h.onward (s'.onward_close y)
  have hfragments := fragments_close (s := s') (x := y)
  rw [h.queue] at hfragments
  refine ⟨hreads.onward.trans honward, hreads.taken, ?_, ?_, ?_⟩
  · intro _
    rw [hfragments]
    exact hreads.left rfl
  · intro _ hover
    cases hover
  · intro hlive _
    cases hexhausted : s'.exhausted with
    | true => exact honward.ended (hreads.ended hlive hexhausted)
    | false =>
      obtain rfl | ⟨hover, -⟩ := h
      · exact (close_of_live (hreads.live hlive hexhausted)).2
      · rw [hexhausted] at hover
        cases hover

theorem decoded_reads {α : Type} (decode : Bytes → Except Fault α) {s : Subscription}
    {outcome : Option (Subscription × Option (Except ClientError Bytes))} {read : List Fragment}
    (hfollows : s.Follows (outcome.elim s Prod.fst))
    (hreads : Reads s.listener x read (outcome.elim s Prod.fst).exhausted false y) :
    s.Follows ((decoded decode outcome y).1.elim s Prod.fst) ∧
      Reads s.listener x read ((decoded decode outcome y).1.elim s Prod.fst).exhausted false
        (decoded decode outcome y).2 := by
  match outcome with
  | none => exact ⟨hfollows, hreads⟩
  | some (s', none) => exact ⟨hfollows, hreads⟩
  | some (s', some (.error e)) =>
    have hclosed := hfollows.reads_close hreads
    rw [← s'.close_exhausted y] at hclosed
    exact ⟨hfollows.close y, hclosed⟩
  | some (s', some (.ok payload)) =>
    simp only [decoded]
    cases decode payload with
    | ok a => exact ⟨hfollows, hreads⟩
    | error f =>
      have hclosed := hfollows.reads_close hreads
      rw [← s'.close_exhausted y] at hclosed
      exact ⟨hfollows.close y, hclosed⟩

end Subscription

end Switchboard
