import Switchboard.Proofs.Feed.Stages
/-!
What has become of one who is told something in the end: where he stood when his reading was over, and, if he has ended
the subscription in the engine, what the engine has seen of that.
-/
namespace Switchboard.Feed

open Exchange Process World Receiving

variable {c : ClientId} {l : Listener} {w : World} {ending : Option (List Nat)} {t : Stand}
  {before : List Fragment} {d : Company World Told} {order : List Nat}

/-- What one does after his reading. -/
def afterwards (c : ClientId) (ending : Option (List Nat)) (u : Use) : Process World Told := do
  return .used (← finish c ending u)

theorem user_eq (looks : Nat) (wishes : List Wish) :
    user c looks wishes ending l = withinExchange (reads looks wishes ending.isSome l) >>= afterwards c ending := rfl

/-- The same subscription, with the same items got of it, or none. -/
structure Use.Alike (u v : Use) : Prop where
  opening : v.opening? = u.opening?
  kept : v.kept? = u.kept?

/-- What the engine has seen of the ending of a subscription. If the client was active when the request was made, the
engine has this one request with the handle; whatever stands in the table under the number of the call is the call of
the request, which has been given the same number. Else there has been no request, and the answer says so. -/
inductive Ended (c : ClientId) (l : Listener) (w : World) (d : Company World Told) (order : List Nat)
    (n : NetSubscription) (answer : Option (Except ClientError Unit)) : Prop where
  | sent {before after : List Nat} {r : EngineRequest} (horder : order = before ++ 0 :: after)
      (hactive : ((d.follow before).state.client c).lifecycle = .active r.context)
      (hmethod : r.method = "net.unsubscribe")
      (hparams : Api.SubscriptionHandle.form.read r.params = .ok ⟨n.handle⟩)
      (hrequests : ∀ e, ((d.follow order).state.engine e).requests =
        (w.engine e).requests ++ if e = (w.client c).engine then [r] else [])
      (hout : ∀ call, ((d.follow order).state.exchange.table l.table).find? l.id = some call →
        r.id = l.id ∧ call ≠ l.call)
  | refused {before after : List Nat} (horder : order = before ++ 0 :: after)
      (hgone : ((d.follow before).state.client c).lifecycle = .destroyed)
      (hrequests : ∀ e, ((d.follow order).state.engine e).requests = (w.engine e).requests)
      (hanswer : answer = some (.error (.invalidState .sendRequest .destroyed)))
      (hout : Out l (d.follow order).state.exchange)

/-- How one who is told something in the end has stood when his reading was over, and what has happened since. -/
inductive Account (c : ClientId) (l : Listener) (w : World) (closing : Bool) (t : Stand) (before : List Fragment)
    (d : Company World Told) (order : List Nat) (v : Use) : Prop where
  | intro {t' : Stand} {u : Use} {x : Exchange} {steps : Nat} {accepted more : List Fragment}
      (hcomes : Comes l closing t' u) (halike : u.Alike v)
      (haccepted : before ++ entered l order d = accepted ++ more) (hholds : t'.Holds l accepted x)
      (hmore : (x.queue l.queue).isClosed = true → more = [])
      (hsettles : Settles l x (d.follow order).state.exchange)
      (hsteps : steps ≤ order.count 0) (hprogress : Progress l steps t d.state.exchange t' x)
      (hstays : v.kept? = none → x = (d.follow order).state.exchange ∧
        ∀ i, (d.follow order).result? i = some .destroyed → Out l x)
      (hended : ∀ n got answer, v = .ended n got answer → n.inner.exhausted = true ∧ Ended c l w d order n answer)

section Finish

variable {n : NetSubscription} {got : List (Got Value)} {u v : Use} {told : Told}

/-- To end a subscription is a request, and to wait for its answer. -/
theorem afterwards_kept (c : ClientId) (l : Listener) (times : List Nat) (n : NetSubscription) (got : List (Got Value)) :
    ∃ next, afterwards c (some times) (.kept n got) = .step next (fun w =>
        (Client.request c (Api.unsubscribe n.handle).method (encodeParams (Api.unsubscribe n.handle).params) w).2) ∧
      ∀ w, (next w).All (Drifts c l) fun told => ∃ answer, told = .used (.ended n got answer) ∧
        ∀ err, (Client.request c (Api.unsubscribe n.handle).method
          (encodeParams (Api.unsubscribe n.handle).params) w).1 = .error err → answer = some (.error err) := by
  refine ⟨_, rfl, fun w => ?_⟩
  dsimp only
  generalize (Client.request c _ _ w).1 = r
  cases r with
  | error err => exact ⟨_, rfl, fun _ h => by cases h; rfl⟩
  | ok m =>
    have hwatch : (withinExchange (watch times (.start m 0 none))).All (Drifts c l) fun _ => True :=
      drifts_within (ebbs_watch times _)
    refine All.bind (Q := fun u => ∃ answer, u = .ended n got answer) ?_ fun u hu => ?_
    · refine All.bind (Q := fun _ => True) ?_ fun answer _ => ⟨answer, rfl⟩
      exact hwatch.bind fun _ _ => trivial
    · obtain ⟨answer, rfl⟩ := hu
      exact ⟨answer, rfl, nofun⟩

/-- Who has nothing to end is told what he has come to. -/
theorem afterwards_eq (hkept : ∀ n got, u = .kept n got → ending = none) : afterwards c ending u = .done (.used u) := by
  cases u with
  | kept n got =>
    cases hkept n got rfl
    rfl
  | givenUp | failed err | ended n got answer => rfl

/-- Who has something left to do after his reading has a subscription to end. -/
theorem exists_kept_of_step {next : World → Process World Told} {effect : World → World}
    (hrest : afterwards c ending u = .step next effect) : ∃ n got times, u = .kept n got ∧ ending = some times := by
  by_contra hnone
  rw [afterwards_eq fun n got hu => Option.eq_none_iff_forall_ne_some.2 fun times htimes =>
    hnone ⟨n, got, times, hu, htimes⟩] at hrest
  cases hrest

end Finish

/-- What has been read begins what has been accepted. -/
theorem Stand.Holds.begins {x : Exchange} {accepted : List Fragment} (h : t.Holds l accepted x) : t.read <+: accepted := by
  obtain ⟨read, n, k, phase⟩ := t
  cases phase with
  | waiting | looking => exact h.1 ▸ List.prefix_append _ _
  | isOver e out => exact Past.begins h

/-- Whoever has closed the subscription is at its end, and the call is out of the table. -/
theorem Items.closed_spec {x : Exchange} {first accepted : List Fragment} {s : Subscription} {got : List (Got Value)}
    (h : Items l first true t s got) (hholds : t.Holds l accepted x) : s.exhausted = true ∧ Out l x := by
  cases h with
  | reading _ hopen => cases hopen
  | closed _ hdone => exact ⟨hdone, hholds.out rfl⟩
  | isOver hover hout => exact ⟨hover.exhausted, hholds.out (hout rfl)⟩

section Asking

/-- Nothing comes into a closed queue any more. -/
theorem entered_of_closed (hall : ∀ p ∈ d.programs, p.All (Drifts c l) fun _ => True)
    (hclosed : (d.state.exchange.queue l.queue).isClosed = true) (order : List Nat) : entered l order d = [] := by
  induction order generalizing d with
  | nil => rfl
  | cons i rest ih =>
    obtain ⟨hstep, hnext⟩ := Company.advance_all (.refl c l) hall i
    rw [entered, appended_of_le (hstep.ebbs.quiet hclosed), ih hnext (hstep.ebbs.closed hclosed), List.nil_append]

variable {u : Use} {next : World → Process World Told} {effect : World → World} {accepted : List Fragment}
  {told : Told} {before after : List Nat}

/-- One takes a step after which all that is left to anybody lets the call come to its end. -/
theorem follow_after_step {first : World → Process World Told} {others : List (Process World Told)} {P : Told → Prop}
    (hprograms : d.programs = .step first effect :: others) (hfirst : (first d.state).All (Drifts c l) P)
    (hothers : ∀ q ∈ others, q.All (Drifts c l) fun _ => True)
    (hsettles : Settles l d.state.exchange (effect d.state).exchange) (after : List Nat) :
    Drifts c l (effect d.state) (d.follow (0 :: after)).state ∧
      ((d.state.exchange.queue l.queue).isClosed = true → entered l (0 :: after) d = []) ∧
      ∀ told, (d.follow (0 :: after)).result? 0 = some told → P told := by
  have hadvance : d.advance 0 = ⟨effect d.state, first d.state :: others⟩ := by
    simp only [Company.advance, hprograms, List.getElem?_cons_zero, List.set_cons_zero]
  have hall : ∀ p ∈ (d.advance 0).programs, p.All (Drifts c l) fun _ => True := by
    rw [hadvance]
    intro p hp
    obtain rfl | hp := List.mem_cons.1 hp
    · exact hfirst.imp fun _ _ => trivial
    · exact hothers p hp
  refine ⟨?_, fun hclosed => ?_, fun told htold => ?_⟩
  · have hdrifts := Company.follow_all (.refl c l) (fun _ _ _ => .trans) hall after
    rw [Company.follow]
    rwa [hadvance] at hdrifts ⊢
  · rw [entered, entered_of_closed hall (by rw [hadvance]; exact hsettles.closed hclosed), List.append_nil, hadvance]
    exact appended_of_le (hsettles.quiet hclosed)
  · have hturn : (d.advance 0).programs[0]? = some (first d.state) := by
      rw [hadvance]
      rfl
    exact (Company.run_follow (d.advance 0) after).answers hturn (hfirst.mono (fun _ _ _ => trivial) fun _ => id) htold

/-- One who goes on to something else ends the subscription, and nothing comes back into the table by that. -/
theorem Stage.ended (h : Stage c l w ending.isSome (afterwards c ending) t accepted (d.follow before))
    (hactive : ∃ context, (w.client c).lifecycle = .active context)
    (hengine : (w.client c).engine.index < w.engines.length) (hcomes : Comes l ending.isSome t u)
    (hrest : afterwards c ending u = .step next effect)
    (hprogram : (d.follow before).programs[0]? = some (afterwards c ending u))
    (htold : (d.follow (before ++ 0 :: after)).result? 0 = some told) :
    ∃ n got answer, u = .kept n got ∧ told = .used (.ended n got answer) ∧ n.inner.exhausted = true ∧
      Ended c l w d (before ++ 0 :: after) n answer ∧
      Settles l (d.follow before).state.exchange (d.follow (before ++ 0 :: after)).state.exchange ∧
      (((d.follow before).state.exchange.queue l.queue).isClosed = true →
        entered l (0 :: after) (d.follow before) = []) := by
  obtain ⟨n, got, times, rfl, rfl⟩ := exists_kept_of_step hrest
  obtain ⟨hdone, hout⟩ : n.inner.exhausted = true ∧ Out l (d.follow before).state.exchange := by
    cases hcomes with
    | kept _ _ hitems => exact hitems.closed_spec h.holds
  obtain ⟨next', hnext, hall⟩ := afterwards_kept c l times n got
  obtain ⟨p, others, hprograms, -, hothers⟩ := h.programs
  rw [hprograms, hnext, List.getElem?_cons_zero, Option.some.injEq] at hprogram
  rw [hprogram] at hprograms
  have hdrifts : ∀ q ∈ others, q.All (Drifts c l) fun _ => True := fun q hq => (hothers q hq).drifts
  have hfollow : d.follow (before ++ 0 :: after) = (d.follow before).follow (0 :: after) := Company.follow_append _ _ _
  rw [hfollow] at htold
  have hquiet := h.quiet
  obtain ⟨context, hactive⟩ := hactive
  obtain hsame | hgone := hquiet.client
  · -- The client is still active and sends the request.
    have hsends : ((d.follow before).state.client c).lifecycle = .active context := by rw [hsame, hactive]
    obtain ⟨m, -, hasks⟩ := asks_request n.handle h.scene.sound.queue h.scene.sound.table h.scene.table
      (by rw [hsame, hquiet.engines]; exact hengine) hsends
    obtain ⟨hlater, hentered, hanswer⟩ := follow_after_step hprograms (hall _) hdrifts hasks.settles after
    obtain ⟨answer, rfl, -⟩ := hanswer told htold
    refine ⟨n, got, answer, rfl, rfl, hdone, ?_, ?_, hentered⟩
    · refine .sent (r := ending context n.handle m.id) rfl (by rw [hsame, hactive]; rfl) rfl (read_ending _ _ _)
        (fun e => ?_) fun call hfind => ?_
      · rw [hfollow, hlater.requests, hasks.requests, hquiet.requests, hsame]
      · rw [hfollow] at hfind
        have hmem := hasks.entries (hlater.ebbs.entries (Table.mem_of_find? hfind))
        obtain hbefore | hnew := List.mem_append.1 hmem
        · exact absurd rfl (Table.find?_eq_none_iff.1 hout _ hbefore)
        · obtain ⟨hid, hcall⟩ := Prod.mk.inj (List.mem_singleton.1 hnew)
          exact ⟨hid.symm, fun hsame => hasks.apart (congrArg PendingCall.queue (hcall.symm.trans hsame))⟩
    · rw [hfollow]
      exact hasks.settles.trans hlater.ebbs.toSettles
  · -- The client has been destroyed, and nothing is sent.
    have hrequest := request_of_destroyed (c := c) (w := (d.follow before).state) (by rw [hgone])
      (Api.unsubscribe n.handle).method (encodeParams (Api.unsubscribe n.handle).params)
    have hrests : (Client.request c (Api.unsubscribe n.handle).method (encodeParams (Api.unsubscribe n.handle).params)
        (d.follow before).state).2 = (d.follow before).state := by rw [hrequest]
    obtain ⟨hlater, hentered, hanswer⟩ := follow_after_step hprograms (hall _) hdrifts
      (by rw [hrests]; exact (Ebbs.refl l _).toSettles) after
    obtain ⟨answer, rfl, hrefused⟩ := hanswer told htold
    rw [hrests] at hlater
    refine ⟨n, got, answer, rfl, rfl, hdone, ?_, ?_, hentered⟩
    · refine .refused rfl (by rw [hgone]) (fun e => ?_) (hrefused _ (by rw [hrequest])) ?_
      · rw [hfollow, hlater.requests, hquiet.requests]
      · rw [hfollow]
        exact out_of_entries hlater.ebbs.entries hout
    · rw [hfollow]
      exact hlater.ebbs.toSettles

end Asking

section Accounts

variable {told : Told} {accepted : List Fragment} {v : Use}

theorem Use.Alike.refl (u : Use) : u.Alike u := ⟨rfl, rfl⟩

/-- Who is told something while the others go on is told what he has come to by reading. -/
theorem Stage.result (h : Stage c l w ending.isSome (afterwards c ending) t accepted d)
    (htold : d.result? 0 = some told) :
    ∃ u, Comes l ending.isSome t u ∧ told = .used u ∧ ∀ n got answer, u ≠ .ended n got answer := by
  obtain ⟨p, others, hprograms, hobeys, -⟩ := h.programs
  rw [Company.result?_eq_some_iff, hprograms, List.getElem?_cons_zero, Option.some.injEq] at htold
  cases p with
  | step next effect => cases htold
  | done u =>
    have hcomes : Comes l ending.isSome t u := hobeys
    have htold : afterwards c ending u = .done told := htold
    refine ⟨u, hcomes, ?_, fun n got answer hu => by subst hu; cases hcomes⟩
    cases u with
    | kept n got =>
      cases ending with
      | none =>
        cases htold
        rfl
      | some times => cases htold
    | givenUp | failed err | ended n got answer =>
      cases htold
      rfl

/-- Who has destroyed the client has taken the call out of the table. -/
theorem Stage.out_of_destroyed (h : Stage c l w ending.isSome (afterwards c ending) t accepted d) {i : Nat}
    (hi : d.result? i = some .destroyed) : Out l d.state.exchange := by
  cases i with
  | zero =>
    obtain ⟨u, -, htold, -⟩ := h.result hi
    cases htold
  | succ i =>
    obtain ⟨p, others, hprograms, -, hothers⟩ := h.programs
    rw [Company.result?_eq_some_iff, hprograms, List.getElem?_cons_succ] at hi
    obtain ⟨k, hfits, hknows⟩ := (hothers _ (List.mem_of_getElem? hi)).knows
    cases hknows rfl
    exact hfits

theorem Leads.account (h : Leads c l w ending.isSome (afterwards c ending) t accepted d order)
    (hactive : ∃ context, (w.client c).lifecycle = .active context)
    (hengine : (w.client c).engine.index < w.engines.length) (htold : (d.follow order).result? 0 = some told) :
    ∃ v, told = .used v ∧ Account c l w ending.isSome t accepted d order v := by
  cases h with
  | stays hstage hprogress =>
    obtain ⟨u, hcomes, rfl, hnot⟩ := hstage.result htold
    refine ⟨u, rfl, .intro hcomes (.refl u) (List.append_nil _).symm hstage.holds (fun _ => rfl)
      (Ebbs.refl l _).toSettles (Nat.le_refl _) hprogress (fun _ => ⟨rfl, fun i => hstage.out_of_destroyed⟩) ?_⟩
    exact fun n got answer hv => absurd hv (hnot n got answer)
  | @leaves before after t' u next effect horder hstage hprogress hcomes hrest hprogram =>
    subst horder
    obtain ⟨n, got, answer, rfl, rfl, hdone, hended, hsettles, hentered⟩ :=
      hstage.ended hactive hengine hcomes hrest hprogram htold
    have hsplit : accepted ++ entered l (before ++ 0 :: after) d =
        accepted ++ entered l before d ++ entered l (0 :: after) (d.follow before) := by
      rw [entered_append, List.append_assoc]
    refine ⟨_, rfl, .intro hcomes ⟨rfl, rfl⟩ hsplit hstage.holds hentered hsettles ?_ hprogress nofun ?_⟩
    · rw [List.count_append]
      exact Nat.le_add_right _ _
    · intro n' got' answer' hv
      cases hv
      exact ⟨hdone, hended⟩

end Accounts

end Switchboard.Feed
