import Switchboard.Proofs.Feed.Account
import Switchboard.Proofs.Session.Outstanding
/-!
What becomes of a subscription to the network, in whatever order the steps of all parties fall: whether it opens, what
is got of it, and that nothing of it stays in the table.
-/
namespace Switchboard.Feed

open Exchange Process World Receiving

variable {c : ClientId} {l : Listener} {w : World} {ending : Option (List Nat)} {t : Stand} {x : Exchange}
  {d : Company World Told} {order : List Nat} {looks : Nat} {wishes : List Wish} {parties : List Party}

/-- A client that is active has opened the call of a listener. -/
structure Begun (c : ClientId) (l : Listener) (w : World) : Prop where
  ready : w.exchange.Ready l
  keyed : (w.exchange.table l.table).Keyed
  table : (w.client c).table = l.table
  shutdown : (w.client c).shutdown = l.shutdown
  active : ∃ context, (w.client c).lifecycle = .active context
  engine : (w.client c).engine.index < w.engines.length

/-- So it is as soon as an active client of a session has registered a call. What the engine answers from within the
request is delivered after that. -/
theorem begun_openCall {start : RequestId} {s : Session} {client : Client} {context : UInt32}
    (h : s.ground.IsSound start) (hclient : s.world.clients[c.index]? = some client)
    (hactive : client.lifecycle = .active context) (hengine : client.engine.index < s.world.engines.length) :
    Begun c (atExchange (Client.openCall Session.shared client.shutdown) s.world).1
      (atExchange (Client.openCall Session.shared client.shutdown) s.world).2 := by
  have h : Session.Sound start s.world.exchange s.world.clients s.calls s.history := h
  obtain ⟨hsignal, hdestroyed⟩ := h.shutdown _ client hclient
  obtain ⟨-, hfree⟩ := h.next_id
  have hrunning : s.world.exchange.fired client.shutdown = false := by
    rw [← Bool.not_eq_true, hdestroyed, hactive]
    exact nofun
  have hsame : (atExchange (Client.openCall Session.shared client.shutdown) s.world).2.client c = client :=
    World.client_of_getElem? hclient
  constructor
  case ready => exact Client.ready_openCall h.tables hfree hrunning hsignal
  case keyed =>
    show ((Client.openCall Session.shared client.shutdown s.world.exchange).2.table Session.shared).Keyed
    rw [Client.table_openCall h.tables, if_pos rfl]
    exact h.keyed.register hfree
  case table => exact (congrArg Client.table hsame).trans (h.tableOf _ client hclient)
  case shutdown => exact congrArg Client.shutdown hsame
  case active => exact ⟨context, by rw [hsame, hactive]⟩
  case engine =>
    rw [hsame]
    exact hengine

/-- So many steps one may take who uses a subscription. -/
def stepsOf (looks : Nat) (wishes : List Wish) (ending : Option (List Nat)) : Nat :=
  6 * looks + stepsFor wishes + 8 + (ending.elim 0 fun times => 5 * times.length + 5)

/-- What comes of the use of a subscription after steps of all parties in some order. -/
structure Served (c : ClientId) (l : Listener) (w : World) (looks : Nat) (wishes : List Wish)
    (ending : Option (List Nat)) (order : List Nat) (d : Company World Told) : Prop where
  /-- The first accepted fragment that decides says whether it opens. If there is none it fails at the end of the
  queue, and it fails if the client has gone. -/
  opening : ∀ u r, (d.follow order).result? 0 = some (.used u) → u.opening? = some r →
    openingOf (accepted l order d) = some r ∨
      openingOf (accepted l order d) = none ∧
        ((d.follow order).state.exchange.queue l.queue).isClosed = true ∧ r = NetSubscription.handleOf none ∨
      r = .error .transportClosed ∧ (d.follow order).state.exchange.fired l.shutdown = true
  /-- Whoever waits with a look left while the client goes is told so. -/
  woken : ∀ before after left, before ++ after = order →
    (d.follow before).programs[0]? = some (user c (left + 1) wishes ending l) →
    (d.follow before).state.exchange.fired l.shutdown = true →
    ∀ u, (d.follow order).result? 0 = some (.used u) → u = .failed .transportClosed
  /-- It opens or fails once this is decided, with looks enough. -/
  returns : ∀ before after, before ++ after = order →
    ((d.follow before).state.exchange.fired l.shutdown = true ∨
      ((d.follow before).state.exchange.queue l.queue).isClosed = true ∨ openingOf (accepted l before d) ≠ none) →
    before.count 0 + ((d.follow before).state.exchange.queue l.queue).fragments.length + 1 ≤ looks →
    stepsOf looks wishes ending ≤ order.count 0 →
    ∃ u, (d.follow order).result? 0 = some (.used u) ∧ u ≠ .givenUp
  /-- What is got are the items behind the opening, in order, and then nothing but that there is no more. -/
  items : ∀ u n got, (d.follow order).result? 0 = some (.used u) → u.kept? = some (n, got) →
    ∃ as rest, Heard ((d.follow order).state.exchange.fired l.shutdown = true) (behindOpening (accepted l order d)) as ∧
      Yields as got rest ∧
      ((∃ g ∈ got, g.Ends) → rest = [] ∧ ∀ looks, manner.next (looks + 1) n.inner = return some (n.inner, none))
  /-- Whoever asks often enough comes to the end. -/
  ends : ∀ before after, before ++ after = order →
    ((d.follow before).state.exchange.fired l.shutdown = true ∨
      ((d.follow before).state.exchange.queue l.queue).isClosed = true) →
    before.count 0 + ((d.follow before).state.exchange.queue l.queue).fragments.length + 1 ≤ asked wishes →
    ∀ u n got, (d.follow order).result? 0 = some (.used u) → u.kept? = some (n, got) → ∃ g ∈ got, g.Ends
  /-- Nothing stays in the table if the opening has been given up. Nor does anything if it has failed, unless the
  client has gone. -/
  released : ∀ u, (d.follow order).result? 0 = some (.used u) →
    (u = .givenUp → Out l (d.follow order).state.exchange) ∧
      ∀ err, u = .failed err → Out l (d.follow order).state.exchange ∨
        (d.follow order).state.exchange.fired l.shutdown = true ∧
          (err = .transportClosed ∨
            openingOf (accepted l order d) = none ∧ NetSubscription.handleOf none = .error err)
  /-- Nothing stays in the table in any case once the client has been destroyed. -/
  destroyed : ∀ u i, (d.follow order).result? 0 = some (.used u) → u.kept? = none →
    (d.follow order).result? i = some .destroyed → Out l (d.follow order).state.exchange
  /-- Whoever has ended it, with whatever answer, gets no more, and the engine has been asked for that at most once. -/
  ended : ∀ n got answer, (d.follow order).result? 0 = some (.used (.ended n got answer)) →
    (∀ looks, manner.next (looks + 1) n.inner = return some (n.inner, none)) ∧ Ended c l w d order n answer

section Meeting

variable {accepted : List Fragment}

/-- With so many looks left it will be seen what has been decided. -/
theorem Stand.Holds.opens (h : t.Holds l accepted x)
    (hmet : x.fired l.shutdown = true ∨ (x.queue l.queue).isClosed = true ∨ openingOf accepted ≠ none)
    (hlooks : (x.queue l.queue).fragments.length + 1 ≤ t.looks) : t.Opens l x := by
  obtain ⟨read, n, k, phase⟩ := t
  have hlooks : (x.queue l.queue).fragments.length + 1 ≤ n := hlooks
  have hwaiting (begun : Nat) (hread : accepted = read ++ (x.queue l.queue).fragments) :
      read.any decides = true ∨ Meets l x (decides · = true) begun n := by
    by_cases hdecided : read.any decides = true
    · exact .inl hdecided
    · right
      obtain hfired | hclosed | hopening := hmet
      · exact .inl ⟨hfired, by omega⟩
      · exact .inr ⟨_, by omega, .inr ⟨rfl, hclosed⟩⟩
      · obtain ⟨f, hf, hdecides⟩ : ∃ f ∈ accepted, decides f = true := by
          by_contra hnone
          exact hopening (openingOf_eq_none_iff.2 fun f hf => by simpa using fun h => hnone ⟨f, hf, h⟩)
        rw [hread, List.mem_append] at hf
        obtain hf | hf := hf
        · exact absurd (List.any_eq_true.2 ⟨f, hf, hdecides⟩) hdecided
        · obtain ⟨i, hi⟩ := List.getElem?_of_mem hf
          have hlt := (List.getElem?_eq_some_iff.1 hi).1
          exact .inr ⟨i, by omega, .inl ⟨f, hi, hdecides⟩⟩
  cases phase with
  | waiting | looking => exact hwaiting _ h.1
  | isOver e out =>
    intro he
    by_contra hundecided
    have hzero : n = 0 := (Past.spent h he).looks_eq_zero (Bool.not_eq_true _ ▸ hundecided)
    omega

theorem Stand.Holds.ends (h : t.Holds l accepted x)
    (hmet : x.fired l.shutdown = true ∨ (x.queue l.queue).isClosed = true)
    (hasks : (x.queue l.queue).fragments.length + 1 ≤ t.asks) : t.Ends l x := by
  obtain ⟨read, n, k, phase⟩ := t
  have hasks : (x.queue l.queue).fragments.length + 1 ≤ k := hasks
  have hwaiting (begun : Nat) : Meets l x (fun _ => False) begun k :=
    hmet.imp (fun hfired => ⟨hfired, by omega⟩) fun hclosed => ⟨_, by omega, .inr ⟨rfl, hclosed⟩⟩
  cases phase with
  | waiting | looking => exact hwaiting _
  | isOver e out =>
    intro he
    by_contra hdecided
    have hzero : k = 0 := (Past.spent h he).asks_eq_zero (Bool.not_eq_false _ ▸ hdecided)
    omega

end Meeting

section Accounts

variable {first : List Fragment} {s : Subscription} {got : List (Got Value)} {closing : Bool}

theorem Heard.mono {p q : Prop} (hpq : p → q) {fs : List Fragment} {as : List (Except ClientError Value)}
    (h : Heard p fs as) : Heard q fs as := by
  cases h with
  | all => exact .all
  | cut hlost hpart => exact .cut (hpq hlost) hpart

theorem not_ends_of_goes {read : List Fragment} (hgoes : manner.Goes read) :
    ¬∃ g ∈ shown (manner.sequence read), g.Ends := by
  rintro ⟨g, hg, hends⟩
  obtain ⟨a, ha, rfl⟩ := List.mem_map.1 hg
  obtain ⟨b, rfl⟩ := hgoes.ok a ha
  exact hends

/-- What has been got of the items, seen from all that has been accepted in the end. -/
theorem Items.heard (h : Items l first closing t s got) {acc more : List Fragment} (hholds : t.Holds l acc x)
    (hmore : (x.queue l.queue).isClosed = true → more = []) (hbehind : ∀ more, behindOpening (first ++ more) = more) :
    ∃ as rest, Heard (x.fired l.shutdown = true) (behindOpening (acc ++ more)) as ∧ Yields as got rest ∧
      ((∃ g ∈ got, g.Ends) → rest = [] ∧ s.exhausted = true) := by
  obtain ⟨later, rfl⟩ := hholds.begins
  have hgoing {read : List Fragment} (hread : t.read = first ++ read) (hgoes : manner.Goes read) :
      ∃ as rest, Heard (x.fired l.shutdown = true) (behindOpening (t.read ++ later ++ more)) as ∧
        Yields as (shown (manner.sequence read)) rest ∧
        ((∃ g ∈ shown (manner.sequence read), g.Ends) → rest = [] ∧ s.exhausted = true) := by
    refine ⟨_, manner.sequence (later ++ more), .all, ?_, fun hends => absurd hends (not_ends_of_goes hgoes)⟩
    rw [hread, List.append_assoc, List.append_assoc, hbehind, hgoes.append]
    exact yields_shown _ _
  cases h with
  | reading hgoes => exact hgoing rfl hgoes
  | closed hgoes => exact hgoing rfl hgoes
  | @isOver read n k e out _ _ hover =>
    have hpast : Past l (first ++ read ++ later) x ⟨first ++ read, n, k, .isOver e out⟩ e out := hholds
    obtain ⟨as, has, hyields⟩ := hover.yields (later ++ more) fun he => by
      obtain ⟨hall, hclosed, -⟩ := hpast.drained he
      rw [hmore hclosed, List.append_nil]
      simpa using hall
    refine ⟨as, [], ?_, hyields, fun _ => ⟨rfl, hover.exhausted⟩⟩
    rw [List.append_assoc, List.append_assoc, hbehind]
    exact has.mono hpast.lost

/-- One who had asks left and had come to the end has seen it. -/
theorem Items.ends (h : Items l first closing t s got) {handle : UInt32} (hopening : openingOf first = some (.ok handle))
    (hasks : t.Ends l x ∨ 0 < t.asks) : ∃ g ∈ got, g.Ends := by
  cases h with
  | reading =>
    obtain hends | hasks := hasks
    · exact absurd rfl (Meets.ne_zero hends)
    · exact absurd hasks (Nat.lt_irrefl 0)
  | closed =>
    obtain hends | hasks := hasks
    · exact absurd (hends rfl) (by rw [decided_of_opening hopening]; exact Bool.noConfusion)
    · exact absurd hasks (Nat.lt_irrefl 0)
  | isOver hover => exact hover.ends

end Accounts

section Waking

variable {left : Nat} {closing : Bool} {acc : List Fragment} {u : Use}

/-- A look begins by asking whether the client is there. -/
theorem reads_wakes (left : Nat) (wishes : List Wish) (closing : Bool) (l : Listener) :
    ∃ goOn, reads (left + 1) wishes closing l = atomic (isFired l.shutdown) >>= goOn ∧
      (goOn true).All (fun _ _ => True) (· = .failed .transportClosed) := by
  have hlook : Subscription.look ⟨l, false⟩ = atomic (isFired l.shutdown) >>= fun fired =>
      if fired then return .item ⟨l.finish, true⟩ (some (.error .transportClosed)) none
      else Subscription.lookAtQueue ⟨l, false⟩ := rfl
  simp only [reads, NetSubscription.openedWithin, nextWithin, hlook, Process.bind_assoc]
  refine ⟨_, rfl, ?_⟩
  have hrelease : l.finish.release.All (fun _ _ => True) fun _ => True :=
    (ebbs_release (l := l) l.finish).mono (fun _ _ _ => trivial) fun _ => id
  simp only [if_true, NetSubscription.handleOf, Process.pure_bind, Process.bind_assoc]
  exact hrelease.bind fun _ _ => rfl

/-- So does one who uses a subscription and waits with a look left. -/
theorem user_wakes (c : ClientId) (left : Nat) (wishes : List Wish) (ending : Option (List Nat)) (l : Listener) :
    ∃ next, user c (left + 1) wishes ending l = .step next (fun v => v) ∧
      ∀ v : World, v.exchange.fired l.shutdown = true →
        (next v).All (fun _ _ => True) (· = .used (.failed .transportClosed)) := by
  obtain ⟨goOn, hreads, hwoken⟩ := reads_wakes left wishes ending.isSome l
  refine ⟨fun v => withinExchange (goOn (v.exchange.fired l.shutdown)) >>= afterwards c ending, ?_, fun v hfired => ?_⟩
  · rw [user_eq, hreads]
    rfl
  · dsimp only
    rw [hfired]
    refine (All.within (fun _ _ _ => trivial) hwoken).bind fun u hu => ?_
    subst hu
    exact rfl

/-- Whoever is about to look when the client has gone is told so, whatever the others do in between. -/
theorem Stage.woken (h : Stage c l w ending.isSome (afterwards c ending) t acc d)
    (hprogram : d.programs[0]? = some (user c (left + 1) wishes ending l))
    (hfired : d.state.exchange.fired l.shutdown = true) (hu : (d.follow order).result? 0 = some (.used u)) :
    u = .failed .transportClosed := by
  obtain ⟨next, huser, hwoken⟩ := user_wakes c left wishes ending l
  rw [huser] at hprogram
  have hturn : 0 ∈ order := by
    by_contra hnever
    rw [Company.result?_eq_some_iff, Company.programs_follow_of_not_mem hnever, hprogram] at hu
    cases hu
  obtain ⟨before, after, rfl, hbefore⟩ := List.eq_append_cons_of_mem hturn
  have hstill : (d.follow before).state.exchange.fired l.shutdown = true := by
    cases h.follow before with
    | stays _ hprogress => exact hprogress.fired hfired
    | leaves horder => exact absurd (by simp [horder]) hbefore
  rw [Company.follow_append, Company.follow] at hu
  rw [← Company.programs_follow_of_not_mem hbefore d] at hprogram
  have hnext : ((d.follow before).advance 0).programs[0]? = some (next (d.follow before).state) := by
    simp only [Company.advance, hprogram]
    exact List.getElem?_set_self (List.getElem?_eq_some_iff.1 hprogram).1
  have hall := (Company.run_follow ((d.follow before).advance 0) after).answers hnext (hwoken _ hstill) hu
  cases hall
  rfl

/-- Nobody waits for the opening after he has gone on to something else. -/
theorem not_user_of_leaves {before after : List Nat} {next : World → Process World Told}
    {effect : World → World} (hrest : afterwards c ending u = .step next effect)
    (hprogram : (d.follow before).programs[0]? = some (afterwards c ending u))
    (hfired : (d.follow (before ++ after)).state.exchange.fired l.shutdown = true) :
    (d.follow (before ++ after)).programs[0]? ≠ some (user c (left + 1) wishes ending l) := by
  obtain ⟨n, got, times, rfl, rfl⟩ := exists_kept_of_step hrest
  obtain ⟨later, hlater, hends⟩ := afterwards_kept c l times n got
  obtain ⟨first, huser, hwoken⟩ := user_wakes c left wishes (some times) l
  have hall : (afterwards c (some times) (.kept n got)).All (fun _ _ => True)
      fun told => ∃ answer, told = .used (.ended n got answer) := by
    rw [hlater]
    exact ⟨fun _ => trivial, fun v => (hends v).mono (fun _ _ _ => trivial) fun _ ⟨answer, htold, _⟩ => ⟨answer, htold⟩⟩
  rw [Company.follow_append] at hfired ⊢
  obtain ⟨q, hq, hqall⟩ := (Company.run_follow (d.follow before) after).all hprogram hall
  intro hsame
  cases hq.symm.trans hsame
  rw [huser] at hqall
  obtain ⟨answer, hended⟩ := (hqall.2 _).answer ((d.follow before).follow after).state
  cases ((hwoken _ hfired).answer ((d.follow before).follow after).state).symm.trans hended

end Waking

section Use

theorem endsWithin_afterwards (u : Use) :
    (afterwards c ending u).EndsWithin (ending.elim 0 fun times => 5 * times.length + 5) := by
  cases u with
  | givenUp | failed err | ended n got answer => trivial
  | kept n got =>
    cases ending with
    | none => trivial
    | some times =>
      have hasks : (asks c times n.handle).EndsWithin (1 + (5 * times.length + 4)) := by
        refine (EndsWithin.atomic _).bind fun r => ?_
        cases r with
        | error err => trivial
        | ok m => exact EndsWithin.bind (n := 0) (EndsWithin.within (endsWithin_watch times _)) fun _ => trivial
      have hfinish : (finish c (some times) (.kept n got)).EndsWithin (1 + (5 * times.length + 4)) :=
        EndsWithin.bind (n := 0) hasks fun _ => trivial
      have hall : (afterwards c (some times) (.kept n got)).EndsWithin (1 + (5 * times.length + 4) + 0) :=
        EndsWithin.bind hfinish fun _ => trivial
      exact hall.mono (by simp only [Option.elim]; omega)

theorem endsWithin_user : (user c looks wishes ending l).EndsWithin (stepsOf looks wishes ending) :=
  (EndsWithin.within (endsWithin_reads looks wishes ending.isSome)).bind endsWithin_afterwards

/-- Before the first step. -/
theorem stage_company (hbegun : Begun c l w) (hfor : ∀ f, .deliver f ∈ parties → f.requestId = l.id) :
    Stage c l w ending.isSome (afterwards c ending) ⟨[], looks, asked wishes, .waiting⟩
      (w.exchange.queue l.queue).fragments (company w c looks wishes ending l parties) where
  scene := ⟨sound_of_ready hbegun.ready hbegun.keyed, hbegun.table, hbegun.shutdown⟩
  quiet := .refl c w
  holds := by
    refine ⟨rfl, fun hclaim => ?_⟩
    rw [company, hbegun.ready.unclaimed] at hclaim
    cases hclaim
  programs := by
    refine ⟨_, _, rfl, obeys_reads hbegun.ready.unread looks wishes ending.isSome, fun q hq => ?_⟩
    obtain ⟨p, hp, rfl⟩ := List.mem_map.1 hq
    exact ⟨drifts_party p, .nothing, trivial, obeys_party fun f hf => hfor f (hf ▸ hp)⟩

end Use

section Outcome

variable {closing : Bool} {before : List Fragment} {v : Use}

/-- What is told of the opening is what the accepted fragments say, or that the client has gone. -/
theorem Account.opening (h : Account c l w closing t before d order v) {r : Except ClientError UInt32}
    (hr : v.opening? = some r) :
    openingOf (before ++ entered l order d) = some r ∨
      openingOf (before ++ entered l order d) = none ∧
        ((d.follow order).state.exchange.queue l.queue).isClosed = true ∧ r = NetSubscription.handleOf none ∨
      r = .error .transportClosed ∧ (d.follow order).state.exchange.fired l.shutdown = true := by
  obtain @⟨t', u, x, steps, acc, more, hcomes, halike, haccepted, hholds, hmore, hsettles, -, -, -, -⟩ := h
  rw [halike.opening] at hr
  rw [haccepted]
  have hbegins {r : Except ClientError UInt32} {first : List Fragment} (hopening : openingOf first = some r)
      (hfirst : first <+: t'.read) : openingOf (acc ++ more) = some r := by
    obtain ⟨later, hlater⟩ := (hfirst.trans hholds.begins).trans (List.prefix_append acc more)
    rw [← hlater]
    exact openingOf_append hopening
  cases hcomes with
  | givenUp => cases hr
  | kept hopening _ hitems =>
    cases hr
    exact .inl (hbegins hopening (by cases hitems <;> exact List.prefix_append _ _))
  | failed hopened =>
    cases hr
    cases hopened with
    | lost => exact .inr (.inr ⟨rfl, hsettles.fired (Past.lost hholds rfl)⟩)
    | refused hopening => exact .inl (hbegins hopening List.prefix_rfl)
    | drained hpassed herr =>
      obtain ⟨hread, hclosed, -⟩ := Past.drained hholds rfl
      refine .inr (.inl ⟨?_, hsettles.closed hclosed, herr.symm⟩)
      rw [hmore hclosed, List.append_nil, hread]
      exact openingOf_of_passed hpassed

/-- What is got are the items behind the opening. -/
theorem Account.items (h : Account c l w closing t before d order v) {n : NetSubscription} {got : List (Got Value)}
    (hkept : v.kept? = some (n, got)) :
    ∃ as rest, Heard ((d.follow order).state.exchange.fired l.shutdown = true)
        (behindOpening (before ++ entered l order d)) as ∧ Yields as got rest ∧
      ((∃ g ∈ got, g.Ends) → rest = [] ∧ ∀ looks, manner.next (looks + 1) n.inner = return some (n.inner, none)) := by
  obtain @⟨t', u, x, steps, acc, more, hcomes, halike, haccepted, hholds, hmore, hsettles, -, -, -, hended⟩ := h
  rw [halike.kept] at hkept
  rw [haccepted]
  cases hcomes with
  | givenUp | failed => cases hkept
  | kept hopening hbehind hitems =>
    cases hkept
    obtain ⟨as, rest, has, hyields, hends⟩ := hitems.heard hholds hmore hbehind
    refine ⟨as, rest, has.mono hsettles.fired, hyields, fun hend => ?_⟩
    obtain ⟨hrest, hdone⟩ := hends hend
    exact ⟨hrest, next_of_exhausted hdone manner⟩

/-- Nothing is left in the table, unless the client has gone. -/
theorem Account.released (h : Account c l w closing t before d order v) :
    (v = .givenUp → Out l (d.follow order).state.exchange) ∧
      ∀ err, v = .failed err → Out l (d.follow order).state.exchange ∨
        (d.follow order).state.exchange.fired l.shutdown = true ∧
          (err = .transportClosed ∨
            openingOf (before ++ entered l order d) = none ∧ NetSubscription.handleOf none = .error err) := by
  obtain @⟨t', u, x, steps, acc, more, hcomes, halike, haccepted, hholds, hmore, -, -, -, hstays, -⟩ := h
  constructor
  · rintro rfl
    obtain ⟨rfl, -⟩ := hstays rfl
    cases hcomes with
    | givenUp => exact Past.out hholds rfl
    | failed => cases halike.opening
    | kept => cases halike.opening
  · rintro err rfl
    obtain ⟨rfl, -⟩ := hstays rfl
    rw [haccepted]
    cases hcomes with
    | givenUp => cases halike.opening
    | kept => cases halike.opening
    | failed hopened =>
      cases halike.opening
      cases hopened with
      | lost => exact .inr ⟨Past.lost hholds rfl, .inl rfl⟩
      | refused => exact .inl (Past.out hholds rfl)
      | drained hpassed herr =>
        obtain ⟨hread, hclosed, hgone⟩ := Past.drained hholds rfl
        refine hgone.imp_right fun hfired => ⟨hfired, .inr ⟨?_, herr⟩⟩
        rw [hmore hclosed, List.append_nil, hread]
        exact openingOf_of_passed hpassed

end Outcome

section Runs

variable (hbegun : Begun c l w) (hfor : ∀ f, .deliver f ∈ parties → f.requestId = l.id)
include hbegun hfor

/-- How one has come to what he is told. -/
theorem account_company {told : Told}
    (htold : ((company w c looks wishes ending l parties).follow order).result? 0 = some told) :
    ∃ v, told = .used v ∧ Account c l w ending.isSome ⟨[], looks, asked wishes, .waiting⟩
      (w.exchange.queue l.queue).fragments (company w c looks wishes ending l parties) order v :=
  ((stage_company hbegun hfor).follow order).account hbegun.active hbegun.engine htold

variable {before after : List Nat}

/-- Whoever has looks enough for what is in the queue when the opening has been decided does not give it up. -/
theorem returns_company (hd : d = company w c looks wishes ending l parties) (horder : before ++ after = order)
    (hmet : (d.follow before).state.exchange.fired l.shutdown = true ∨
      ((d.follow before).state.exchange.queue l.queue).isClosed = true ∨ openingOf (accepted l before d) ≠ none)
    (hlooks : before.count 0 + ((d.follow before).state.exchange.queue l.queue).fragments.length + 1 ≤ looks)
    (hsteps : stepsOf looks wishes ending ≤ order.count 0) :
    ∃ u, (d.follow order).result? 0 = some (.used u) ∧ u ≠ .givenUp := by
  subst horder
  have hstage : Stage c l w ending.isSome (afterwards c ending) ⟨[], looks, asked wishes, .waiting⟩
      (w.exchange.queue l.queue).fragments d := hd ▸ stage_company hbegun hfor
  have hturn : d.programs[0]? = some (user c looks wishes ending l) := hd ▸ rfl
  obtain ⟨told, htold⟩ := Option.isSome_iff_exists.1 (Company.result?_of_endsWithin hturn endsWithin_user hsteps)
  have haccepted : accepted l before d = (w.exchange.queue l.queue).fragments ++ entered l before d := by
    rw [accepted, hd]
    rfl
  rw [haccepted] at hmet
  cases hstage.follow before with
  | leaves horder hstage _ hcomes hrest hprogram =>
    subst horder
    rw [List.append_assoc, List.cons_append] at htold ⊢
    obtain ⟨n, got, answer, -, rfl, -⟩ := hstage.ended hbegun.active hbegun.engine hcomes hrest hprogram htold
    exact ⟨_, htold, nofun⟩
  | @stays t hstage hprogress =>
    have hleft : looks ≤ t.looks + before.count 0 := hprogress.looks
    have hopens := hstage.holds.opens hmet (by omega)
    rw [Company.follow_append] at htold ⊢
    obtain ⟨v, rfl, haccount⟩ := (hstage.follow after).account hbegun.active hbegun.engine htold
    refine ⟨v, htold, ?_⟩
    rintro rfl
    obtain @⟨t', u, x, steps, acc, more, hcomes, halike, -, -, -, -, -, hmoves, -, -⟩ := haccount
    cases hcomes with
    | givenUp hpassed =>
      have hdecided := hmoves.opens hopens rfl
      rw [decided_of_passes hpassed] at hdecided
      cases hdecided
    | failed => cases halike.opening
    | kept => cases halike.opening

/-- Whoever asks often enough when nothing more can come sees the end. -/
theorem ends_company (hd : d = company w c looks wishes ending l parties) (horder : before ++ after = order)
    (hmet : (d.follow before).state.exchange.fired l.shutdown = true ∨
      ((d.follow before).state.exchange.queue l.queue).isClosed = true)
    (hasks : before.count 0 + ((d.follow before).state.exchange.queue l.queue).fragments.length + 1 ≤ asked wishes)
    {v : Use} (htold : (d.follow order).result? 0 = some (.used v)) {n : NetSubscription} {got : List (Got Value)}
    (hkept : v.kept? = some (n, got)) : ∃ g ∈ got, g.Ends := by
  subst horder
  have hstage : Stage c l w ending.isSome (afterwards c ending) ⟨[], looks, asked wishes, .waiting⟩
      (w.exchange.queue l.queue).fragments d := hd ▸ stage_company hbegun hfor
  cases hstage.follow before with
  | @leaves early late t u _ _ horder hstage hprogress hcomes hrest hprogram =>
    subst horder
    rw [List.append_assoc, List.cons_append] at htold
    obtain ⟨n', got', answer, rfl, hv, -⟩ := hstage.ended hbegun.active hbegun.engine hcomes hrest hprogram htold
    cases hv
    cases hkept
    have hleft : asked wishes ≤ t.asks + early.count 0 := hprogress.asks
    have hcount : early.count 0 ≤ (early ++ 0 :: late).count 0 := by
      rw [List.count_append]
      exact Nat.le_add_right _ _
    cases hcomes with
    | kept hopening _ hitems => exact hitems.ends (x := (d.follow early).state.exchange) hopening (.inr (by omega))
  | @stays t hstage hprogress =>
    have hleft : asked wishes ≤ t.asks + before.count 0 := hprogress.asks
    have hends := hstage.holds.ends hmet (by omega)
    rw [Company.follow_append] at htold
    obtain ⟨v', hv, haccount⟩ := (hstage.follow after).account hbegun.active hbegun.engine htold
    cases hv
    obtain @⟨t', u, x, steps, acc, more, hcomes, halike, -, -, -, -, -, hmoves, -, -⟩ := haccount
    rw [halike.kept] at hkept
    cases hcomes with
    | givenUp | failed => cases hkept
    | kept hopening _ hitems =>
      cases hkept
      exact hitems.ends hopening (.inl (hmoves.ends hends))

end Runs

/-- A subscription is opened, read and perhaps ended while fragments are delivered to it, its deliveries are stopped
and its client is destroyed. In whatever order the steps fall, the opening is what the first accepted fragment that
decides says, what is got are the items behind it, and nothing of a subscription that does not open stays in the
table, unless the client has gone just then. -/
theorem subscription_served (hbegun : Begun c l w) (hfor : ∀ f, .deliver f ∈ parties → f.requestId = l.id)
    (looks : Nat) (wishes : List Wish) (ending : Option (List Nat)) (order : List Nat) :
    Served c l w looks wishes ending order (company w c looks wishes ending l parties) where
  opening u r hu hr := by
    obtain ⟨v, hv, haccount⟩ := account_company hbegun hfor hu
    cases hv
    exact haccount.opening hr
  woken before after left horder hprogram hfired u hu := by
    subst horder
    rw [Company.follow_append] at hu
    have hbegins : Stage c l w ending.isSome (afterwards c ending) ⟨[], looks, asked wishes, .waiting⟩
        (w.exchange.queue l.queue).fragments (company w c looks wishes ending l parties) := stage_company hbegun hfor
    cases hbegins.follow before with
    | stays hstage => exact hstage.woken hprogram hfired hu
    | leaves horder _ _ _ hrest hleft =>
      subst horder
      exact absurd hprogram (not_user_of_leaves hrest hleft hfired)
  returns before after horder hmet hlooks hsteps := returns_company hbegun hfor rfl horder hmet hlooks hsteps
  items u n got hu hkept := by
    obtain ⟨v, hv, haccount⟩ := account_company hbegun hfor hu
    cases hv
    exact haccount.items hkept
  ends before after horder hmet hasks u n got hu hkept := ends_company hbegun hfor rfl horder hmet hasks hu hkept
  released u hu := by
    obtain ⟨v, hv, haccount⟩ := account_company hbegun hfor hu
    cases hv
    exact haccount.released
  destroyed u i hu hkept hi := by
    obtain ⟨v, hv, haccount⟩ := account_company hbegun hfor hu
    cases hv
    obtain ⟨-, -, -, -, -, -, -, -, hstays, -⟩ := haccount
    obtain ⟨rfl, hout⟩ := hstays hkept
    exact hout i hi
  ended n got answer hu := by
    obtain ⟨v, hv, haccount⟩ := account_company hbegun hfor hu
    cases hv
    obtain ⟨-, -, -, -, -, -, -, -, -, hended⟩ := haccount
    obtain ⟨hdone, hasked⟩ := hended n got answer rfl
    exact ⟨next_of_exhausted hdone manner, hasked⟩

section Registered

/-- An engine that makes a context, and ends a subscription when it is asked to. -/
def obliging : Engine where
  contextResponse := Utf8.encode "\x7b\"result\":1\x7d"
  routes := [("net.unsubscribe", [⟨0, some [], true, none⟩])]

/-- A client has got its context. -/
def connected : Session := (Session.start 0).run [.join obliging, .createContextFrom ⟨0⟩ ""]

/-- It registers a call. -/
def registered : Listener × World :=
  atExchange (Client.openCall Session.shared (connected.world.client ⟨0⟩).shutdown) connected.world

theorem begun_registered : Begun ⟨0⟩ registered.1 registered.2 := by
  have hsound : connected.ground.IsSound 0 := Session.sound_run 0 _ (by decide +kernel)
  have hclient : connected.world.clients[0]? = some (connected.world.client ⟨0⟩) := by decide +kernel
  have hactive : (connected.world.client ⟨0⟩).lifecycle = .active 1 := by decide +kernel
  have hengine : (connected.world.client ⟨0⟩).engine.index < connected.world.engines.length := by decide +kernel
  exact begun_openCall hsound hclient hactive hengine

/-- The payload that opens the subscription. -/
def firstPayload : Fragment := ⟨1, Utf8.encode "\x7b\"handle\":7\x7d", .success, false⟩

/-- The handle and one item are delivered. -/
def deliveries : List Party :=
  [.deliver firstPayload, .deliver ⟨1, Utf8.encode "\x7b\"result\":true\x7d", .ofCode 100, false⟩]

/-- The subscription is read until nothing more is there, and ended. -/
def plain : Company World Told :=
  company registered.2 ⟨0⟩ 1 [.next 1, .next 1] (some [0, 0]) registered.1 deliveries

/-- One looks for the handle when it has come, and for items when there is one. -/
def plainOrder : List Nat := [1, 1, 1, 0, 0, 2, 2, 2, 0, 0, 0, 0, 0, 0, 0, 0, 0, 0, 0, 0, 0]

/-- The handle of a subscription that has yielded the truth and has been ended with the consent of the engine. -/
def Told.handle? : Told → Option UInt32
  | .used (.ended n [.next (some (.ok (.bool true)))] (some (.ok ()))) => some n.handle
  | _ => none

theorem subscription_served_plain :
    Served ⟨0⟩ registered.1 registered.2 1 [.next 1, .next 1] (some [0, 0]) plainOrder plain ∧
      ((plain.follow plainOrder).result? 0).bind Told.handle? = some 7 := by
  have hfor : ∀ f, .deliver f ∈ deliveries → f.requestId = registered.1.id := by
    intro f hf
    simp only [deliveries, List.mem_cons, Party.deliver.injEq, List.not_mem_nil, or_false] at hf
    obtain rfl | rfl := hf <;> decide +kernel
  exact ⟨subscription_served begun_registered hfor 1 _ _ plainOrder, by decide +kernel⟩

/-- A fragment is on its way while one looks for it, and the client is destroyed. -/
def parting : List Party := [.deliver firstPayload, .destroy]

/-- The delivery finds the call, and one who looks finds that the client is there. Then the client goes, and the
delivery is given up. It has closed the queue, and nobody has come to take the call out of the table, when he looks
at the queue. -/
def partingOrder : List Nat := [1, 0, 2, 2, 2, 2, 1, 1, 0, 0]

/-- What is wrong with the payload by which a subscription should have opened. -/
def Told.fault? : Told → Option Fault
  | .used (.failed (.decode fault)) => some fault
  | _ => none

/-- A subscription that fails to open can leave its call in the table, though it is not told that the client has
gone. -/
theorem left_in_table :
    ¬ ∀ (c : ClientId) (l : Listener) (w : World), Begun c l w →
      ∀ parties : List Party, (∀ f, .deliver f ∈ parties → f.requestId = l.id) →
      ∀ (looks : Nat) (wishes : List Wish) (ending : Option (List Nat)) (order : List Nat) (err : ClientError),
        ((company w c looks wishes ending l parties).follow order).result? 0 = some (.used (.failed err)) →
        err ≠ .transportClosed →
        Out l ((company w c looks wishes ending l parties).follow order).state.exchange := by
  intro hall
  have hfor : ∀ f, .deliver f ∈ parting → f.requestId = registered.1.id := by
    intro f hf
    simp only [parting, List.mem_cons, Party.deliver.injEq, reduceCtorEq, List.not_mem_nil, or_false] at hf
    subst hf
    decide +kernel
  have hfails : (((company registered.2 ⟨0⟩ 1 [] none registered.1 parting).follow partingOrder).result? 0).bind
      Told.fault? = some .malformed := by decide +kernel
  have hstands : (((company registered.2 ⟨0⟩ 1 [] none registered.1 parting).follow
      partingOrder).state.exchange.table registered.1.table).find? registered.1.id = some registered.1.call := by
    decide +kernel
  obtain ⟨told, htold, hfault⟩ := Option.bind_eq_some_iff.1 hfails
  obtain ⟨fault, rfl⟩ : ∃ fault, told = .used (.failed (.decode fault)) := by
    unfold Told.fault? at hfault
    split at hfault
    case h_1 fault => exact ⟨fault, rfl⟩
    case h_2 => cases hfault
  have hout := hall _ _ _ begun_registered parting hfor 1 [] none partingOrder _ htold nofun
  rw [Out, hstands] at hout
  cases hout

end Registered

end Switchboard.Feed
