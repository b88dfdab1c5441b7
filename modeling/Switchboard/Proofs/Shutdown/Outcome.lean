import Switchboard.Proofs.Session.Outstanding
import Switchboard.Proofs.Shutdown.Invariant
/-!
When a reader whose client is destroyed comes to a good end that nobody has brought about: exactly when the
client's signal is fired between the two halves of a look.
-/
namespace Switchboard.Shutdown

open Exchange Process World

variable {l : Listener} {w w' : World} {roles : List Role} {role role' : Role} {i : Nat}
  {c d m : Company World Answer}

/-- In each role the next step makes one of the moves. -/
theorem Role.move (htable : l.table = Session.shared) (h : Inv l w roles) (hi : roles[i]? = some role)
    {next : World → Process World Answer} {effect : World → World}
    (hprogram : role.program l = .step next effect) :
    ∃ role', role'.program l = next w ∧ Move l w role role' (effect w) := by
  have hfits := h.fits i role hi
  cases role with
  | looking r => exact looking_move hfits.1 hprogram
  | taking r => exact taking_move hfits.1 hprogram
  | trying v later => exact trying_move hfits.1 hprogram
  | delivers f => exact delivers_move htable h.entries hprogram
  | found f => exact found_move hprogram
  | claiming f => exact claiming_move hprogram
  | handing f => exact handing_move hprogram
  | destroys c => exact destroys_move hprogram
  | marks c client => exact marks_move hprogram
  | fires client => exact fires_move hprogram
  | removes client => exact removes_move hfits.1.table hfits.2 h.shutdown h.entries hprogram
  | sealing f =>
    cases hprogram
    exact ⟨.ended f .delivered, rfl, .seals⟩
  | quits client context =>
    cases hprogram
    exact ⟨.fires client, rfl, .quitsContext⟩
  | ended f d => cases hprogram
  | leaving p =>
    cases p with
    | done a => cases hprogram
    | step next effect =>
      cases hprogram
      exact ⟨.leaving _, rfl, .leaves⟩
  | passing p =>
    cases hprogram
    exact ⟨.passing _, rfl, .passes⟩
  | ebbing p =>
    cases hprogram
    exact ⟨.ebbing _, rfl, .ebbs⟩

/-- A look that the firing of the client's signal has torn in two. The reader has found the signal unfired; when
it comes to look at the queue, the signal has been fired, and the queue is closed and empty. -/
structure TornLook (l : Listener) (c d : Company World Answer) (r : Watch)
    (start moment : Company World Answer) : Prop where
  listener : r.listener = l
  before : c.Run start
  looking : start.programs[0]? = some (withinExchange r.program)
  unfired : start.state.exchange.fired l.shutdown = false
  between : (start.advance 0).Run moment
  taking : moment.programs[0]? = some (withinExchange r.taking)
  fired : moment.state.exchange.fired l.shutdown = true
  drained : (moment.state.exchange.queue l.queue).fragments = []
  closed : (moment.state.exchange.queue l.queue).isClosed = true
  clean : r.clean = true
  after : (moment.advance 0).Run d

/-- What is known of how the reader has come to its role. -/
def Told (l : Listener) (c m : Company World Answer) (roles : List Role) : Role → Prop
  | .looking _ | .trying _ _ => True
  | .taking r => ∃ start, c.Run start ∧ start.programs[0]? = some (withinExchange r.program) ∧
      start.state.exchange.fired l.shutdown = false ∧ (start.advance 0).Run m
  | .leaving p => p.All (fun _ _ => True) (fun a => a.endsWell = false) ∨
      (∃ r start moment, TornLook l c m r start moment) ∨ ∃ f d, Role.ended f d ∈ roles
  | _ => False

theorem TornLook.further {r : Watch} {start moment : Company World Answer}
    (h : TornLook l c d r start moment) (hrun : d.Run m) : TornLook l c m r start moment :=
  { h with after := h.after.trans hrun }

/-- What the others do does not change how the reader has come to its role. -/
theorem Told.further {roles' : List Role} (h : Told l c d roles role) (hrun : d.Run m)
    (hended : ∀ f d, Role.ended f d ∈ roles → Role.ended f d ∈ roles') : Told l c m roles' role := by
  cases role with
  | taking r =>
    obtain ⟨start, hbefore, hlooking, hunfired, hbetween⟩ := h
    exact ⟨start, hbefore, hlooking, hunfired, hbetween.trans hrun⟩
  | leaving p =>
    obtain hall | ⟨r, start, moment, htorn⟩ | ⟨f, d, hmem⟩ := h
    · exact .inl hall
    · exact .inr (.inl ⟨r, start, moment, htorn.further hrun⟩)
    · exact .inr (.inr ⟨f, d, hended f d hmem⟩)
  | _ => exact h

/-- What a look at a closed and empty queue has come from: the reader has seen an error before, the look has been
torn, or a last delivery has been accepted. -/
theorem told_of_ends {r : Watch} {p : Process Exchange Answer} (h : Inv l m.state roles)
    (hrole : roles[0]? = some (.taking r)) (hprogram : m.programs[0]? = some (withinExchange r.taking))
    (htold : Told l c m roles (.taking r)) (hdrained : (m.state.exchange.queue l.queue).fragments = [])
    (hclosed : (m.state.exchange.queue l.queue).isClosed = true)
    (hp : p.All (Leaves l) fun a => a.endsWell = r.clean) :
    Told l c (m.advance 0) roles (.leaving p) := by
  cases hclean : r.clean with
  | false => exact .inl (hp.mono (fun _ _ _ => trivial) fun a ha => ha.trans hclean)
  | true =>
    obtain ⟨hlistener, hreadable⟩ := h.fits 0 _ hrole
    have haccepting : (m.state.exchange.queue l.queue).accepting = false := by
      simpa [Queue.isClosed, hreadable.reading] using hclosed
    obtain hfired | hended | hnobody := h.closed haccepting
    · obtain ⟨start, hbefore, hlooking, hunfired, hbetween⟩ := htold
      exact .inr (.inl ⟨r, start, m,
        { listener := hlistener, before := hbefore, looking := hlooking, unfired := hunfired,
          between := hbetween, taking := hprogram, fired := hfired, drained := hdrained, closed := hclosed,
          clean := hclean, after := .refl }⟩)
    · exact .inr (.inr hended)
    · cases hnobody _ (List.mem_of_getElem? hrole)

/-- Each step of the reader is known of. -/
theorem Told.move (hrun : c.Run m) (hprograms : m.programs = roles.map (Role.program l))
    (h : Inv l m.state roles) (hrole : roles[0]? = some role) (htold : Told l c m roles role)
    (hmove : Move l m.state role role' w') : Told l c (m.advance 0) (roles.set 0 role') role' := by
  have hprogram : m.programs[0]? = some (role.program l) := by rw [hprograms, List.getElem?_map, hrole]; rfl
  have hended (f : Fragment) (d : Delivery) := hmove.ended_mem (f := f) (d := d) hrole
  cases hmove with
  | woken hfired hp | stops hp | givesUp hp =>
    exact .inl (hp.mono (fun _ _ _ => trivial) fun _ ha => ha)
  | looks hrunning => exact ⟨m, hrun, hprogram, hrunning, .refl⟩
  | ends hdrained hclosed hp =>
    exact (told_of_ends h hrole hprogram htold hdrained hclosed hp).further .refl hended
  | goesOn | tries | resumes => trivial
  | leaves =>
    obtain hall | ⟨r, start, moment, htorn⟩ | ⟨f, d, hmem⟩ := htold
    · exact .inl (hall.2 _)
    · exact .inr (.inl ⟨r, start, moment, htorn.further (Company.Run.advance m 0)⟩)
    · exact .inr (.inr ⟨f, d, hended f d hmem⟩)
  | _ => cases htold

/-- What holds throughout, and what is known of the reader, holds after every run. -/
theorem told_of_run (htable : l.table = Session.shared) (hrun : c.Run d)
    (hprograms : c.programs = roles.map (Role.program l)) (hinv : Inv l c.state roles)
    (htold : ∃ role, roles[0]? = some role ∧ Told l c c roles role) :
    ∃ roles', d.programs = roles'.map (Role.program l) ∧ Inv l d.state roles' ∧
      ∃ role, roles'[0]? = some role ∧ Told l c d roles' role := by
  refine hrun.induction (Role.program l)
    (fun m roles => Inv l m.state roles ∧ ∃ role, roles[0]? = some role ∧ Told l c m roles role) ?_ hprograms
    ⟨hinv, htold⟩
  rintro m roles i role next effect hbefore hroles hi hprogram ⟨hkept, first, hfirst, hknown⟩
  obtain ⟨role', hnext, hmove⟩ := Role.move htable hkept hi hprogram
  have hlt := (List.getElem?_eq_some_iff.1 hi).1
  have hadvance : m.advance i = ⟨effect m.state, m.programs.set i (next m.state)⟩ := by
    simp only [Company.advance, hroles, List.getElem?_map, hi, Option.map_some, hprogram]
  refine ⟨role', hnext, hkept.move hi hmove, ?_⟩
  rw [← hadvance]
  by_cases hzero : i = 0
  · subst hzero
    cases hfirst.symm.trans hi
    exact ⟨role', List.getElem?_set_self hlt, hknown.move hbefore hroles hkept hfirst hmove⟩
  · refine ⟨first, by rw [List.getElem?_set_ne hzero, hfirst], ?_⟩
    exact hknown.further (Company.Run.advance m i) fun f d hmem => hmove.ended_mem hi hmem

section Start

variable {start : RequestId} {s : Session} {call : Call} {r : Watch} {parties : List Party}

/-- The role in which a party begins. -/
def Party.begins : Party → Role
  | .deliver f => .delivers f
  | .destroy c => .destroys c

/-- What holds throughout holds before anybody has taken a step, in every session in which the call is still
outstanding. -/
theorem inv_of_session (h : s.ground.IsSound start) (hi : s.calls[i]? = some call)
    (hunended : call.Unended s.world.clients s.history) (hlistener : r.listener = call.listener)
    (hclients : ∀ c, .destroy c ∈ parties → s.HasClient c) :
    Inv call.listener s.world (.looking r :: parties.map Party.begins) := by
  have h : Session.Sound start s.world.exchange s.world.clients s.calls s.history := h
  have hcall := h.call i call hi
  have hlive : s.world.exchange.Live call.listener := by
    obtain ⟨hlive, -⟩ | ⟨-, hover⟩ := hcall.standing
    · exact hlive
    · exact absurd hunended hover
  have hrest (role : Role) (hmem : role ∈ parties.map Party.begins) :
      (∃ f, role = .delivers f) ∨ ∃ c, role = .destroys c ∧ s.HasClient c := by
    obtain ⟨party, hparty, rfl⟩ := List.mem_map.1 hmem
    cases party with
    | deliver f => exact .inl ⟨f, rfl⟩
    | destroy c => exact .inr ⟨c, rfl, hclients c hparty⟩
  have hquiet (role : Role) (hmem : role ∈ .looking r :: parties.map Party.begins) :
      role.unclaimed = false := by
    obtain rfl | hmem := List.mem_cons.1 hmem
    · rfl
    · obtain ⟨f, rfl⟩ | ⟨c, rfl, -⟩ := hrest role hmem <;> rfl
  constructor
  case shutdown => exact hlive.shutdown
  case entries =>
    intro e he
    rw [hcall.table] at he
    obtain ⟨other, hmem, rfl⟩ := h.entries e he
    obtain ⟨j, hj⟩ := List.getElem?_of_mem hmem
    by_cases hij : i = j
    · subst hij
      cases hi.symm.trans hj
      exact ⟨fun _ => rfl, fun hne => absurd rfl hne⟩
    · have hapart := h.apart_calls hi hj hij
      exact ⟨fun hid => absurd hid hapart.id, fun _ => ⟨hapart.queue, hapart.control⟩⟩
  case clients =>
    intro c hc
    have hclient := List.getElem?_eq_getElem hc
    rw [World.client_of_getElem? hclient]
    exact ⟨(h.tableOf _ _ hclient).trans hcall.table.symm, h.apart i _ call _ hi hclient,
      (h.shutdown _ _ hclient).1⟩
  case completing =>
    intro hclaim
    rw [hlive.unclaimed] at hclaim
    cases hclaim
  case closed =>
    intro hclosed
    rw [hlive.accepting] at hclosed
    cases hclosed
  case reader =>
    intro j role hj hreads
    cases j with
    | zero => rfl
    | succ j =>
      obtain ⟨f, rfl⟩ | ⟨c, rfl, -⟩ := hrest role (List.mem_of_getElem? hj) <;> cases hreads
  case one =>
    intro j k role role' hj _ hunclaimed _
    rw [hquiet role (List.mem_of_getElem? hj)] at hunclaimed
    cases hunclaimed
  case fits =>
    intro j role hj
    cases j with
    | zero =>
      cases hj
      exact ⟨hlistener, by simp [hlive.unclaimed], hlive.uncancelled, hlive.reading⟩
    | succ j =>
      obtain ⟨f, rfl⟩ | ⟨c, rfl, hc⟩ := hrest role (List.mem_of_getElem? hj)
      · trivial
      · exact hc

end Start

/-- Whether the answer says that a last delivery under a number has been accepted. -/
def Answer.accepts (id : RequestId) : Answer → Bool
  | .delivery f d => d.accepted && f.isLast && f.requestId == id
  | _ => false

theorem eq_leaving_of_done {a : Answer} (htold : Told l c d roles role)
    (hprogram : role.program l = .done a) : role = .leaving (.done a) := by
  cases role with
  | looking r =>
    rw [Role.program, Watch.program_eq] at hprogram
    cases hprogram
  | taking r =>
    rw [Role.program, Watch.taking_eq] at hprogram
    cases hprogram
  | trying v later =>
    rw [Role.program, giveUp_eq] at hprogram
    cases hprogram
  | leaving p =>
    cases p with
    | done b =>
      cases hprogram
      rfl
    | step => cases hprogram
  | _ => cases htold

/-- A torn look ends well. -/
theorem TornLook.endsWell {r : Watch} {start moment : Company World Answer}
    (h : TornLook l c d r start moment) {a : Answer} (ha : d.result? 0 = some a) : a.endsWell = true := by
  have htake : (take r.listener.queue moment.state.exchange).1 = .ended := by
    rw [h.listener, take_fst_of_empty h.drained, h.closed]
    rfl
  have hadvance : (moment.advance 0).programs[0]? = some (withinExchange (r.takes .ended)) := by
    have hprogram := h.taking
    rw [Watch.taking_eq, withinExchange_step] at hprogram
    have hlt := (List.getElem?_eq_some_iff.1 hprogram).1
    simp only [Company.advance, hprogram, List.getElem?_set_self hlt, htake]
  have hall : (withinExchange (r.takes .ended)).All (fun _ _ => True) fun a => a.endsWell = r.clean :=
    (through_within (leaves_ended r)).mono (fun _ _ _ => trivial) fun _ hb => hb
  rw [h.after.answers hadvance hall ha, h.clean]

/-- A reader reads an outstanding call of a session, while the engine delivers what it likes and any clients
are destroyed. If no last delivery to the call is accepted, the reader comes to a good end exactly if one of
its looks is torn by the firing of its client's signal. -/
theorem ends_well_iff_torn (lastId : RequestId) (ops : List Op)
    (hfew : ((Session.start lastId).run ops).calls.length < 4294967295) {call : Call}
    (hcall : call ∈ ((Session.start lastId).run ops).calls)
    (hunended : call.Unended ((Session.start lastId).run ops).world.clients
      ((Session.start lastId).run ops).history)
    {r : Watch} (hlistener : r.listener = call.listener) {parties : List Party}
    (hclients : ∀ c, .destroy c ∈ parties → ((Session.start lastId).run ops).HasClient c)
    (hrun : (company ((Session.start lastId).run ops).world r parties).Run d)
    (hunanswered : ∀ b ∈ d.answers, b.accepts call.listener.id = false)
    {a : Answer} (ha : d.result? 0 = some a) :
    a.endsWell = true ↔ ∃ r' start moment,
      TornLook call.listener (company ((Session.start lastId).run ops).world r parties) d r' start moment := by
  have hsound := Session.sound_run lastId ops hfew
  generalize (Session.start lastId).run ops = s at *
  obtain ⟨i, hi⟩ := List.getElem?_of_mem hcall
  have htable : call.listener.table = Session.shared := (Session.Sound.call hsound i call hi).table
  constructor
  · intro hwell
    have hprograms : (company s.world r parties).programs =
        (Role.looking r :: parties.map Party.begins).map (Role.program call.listener) := by
      simp only [company, List.map_cons, List.map_map]
      congr 1
      refine List.map_congr_left fun party _ => ?_
      cases party <;> rfl
    obtain ⟨roles, hroles, hinv, role, hrole, htold⟩ := told_of_run htable hrun hprograms
      (inv_of_session hsound hi hunended hlistener hclients) ⟨_, rfl, trivial⟩
    rw [Company.result?_eq_some_iff, hroles, List.getElem?_map, hrole] at ha
    obtain rfl := eq_leaving_of_done htold (Option.some.inj ha)
    obtain hdull | htorn | ⟨f, d', hmem⟩ := htold
    · rw [show a.endsWell = false from hdull] at hwell
      cases hwell
    · exact htorn
    · obtain ⟨j, hj⟩ := List.getElem?_of_mem hmem
      obtain ⟨hid, hlast, haccepted⟩ := hinv.fits j _ hj
      have hanswer : Answer.delivery f d' ∈ d.answers := by
        refine Company.mem_answers_iff.2 ⟨j, ?_⟩
        rw [Company.result?_eq_some_iff, hroles, List.getElem?_map, hj]
        rfl
      have hnone := hunanswered _ hanswer
      simp [Answer.accepts, hid, hlast, haccepted] at hnone
  · rintro ⟨r', start, moment, htorn⟩
    exact htorn.endsWell ha

/-- A client sends a request that is not answered. -/
def silence : List Op := [.join Session.ticking, .createContextFrom ⟨0⟩ "", .request ⟨0⟩ "silence" []]

/-- The listener of its call. -/
def silentListener : Listener := ⟨1, ⟨0⟩, ⟨0⟩, Session.shared, ⟨0⟩, false⟩

/-- The call is read while the client is destroyed. -/
def destruction (r : Watch) : Company World Answer :=
  company ((Session.start 0).run silence).world r [.destroy ⟨0⟩]

/-- One who destroys a client can take all of its steps between the two halves of a look: the wait yields a good
result, and the subscription ends without an error, though nothing has been delivered. -/
theorem good_end_of_destroyed :
    (∃ d a, (destruction (.wait (.start silentListener 0 none) 0 [])).Run d ∧ d.result? 0 = some a ∧
      a.endsWell = true ∧ ∀ b ∈ d.answers, b.accepts 1 = false) ∧
    ∃ d a, (destruction (.read silentListener [] 0)).Run d ∧ d.result? 0 = some a ∧
      a.endsWell = true ∧ ∀ b ∈ d.answers, b.accepts 1 = false := by
  have hwait : (((destruction (.wait (.start silentListener 0 none) 0 [])).follow
      [0, 1, 1, 1, 1, 1, 1, 0, 0]).result? 0).map Answer.endsWell = some true := by decide +kernel
  have hread : (((destruction (.read silentListener [] 0)).follow
      [0, 1, 1, 1, 1, 1, 1, 0]).result? 0).map Answer.endsWell = some true := by decide +kernel
  obtain ⟨a, ha, hwell⟩ := Option.map_eq_some_iff.1 hwait
  obtain ⟨b, hb, hwell'⟩ := Option.map_eq_some_iff.1 hread
  exact ⟨⟨_, a, Company.run_follow _ _, ha, hwell, by decide +kernel⟩,
    _, b, Company.run_follow _ _, hb, hwell', by decide +kernel⟩

theorem ends_well_iff_torn_silence :
    ∃ d r start moment, (destruction (.wait (.start silentListener 0 none) 0 [])).Run d ∧
      TornLook silentListener (destruction (.wait (.start silentListener 0 none) 0 [])) d r start moment := by
  have hfew : ((Session.start 0).run silence).calls.length = 1 := by decide +kernel
  have hlisteners : ((Session.start 0).run silence).calls.map Call.listener = [silentListener] := by
    decide +kernel
  have hstanding : ∀ call ∈ ((Session.start 0).run silence).calls, call.reader.active = true ∧
      lifecycleOf ((Session.start 0).run silence).world.clients call.client ≠ .destroyed ∧
      ∀ e ∈ ((Session.start 0).run silence).history, e.ends call.listener.id = false := by decide +kernel
  have hmem : silentListener ∈ ((Session.start 0).run silence).calls.map Call.listener := by
    rw [hlisteners]
    exact List.mem_singleton.2 rfl
  obtain ⟨call, hcall, hlistener⟩ := List.mem_map.1 hmem
  obtain ⟨hactive, hclient, hhistory⟩ := hstanding call hcall
  have hwait : (((destruction (.wait (.start silentListener 0 none) 0 [])).follow
      [0, 1, 1, 1, 1, 1, 1, 0, 0]).result? 0).map Answer.endsWell = some true := by decide +kernel
  obtain ⟨a, ha, hwell⟩ := Option.map_eq_some_iff.1 hwait
  have hclients : ∀ c, Party.destroy c ∈ [Party.destroy ⟨0⟩] → ((Session.start 0).run silence).HasClient c := by
    intro c hc
    cases List.mem_singleton.1 hc
    decide +kernel
  have hunanswered : ∀ b ∈ ((destruction (.wait (.start silentListener 0 none) 0 [])).follow
      [0, 1, 1, 1, 1, 1, 1, 0, 0]).answers, b.accepts call.listener.id = false := by
    rw [hlistener]
    decide +kernel
  have hrun := Company.run_follow (destruction (.wait (.start silentListener 0 none) 0 []))
    [0, 1, 1, 1, 1, 1, 1, 0, 0]
  obtain ⟨r, start, moment, htorn⟩ := (ends_well_iff_torn (r := .wait (.start silentListener 0 none) 0 [])
    0 silence (by omega) hcall ⟨hactive, hclient, hhistory⟩ hlistener.symm hclients hrun hunanswered ha).1 hwell
  rw [hlistener] at htorn
  exact ⟨_, r, start, moment, hrun, htorn⟩

end Switchboard.Shutdown
