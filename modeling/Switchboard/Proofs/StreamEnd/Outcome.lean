import Switchboard.Proofs.Session.Unsubscribing
import Switchboard.Proofs.StreamEnd.Parties
/-!
When the end of its stream completes a call: exactly when the fragment that ends the stream is marked as finished.
-/
namespace Switchboard.StreamEnd

open Exchange Process World

variable {l : Listener} {x : Exchange} {w : World} {f : Fragment} {t : Stand} {stands : List Stand} {i : Nat}
  {k : SignalId} {clients : List (TableId × SignalId)} {c m d : Company World Answer}

section Leaving

/-- Nobody cancels a call that has been claimed for its completion. -/
theorem completed_of_claim (hclaim : (x.control l.control).claim = .completing)
    (hunfired : x.fired (x.control l.control).cancel = false) : Completed l x := by
  constructor
  case refused => rw [claimCancellation_fst, hclaim]; rfl
  case unfired => exact hunfired
  case left =>
    intro how
    cases how with
    | giveUp =>
      have hrun : (((Race.Party.leave .giveUp).program l).run x).2 = x := by
        simp [Race.Party.program, Listener.cancel_run, hclaim]
      rw [firedBy, hrun, hunfired]
    | letGo =>
      have hrun : (((Race.Party.leave .letGo).program l).run x).2 = (dropReading l.queue x).2 := by
        simp [Race.Party.program, Listener.release_run, Listener.cancel_run, hclaim]
      rw [firedBy, hrun, frame_dropReading.2.1, hunfired]
    | close =>
      have hrun : (((Race.Party.leave .close).program l).run x).2 = (closeReading l.queue x).2 := by
        simp [Race.Party.program, Subscription.close_run, hclaim]
      rw [firedBy, hrun, frame_closeReading.2.1, hunfired]
  case patient =>
    rintro v rfl
    simp [Waiting.giveUp, Listener.cancel_run, hclaim]

/-- Everybody can cancel a call that has not been claimed for its completion. -/
theorem cancellable_of_claim (hsetting : Setting l x) (hunread : l.done = false)
    (hclaim : (x.control l.control).claim ≠ .completing)
    (hfired : x.fired (x.control l.control).cancel = true ↔ (x.control l.control).claim = .cancelled) :
    Cancellable l x := by
  have hfires := fired_of_open hsetting hclaim hfired
  have hcancels : (l.cancel.run x).2.fired (x.control l.control).cancel = true := by
    rw [Listener.cancel_run, if_neg hclaim]
    simpa using hfires
  constructor
  case granted => rw [claimCancellation_fst, decide_eq_true hclaim]
  case left =>
    intro how
    cases how with
    | giveUp => simpa [firedBy, Race.Party.program] using hcancels
    | letGo => simpa [firedBy, Race.Party.program, Listener.release_run, hunread] using hcancels
    | close => simpa [firedBy, Race.Party.program, Subscription.close_run, hclaim] using hcancels
  case impatient =>
    rintro v rfl
    simp [Waiting.giveUp, Listener.cancel_run, hclaim]

end Leaving

/-- A delivery has found a call in the table at a moment of a run, and has been told in the end that it has ended
the stream. -/
structure Terminates (l : Listener) (f : Fragment) (i : Nat) (c m d : Company World Answer) : Prop where
  before : c.Run m
  turn : m.programs[i]? = some (Party.deliver f).program
  found : (m.state.exchange.table Session.shared).find? f.requestId = some l.call
  after : (m.advance i).Run d
  told : d.result? i = some (.delivery f .terminated)

/-- How a call stands after a fragment has ended its stream: it counts as completed if the fragment is marked as
finished, and then no reader has cancelled it; but if it is not, the call can be cancelled. -/
structure Outcome (l : Listener) (f : Fragment) (d : Company World Answer) : Prop where
  completed : f.finished = true → Completed l d.state.exchange
  uncancelled : f.finished = true → ∀ a ∈ d.answers, a.cancels l.control = false
  cancellable : f.finished = false → Cancellable l d.state.exchange

section Runs

/-- A party that holds the call for a fragment goes on to hold it or claims it for that fragment. -/
theorem Moves.of_holder {t' : Stand} {y : Exchange} (hmove : Moves l t x y t')
    (ht : t = .holds f ∨ t = .completes f) : t' = .holds f ∨ t' = .completes f := by
  cases hmove with
  | spares => exact ht
  | takes hholder => obtain rfl | rfl := ht <;> cases hholder
  | completes =>
    obtain heq | heq := ht
    · cases heq
      exact .inr rfl
    · cases heq
  | cancels hholder => obtain rfl | rfl := ht <;> cases hholder

/-- What holds throughout, and one party holds the call for a fragment or has claimed it for that fragment. -/
def Held (l : Listener) (k : SignalId) (clients : List (TableId × SignalId)) (f : Fragment) (i : Nat) (w : World)
    (stands : List Stand) : Prop :=
  Holds l k clients w stands ∧ ∃ t, stands[i]? = some t ∧ (t = .holds f ∨ t = .completes f)

theorem Held.acts {w' : World} {t' : Stand} {j : Nat} (h : Held l k clients f i w stands)
    (hj : stands[j]? = some t) (hacts : Acts l t w w' t') : Held l k clients f i w' (stands.set j t') := by
  obtain ⟨hholds, r, hr, hfamily⟩ := h
  refine ⟨hholds.acts hj hacts, ?_⟩
  by_cases hji : j = i
  · subst hji
    cases hj.symm.trans hr
    exact ⟨t', List.getElem?_set_self (List.getElem?_eq_some_iff.1 hj).1, hacts.1.of_holder hfamily⟩
  · exact ⟨r, by rw [List.getElem?_set_ne hji, hr], hfamily⟩

/-- All parties keep to the protocol. -/
abbrev Kept (l : Listener) (k : SignalId) (clients : List (TableId × SignalId)) (c : Company World Answer)
    (stands : List Stand) : Prop :=
  c.Obey (Scene l k clients) (Acts l) (Befits l.control) stands

theorem kept_run (hrun : c.Run d) (hkept : Kept l k clients c stands) (hholds : Holds l k clients c.state stands) :
    ∃ stands', Kept l k clients d stands' ∧ Holds l k clients d.state stands' :=
  hrun.obeys (fun _ _ h => h.1) (fun _ _ _ _ _ _ hi hacts h => Holds.acts h hi hacts) hkept hholds

/-- The delivery that finds the call takes it into its hands. -/
theorem held_of_found (htable : l.table = Session.shared) (hlast : f.isLast = true)
    (hkept : Kept l k clients m stands) (hholds : Holds l k clients m.state stands)
    (hturn : m.programs[i]? = some (Party.deliver f).program)
    (hfound : (m.state.exchange.table Session.shared).find? f.requestId = some l.call) :
    Kept l k clients (m.advance i) (stands.set i (.holds f)) ∧
      Held l k clients f i (m.advance i).state (stands.set i (.holds f)) := by
  rw [← htable] at hfound
  obtain ⟨hid, -⟩ := Prod.mk.inj (hholds.1.setting.entries _ (Table.mem_of_find? hfound) rfl)
  rw [show f.requestId = l.id from hid] at hfound
  obtain ⟨t, hi, -⟩ := hkept i _ hturn
  have hlt := (List.getElem?_eq_some_iff.1 hi).1
  have ht : t.holder = false := by
    by_contra hholder
    exact (hholds.2.fits i t hi).gone (by simpa using hholder) (Table.mem_of_find? hfound)
  obtain ⟨next, effect, hprogram, hacts, hnext⟩ := takes_deliver htable hlast hid hfound ht
  rw [hprogram] at hturn
  have hadvance : m.advance i = ⟨effect m.state, m.programs.set i (next m.state)⟩ := by
    simp only [Company.advance, hturn]
  rw [hadvance]
  exact ⟨hkept.set hi hnext _, hholds.acts hi hacts, .holds f, List.getElem?_set_self hlt, .inl rfl⟩

/-- After the delivery of a fragment has ended the stream of a call, the call is claimed for its completion exactly
if the fragment is marked as finished. -/
theorem outcome_of_kept (htable : l.table = Session.shared) (hunread : l.done = false)
    (hkept : Kept l k clients c stands) (hholds : Holds l k clients c.state stands)
    (h : Terminates l f i c m d) : Outcome l f d := by
  obtain ⟨hbefore, hturn, hfound, hafter, htold⟩ := h
  obtain ⟨stands₁, hkept₁, hholds₁⟩ := kept_run hbefore hkept hholds
  have hlast : f.isLast = true := by
    obtain ⟨stands', hkept', -⟩ := kept_run ((Company.Run.advance m i).trans hafter) hkept₁ hholds₁
    obtain ⟨t, -, hbefits⟩ := hkept'.befits htold
    simp [Fragment.isLast, hbefits.last f rfl]
  obtain ⟨hkept₂, hheld₂⟩ := held_of_found htable hlast hkept₁ hholds₁ hturn hfound
  obtain ⟨stands', hkept', ⟨hscene, hinv⟩, t, ht, hfamily⟩ := hafter.obeys (fun _ _ h => h.1.1)
    (fun _ _ _ _ _ _ hj hacts h => Held.acts h hj hacts) hkept₂ hheld₂
  have hfits := hinv.fits i t ht
  have hfinished : f.finished = true → t = .completes f := by
    intro hfinished
    obtain rfl | rfl := hfamily
    · obtain ⟨t', ht', hbefits⟩ := hkept'.befits htold
      cases ht.symm.trans ht'
      rw [hbefits.unfinished f f rfl rfl] at hfinished
      cases hfinished
    · rfl
  constructor
  case completed =>
    intro h
    obtain rfl := hfinished h
    refine completed_of_claim hfits.2.2 ?_
    by_contra hfired
    have hcancelled := hinv.fired.1 (by simpa using hfired)
    rw [hfits.2.2] at hcancelled
    cases hcancelled
  case uncancelled =>
    intro h a ha
    obtain rfl := hfinished h
    by_contra hcancels
    obtain ⟨j, hj⟩ := Company.mem_answers_iff.1 ha
    obtain ⟨r, hr, hbefits⟩ := hkept'.befits hj
    obtain rfl := hbefits.cancelled (by simpa using hcancels)
    have hcancelled : (d.state.exchange.control l.control).claim = .cancelled := hinv.fits j _ hr
    rw [hfits.2.2] at hcancelled
    cases hcancelled
  case cancellable =>
    intro h
    refine cancellable_of_claim hinv.setting hunread ?_ hinv.fired
    obtain rfl | rfl := hfamily
    · exact hfits.2
    · rw [hfits.1] at h
      cases h

end Runs

section Start

variable {s : Session} {call : Call}

theorem setting_of_coherent (h : Session.Coherent s.world.exchange s.world.clients s.calls)
    (hcall : call ∈ s.calls) : Setting call.listener s.world.exchange := by
  obtain ⟨i, hi⟩ := List.getElem?_of_mem hcall
  have hwired := h.call i call hi
  have hlt := (List.getElem?_eq_some_iff.1 hi).1
  constructor
  case entries =>
    intro e he hsame
    rw [hwired.table] at he
    obtain ⟨j, other, hj, rfl, -⟩ := h.entries e he
    rw [hwired.control] at hsame
    obtain rfl : j = i := ControlId.mk.inj ((h.call j other hj).control.symm.trans hsame)
    cases hi.symm.trans hj
    rfl
  case cancels =>
    intro c hc hindex heq
    rw [h.controls] at hindex
    have hj := List.getElem?_eq_getElem hindex
    have hcontrol := (h.call _ _ hj).control
    have hcancel : (s.world.exchange.control s.calls[c.index].listener.control).cancel =
        (s.world.exchange.control call.listener.control).cancel := by
      rw [hcontrol]
      exact heq
    have hsame := h.cancels _ i _ call hj hi hcancel
    apply hc
    rw [hwired.control, ← hsame]
  case control => rw [hwired.control, h.controls]; exact hlt
  case cancel => exact hwired.cancel
  case table => rw [hwired.table]; exact h.tables

theorem belongings_of_coherent (h : Session.Coherent s.world.exchange s.world.clients s.calls)
    (hcall : call ∈ s.calls) : ∀ b ∈ belongings s.world, b.1 = call.listener.table ∧
      b.2 ≠ (s.world.exchange.control call.listener.control).cancel := by
  intro b hb
  obtain ⟨i, hi⟩ := List.getElem?_of_mem hcall
  obtain ⟨client, hclient, rfl⟩ := List.mem_map.1 hb
  obtain ⟨j, hj⟩ := List.getElem?_of_mem hclient
  exact ⟨(h.tableOf j client hj).trans (h.call i call hi).table.symm, h.apart i j call client hi hj⟩

/-- What holds throughout holds before anybody has taken a step, as long as the call is in the table. -/
theorem holds_of_coherent (h : Session.Coherent s.world.exchange s.world.clients s.calls)
    (hcall : call ∈ s.calls) (hlive : s.world.exchange.Live call.listener) (parties : List Party) :
    Holds call.listener (s.world.exchange.control call.listener.control).cancel (belongings s.world) s.world
      (parties.map fun _ => .apart) := by
  have hsetting := setting_of_coherent h hcall
  have hapart (j : Nat) (t : Stand) (hj : (parties.map fun _ => Stand.apart)[j]? = some t) : t = .apart := by
    obtain ⟨p, -, rfl⟩ := List.mem_map.1 (List.mem_of_getElem? hj)
    rfl
  refine ⟨⟨hsetting, rfl, rfl⟩, ?_⟩
  constructor
  case setting => exact hsetting
  case fired => simp [hlive.unclaimed, hlive.uncancelled]
  case completing =>
    intro hclaim
    rw [hlive.unclaimed] at hclaim
    cases hclaim
  case one =>
    intro j j' t t' hj _ ht _
    rw [hapart j t hj] at ht
    cases ht
  case fits =>
    intro j t hj
    rw [hapart j t hj]
    trivial

theorem kept_of_coherent (h : Session.Coherent s.world.exchange s.world.clients s.calls)
    (hcall : call ∈ s.calls) (htable : call.listener.table = Session.shared) {parties : List Party}
    (hclients : ∀ p ∈ parties, ∀ c, p.client? = some c → s.HasClient c) :
    Kept call.listener (s.world.exchange.control call.listener.control).cancel (belongings s.world)
      (company s.world parties) (parties.map fun _ => .apart) := by
  intro i p hp
  obtain ⟨party, hparty, rfl⟩ := Option.map_eq_some_iff.1 (List.getElem?_map.symm.trans hp)
  refine ⟨.apart, by rw [List.getElem?_map, hparty]; rfl, ?_⟩
  refine obeys_party htable (belongings_of_coherent h hcall) party fun c hc => ?_
  rw [belongings, List.length_map]
  exact hclients party (List.mem_of_getElem? hparty) c hc

end Start

/-- In every session, and in whatever order the engine, readers and clients act from there on: once a fragment has
ended the stream of a call, the call counts as completed if the fragment is marked as finished, and can be cancelled
by everybody if it is not. -/
theorem completed_iff_finished (lastId : RequestId) (ops : List Op)
    (hnumbers : (Session.start lastId).HasNumbers ops) {call : Call}
    (hcall : call ∈ ((Session.start lastId).run ops).calls)
    (hregistered : Registered call.listener ((Session.start lastId).run ops).world.exchange)
    {parties : List Party}
    (hclients : ∀ p ∈ parties, ∀ c, p.client? = some c → ((Session.start lastId).run ops).HasClient c)
    (h : Terminates call.listener f i (company ((Session.start lastId).run ops).world parties) m d) :
    Outcome call.listener f d := by
  have hcoherent := Session.coherent_run hnumbers (Session.coherent_start lastId)
  generalize (Session.start lastId).run ops = s at *
  have hcoherent : Session.Coherent s.world.exchange s.world.clients s.calls := hcoherent
  obtain ⟨j, hj⟩ := List.getElem?_of_mem hcall
  have htable := (hcoherent.call j call hj).table
  have hlive : s.world.exchange.Live call.listener := by
    refine (hcoherent.stands call hcall).live ?_
    rw [← htable]
    exact hregistered
  exact outcome_of_kept htable hlive.unread (kept_of_coherent hcoherent hcall htable hclients)
    (holds_of_coherent hcoherent hcall hlive parties) h

/-- The listener of the only call. -/
def onlyListener : Listener := ⟨1, ⟨0⟩, ⟨0⟩, Session.shared, ⟨0⟩, false⟩

/-- A fragment that ends the stream of that call, marked as finished or not. -/
def ending (finished : Bool) : Fragment := ⟨1, [], .streamTerminated, finished⟩

/-- The engine ends the stream, while the time of one who waits is over. -/
def lateEnd (finished : Bool) : Company World Answer :=
  company ((Session.start 0).run Session.oneCall).world
    [.deliver (ending finished), .read (.wait (.start onlyListener 0 (some 0)) 0 [])]

/-- The delivery finds the call; the one who waits looks at the queue; the delivery ends the stream; and then the
one who waits looks at the time. -/
def afterLateEnd (finished : Bool) : Company World Answer :=
  ((lateEnd finished).advance 0).follow [1, 1, 0, 0, 0, 1, 1, 1, 1]

theorem terminates_lateEnd (finished : Bool) :
    Terminates onlyListener (ending finished) 0 (lateEnd finished) (lateEnd finished) (afterLateEnd finished) := by
  have htold : ((afterLateEnd finished).result? 0).map (fun a => match a with
      | .delivery f .terminated => decide (f = ending finished)
      | _ => false) = some true := by
    cases finished <;> decide +kernel
  obtain ⟨a, ha, hsame⟩ := Option.map_eq_some_iff.1 htold
  constructor
  case before => exact .refl
  case turn => rfl
  case found => cases finished <;> decide +kernel
  case after => exact Company.run_follow _ _
  case told =>
    rw [ha]
    cases a with
    | delivery f d => cases d <;> simp_all
    | _ => cases hsame

theorem exists_onlyCall : ∃ call ∈ ((Session.start 0).run Session.oneCall).calls, call.listener = onlyListener := by
  have hlisteners : ((Session.start 0).run Session.oneCall).calls.map Call.listener = [onlyListener] := by
    decide +kernel
  exact List.mem_map.1 (hlisteners ▸ List.mem_singleton.2 rfl)

/-- The call counts as completed after the one fragment, and can be cancelled after the other. -/
theorem completed_iff_finished_late :
    Outcome onlyListener (ending true) (afterLateEnd true) ∧
      Outcome onlyListener (ending false) (afterLateEnd false) := by
  obtain ⟨call, hcall, hlistener⟩ := exists_onlyCall
  have hregistered : Registered onlyListener ((Session.start 0).run Session.oneCall).world.exchange := by
    decide +kernel
  have hclients (finished : Bool) (p : Party)
      (hp : p ∈ [.deliver (ending finished), .read (.wait (.start onlyListener 0 (some 0)) 0 [])])
      (c : ClientId) (hc : p.client? = some c) : ((Session.start 0).run Session.oneCall).HasClient c := by
    simp only [List.mem_cons, List.not_mem_nil, or_false] at hp
    obtain rfl | rfl := hp <;> cases hc
  rw [← hlistener] at hregistered ⊢
  exact ⟨completed_iff_finished 0 Session.oneCall (by decide +kernel) hcall hregistered (hclients true)
      (hlistener ▸ terminates_lateEnd true),
    completed_iff_finished 0 Session.oneCall (by decide +kernel) hcall hregistered (hclients false)
      (hlistener ▸ terminates_lateEnd false)⟩

/-- The end of a stream does not complete every call: one who waits, and has not given the call up when the stream
ends, is told afterwards that its time is over, and has cancelled the call. -/
theorem cancelled_after_end :
    ¬ ∀ (lastId : RequestId) (ops : List Op), (Session.start lastId).HasNumbers ops →
      ∀ call ∈ ((Session.start lastId).run ops).calls,
        Registered call.listener ((Session.start lastId).run ops).world.exchange →
        ∀ (parties : List Party) (f : Fragment) (i : Nat) (m d : Company World Answer),
          Terminates call.listener f i (company ((Session.start lastId).run ops).world parties) m d →
          Completed call.listener d.state.exchange ∧ ∀ a ∈ d.answers, a.cancels call.listener.control = false := by
  intro hall
  obtain ⟨call, hcall, hlistener⟩ := exists_onlyCall
  obtain ⟨-, hnobody⟩ := hall 0 Session.oneCall (by decide +kernel) call hcall
    (by rw [hlistener]; decide +kernel) _ (ending false) 0 _ _ (hlistener ▸ terminates_lateEnd false)
  have hsome : (afterLateEnd false).answers.any (fun a => a.cancels onlyListener.control) = true := by
    decide +kernel
  obtain ⟨a, ha, hcancels⟩ := List.any_eq_true.1 hsome
  rw [hlistener] at hnobody
  rw [hnobody a ha] at hcancels
  cases hcancels

end Switchboard.StreamEnd
