import Switchboard.Proofs.Session.Bystanders
/-!
Two sessions that differ in one client only, with its calls and its readers.
-/
namespace Switchboard.Session

open Exchange

variable {h : Hidden} {c : ClientId} {x y : Exchange} {g g' g'' : Ground} {call call' : Call} {client : Client}
  {i : Nat}

/-- The call with an index has been issued by a client. -/
def OfClient (c : ClientId) (calls : List Call) (i : Nat) : Prop :=
  ∃ call, calls[i]? = some call ∧ call.client = c

theorem ofClient_iff (hi : g.calls[i]? = some call) : OfClient c g.calls i ↔ call.client = c := by
  constructor
  · rintro ⟨d, hd, hown⟩
    cases hi.symm.trans hd
    exact hown
  · exact fun hown => ⟨call, hi, hown⟩

/-- The shutdown signal of a client and the parts of its calls. -/
def partsOf (c : ClientId) (g : Ground) : Hidden where
  queue q := OfClient c g.calls q.index
  control k := OfClient c g.calls k.index
  signal s := (∃ client, g.clients[c.index]? = some client ∧ client.shutdown = s) ∨
    ∃ i, OfClient c g.calls i ∧ (g.exchange.control ⟨i⟩).cancel = s

/-- The parts of a client and of its calls are hidden, and no others. -/
structure Hides (h : Hidden) (c : ClientId) (g : Ground) : Prop where
  queue : ∀ q, h.queue q ↔ (partsOf c g).queue q
  control : ∀ k, h.control k ↔ (partsOf c g).control k
  signal : ∀ s, h.signal s ↔ (partsOf c g).signal s

theorem hides_partsOf (c : ClientId) (g : Ground) : Hides (partsOf c g) c g :=
  ⟨fun _ => Iff.rfl, fun _ => Iff.rfl, fun _ => Iff.rfl⟩

namespace Hides

variable (hides : Hides h c g) (hg : g.IsCoherent)
include hides hg

theorem hidden (hi : g.calls[i]? = some call) (hown : call.client = c) :
    h.queue call.listener.queue ∧ h.control call.listener.control ∧
      h.signal (g.exchange.control call.listener.control).cancel := by
  have hwired := hg.call i call hi
  have hof : OfClient c g.calls i := ⟨call, hi, hown⟩
  refine ⟨(hides.queue _).2 ?_, (hides.control _).2 ?_, (hides.signal _).2 (.inr ⟨i, hof, ?_⟩)⟩
  · rw [hwired.queue]
    exact hof
  · rw [hwired.control]
    exact hof
  · rw [hwired.control]

theorem visible (hi : g.calls[i]? = some call) (hother : call.client ≠ c) :
    ¬ h.queue call.listener.queue ∧ ¬ h.control call.listener.control ∧ ¬ h.signal call.listener.shutdown := by
  have hwired := hg.call i call hi
  have hnot : ¬ OfClient c g.calls i := fun hof => hother ((ofClient_iff hi).1 hof)
  refine ⟨?_, ?_, fun hsignal => ?_⟩
  · rw [hides.queue, hwired.queue]
    exact hnot
  · rw [hides.control, hwired.control]
    exact hnot
  · obtain ⟨client, hclient, heq⟩ | ⟨j, ⟨d, hj, -⟩, hcancel⟩ := (hides.signal _).1 hsignal
    · exact hother ((hg.shutdown_iff hi hclient).1 heq.symm)
    · obtain ⟨owner, howner, hshutdown⟩ := hwired.client
      rw [← hshutdown, show (⟨j⟩ : ControlId) = d.listener.control from (hg.call j d hj).control.symm] at hcancel
      exact hg.apart j _ d owner hj howner hcancel.symm

theorem cancel_visible (hi : g.calls[i]? = some call) (hother : call.client ≠ c) :
    ¬ h.signal (g.exchange.control call.listener.control).cancel := by
  intro hsignal
  obtain ⟨client, hclient, heq⟩ | ⟨j, ⟨d, hj, hown⟩, hcancel⟩ := (hides.signal _).1 hsignal
  · exact hg.apart i _ call client hi hclient heq
  · rw [show (⟨j⟩ : ControlId) = d.listener.control from (hg.call j d hj).control.symm] at hcancel
    obtain rfl := hg.cancels j i d call hj hi hcancel
    cases hj.symm.trans hi
    exact hother hown

/-- An entry is hidden if it is one of the client. -/
theorem queue_of_mem {e : RequestId × PendingCall} (he : e ∈ (g.exchange.table shared).calls)
    (hc : g.clients[c.index]? = some client) (howner : (g.exchange.control e.2.control).shutdown = client.shutdown) :
    h.queue e.2.queue := by
  obtain ⟨i, call, hi, rfl, -⟩ := hg.entries e he
  exact (hides.hidden hg hi ((hg.owner_iff hi hc).1 howner)).1

/-- Destroying the client is hidden. -/
theorem agree_withoutOwned (hc : g.clients[c.index]? = some client) :
    Agree h g.exchange (Client.withoutOwned shared client.shutdown g.exchange) :=
  .of_withoutOwned ((hides.signal _).2 (.inl ⟨client, hc, rfl⟩)) fun _ he => hides.queue_of_mem hg he hc

/-- Steps on a call of the client are hidden, as long as no other call is in the table under its number. -/
theorem agree_onward (hi : g.calls[i]? = some call) (hown : call.client = c)
    (honward : Onward call.listener g.exchange y)
    (hnone : ∀ e ∈ (g.exchange.table shared).calls, e.1 = call.listener.id → h.queue e.2.queue) :
    Agree h g.exchange y := by
  obtain ⟨hqueue, hcontrol, hcancel⟩ := hides.hidden hg hi hown
  have htable := (hg.call i call hi).table
  refine .of_onward honward hqueue hcontrol hcancel ?_ ?_
  · rw [htable]
    exact hg.keyed
  · rw [htable]
    exact hnone

end Hides

theorem Hides.keep (hides : Hides h c g) (hcalls : ∀ i, OfClient c g'.calls i ↔ OfClient c g.calls i)
    (hshutdown : (g'.clients.map Client.shutdown)[c.index]? = (g.clients.map Client.shutdown)[c.index]?)
    (hcancel : ∀ i, OfClient c g.calls i →
      (g'.exchange.control ⟨i⟩).cancel = (g.exchange.control ⟨i⟩).cancel) : Hides h c g' := by
  constructor
  case queue => exact fun q => (hides.queue q).trans (hcalls q.index).symm
  case control => exact fun k => (hides.control k).trans (hcalls k.index).symm
  case signal =>
    intro s
    simp only [List.getElem?_map] at hshutdown
    refine (hides.signal s).trans (or_congr ?_ (exists_congr fun i => ?_))
    · rw [← Option.map_eq_some_iff, ← Option.map_eq_some_iff, hshutdown]
    · rw [hcalls i]
      exact and_congr_right fun hof => by rw [hcancel i hof]

/-- A change leaves the calls that there are with their cancel signals. -/
theorem Change.cancel (hchange : Change g g') (hg : g.IsCoherent) (hi : i < g.calls.length) :
    (g'.exchange.control ⟨i⟩).cancel = (g.exchange.control ⟨i⟩).cancel := by
  cases hchange with
  | act hj a => exact (Coherent.act_reads hg hj a).1.onward.control_cancel _
  | @deliver x _ _ _ f =>
    show (((Switchboard.deliver Session.shared f).run x).2.control _).cancel = (x.control _).cancel
    obtain habsent | ⟨j, call, -, -, -, -, hdelivers⟩ := Coherent.deliver_cases hg f
    · rw [deliver_of_absent habsent]
    · exact hdelivers.onward.control_cancel _
  | @unsubscribe x _ _ _ id =>
    show (((Client.stopDeliveries Session.shared id).run x).2.control _).cancel = (x.control _).cancel
    obtain habsent | ⟨j, call, -, -, -, -, honward, -⟩ := Coherent.stopDeliveries_cases hg id
    · rw [stopDeliveries_of_absent habsent]
    · exact honward.control_cancel _
  | relabel => rfl
  | destroy => exact congrArg Control.cancel Client.control_withoutOwned
  | join => rfl
  | @issue x y _ calls _ c client l hc hactive hopen =>
    obtain rfl : (Client.openCall Session.shared client.shutdown x).2 = y := by rw [hopen]
    show ((Client.openCall Session.shared client.shutdown x).2.control _).cancel = (x.control _).cancel
    rw [Client.control_openCall, if_neg]
    intro heq
    have hindex : i = x.controls.length := ControlId.mk.inj heq
    have hcontrols : x.controls.length = calls.length := hg.controls
    have hlt : i < calls.length := hi
    omega

/-- What is hidden stays the same as long as the client issues no call. -/
theorem Change.hides (hchange : Change g g') (hg : g.IsCoherent) (hc : c.index < g.clients.length)
    (hnew : ∀ call, g'.calls[g.calls.length]? = some call → call.client ≠ c) (hides : Hides h c g) :
    Hides h c g' := by
  refine hides.keep (fun i => ?_) ?_ fun i hof => ?_
  case refine_1 =>
    cases hchange with
    | @act _ _ calls _ j call hj a =>
      constructor
      · rintro ⟨d, hd, hown⟩
        obtain ⟨rfl, rfl⟩ | ⟨-, hd⟩ := eq_or_of_getElem?_set hd
        · exact ⟨call, hj, hown⟩
        · exact ⟨d, hd, hown⟩
      · rintro ⟨d, hd, hown⟩
        obtain ⟨rfl, rfl⟩ | hd := eq_or_getElem?_set hj hd { call with reader := _ }
        · exact ⟨_, List.getElem?_set_self (List.getElem?_eq_some_iff.1 hj).1, hown⟩
        · exact ⟨d, hd, hown⟩
    | issue =>
      constructor
      · rintro ⟨d, hd, hown⟩
        obtain hd | ⟨rfl, rfl⟩ := getElem?_concat.1 hd
        · exact ⟨d, hd, hown⟩
        · exact absurd hown (hnew _ (getElem?_concat.2 (.inr ⟨rfl, rfl⟩)))
      · rintro ⟨d, hd, hown⟩
        exact ⟨d, getElem?_concat.2 (.inl hd), hown⟩
    | _ => exact Iff.rfl
  case refine_2 =>
    cases hchange with
    | relabel hd htable hshutdown hlifecycle => rw [map_set_of_getElem? hd hshutdown]
    | destroy hd => exact congrArg (·[c.index]?) (map_set_of_getElem? hd (by rfl))
    | join htable hshutdown hlifecycle =>
      rw [List.map_append, List.getElem?_append_left (by simpa using hc)]
    | _ => rfl
  case refine_3 =>
    obtain ⟨d, hd, -⟩ := hof
    exact hchange.cancel hg (List.getElem?_eq_some_iff.1 hd).1

/-- The client is there, and destroyed. -/
def Gone (c : ClientId) (g : Ground) : Prop :=
  ∃ client, g.clients[c.index]? = some client ∧ client.lifecycle = .destroyed

/-- A client that has been destroyed has no call in the table. -/
theorem Gone.visible (hgone : Gone c g) (hides : Hides h c g) (hg : g.IsCoherent) {e : RequestId × PendingCall}
    (he : e ∈ (g.exchange.table shared).calls) : ¬ h.queue e.2.queue := by
  obtain ⟨client, hc, hdestroyed⟩ := hgone
  obtain ⟨i, call, hi, rfl, -⟩ := hg.entries e he
  have hrunning := ((hg.stands call (List.mem_of_getElem? hi)).live he).running
  intro hqueue
  have hof : OfClient c g.calls i := by
    have hof := (hides.queue _).1 hqueue
    rwa [show call.listener.call.queue = call.listener.queue from rfl, (hg.call i call hi).queue] at hof
  have hown := (ofClient_iff hi).1 hof
  rw [(hg.shutdown_iff hi hc).2 hown, (hg.shutdown _ client hc).2.2 hdestroyed] at hrunning
  cases hrunning

/-- What others see of a call. Who reads a call of the client is hidden. -/
def seen (c : ClientId) (call : Call) : ClientId × Listener × Option Reader :=
  (call.client, call.listener, if call.client = c then none else some call.reader)

theorem seen_eq_iff : seen c call = seen c call' ↔
    call.client = call'.client ∧ call.listener = call'.listener ∧
      (call.client ≠ c → call.reader = call'.reader) := by
  unfold seen
  simp only [Prod.mk.injEq]
  refine and_congr_right fun hclient => and_congr_right fun _ => ?_
  rw [hclient]
  by_cases hown : call'.client = c <;> simp [hown]

theorem eq_of_seen (hseen : seen c call = seen c call') (hother : call.client ≠ c) : call = call' := by
  obtain ⟨hclient, hlistener, hreader⟩ := seen_eq_iff.1 hseen
  obtain ⟨client, listener, reader⟩ := call
  cases hclient
  cases hlistener
  cases hreader hother
  rfl

/-- Two sessions differ in hidden parts, in the readers of the client, and in where the client stands. -/
structure Alike (h : Hidden) (c : ClientId) (g g' : Ground) : Prop where
  exchange : Agree h g.exchange g'.exchange
  calls : g'.calls.map (seen c) = g.calls.map (seen c)
  clients : ∀ k, k ≠ c.index → g'.clients[k]? = g.clients[k]?
  shutdowns : g'.clients.map Client.shutdown = g.clients.map Client.shutdown

namespace Alike

theorem symm (halike : Alike h c g g') : Alike h c g' g :=
  ⟨halike.exchange.symm, halike.calls.symm, fun k hk => (halike.clients k hk).symm, halike.shutdowns.symm⟩

theorem trans (halike : Alike h c g g') (halike' : Alike h c g' g'') : Alike h c g g'' :=
  ⟨halike.exchange.trans halike'.exchange, halike'.calls.trans halike.calls,
    fun k hk => (halike'.clients k hk).trans (halike.clients k hk), halike'.shutdowns.trans halike.shutdowns⟩

variable (halike : Alike h c g g')
include halike

theorem call_at (hi : g'.calls[i]? = some call') : ∃ call, g.calls[i]? = some call ∧ seen c call = seen c call' := by
  have hmap := congrArg (·[i]?) halike.calls
  simp only [List.getElem?_map, hi, Option.map_some] at hmap
  exact Option.map_eq_some_iff.1 hmap.symm

/-- The calls of other clients are the same. -/
theorem call_of_other (hi : g'.calls[i]? = some call') (hother : call'.client ≠ c) : g.calls[i]? = some call' := by
  obtain ⟨call, hcall, hseen⟩ := halike.call_at hi
  rw [eq_of_seen hseen.symm hother]
  exact hcall

theorem ofClient_iff (i : Nat) : OfClient c g'.calls i ↔ OfClient c g.calls i := by
  constructor
  · rintro ⟨call', hi, hown⟩
    obtain ⟨call, hcall, hseen⟩ := halike.call_at hi
    exact ⟨call, hcall, (seen_eq_iff.1 hseen).1.trans hown⟩
  · rintro ⟨call', hi, hown⟩
    obtain ⟨call, hcall, hseen⟩ := halike.symm.call_at hi
    exact ⟨call, hcall, (seen_eq_iff.1 hseen).1.trans hown⟩

theorem hides (hides : Hides h c g) : Hides h c g' :=
  hides.keep halike.ofClient_iff (by rw [halike.shutdowns]) fun _ _ => halike.exchange.cancels _

end Alike

/-- The client is destroyed in the first of two sessions, and they differ in this client only. -/
structure Beside (h : Hidden) (c : ClientId) (g g' : Ground) : Prop extends Alike h c g g' where
  left : g.IsCoherent
  right : g'.IsCoherent
  hides : Hides h c g'
  gone : Gone c g

namespace Beside

variable (hbeside : Beside h c g g')
include hbeside

theorem hides_left : Hides h c g := hbeside.toAlike.symm.hides hbeside.hides

theorem entries {e : RequestId × PendingCall} (he : ¬ h.queue e.2.queue) :
    e ∈ (g'.exchange.table shared).calls ↔ e ∈ (g.exchange.table shared).calls :=
  hbeside.exchange.entries shared e he

theorem subset {e : RequestId × PendingCall} (he : e ∈ (g.exchange.table shared).calls) :
    e ∈ (g'.exchange.table shared).calls :=
  (hbeside.entries (hbeside.gone.visible hbeside.hides_left hbeside.left he)).2 he

/-- Under a number there is no call, or the same call of another client in both sessions, or a call of the client
in the second one. -/
theorem find_cases (id : RequestId) :
    (g.exchange.table shared).find? id = none ∧ (g'.exchange.table shared).find? id = none ∨
    (∃ (i : Nat) (call : Call), g.calls[i]? = some call ∧ g'.calls[i]? = some call ∧ call.client ≠ c ∧
      id = call.listener.id ∧ call.listener.table = shared ∧ g.exchange.Live call.listener ∧
      g'.exchange.Live call.listener) ∨
    (g.exchange.table shared).find? id = none ∧
      ∃ (i : Nat) (call : Call), g'.calls[i]? = some call ∧ call.client = c ∧ id = call.listener.id ∧
        call.listener.table = shared ∧ g'.exchange.Live call.listener ∧
        ∀ e ∈ (g'.exchange.table shared).calls, e.1 = call.listener.id → h.queue e.2.queue := by
  cases hfind : (g'.exchange.table shared).find? id with
  | none =>
    refine .inl ⟨Table.find?_eq_none_iff.2 fun e he => ?_, rfl⟩
    exact Table.find?_eq_none_iff.1 hfind e (hbeside.subset he)
  | some pending =>
    obtain ⟨i, call, hi, rfl, rfl, hlive, -⟩ := hbeside.right.of_find? hfind
    have htable := (hbeside.right.call i call hi).table
    have hmem := Table.mem_of_find? hfind
    by_cases hown : call.client = c
    · have hhidden := (hbeside.hides.hidden hbeside.right hi hown).1
      have honly : ∀ e ∈ (g'.exchange.table shared).calls, e.1 = call.listener.id → h.queue e.2.queue := by
        rintro ⟨id, pending⟩ he rfl
        have hsame := hbeside.right.keyed.find?_eq_some_iff.2 he
        rw [hfind, Option.some.injEq] at hsame
        rw [← hsame]
        exact hhidden
      refine .inr (.inr ⟨Table.find?_eq_none_iff.2 fun e he heq => ?_, i, call, hi, hown, rfl, htable, hlive, honly⟩)
      exact hbeside.gone.visible hbeside.hides_left hbeside.left he (honly e (hbeside.subset he) heq)
    · have hi' := hbeside.call_of_other hi hown
      have hvisible := (hbeside.hides.visible hbeside.right hi hown).1
      have hmem' := (hbeside.entries (e := (call.listener.id, call.listener.call)) hvisible).1 hmem
      exact .inr (.inl ⟨i, call, hi', hi, hown, rfl, htable,
        (hbeside.left.stands call (List.mem_of_getElem? hi')).live hmem', hlive⟩)

/-- Fragments are delivered alike, unless they are meant for a call of the client. -/
theorem deliver (f : Fragment) :
    Agree h ((Switchboard.deliver shared f).run g.exchange).2 ((Switchboard.deliver shared f).run g'.exchange).2 ∧
      ((∀ e ∈ (g'.exchange.table shared).calls, e.1 = f.requestId → ¬ h.queue e.2.queue) →
        ((Switchboard.deliver shared f).run g'.exchange).1 =
          ((Switchboard.deliver shared f).run g.exchange).1) := by
  obtain ⟨habsent, habsent'⟩ | ⟨i, call, -, hi, hother, hid, htable, hlive, hlive'⟩ |
    ⟨habsent, i, call, hi, hown, hid, htable, hlive, honly⟩ := hbeside.find_cases f.requestId
  · rw [deliver_of_absent habsent, deliver_of_absent habsent']
    exact ⟨hbeside.exchange, fun _ => rfl⟩
  · obtain ⟨hqueue, hcontrol, -⟩ := hbeside.hides.visible hbeside.right hi hother
    rw [← htable]
    obtain ⟨hsame, hagree⟩ := deliver_agree hlive hlive' hid hqueue hcontrol hbeside.exchange
    exact ⟨hagree, fun _ => hsame⟩
  · rw [deliver_of_absent habsent]
    have honward := (deliver_of_live hlive hid).onward
    rw [htable] at honward
    refine ⟨hbeside.exchange.trans (hbeside.hides.agree_onward hbeside.right hi hown honward honly), ?_⟩
    intro hnone
    have hentry := hlive.entry
    rw [htable] at hentry
    exact absurd (honly _ (Table.mem_of_find? hentry) rfl) (hnone _ (Table.mem_of_find? hentry) hid.symm)

theorem stopDeliveries (id : RequestId) :
    Agree h ((Client.stopDeliveries shared id).run g.exchange).2
      ((Client.stopDeliveries shared id).run g'.exchange).2 := by
  obtain ⟨habsent, habsent'⟩ | ⟨i, call, -, hi, hother, rfl, htable, hlive, hlive'⟩ |
    ⟨habsent, i, call, hi, hown, rfl, htable, hlive, honly⟩ := hbeside.find_cases id
  · rw [stopDeliveries_of_absent habsent, stopDeliveries_of_absent habsent']
    exact hbeside.exchange
  · obtain ⟨hqueue, hcontrol, -⟩ := hbeside.hides.visible hbeside.right hi hother
    rw [← htable]
    exact (stopDeliveries_agree hlive hlive' hqueue hcontrol hbeside.exchange).2
  · rw [stopDeliveries_of_absent habsent]
    have honward := (stopDeliveries_of_live hlive).2.1
    rw [htable] at honward
    exact hbeside.exchange.trans (hbeside.hides.agree_onward hbeside.right hi hown honward honly)

/-- Whoever reads a call of another client is told the same. -/
theorem act_of_other (hi : g'.calls[i]? = some call) (hother : call.client ≠ c) (a : Act) :
    (call.reader.act a g'.exchange).1 = (call.reader.act a g.exchange).1 ∧
      Agree h (call.reader.act a g.exchange).2 (call.reader.act a g'.exchange).2 := by
  obtain ⟨hqueue, hcontrol, hsignal⟩ := hbeside.hides.visible hbeside.right hi hother
  have hon := (hbeside.right.stands call (List.mem_of_getElem? hi)).reader
  exact Reader.respects_act hon a hqueue hcontrol hsignal _ _ hbeside.exchange

end Beside

end Switchboard.Session
