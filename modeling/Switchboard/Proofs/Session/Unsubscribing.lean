import Switchboard.Proofs.Session.Coherent
/-!
Unsubscribing goes by the number alone: it ends whatever call is outstanding under the number in the shared
table, no matter which client has issued it.
-/
namespace Switchboard.Session

open Exchange

variable {s : Session} {c : ClientId} {id : RequestId}

/-- A call of another client is outstanding under a number. -/
def Foreign (s : Session) (c : ClientId) (id : RequestId) : Prop :=
  ∃ call ∈ s.calls, call.client ≠ c ∧
    (id, call.listener.call) ∈ (s.world.exchange.table shared).calls

instance : Decidable (s.Foreign c id) :=
  inferInstanceAs (Decidable (∃ call ∈ s.calls, call.client ≠ c ∧
    (id, call.listener.call) ∈ (s.world.exchange.table shared).calls))

/-- Under the number of a call of another client, unsubscribing finds nothing and changes nothing. -/
def StaysInside (s : Session) (c : ClientId) (id : RequestId) : Prop :=
  s.Foreign c id → (Client.unsubscribe c id).run s.world = (false, s.world)

/-- A call has been stopped: its entry and no other is gone from the table, it is cancelled, its cancel signal has
been fired and its queue closed. Nothing else has changed. -/
structure Stopped (call : Call) (w w' : World) : Prop where
  entries : ∀ e, e ∈ (w'.exchange.table shared).calls ↔
    e ∈ (w.exchange.table shared).calls ∧ e ≠ (call.listener.id, call.listener.call)
  claim : (w'.exchange.control call.listener.control).claim = .cancelled
  cancel : w'.exchange.fired (w.exchange.control call.listener.control).cancel = true
  queue : w'.exchange.queue call.listener.queue = (w.exchange.queue call.listener.queue).close
  touches : Touches call.listener w.exchange w'.exchange
  engines : w'.engines = w.engines
  clients : w'.clients = w.clients

/-- What unsubscribing does: it says whether a call is outstanding under the number, and stops that call, whoever
has issued it. So it stays inside the client only as long as no call of another client is outstanding under the
number. -/
structure Unsubscribes (s : Session) (c : ClientId) (id : RequestId) : Prop where
  found : ((Client.unsubscribe c id).run s.world).1 = true ↔
    ∃ call ∈ s.calls, (id, call.listener.call) ∈ (s.world.exchange.table shared).calls
  missed : (∀ call ∈ s.calls, (id, call.listener.call) ∉ (s.world.exchange.table shared).calls) →
    (Client.unsubscribe c id).run s.world = (false, s.world)
  stopped : ∀ call ∈ s.calls, (id, call.listener.call) ∈ (s.world.exchange.table shared).calls →
    Stopped call s.world ((Client.unsubscribe c id).run s.world).2
  inside : s.StaysInside c id ↔ ¬ s.Foreign c id

/-- An entry of the table names its call. -/
theorem Coherent.call_of_mem {x : Exchange} {clients : List Client} {calls : List Call} {call : Call}
    (h : Coherent x clients calls) (hcall : call ∈ calls) (hmem : (id, call.listener.call) ∈ (x.table shared).calls) :
    call.listener.id = id ∧ x.Live call.listener := by
  obtain ⟨i, hi⟩ := List.getElem?_of_mem hcall
  obtain ⟨j, d, hj, heq, -⟩ := h.entries _ hmem
  obtain ⟨hid, hparts⟩ := Prod.mk.inj heq
  -- The queue of an entry tells which call it is.
  have hqueue : call.listener.queue = d.listener.queue := congrArg PendingCall.queue hparts
  rw [(h.call i call hi).queue, (h.call j d hj).queue] at hqueue
  obtain rfl : i = j := QueueId.mk.inj hqueue
  cases hi.symm.trans hj
  refine ⟨hid.symm, (h.stands call hcall).live ?_⟩
  rw [← hid]
  exact hmem

/-- Whatever the state, unsubscribing stops the call that is outstanding under the number. -/
theorem stopped_of_mem (h : s.ground.IsCoherent) (htable : (s.world.client c).table = shared) {call : Call}
    (hcall : call ∈ s.calls)
    (hmem : (id, call.listener.call) ∈ (s.world.exchange.table shared).calls) :
    ((Client.unsubscribe c id).run s.world).1 = true ∧
      Stopped call s.world ((Client.unsubscribe c id).run s.world).2 := by
  have h : Coherent s.world.exchange s.world.clients s.calls := h
  obtain ⟨rfl, hlive⟩ := h.call_of_mem hcall hmem
  obtain ⟨i, hi⟩ := List.getElem?_of_mem hcall
  have hwired := h.call i call hi
  have honward := (stopDeliveries_of_live hlive).2.1
  rw [hwired.table] at honward
  rw [Client.unsubscribe_run, htable]
  have hrun := stopDeliveries_of_found (h.keyed.find?_eq_some_iff.2 hmem)
  rw [hrun] at honward ⊢
  refine ⟨rfl, ?_⟩
  have hclaim : ((resolve shared call.listener.id true s.world.exchange).2.control call.listener.control).claim =
      .free := by simpa using hlive.unclaimed
  constructor
  case entries =>
    intro e
    show e ∈ ((closeQueue call.listener.queue
      (claimCancellation call.listener.control
        (resolve shared call.listener.id true s.world.exchange).2).2).2.table shared).calls ↔ _
    simp only [frame_closeQueue, table_claimCancellation, table_resolve, and_self, if_true, Table.erase,
      List.mem_filter, decide_eq_true_eq]
    refine and_congr_right fun he => not_congr ⟨fun hid => ?_, fun heq => by rw [heq]⟩
    have hfind := h.keyed.find?_eq_some_iff.2 hmem
    rw [← hid] at hfind
    have hsame := hfind.symm.trans (h.keyed.find?_eq_some_iff.2 (show (e.1, e.2) ∈ _ from he))
    rw [Option.some.injEq] at hsame
    exact Prod.ext hid hsame.symm
  case claim => simp [Listener.call, hlive.unclaimed]
  case cancel =>
    have hfired := fired_claimCancellation_of_free hclaim
      (s := (s.world.exchange.control call.listener.control).cancel)
    rw [if_pos ⟨rfl, hwired.cancel⟩] at hfired
    exact hfired
  case queue => simp [Listener.call]
  case touches => exact honward.toTouches
  case engines => rfl
  case clients => rfl

/-- In every session, unsubscribing ends the call under a number, whichever client has issued it. -/
theorem unsubscribe_goes_by_number (lastId : RequestId) (ops : List Op)
    (hnumbers : (Session.start lastId).HasNumbers ops) (c : ClientId) (id : RequestId)
    (hc : ((Session.start lastId).run ops).HasClient c) :
    Unsubscribes ((Session.start lastId).run ops) c id := by
  have h := coherent_run hnumbers (coherent_start lastId)
  generalize (Session.start lastId).run ops = s at h hc
  have hclient := List.getElem?_eq_getElem hc
  have htable : (s.world.client c).table = shared := by
    rw [World.client_of_getElem? hclient]
    exact h.tableOf _ _ hclient
  have hmissed : (∀ call ∈ s.calls, (id, call.listener.call) ∉ (s.world.exchange.table shared).calls) →
      (Client.unsubscribe c id).run s.world = (false, s.world) := by
    intro hnone
    have habsent : (s.world.exchange.table shared).find? id = none := by
      cases hfind : (s.world.exchange.table shared).find? id with
      | none => rfl
      | some pending =>
        obtain ⟨i, call, hi, -, rfl, -⟩ := Coherent.of_find? h hfind
        exact absurd (Table.mem_of_find? hfind) (hnone call (List.mem_of_getElem? hi))
    rw [Client.unsubscribe_run, htable, stopDeliveries_of_absent habsent]
  constructor
  case found =>
    constructor
    · intro htold
      by_contra hnone
      rw [hmissed fun call hcall hmem => hnone ⟨call, hcall, hmem⟩] at htold
      cases htold
    · rintro ⟨call, hcall, hmem⟩
      exact (stopped_of_mem h htable hcall hmem).1
  case missed => exact hmissed
  case stopped => exact fun call hcall hmem => (stopped_of_mem h htable hcall hmem).2
  case inside =>
    constructor
    · rintro hinside ⟨call, hcall, hne, hmem⟩
      have htold := (stopped_of_mem h htable hcall hmem).1
      rw [hinside ⟨call, hcall, hne, hmem⟩] at htold
      cases htold
    · exact fun hnone hforeign => absurd hforeign hnone

/-- An engine that makes context 1 and answers no request. -/
def silent : Engine where
  contextResponse := Utf8.encode "\x7b\"result\":1\x7d"

/-- Two clients; the first one issues a call. -/
def oneCall : List Op :=
  [.join silent, .join silent, .createContextFrom ⟨0⟩ "", .createContextFrom ⟨1⟩ "", .request ⟨0⟩ "ticks" []]

/-- The second client ends the call of the first one. -/
theorem unsubscribe_goes_by_number_foreign :
    (Session.start 0).HasNumbers oneCall ∧ ((Session.start 0).run oneCall).HasClient ⟨1⟩ ∧
      Unsubscribes ((Session.start 0).run oneCall) ⟨1⟩ 1 := by
  have hnumbers : (Session.start 0).HasNumbers oneCall := by decide +kernel
  have hc : ((Session.start 0).run oneCall).HasClient ⟨1⟩ := by decide +kernel
  exact ⟨hnumbers, hc, unsubscribe_goes_by_number 0 oneCall hnumbers ⟨1⟩ 1 hc⟩

/-- Unsubscribing does not stay inside the client. -/
theorem unsubscribe_reaches_other_client :
    ¬ ∀ (lastId : RequestId) (ops : List Op), (Session.start lastId).HasNumbers ops →
      ∀ (c : ClientId) (id : RequestId), ((Session.start lastId).run ops).HasClient c →
        ((Session.start lastId).run ops).StaysInside c id := by
  intro hinside
  have hforeign : ((Session.start 0).run oneCall).Foreign ⟨1⟩ 1 := by decide +kernel
  have htold : ((Client.unsubscribe ⟨1⟩ 1).run ((Session.start 0).run oneCall).world).1 = true := by
    decide +kernel
  rw [hinside 0 oneCall (by decide +kernel) ⟨1⟩ 1 (by decide +kernel) hforeign] at htold
  cases htold

end Switchboard.Session
