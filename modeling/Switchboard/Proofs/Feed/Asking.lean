import Switchboard.Proofs.Api.Forms
import Switchboard.Proofs.Feed.Others
import Switchboard.Proofs.Receiving.Fused
import Switchboard.Proofs.Text.Digits
import Switchboard.Proofs.Text.Utf8
/-!
The request that ends a subscription in the engine: it carries the handle, and is sent once if the client is active.
While its answer is waited for, nobody brings the call of the subscription back into the table, whatever the engine
does and whoever has been given its number.
-/
namespace Switchboard

namespace Feed

open Exchange Process World Receiving Form

section Parameters

/-- The parameters of the request are the text of its handle. -/
theorem encodeParams_unsubscribe (handle : UInt32) :
    encodeParams (Api.unsubscribe handle).params = Utf8.encode (Api.SubscriptionHandle.form.write ⟨handle⟩) := rfl

/-- Whoever reads the parameters of the request reads the handle. -/
theorem read_unsubscribe (handle : UInt32) :
    Api.SubscriptionHandle.form.read (encodeParams (Api.unsubscribe handle).params) = .ok ⟨handle⟩ := by
  have hhandle : Form.uint32.Rereads ⟨126, .json⟩ handle handle := Total.rereads (Nat.zero_le _) (by simp [Exact])
  have hrereads : Api.SubscriptionHandle.form.Rereads (.ofLanguage .json) ⟨handle⟩ ⟨handle⟩ := by
    refine rereads_record (x := (handle, ())) rfl ?_
    exact Fields.rereads_cons (by decide) (Field.rereads_required hhandle) Fields.rereads_done
  rw [encodeParams_unsubscribe, hrereads.read_write]

theorem length_unsubscribe (handle : UInt32) : (encodeParams (Api.unsubscribe handle).params).length ≤ 4 * 21 := by
  have hdigits : (Text.digits handle.toNat).length ≤ 10 :=
    Text.length_digits_le (k := 9) (Nat.lt_of_lt_of_le handle.toNat_lt (by decide))
  have hname : (Json.quote (Doc.sortKey (.ok "handle"))).length = 8 := by decide
  have hpositive : ¬(handle.toNat : Int) < 0 := by omega
  have hchars : (Api.SubscriptionHandle.form.write ⟨handle⟩).toList.length = (Text.digits handle.toNat).length + 11 := by
    simp [Form.write, Json.write, Api.SubscriptionHandle.form, record, recordOf, Fields.cons, Fields.done, Field.required,
      Json.chars, Json.memberChars, uint32, integer, Doc.int, Numeral.ofInt, Numeral.chars, hname, hpositive]
    omega
  rw [encodeParams_unsubscribe]
  exact Nat.le_trans (Utf8.length_encode_le _) (by omega)

/-- The request of an active client is not refused. -/
theorem refusal_unsubscribe (context handle : UInt32) :
    Client.refusal? (.active context) (Api.unsubscribe handle).method (encodeParams (Api.unsubscribe handle).params) =
      none := by
  have hchecks (octets : Bytes) (hlength : octets.length ≤ 84) : Client.checkLength octets = .ok () := by
    rw [Client.checkLength, wireLength?, if_pos (by omega)]
  have hmethod : Client.checkLength (Utf8.encode (Api.unsubscribe handle).method) = .ok () :=
    hchecks _ (show (Utf8.encode "net.unsubscribe").length ≤ 84 by decide)
  simp only [Client.refusal?, hmethod, hchecks _ (length_unsubscribe handle)]

end Parameters

variable {l : Listener}

section Programs

theorem ebbs_deliver (t : TableId) (f : Fragment) : (deliver t f).All (Ebbs l) fun _ => True := by
  refine (All.atomic fun _ => ebbs_resolve).bind fun found _ => ?_
  cases found with
  | none => trivial
  | some call =>
    have hoffers : (Delivery.offer t call f).All (Ebbs l) _ :=
      Delivery.all_offer (fun _ => ebbs_closeQueue) (fun _ => ebbs_remove) (fun _ => ebbs_push) (.refl l) fun _ _ =>
        ebbs_claimCompletion
    exact hoffers.imp fun _ _ => trivial

theorem ebbs_stopDeliveries (t : TableId) (id : RequestId) :
    (Client.stopDeliveries t id).All (Ebbs l) fun _ => True := by
  refine (All.atomic fun _ => ebbs_resolve).bind fun found _ => ?_
  cases found with
  | none => trivial
  | some call =>
    refine (All.atomic fun _ => ebbs_claimCancellation).discard.bind fun _ _ => ?_
    exact (All.atomic fun _ => ebbs_closeQueue).bind fun _ _ => trivial

theorem ebbs_cancel (m : Listener) : m.cancel.All (Ebbs l) fun _ => True :=
  (m.all_cancel (fun _ => ebbs_claimCancellation) (fun _ => ebbs_closeReading) fun _ => ebbs_remove).imp fun _ _ => trivial

theorem ebbs_release (m : Listener) : m.release.All (Ebbs l) fun _ => True := by
  have hdrops : (atomic (dropReading m.queue)).All (Ebbs l) fun _ => True := All.atomic fun _ => ebbs_dropReading
  unfold Listener.release
  cases m.done with
  | true => exact hdrops
  | false => exact (ebbs_cancel m).discard.bind fun _ _ => hdrops

theorem ebbs_look (now : Nat) (v : Waiting) : (v.look now).All (Ebbs l) fun _ => True := by
  refine All.bind (p := atomic (isFired v.listener.shutdown)) (All.atomic fun x => .refl l x) fun fired _ => ?_
  cases fired with
  | true => trivial
  | false =>
    refine All.bind (p := atomic (take v.listener.queue)) (All.atomic fun _ => ebbs_take) fun taken _ => ?_
    cases taken with
    | fragment f => trivial
    | ended => trivial
    | pending =>
      show (v.lookAtTime now).All _ _
      unfold Waiting.lookAtTime
      split
      · trivial
      · split
        · trivial
        · refine (ebbs_cancel v.listener).bind fun r _ => ?_
          obtain ⟨cancelled, m⟩ := r
          cases cancelled <;> trivial

theorem ebbs_watch (times : List Nat) (v : Waiting) : (watch times v).All (Ebbs l) fun _ => True := by
  induction times generalizing v with
  | nil => trivial
  | cons now later ih =>
    refine (ebbs_look now v).bind fun look _ => ?_
    cases look with
    | pending v' | again v' read => exact ih v'
    | finished v' r => exact (ebbs_release v'.listener).bind fun _ _ => trivial

theorem ebbs_deliverAll (t : TableId) (fs : List Fragment) (x : Exchange) :
    Ebbs l x (Client.deliverAll t fs x).2 := by
  induction fs generalizing x with
  | nil => exact .refl l x
  | cons f rest ih => exact ((ebbs_deliver t f).run (.refl l) (fun _ _ _ => .trans) x).trans (ih _)

end Programs

/-- A step in a world that brings nothing into the table of a call, and by which nobody sends a request. -/
structure Drifts (c : ClientId) (l : Listener) (w w' : World) : Prop extends Quiet c w w' where
  ebbs : Ebbs l w.exchange w'.exchange

section Worlds

variable {c : ClientId} {w w' w'' : World}

theorem Drifts.trans (h : Drifts c l w w') (h' : Drifts c l w' w'') : Drifts c l w w'' :=
  ⟨h.toQuiet.trans h'.toQuiet, h.ebbs.trans h'.ebbs⟩

theorem Drifts.refl (c : ClientId) (l : Listener) (w : World) : Drifts c l w w := ⟨.refl c w, .refl l _⟩

theorem drifts_within {α : Type} {P : α → Prop} {p : Process Exchange α} (h : p.All (Ebbs l) P) :
    (withinExchange p).All (Drifts c l) P :=
  All.within (fun _ _ hstep => ⟨⟨rfl, fun _ => rfl, .inl rfl⟩, hstep⟩) h

theorem drifts_closeAll (calls : List PendingCall) : (Client.closeAll calls).All (Drifts c l) fun _ => True :=
  Client.all_closeAll fun _ _ _ => ⟨⟨rfl, fun _ => rfl, .inl rfl⟩, ebbs_closeQueue⟩

theorem drifts_withdraw (client : Client) : (Client.withdraw client).All (Drifts c l) fun _ => True := by
  have hfires : (withinExchange (discard (atomic (fire client.shutdown)))).All (Drifts c l) fun _ => True :=
    drifts_within (All.atomic fun _ => ebbs_fire).discard
  refine All.bind (p := discard (atomic (atExchange (fire client.shutdown)))) hfires fun _ _ => ?_
  have hremoves : (withinExchange (atomic (removeOwned client.table client.shutdown))).All (Drifts c l) fun _ => True :=
    drifts_within (All.atomic fun _ => ebbs_removeOwned)
  exact All.bind (p := atomic (atExchange (removeOwned client.table client.shutdown))) hremoves
    fun calls _ => drifts_closeAll calls

theorem drifts_destroy : (Client.destroy c).All (Drifts c l) fun _ => True := by
  refine (All.atomic fun w => .refl c l w).bind fun client _ => ?_
  refine (All.atomic fun w => ⟨quiet_markDestroyed c w, .refl l _⟩).bind fun before _ => ?_
  cases before with
  | active context =>
    refine (All.atomic fun w => ⟨quiet_destroyContext c client.engine context w, .refl l _⟩).bind fun _ _ => ?_
    exact drifts_withdraw client
  | uninitialized | destroyed => exact drifts_withdraw client

/-- Whoever has nothing to do with the reading only lets the call come to its end. -/
theorem drifts_party (p : Party) : (p.program c l).All (Drifts c l) fun _ => True := by
  cases p with
  | deliver f => exact drifts_within ((ebbs_deliver l.table f).bind fun _ _ => trivial)
  | unsubscribe =>
    refine All.bind (Q := fun _ => True) ?_ fun _ _ => trivial
    refine (All.atomic fun w => .refl c l w).bind fun client _ => ?_
    exact drifts_within (ebbs_stopDeliveries client.table l.id)
  | destroy => exact drifts_destroy.bind fun _ _ => trivial

end Worlds

section Request

variable {c : ClientId} {w w' : World} {context handle : UInt32} {m : Listener}

/-- The request that ends a subscription, as the engine sees it. -/
def ending (context handle : UInt32) (id : RequestId) : EngineRequest :=
  ⟨context, (Api.unsubscribe handle).method, encodeParams (Api.unsubscribe handle).params, id⟩

/-- It carries the handle. -/
theorem read_ending (context handle : UInt32) (id : RequestId) :
    Api.SubscriptionHandle.form.read (ending context handle id).params = .ok ⟨handle⟩ := by
  rw [ending, read_unsubscribe]

/-- A step by which a client sends a request of its own: the engine has it on record, and its call may stand in the
table, but nothing else has come there. -/
structure Asks (c : ClientId) (l : Listener) (r : EngineRequest) (m : Listener) (w w' : World) : Prop where
  requests : ∀ e, (w'.engine e).requests = (w.engine e).requests ++ if e = (w.client c).engine then [r] else []
  entries : (w'.exchange.table l.table).calls ⊆ (w.exchange.table l.table).calls ++ [(m.id, m.call)]
  apart : m.queue ≠ l.queue
  settles : Settles l w.exchange w'.exchange

/-- An active client sends the request. -/
theorem asks_request (handle : UInt32) (hqueue : l.queue.index < w.exchange.queues.length)
    (htable : l.table.index < w.exchange.tables.length) (hsame : (w.client c).table = l.table)
    (hengine : (w.client c).engine.index < w.engines.length) (hactive : (w.client c).lifecycle = .active context) :
    ∃ m, (Client.request c (Api.unsubscribe handle).method (encodeParams (Api.unsubscribe handle).params) w).1 = .ok m ∧
      Asks c l (ending context handle m.id) m w
        (Client.request c (Api.unsubscribe handle).method (encodeParams (Api.unsubscribe handle).params) w).2 := by
  have haccepted : Client.refusal? (w.client c).lifecycle (Api.unsubscribe handle).method
      (encodeParams (Api.unsubscribe handle).params) = none := by
    rw [hactive]
    exact refusal_unsubscribe context handle
  obtain ⟨err, hrefusal, -⟩ | ⟨-, context', hactive', m, x, fs, hopen, -, hresult, hexchange, -, outcomes, hengines⟩ :=
    Client.requestAnswered_run c (Api.unsubscribe handle).method (encodeParams (Api.unsubscribe handle).params) w
  · rw [haccepted] at hrefusal
    cases hrefusal
  obtain rfl : context = context' := Lifecycle.active.inj (hactive.symm.trans hactive')
  have hm : (Client.openCall (w.client c).table (w.client c).shutdown w.exchange).1 = m := by rw [hopen]
  have hx : (Client.openCall (w.client c).table (w.client c).shutdown w.exchange).2 = x := by rw [hopen]
  rw [hsame, Client.openCall_fst] at hm
  rw [hsame] at hx hexchange
  have hebbs : Ebbs l x (Client.deliverAll l.table fs x).2 := ebbs_deliverAll l.table fs x
  have hapart : m.queue ≠ l.queue := by
    rw [← hm]
    intro hq
    exact absurd (congrArg QueueId.index hq).symm (Nat.ne_of_lt hqueue)
  have hopened : x.queue l.queue = w.exchange.queue l.queue := by
    rw [← hx, Client.queue_openCall, hm, if_neg (Ne.symm hapart)]
  refine ⟨m, by rw [Client.request, stateM_bind, hresult]; rfl, ?_⟩
  have hafter : (Client.request c (Api.unsubscribe handle).method (encodeParams (Api.unsubscribe handle).params) w).2 =
      (Client.requestAnswered c (Api.unsubscribe handle).method (encodeParams (Api.unsubscribe handle).params) w).2 := rfl
  rw [hafter]
  constructor
  case requests =>
    intro e
    rw [World.engine, hengines, getD_set]
    by_cases he : e = (w.client c).engine
    · subst he
      rw [if_pos ⟨rfl, hengine⟩, if_pos rfl]
      rfl
    · have hindex : e.index ≠ (w.client c).engine.index := fun h => he (congrArg EngineId.mk h)
      rw [if_neg fun h => hindex h.1, if_neg he, List.append_nil]
      rfl
  case entries =>
    rw [hexchange]
    refine List.Subset.trans hebbs.entries ?_
    rw [← hx, Client.table_openCall htable, if_pos rfl, hm]
    have hid : (w.exchange.table l.table).nextId = m.id := by rw [← hm]; rfl
    rw [Table.register, hid]
    exact fun _ h => h
  case apart => exact hapart
  case settles =>
    rw [hexchange]
    refine Settles.trans ⟨fun hfired => ?_, fun hclosed => ?_, fun _ => ?_⟩ hebbs.toSettles
    · rw [← hx, Client.fired_openCall]
      exact hfired
    · rw [hopened]
      exact hclosed
    · exact Nat.le_of_eq (congrArg (fun queue => queue.fragments.length) hopened)

/-- A client that has been destroyed sends nothing. -/
theorem request_of_destroyed (hgone : (w.client c).lifecycle = .destroyed) (method : String) (params : Bytes) :
    Client.request c method params w = (.error (.invalidState .sendRequest .destroyed), w) := by
  have hrefusal : Client.refusal? (w.client c).lifecycle method params =
      some (.invalidState .sendRequest .destroyed) := by
    rw [hgone]
    rfl
  rw [Client.request, stateM_bind, Client.requestAnswered_of_refusal hrefusal]
  rfl

end Request

end Feed

end Switchboard
