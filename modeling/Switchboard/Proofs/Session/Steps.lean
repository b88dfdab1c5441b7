import Switchboard.Proofs.Session.Sound
/-!
Each thing that can happen in a session keeps what holds in every session.
-/
namespace Switchboard.Session

open Exchange

variable {start : RequestId} {x y : Exchange} {clients : List Client} {calls : List Call}
  {history events : List Event} {call : Call} {i : Nat}

theorem mem_set_listener (reader : Reader) (hi : calls[i]? = some call) {call' : Call}
    (hcall' : call' ∈ calls) :
    ∃ d ∈ calls.set i { call with reader }, d.listener = call'.listener := by
  obtain ⟨j, hj⟩ := List.getElem?_of_mem hcall'
  have hlt := (List.getElem?_eq_some_iff.1 hi).1
  obtain ⟨-, rfl⟩ | hj := eq_or_getElem?_set hi hj { call with reader }
  · exact ⟨_, List.mem_of_getElem? (List.getElem?_set_self hlt), rfl⟩
  · exact ⟨call', List.mem_of_getElem? hj, rfl⟩

theorem getElem?_set_listener {reader : Reader} (hi : calls[i]? = some call) {j : Nat} {call' : Call}
    (hj : (calls.set i { call with reader })[j]? = some call') :
    ∃ d, calls[j]? = some d ∧ d.listener = call'.listener := by
  obtain ⟨rfl, rfl⟩ | ⟨-, hj⟩ := eq_or_of_getElem?_set hj
  · exact ⟨call, hi, rfl⟩
  · exact ⟨call', hj, rfl⟩

/-- How a call has been issued does not change. -/
theorem CallSound.keep {clients' : List Client} {history' : List Event} {reader : Reader}
    (h : CallSound start x clients history i call)
    (howner : (y.control call.listener.control).shutdown = (x.control call.listener.control).shutdown)
    (hcancel : (y.control call.listener.control).cancel = (x.control call.listener.control).cancel)
    (hsignals : x.signals.length ≤ y.signals.length)
    (hclient : ∀ client, clients[call.client.index]? = some client →
      ∃ client', clients'[call.client.index]? = some client' ∧ client'.shutdown = client.shutdown)
    (hreader : reader.On call.listener)
    (hstanding : y.Live call.listener ∧ { call with reader }.Unended clients' history' ∨
      y.Ended call.listener ∧ ¬ { call with reader }.Unended clients' history') :
    CallSound start y clients' history' i { call with reader } where
  id := h.id
  queue := h.queue
  control := h.control
  table := h.table
  client := by
    obtain ⟨client, hc, hshutdown⟩ := h.client
    obtain ⟨client', hc', hshutdown'⟩ := hclient client hc
    exact ⟨client', hc', hshutdown'.trans hshutdown⟩
  owner := howner.trans h.owner
  cancel := by
    have hlt := h.cancel
    rw [hcancel]
    omega
  reader := hreader
  standing := hstanding

namespace Sound

variable (h : Sound start x clients calls history)
include h

/-- Steps on one call disturb no other. -/
theorem call_onward (hi : calls[i]? = some call) (honward : Onward call.listener x y)
    (hends : ∀ e ∈ events, ∀ id, e.ends id = true → id = call.listener.id) {j : Nat} {d : Call}
    (hj : calls[j]? = some d) (hij : i ≠ j) : CallSound start y clients (history ++ events) j d := by
  have hother := h.call j d hj
  have hapart := h.apart_calls hi hj hij
  have hsizes := honward.sizes
  simp only [sizes, Prod.mk.injEq] at hsizes
  have hevents : ∀ e ∈ events, e.ends d.listener.id = false := by
    intro e he
    cases hid : e.ends d.listener.id with
    | false => rfl
    | true => exact absurd (hends e he _ hid) hapart.id
  refine hother.keep (honward.control_shutdown _) (honward.control_cancel _) (Nat.le_of_eq hsizes.1.symm)
    (fun client hclient => ⟨client, hclient, rfl⟩) hother.reader ?_
  obtain ⟨hlive, hunended⟩ | ⟨hended, hunended⟩ := hother.standing
  · exact .inl ⟨hapart.live honward.toTouches hlive, unended_append.2 ⟨hunended, hevents⟩⟩
  · refine .inr ⟨hapart.ended honward.toTouches hended, fun hafter => ?_⟩
    exact hunended (unended_append.1 hafter).1

/-- Nothing but the call has to be looked at again after steps on it. -/
theorem onward (hi : calls[i]? = some call) (honward : Onward call.listener x y) {reader : Reader}
    (hreader : reader.On call.listener)
    (hends : ∀ e ∈ events, ∀ id, e.ends id = true → id = call.listener.id)
    (hstanding : y.Live call.listener ∧ { call with reader }.Unended clients (history ++ events) ∨
      y.Ended call.listener ∧ ¬ { call with reader }.Unended clients (history ++ events)) :
    Sound start y clients (calls.set i { call with reader }) (history ++ events) := by
  have hcall := h.call i call hi
  have hlt := (List.getElem?_eq_some_iff.1 hi).1
  have hsizes := honward.sizes
  simp only [sizes, Prod.mk.injEq] at hsizes
  obtain ⟨hsignals, hqueues, hcontrols, htables⟩ := hsizes
  have hkeyed : (x.table call.listener.table).Keyed := hcall.table ▸ h.keyed
  constructor
  case few => simpa using h.few
  case queues => simpa [hqueues] using h.queues
  case controls => simpa [hcontrols] using h.controls
  case tables => rw [htables]; exact h.tables
  case lastId =>
    have hlast := honward.lastId
    rw [hcall.table] at hlast
    simpa [hlast] using h.lastId
  case keyed =>
    rw [← hcall.table]
    exact honward.keyed hkeyed
  case entries =>
    intro e he
    rw [← hcall.table] at he
    have hbefore := honward.mem_of_mem hkeyed he
    rw [hcall.table] at hbefore
    obtain ⟨call', hcall', heq⟩ := h.entries e hbefore
    obtain ⟨d, hd, hlistener⟩ := mem_set_listener reader hi hcall'
    exact ⟨d, hd, by rw [hlistener]; exact heq⟩
  case call =>
    intro j d hd
    obtain ⟨rfl, rfl⟩ | ⟨hji, hd⟩ := eq_or_of_getElem?_set hd
    · exact hcall.keep (honward.control_shutdown _) (honward.control_cancel _) (Nat.le_of_eq hsignals.symm)
        (fun client hclient => ⟨client, hclient, rfl⟩) hreader hstanding
    · exact h.call_onward hi honward hends hd (Ne.symm hji)
  case tableOf => exact h.tableOf
  case shutdown =>
    intro k client hclient
    have hne := h.apart i k call client hi hclient
    rw [hsignals, honward.fired _ hne]
    exact h.shutdown k client hclient
  case shutdowns => exact h.shutdowns
  case cancels =>
    intro j j' d d' hj hj' heq
    obtain ⟨e, he, hlistener⟩ := getElem?_set_listener hi hj
    obtain ⟨e', he', hlistener'⟩ := getElem?_set_listener hi hj'
    rw [honward.control_cancel, honward.control_cancel, ← hlistener, ← hlistener'] at heq
    exact h.cancels j j' e e' he he' heq
  case apart =>
    intro j k d client hj hclient
    obtain ⟨e, he, hlistener⟩ := getElem?_set_listener hi hj
    rw [honward.control_cancel, ← hlistener]
    exact h.apart j k e client he hclient
  case known =>
    intro e he id hid
    rw [List.mem_append] at he
    obtain he | he := he
    · obtain ⟨call', hcall', hid'⟩ := h.known e he id hid
      obtain ⟨d, hd, hlistener⟩ := mem_set_listener reader hi hcall'
      exact ⟨d, hd, by rw [hlistener, hid']⟩
    · exact ⟨_, List.mem_of_getElem? (List.getElem?_set_self hlt), (hends e he id hid).symm⟩

/-- What ends no call can be put on record. -/
theorem record (hnone : ∀ e ∈ events, ∀ id, e.ends id = false) :
    Sound start x clients calls (history ++ events) where
  few := h.few
  queues := h.queues
  controls := h.controls
  tables := h.tables
  lastId := h.lastId
  keyed := h.keyed
  entries := h.entries
  call i call hi := by
    have hcall := h.call i call hi
    refine hcall.keep rfl rfl (Nat.le_refl _) (fun client hclient => ⟨client, hclient, rfl⟩)
      hcall.reader ?_
    obtain ⟨hlive, hunended⟩ | ⟨hended, hunended⟩ := hcall.standing
    · exact .inl ⟨hlive, unended_append.2 ⟨hunended, fun e he => hnone e he _⟩⟩
    · exact .inr ⟨hended, fun hafter => hunended (unended_append.1 hafter).1⟩
  tableOf := h.tableOf
  shutdown := h.shutdown
  shutdowns := h.shutdowns
  cancels := h.cancels
  apart := h.apart
  known e he id hid := by
    rw [List.mem_append] at he
    obtain he | he := he
    · exact h.known e he id hid
    · rw [hnone e he id] at hid
      cases hid

/-- Steps on one call that leave its reader as it is. -/
theorem onward_only (hi : calls[i]? = some call) (honward : Onward call.listener x y)
    (hends : ∀ e ∈ events, ∀ id, e.ends id = true → id = call.listener.id)
    (hstanding : y.Live call.listener ∧ call.Unended clients (history ++ events) ∨
      y.Ended call.listener ∧ ¬ call.Unended clients (history ++ events)) :
    Sound start y clients calls (history ++ events) := by
  have hafter := h.onward hi honward (h.call i call hi).reader hends hstanding
  obtain ⟨hlt, rfl⟩ := List.getElem?_eq_some_iff.1 hi
  rwa [List.set_getElem_self hlt] at hafter

theorem act_reads (hi : calls[i]? = some call) (a : Act) :
    Reads call.listener x (call.reader.act a x).1.1 (!(call.reader.act a x).1.2.active)
        (call.reader.act a x).1.2.isGone (call.reader.act a x).2 ∧
      (call.reader.act a x).1.2.On call.listener := by
  have hcall := h.call i call hi
  refine Reader.act_reads a hcall.reader fun hinactive hlive => ?_
  obtain ⟨-, hunended⟩ | ⟨hended, -⟩ := hcall.standing
  · rw [hunended.active] at hinactive
    cases hinactive
  · exact hlive.not_ended hended

theorem act (hi : calls[i]? = some call) (a : Act) :
    Sound start (call.reader.act a x).2 clients
      (calls.set i { call with reader := (call.reader.act a x).1.2 })
      (history ++ (call.reader.act a x).1.1.map (.read i)) := by
  have hcall := h.call i call hi
  obtain ⟨hreads, hon⟩ := h.act_reads hi a
  have hquiet : ∀ e ∈ (call.reader.act a x).1.1.map (Event.read i), ∀ id, e.ends id = false := by
    intro e he id
    obtain ⟨f, -, rfl⟩ := List.mem_map.1 he
    rfl
  refine h.onward hi hreads.onward hon (fun e he id hid => ?_) ?_
  · rw [hquiet e he id] at hid
    cases hid
  obtain ⟨hlive, hunended⟩ | ⟨hended, hunended⟩ := hcall.standing
  · cases hactive : (call.reader.act a x).1.2.active with
    | true =>
      refine .inl ⟨hreads.live hlive (by simp [hactive]), unended_append.2 ⟨?_, ?_⟩⟩
      · exact ⟨hactive, hunended.client, hunended.history⟩
      · exact fun e he => hquiet e he _
    | false =>
      refine .inr ⟨hreads.ended hlive (by simp [hactive]), fun hafter => ?_⟩
      have hstill := hafter.active
      rw [hactive] at hstill
      cases hstill
  · refine .inr ⟨hreads.onward.ended hended, fun hafter => ?_⟩
    have hbefore := (unended_append.1 hafter).1
    refine hunended ⟨?_, hbefore.client, hbefore.history⟩
    cases hactive : call.reader.active with
    | true => rfl
    | false => exact absurd hbefore.active (by simp [Reader.act_inactive hactive])

/-- A delivery reaches the call under its number if nothing has ended it, and otherwise nobody. -/
theorem deliver (f : Fragment) :
    Sound start ((Switchboard.deliver shared f).run x).2 clients calls
      (history ++ [.delivery f ((Switchboard.deliver shared f).run x).1]) := by
  cases hfind : (x.table shared).find? f.requestId with
  | none =>
    rw [deliver_of_absent hfind]
    refine h.record fun e he id => ?_
    rw [List.mem_singleton] at he
    subst he
    rfl
  | some c =>
    obtain ⟨i, call, hi, hid, hlive, hunended⟩ := h.live_of_find? hfind
    have hdelivers := deliver_of_live hlive hid.symm
    rw [(h.call i call hi).table] at hdelivers
    have haccepted : ((Switchboard.deliver shared f).run x).1.accepted = true := by
      rw [hdelivers.told]
      split <;> rfl
    refine h.onward_only hi hdelivers.onward ?_ ?_
    · intro e he id' hends
      rw [List.mem_singleton] at he
      subst he
      simp only [Event.ends, Bool.and_eq_true, beq_iff_eq] at hends
      rw [hid, hends.2]
    · cases hlast : f.isLast with
      | false =>
        refine .inl ⟨hdelivers.live hlast, unended_append.2 ⟨hunended, fun e he => ?_⟩⟩
        rw [List.mem_singleton] at he
        subst he
        simp [Event.ends, hlast]
      | true =>
        refine .inr ⟨hdelivers.ended hlast, fun hafter => ?_⟩
        have hends := (unended_append.1 hafter).2 _ (List.mem_singleton.2 rfl)
        simp [Event.ends, hlast, haccepted, hid] at hends

/-- One who unsubscribes finds the call under a number if nothing has ended it. -/
theorem stopDeliveries (id : RequestId) :
    Sound start ((Client.stopDeliveries shared id).run x).2 clients calls
      (history ++ [.unsubscribed id ((Client.stopDeliveries shared id).run x).1]) := by
  cases hfind : (x.table shared).find? id with
  | none =>
    rw [stopDeliveries_of_absent hfind]
    refine h.record fun e he id' => ?_
    rw [List.mem_singleton] at he
    subst he
    rfl
  | some c =>
    obtain ⟨i, call, hi, hid, hlive, -⟩ := h.live_of_find? hfind
    have hstopped := stopDeliveries_of_live hlive
    rw [(h.call i call hi).table, hid] at hstopped
    obtain ⟨hfound, honward, hended, -⟩ := hstopped
    refine h.onward_only hi honward ?_ (.inr ⟨hended, fun hafter => ?_⟩)
    · intro e he id' hends
      rw [List.mem_singleton] at he
      subst he
      simp only [Event.ends, Bool.and_eq_true, beq_iff_eq] at hends
      rw [hid, hends.2]
    · have hends := (unended_append.1 hafter).2 _ (List.mem_singleton.2 rfl)
      simp [Event.ends, hfound, hid] at hends

end Sound

end Switchboard.Session
