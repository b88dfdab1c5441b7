import Switchboard.Proofs.Session.Bystanders
/-!
What can be done to a call that has been issued: the engine delivers a fragment under its number, whoever reads it
acts, or a client unsubscribes its number. What is done touches the parts of the call alone, as long as no other call
is in the table under its number, and depends on these alone.
-/
namespace Switchboard

open Exchange

/-- What can be done to a call. -/
inductive Deed : Type 1 where
  | deliver (payload : Bytes) (status : Status) (finished : Bool)
  | act (a : Act)
  | unsubscribe (c : ClientId)

/-- What comes of it for whoever does it: what has become of a delivery, the result of a wait or the next item if it
is there, or whether unsubscribing has found the call. -/
inductive Reply : Type 1 where
  | delivery (d : Delivery)
  | waited (result : Option (Except ClientError Bytes))
  | item (item : Option (Option (Except ClientError Bytes)))
  | decoded {α : Type} (item : Option (Option (Except ClientError α)))
  | unsubscribed (found : Bool)
  | nothing

/-- One thing that is done to the call with an index. -/
structure Errand : Type 1 where
  call : Nat
  deed : Deed

/-- What happens in the session: the call goes by its index for its reader, and by its number for the others. -/
def Deed.op (i : Nat) (id : RequestId) : Deed → Op
  | .deliver payload status finished => .deliver ⟨id, payload, status, finished⟩
  | .act a => .act i a
  | .unsubscribe c => .unsubscribe c id

namespace Reader

/-- What a reader is told that acts: the result of its wait or its next item, if it is there. -/
def told : Act → Reader → Exchange → Reply
  | .poll now, .waiting w, x => .waited (w.poll now x).1.2
  | .next, .subscription s, x => .item ((s.next x).1.map Prod.snd)
  | .nextDecoded decode, .subscription s, x => .decoded ((s.nextDecoded decode x).1.map Prod.snd)
  | _, _, _ => .nothing

variable {h : Hidden} {x y : Exchange} {l : Listener} {r : Reader}

/-- Whatever a reader of a visible call does, it is told alike. -/
theorem told_agree (hon : r.On l) (a : Act) (hq : ¬ h.queue l.queue) (hc : ¬ h.control l.control)
    (hs : ¬ h.signal l.shutdown) (hagree : Agree h x y) : r.told a y = r.told a x := by
  unfold told
  split
  case h_1 now w =>
    cases hon
    have hpoll : Respects h (w.poll now) := .bind (Waiting.respects_read now hq hc hs) fun _ => .pure _
    rw [(hpoll x y hagree).1]
  case h_2 s =>
    obtain ⟨hq, hc, hs⟩ := Subscription.visible_of_follows (s := ⟨l, false⟩) hon hq hc hs
    rw [(Subscription.respects_next hq hc hs x y hagree).1]
  case h_3 decode s =>
    obtain ⟨hq, hc, hs⟩ := Subscription.visible_of_follows (s := ⟨l, false⟩) hon hq hc hs
    rw [(Subscription.respects_nextDecoded decode hq hc hs x y hagree).1]
  case h_4 => rfl

end Reader

namespace Session

/-- An errand is done. There is nothing to do for a call that has not been issued. -/
def perform (s : Session) (e : Errand) : Session :=
  match s.calls[e.call]? with
  | none => s
  | some call => s.step (e.deed.op e.call call.listener.id)

/-- The reply to an errand that is done. -/
def reply (s : Session) (e : Errand) : Reply :=
  match s.calls[e.call]? with
  | none => .nothing
  | some call =>
    match e.deed with
    | .deliver payload status finished =>
      .delivery ((Switchboard.deliver shared ⟨call.listener.id, payload, status, finished⟩).run s.world.exchange).1
    | .act a => call.reader.told a s.world.exchange
    | .unsubscribe c =>
      if s.HasClient c then .unsubscribed ((Client.unsubscribe c call.listener.id).run s.world).1 else .nothing

variable {h : Hidden} {s s' : Session} {e : Errand} {call : Call} {i : Nat}

/-- A call is in the table. -/
def Registered (s : Session) (i : Nat) : Prop :=
  ∃ call, s.calls[i]? = some call ∧
    (call.listener.id, call.listener.call) ∈ (s.world.exchange.table shared).calls

instance : Decidable (s.Registered i) :=
  inferInstanceAs (Decidable (∃ call ∈ s.calls[i]?,
    (call.listener.id, call.listener.call) ∈ (s.world.exchange.table shared).calls))

/-- No other call is in the table under the number of a call. -/
def Unreplaced (s : Session) (i : Nat) : Prop :=
  ∀ call, s.calls[i]? = some call →
    ∀ entry ∈ (s.world.exchange.table shared).calls, entry.1 = call.listener.id → entry.2 = call.listener.call

theorem perform_of_none (hi : s.calls[e.call]? = none) : s.perform e = s := by simp only [perform, hi]

theorem reply_of_none (hi : s.calls[e.call]? = none) : s.reply e = .nothing := by simp only [reply, hi]

theorem unreplaced_of_registered (hs : s.ground.IsCoherent) (hregistered : s.Registered i) : s.Unreplaced i := by
  intro call hi entry hentry hid
  obtain ⟨call', hi', hmem⟩ := hregistered
  cases hi'.symm.trans hi
  have hfind := hs.keyed.find?_eq_some_iff.2 (show (entry.1, entry.2) ∈ _ from hentry)
  rw [hid, hs.keyed.find?_eq_some_iff.2 hmem, Option.some.injEq] at hfind
  exact hfind.symm

/-- An errand needs no number, as it issues no call. -/
theorem coherent_perform (hs : s.ground.IsCoherent) (e : Errand) : (s.perform e).ground.IsCoherent := by
  unfold perform
  split
  case h_1 => exact hs
  case h_2 call hi =>
    refine coherent_step_of_free (fun hgrows => ?_) hs
    obtain ⟨c, method, params, hop⟩ := exists_request hgrows
    cases hdeed : e.deed with
    | deliver | act | unsubscribe =>
      rw [hdeed] at hop
      cases hop

/-- A call whose number no other call has is live, or nothing is in the table under its number. -/
theorem Unreplaced.live_or_absent (hown : s.Unreplaced i) (hs : s.ground.IsCoherent) (hi : s.calls[i]? = some call) :
    s.world.exchange.Live call.listener ∨ (s.world.exchange.table shared).find? call.listener.id = none := by
  cases hfind : (s.world.exchange.table shared).find? call.listener.id with
  | none => exact .inr rfl
  | some pending =>
    have hmem := Table.mem_of_find? hfind
    obtain rfl : pending = call.listener.call := hown call hi _ hmem rfl
    exact .inl ((hs.stands call (List.mem_of_getElem? hi)).live hmem)

theorem live_of_registered (hs : s.ground.IsCoherent) (hregistered : s.Registered i) :
    ∃ call, s.calls[i]? = some call ∧ s.world.exchange.Live call.listener := by
  obtain ⟨call, hi, hmem⟩ := hregistered
  exact ⟨call, hi, (hs.stands call (List.mem_of_getElem? hi)).live hmem⟩

/-- A delivery to a call in the table is accepted. -/
theorem reply_deliver (hs : s.ground.IsCoherent) (hregistered : s.Registered i) (payload : Bytes) (status : Status)
    (finished : Bool) : s.reply ⟨i, .deliver payload status finished⟩ =
      .delivery (if status = .streamTerminated then .terminated else .delivered) := by
  obtain ⟨call, hi, hlive⟩ := live_of_registered hs hregistered
  have hdelivers := deliver_of_live (f := ⟨call.listener.id, payload, status, finished⟩) hlive rfl
  rw [(hs.call i call hi).table] at hdelivers
  simp only [reply, hi, hdelivers.told]

/-- The session with what has been done to a call. -/
structure Performs (s : Session) (i : Nat) (call : Call) (s' : Session) : Prop where
  onward : Onward call.listener s.world.exchange s'.world.exchange
  calls : ∃ reader, s'.calls = s.calls.set i { call with reader }
  clients : s'.world.clients = s.world.clients
  engines : s'.world.engines = s.world.engines

theorem Performs.refl (hi : s.calls[i]? = some call) : Performs s i call s := by
  refine ⟨.refl _ _, ⟨call.reader, ?_⟩, rfl, rfl⟩
  obtain ⟨hlt, rfl⟩ := List.getElem?_eq_some_iff.1 hi
  exact (List.set_getElem_self hlt).symm

/-- All clients have the same table. -/
theorem unsubscribe_shared (hs : s.ground.IsCoherent) {c : ClientId} (hc : s.HasClient c) (id : RequestId) :
    (Client.unsubscribe c id).run s.world =
      (((Client.stopDeliveries shared id).run s.world.exchange).1,
        { s.world with exchange := ((Client.stopDeliveries shared id).run s.world.exchange).2 }) := by
  have hclient := List.getElem?_eq_getElem hc
  have htable : (s.world.client c).table = shared := by
    rw [World.client_of_getElem? hclient]
    exact hs.tableOf _ _ hclient
  rw [Client.unsubscribe_run, htable]

/-- Whoever unsubscribes a call in the table finds it. -/
theorem reply_unsubscribe (hs : s.ground.IsCoherent) (hregistered : s.Registered i) {c : ClientId}
    (hc : s.HasClient c) : s.reply ⟨i, .unsubscribe c⟩ = .unsubscribed true := by
  obtain ⟨call, hi, hlive⟩ := live_of_registered hs hregistered
  have hfound := (stopDeliveries_of_live hlive).1
  rw [(hs.call i call hi).table] at hfound
  simp only [reply, hi, if_pos hc, unsubscribe_shared hs hc, hfound]

/-- An errand to a call whose number no other call has does no more than steps on the call. -/
theorem performs (hs : s.ground.IsCoherent) (hi : s.calls[e.call]? = some call) (hown : s.Unreplaced e.call) :
    Performs s e.call call (s.perform e) := by
  have htable := (hs.call _ call hi).table
  have hsame := (Performs.refl hi).calls
  obtain ⟨i, deed⟩ := e
  simp only [perform, hi]
  cases deed with
  | deliver payload status finished =>
    refine ⟨?_, hsame, rfl, rfl⟩
    show Onward _ _ ((Switchboard.deliver shared ⟨call.listener.id, payload, status, finished⟩).run _).2
    obtain hlive | habsent := hown.live_or_absent hs hi
    · rw [← htable]
      exact (deliver_of_live hlive rfl).onward
    · rw [deliver_of_absent habsent]
      exact .refl _ _
  | act a =>
    have honward := (hs.act_reads hi a).1.onward
    simp only [Deed.op, step, hi]
    exact ⟨honward, ⟨_, rfl⟩, rfl, rfl⟩
  | unsubscribe c =>
    simp only [Deed.op, step]
    split
    case isFalse => exact .refl hi
    case isTrue hc =>
      rw [unsubscribe_shared hs hc]
      refine ⟨?_, hsame, rfl, rfl⟩
      show Onward _ _ ((Client.stopDeliveries shared call.listener.id).run _).2
      obtain hlive | habsent := hown.live_or_absent hs hi
      · rw [← htable]
        exact (stopDeliveries_of_live hlive).2.1
      · rw [stopDeliveries_of_absent habsent]
        exact .refl _ _

/-- Two sessions differ in hidden parts only, and in the readers of other calls than the one with an index. -/
structure AgreeOn (h : Hidden) (i : Nat) (s s' : Session) : Prop where
  exchange : Agree h s.world.exchange s'.world.exchange
  call : s'.calls[i]? = s.calls[i]?
  clients : s'.world.clients = s.world.clients
  engines : s'.world.engines = s.world.engines

theorem AgreeOn.refl (h : Hidden) (i : Nat) (s : Session) : AgreeOn h i s s := ⟨.refl h _, rfl, rfl, rfl⟩

theorem AgreeOn.symm (hagree : AgreeOn h i s s') : AgreeOn h i s' s where
  exchange := hagree.exchange.symm
  call := hagree.call.symm
  clients := hagree.clients.symm
  engines := hagree.engines.symm

theorem AgreeOn.trans {s'' : Session} (hagree : AgreeOn h i s s') (hagree' : AgreeOn h i s' s'') :
    AgreeOn h i s s'' where
  exchange := hagree.exchange.trans hagree'.exchange
  call := hagree'.call.trans hagree.call
  clients := hagree'.clients.trans hagree.clients
  engines := hagree'.engines.trans hagree.engines

section Visible

variable (hs : s.ground.IsCoherent) (hs' : s'.ground.IsCoherent) (hown : s.Unreplaced e.call)
  (hown' : s'.Unreplaced e.call) (hi : s.calls[e.call]? = some call) (hq : ¬ h.queue call.listener.queue)
  (hc : ¬ h.control call.listener.control) (hagree : AgreeOn h e.call s s')
include hs hs' hown hown' hi hq hagree

/-- The call is live in both sessions, or in neither there is anything under its number. -/
theorem AgreeOn.live_or_absent :
    s.world.exchange.Live call.listener ∧ s'.world.exchange.Live call.listener ∨
      (s.world.exchange.table shared).find? call.listener.id = none ∧
        (s'.world.exchange.table shared).find? call.listener.id = none := by
  have hi' := hagree.call.trans hi
  have hentry := hagree.exchange.entries shared (call.listener.id, call.listener.call) hq
  obtain hlive | habsent := hown.live_or_absent hs hi
  · have hmem := hs.mem_of_live hi hlive
    exact .inl ⟨hlive, (hs'.stands call (List.mem_of_getElem? hi')).live (hentry.2 hmem)⟩
  · obtain hlive' | habsent' := hown'.live_or_absent hs' hi'
    · have hmem := hentry.1 (hs'.mem_of_live hi' hlive')
      exact absurd rfl (Table.find?_eq_none_iff.1 habsent _ hmem)
    · exact .inr ⟨habsent, habsent'⟩

include hc

theorem AgreeOn.deliver {f : Fragment} (hid : f.requestId = call.listener.id) :
    ((Switchboard.deliver shared f).run s'.world.exchange).1 = ((Switchboard.deliver shared f).run s.world.exchange).1 ∧
      Agree h ((Switchboard.deliver shared f).run s.world.exchange).2
        ((Switchboard.deliver shared f).run s'.world.exchange).2 := by
  obtain ⟨hlive, hlive'⟩ | ⟨habsent, habsent'⟩ := hagree.live_or_absent hs hs' hown hown' hi hq
  · rw [← (hs.call _ call hi).table]
    exact deliver_agree hlive hlive' hid hq hc hagree.exchange
  · rw [← hid] at habsent habsent'
    rw [deliver_of_absent habsent, deliver_of_absent habsent']
    exact ⟨rfl, hagree.exchange⟩

theorem AgreeOn.stopDeliveries :
    ((Client.stopDeliveries shared call.listener.id).run s'.world.exchange).1 =
        ((Client.stopDeliveries shared call.listener.id).run s.world.exchange).1 ∧
      Agree h ((Client.stopDeliveries shared call.listener.id).run s.world.exchange).2
        ((Client.stopDeliveries shared call.listener.id).run s'.world.exchange).2 := by
  obtain ⟨hlive, hlive'⟩ | ⟨habsent, habsent'⟩ := hagree.live_or_absent hs hs' hown hown' hi hq
  · rw [← (hs.call _ call hi).table]
    exact stopDeliveries_agree hlive hlive' hq hc hagree.exchange
  · rw [stopDeliveries_of_absent habsent, stopDeliveries_of_absent habsent']
    exact ⟨rfl, hagree.exchange⟩

/-- An errand to a visible call brings the same reply and leaves the same difference. -/
theorem AgreeOn.perform (hsignal : ¬ h.signal call.listener.shutdown) :
    s'.reply e = s.reply e ∧ AgreeOn h e.call (s.perform e) (s'.perform e) := by
  have hi' := hagree.call.trans hi
  have hdeliver := fun f hid => hagree.deliver hs hs' hown hown' hi hq hc (f := f) hid
  have hstop := hagree.stopDeliveries hs hs' hown hown' hi hq hc
  obtain ⟨i, deed⟩ := e
  simp only [Session.perform, reply, hi, hi']
  cases deed with
  | deliver payload status finished =>
    obtain ⟨htold, hafter⟩ := hdeliver ⟨call.listener.id, payload, status, finished⟩ rfl
    exact ⟨congrArg Reply.delivery htold, hafter, hagree.call, hagree.clients, hagree.engines⟩
  | act a =>
    have hon := (hs.stands call (List.mem_of_getElem? hi)).reader
    obtain ⟨hsame, hafter⟩ := Reader.respects_act hon a hq hc hsignal _ _ hagree.exchange
    refine ⟨Reader.told_agree hon a hq hc hsignal hagree.exchange, ?_⟩
    simp only [Deed.op, step, hi, hi']
    refine ⟨hafter, ?_, hagree.clients, hagree.engines⟩
    show (s'.calls.set i { call with reader := (call.reader.act a s'.world.exchange).1.2 })[i]? =
      (s.calls.set i { call with reader := (call.reader.act a s.world.exchange).1.2 })[i]?
    rw [hsame, List.getElem?_set_self (List.getElem?_eq_some_iff.1 hi).1,
      List.getElem?_set_self (List.getElem?_eq_some_iff.1 hi').1]
  | unsubscribe c =>
    have hclient : s'.HasClient c ↔ s.HasClient c := by rw [HasClient, hagree.clients, HasClient]
    by_cases hc : s.HasClient c
    · obtain ⟨htold, hafter⟩ := hstop
      simp only [Deed.op, step, if_pos hc, if_pos (hclient.2 hc), unsubscribe_shared hs hc,
        unsubscribe_shared hs' (hclient.2 hc)]
      exact ⟨congrArg Reply.unsubscribed htold, hafter, hagree.call, hagree.clients, hagree.engines⟩
    · simp only [Deed.op, step, if_neg hc, if_neg (mt hclient.1 hc)]
      exact ⟨trivial, hagree⟩

end Visible

end Session

end Switchboard
