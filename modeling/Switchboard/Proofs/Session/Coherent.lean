import Switchboard.Proofs.Session.Wired
/-!
What holds in every session, however often the numbers have gone round: the table holds nothing but live calls,
each the last one that has been issued under its number.
-/
namespace Switchboard.Session

open Exchange

variable {x y : Exchange} {clients clients' : List Client} {calls calls' : List Call} {call call' : Call}
  {client client' : Client} {c : ClientId} {i : Nat} {l : Listener}

/-- Where a call stands: only a reader that is active has a live call, and a call that is in the table is
live. -/
structure CallStands (x : Exchange) (call : Call) : Prop where
  reader : call.reader.On call.listener
  active : x.Live call.listener → call.reader.active = true
  live : (call.listener.id, call.listener.call) ∈ (x.table shared).calls → x.Live call.listener

/-- What holds in every session. -/
structure Coherent (x : Exchange) (clients : List Client) (calls : List Call) : Prop
    extends Wired x clients calls where
  keyed : (x.table shared).Keyed
  stands : ∀ call ∈ calls, CallStands x call
  entries : ∀ e ∈ (x.table shared).calls, ∃ (i : Nat) (call : Call), calls[i]? = some call ∧
    e = (call.listener.id, call.listener.call) ∧
      ∀ (j : Nat) (later : Call), i < j → calls[j]? = some later → later.listener.id ≠ call.listener.id

/-- A call stands as before if its parts are as they were, or if it has left the table. -/
theorem CallStands.spared (h : CallStands x call) (htable : call.listener.table = shared)
    (hkeyed : (y.table shared).Keyed)
    (hentry : (call.listener.id, call.listener.call) ∈ (y.table shared).calls →
      (call.listener.id, call.listener.call) ∈ (x.table shared).calls ∧ SameParts call.listener x y) :
    CallStands y call := by
  constructor
  case reader => exact h.reader
  case active =>
    intro hlive
    have hmem := Table.mem_of_find? hlive.entry
    rw [htable] at hmem
    exact h.active (h.live (hentry hmem).1)
  case live =>
    intro hmem
    obtain ⟨hbefore, hsame⟩ := hentry hmem
    refine hsame.live (h.live hbefore) ?_
    rw [htable]
    exact hkeyed.find?_eq_some_iff.2 hmem

/-- An entry is left in the table after a client has been destroyed exactly if it is not the client's. -/
theorem mem_withoutOwned {e : RequestId × PendingCall} {s : SignalId} :
    e ∈ ((Client.withoutOwned shared s x).table shared).calls ↔
      e ∈ (x.table shared).calls ∧ (x.control e.2.control).shutdown ≠ s := by
  rw [Client.table_withoutOwned, if_pos rfl]
  simp [Table.removeAll]

theorem coherent_start (lastId : RequestId) : Coherent (Session.start lastId).world.exchange [] [] where
  queues := rfl
  controls := rfl
  tables := by simp [Session.start]
  call := by simp
  tableOf := by simp
  shutdown := by simp
  shutdowns := by simp
  cancels := by simp
  apart := by simp
  keyed := List.nodup_nil
  stands := by simp
  entries := by simp [Session.start, Exchange.table]

namespace Coherent

variable (h : Coherent x clients calls)
include h

/-- Every entry of the table is a live call, and no call has been issued since under its number. -/
theorem of_find? {id : RequestId} {pending : PendingCall}
    (hfind : (x.table shared).find? id = some pending) :
    ∃ (i : Nat) (call : Call), calls[i]? = some call ∧ call.listener.id = id ∧ call.listener.call = pending ∧
      x.Live call.listener ∧
      ∀ (j : Nat) (later : Call), i < j → calls[j]? = some later → later.listener.id ≠ id := by
  have hmem := Table.mem_of_find? hfind
  obtain ⟨i, call, hi, heq, hlast⟩ := h.entries _ hmem
  obtain ⟨rfl, rfl⟩ := Prod.mk.inj heq
  exact ⟨i, call, hi, rfl, rfl, (h.stands call (List.mem_of_getElem? hi)).live hmem, hlast⟩

/-- Nothing but the call has to be looked at again after steps on it. -/
theorem onward (hi : calls[i]? = some call) (honward : Onward call.listener x y) {reader : Reader}
    (hstands : CallStands y { call with reader }) :
    Coherent y clients (calls.set i { call with reader }) := by
  have htable := (h.call i call hi).table
  have hkeyed : (y.table shared).Keyed := by
    rw [← htable]
    exact honward.keyed (htable ▸ h.keyed)
  have hbefore : ∀ e ∈ (y.table shared).calls, e ∈ (x.table shared).calls := by
    intro e he
    rw [← htable] at he ⊢
    exact honward.mem_of_mem (htable ▸ h.keyed) he
  refine ⟨h.toWired.onward hi honward reader, hkeyed, ?_, ?_⟩
  · intro d hd
    obtain ⟨j, hj⟩ := List.getElem?_of_mem hd
    obtain ⟨rfl, rfl⟩ | ⟨hji, hj⟩ := eq_or_of_getElem?_set hj
    · exact hstands
    · refine (h.stands d (List.mem_of_getElem? hj)).spared (h.call j d hj).table hkeyed fun hmem => ?_
      exact ⟨hbefore _ hmem, h.sameParts hi honward.toTouches hj hji⟩
  · intro e he
    obtain ⟨k, d, hk, heq, hlast⟩ := h.entries e (hbefore e he)
    have hlater : ∀ (j : Nat) (later : Call), k < j →
        (calls.set i { call with reader })[j]? = some later → later.listener.id ≠ d.listener.id := by
      intro j later hkj hj
      obtain ⟨d', hd', hlistener⟩ := getElem?_set_listener hi hj
      rw [← hlistener]
      exact hlast j d' hkj hd'
    obtain ⟨rfl, rfl⟩ | hk' := eq_or_getElem?_set hi hk { call with reader }
    · exact ⟨k, _, List.getElem?_set_self (List.getElem?_eq_some_iff.1 hi).1, heq, hlater⟩
    · exact ⟨k, d, hk', heq, hlater⟩

/-- The same if the reader stays as it is. -/
theorem onward_only (hi : calls[i]? = some call) (honward : Onward call.listener x y)
    (hstands : CallStands y call) : Coherent y clients calls := by
  have hafter : Coherent y clients (calls.set i { call with reader := call.reader }) :=
    h.onward hi honward hstands
  obtain ⟨hlt, rfl⟩ := List.getElem?_eq_some_iff.1 hi
  rwa [List.set_getElem_self hlt] at hafter

/-- A call that is still in the table after steps on it has been live before. -/
theorem live_of_mem (hi : calls[i]? = some call) (honward : Onward call.listener x y)
    (hmem : (call.listener.id, call.listener.call) ∈ (y.table shared).calls) : x.Live call.listener := by
  have htable := (h.call i call hi).table
  refine (h.stands call (List.mem_of_getElem? hi)).live ?_
  rw [← htable] at hmem ⊢
  exact honward.mem_of_mem (htable ▸ h.keyed) hmem

theorem mem_of_live (hi : calls[i]? = some call) (hlive : y.Live call.listener) :
    (call.listener.id, call.listener.call) ∈ (y.table shared).calls := by
  rw [← (h.call i call hi).table]
  exact Table.mem_of_find? hlive.entry

theorem act_reads (hi : calls[i]? = some call) (a : Act) :
    Reads call.listener x (call.reader.act a x).1.1 (!(call.reader.act a x).1.2.active)
        (call.reader.act a x).1.2.isGone (call.reader.act a x).2 ∧
      (call.reader.act a x).1.2.On call.listener := by
  have hstands := h.stands call (List.mem_of_getElem? hi)
  refine Reader.act_reads a hstands.reader fun hinactive hlive => ?_
  rw [hstands.active hlive] at hinactive
  cases hinactive

theorem act (hi : calls[i]? = some call) (a : Act) :
    Coherent (call.reader.act a x).2 clients
      (calls.set i { call with reader := (call.reader.act a x).1.2 }) := by
  obtain ⟨hreads, hon⟩ := h.act_reads hi a
  refine h.onward hi hreads.onward ⟨hon, fun hlive => ?_, fun hmem => ?_⟩
  · have hbefore := h.live_of_mem hi hreads.onward (h.mem_of_live hi hlive)
    cases hactive : (call.reader.act a x).1.2.active with
    | true => rfl
    | false => exact absurd (hreads.ended hbefore (by simp [hactive])) hlive.not_ended
  · have hbefore := h.live_of_mem hi hreads.onward hmem
    cases hactive : (call.reader.act a x).1.2.active with
    | true => exact hreads.live hbefore (by simp [hactive])
    | false =>
      have habsent := (hreads.ended hbefore (by simp [hactive])).absent
      rw [(h.call i call hi).table] at habsent
      exact absurd rfl (Table.find?_eq_none_iff.1 habsent _ hmem)

/-- Whoever else takes a step on a live call either leaves it live or ends it. -/
theorem meet (hi : calls[i]? = some call) (hlive : x.Live call.listener)
    (honward : Onward call.listener x y) (hafter : y.Live call.listener ∨ y.Ended call.listener) :
    Coherent y clients calls := by
  have hstands := h.stands call (List.mem_of_getElem? hi)
  refine h.onward_only hi honward ⟨hstands.reader, fun _ => hstands.active hlive, fun hmem => ?_⟩
  obtain hlive | hended := hafter
  · exact hlive
  · have habsent := hended.absent
    rw [(h.call i call hi).table] at habsent
    exact absurd rfl (Table.find?_eq_none_iff.1 habsent _ hmem)

/-- A delivery finds no call, or a live one. -/
theorem deliver_cases (f : Fragment) :
    (x.table shared).find? f.requestId = none ∨
      ∃ (i : Nat) (call : Call), calls[i]? = some call ∧ f.requestId = call.listener.id ∧
        call.listener.table = shared ∧ x.Live call.listener ∧
        Delivers call.listener f x ((Switchboard.deliver shared f).run x).1
          ((Switchboard.deliver shared f).run x).2 := by
  cases hfind : (x.table shared).find? f.requestId with
  | none => exact .inl rfl
  | some pending =>
    obtain ⟨i, call, hi, hid, -, hlive, -⟩ := h.of_find? hfind
    have htable := (h.call i call hi).table
    have hdelivers := deliver_of_live hlive hid.symm
    rw [htable] at hdelivers
    exact .inr ⟨i, call, hi, hid.symm, htable, hlive, hdelivers⟩

theorem deliver (f : Fragment) :
    Coherent ((Switchboard.deliver shared f).run x).2 clients calls := by
  obtain habsent | ⟨i, call, hi, -, -, hlive, hdelivers⟩ := h.deliver_cases f
  · rw [deliver_of_absent habsent]
    exact h
  · refine h.meet hi hlive hdelivers.onward ?_
    cases hlast : f.isLast with
    | false => exact .inl (hdelivers.live hlast)
    | true => exact .inr (hdelivers.ended hlast)

/-- One who unsubscribes finds no call, or a live one. -/
theorem stopDeliveries_cases (id : RequestId) :
    (x.table shared).find? id = none ∨
      ∃ (i : Nat) (call : Call), calls[i]? = some call ∧ id = call.listener.id ∧
        call.listener.table = shared ∧ x.Live call.listener ∧
        Onward call.listener x ((Client.stopDeliveries shared id).run x).2 ∧
        ((Client.stopDeliveries shared id).run x).2.Ended call.listener := by
  cases hfind : (x.table shared).find? id with
  | none => exact .inl rfl
  | some pending =>
    obtain ⟨i, call, hi, hid, -, hlive, -⟩ := h.of_find? hfind
    have htable := (h.call i call hi).table
    have hstopped := stopDeliveries_of_live hlive
    rw [htable, hid] at hstopped
    obtain ⟨-, honward, hended, -⟩ := hstopped
    exact .inr ⟨i, call, hi, hid.symm, htable, hlive, honward, hended⟩

theorem stopDeliveries (id : RequestId) :
    Coherent ((Client.stopDeliveries shared id).run x).2 clients calls := by
  obtain habsent | ⟨i, call, hi, -, -, hlive, honward, hended⟩ := h.stopDeliveries_cases id
  · rw [stopDeliveries_of_absent habsent]
    exact h
  · exact h.meet hi hlive honward (.inr hended)

theorem relabel (hc : clients[c.index]? = some client) (htable : client'.table = client.table)
    (hshutdown : client'.shutdown = client.shutdown)
    (hlifecycle : client'.lifecycle = .destroyed ↔ client.lifecycle = .destroyed) :
    Coherent x (clients.set c.index client') calls := by
  refine ⟨?_, h.keyed, h.stands, h.entries⟩
  refine h.toWired.keep rfl (fun _ => rfl) (fun _ => rfl) (fun j d hd => ⟨d, hd, rfl, rfl⟩) rfl
    (fun k d hd => getElem?_set_client hc htable hshutdown hd) (by simp) fun k d hd => ?_
  obtain ⟨rfl, rfl⟩ | ⟨-, hd⟩ := eq_or_of_getElem?_set hd
  · rw [hshutdown, hlifecycle]
    exact (h.shutdown _ client hc).2
  · exact (h.shutdown k d hd).2

/-- Destroying a client spares the parts of the calls of other clients. -/
theorem sameParts_withoutOwned (hc : clients[c.index]? = some client) (hi : calls[i]? = some call)
    (hother : call.listener.shutdown ≠ client.shutdown) :
    SameParts call.listener x (Client.withoutOwned shared client.shutdown x) := by
  constructor
  case queue =>
    rw [Client.queue_withoutOwned, if_neg]
    rintro ⟨pending, hpending, heq⟩
    obtain ⟨howned, id, hmem⟩ := Client.mem_owned.1 hpending
    obtain ⟨j, d, hj, hentry, -⟩ := h.entries _ hmem
    obtain ⟨-, rfl⟩ := Prod.mk.inj hentry
    have hcall := h.call i call hi
    have hd := h.call j d hj
    obtain rfl : j = i := by
      have hqueue : d.listener.queue = call.listener.queue := heq
      rw [hd.queue, hcall.queue] at hqueue
      exact QueueId.mk.inj hqueue
    cases hi.symm.trans hj
    exact hother (hcall.owner.symm.trans howned)
  case control => exact Client.control_withoutOwned
  case cancel =>
    rw [Client.fired_withoutOwned, if_neg]
    exact fun hs => h.apart i _ call client hi hc hs.1.symm
  case shutdown =>
    rw [Client.fired_withoutOwned, if_neg]
    exact fun hs => hother hs.1

theorem destroy (hc : clients[c.index]? = some client) :
    Coherent (Client.withoutOwned shared client.shutdown x)
      (clients.set c.index { client with lifecycle := .destroyed }) calls := by
  have hkeyed : ((Client.withoutOwned shared client.shutdown x).table shared).Keyed := by
    rw [Client.table_withoutOwned, if_pos rfl]
    exact h.keyed.removeAll _
  refine ⟨?_, hkeyed, ?_, fun e he => h.entries e (mem_withoutOwned.1 he).1⟩
  · refine h.toWired.keep Client.sizes_withoutOwned (fun _ => by rw [Client.control_withoutOwned])
      (fun _ => by rw [Client.control_withoutOwned]) (fun j d hd => ⟨d, hd, rfl, rfl⟩) rfl
      (fun k d hd => getElem?_set_client hc (by rfl) (by rfl) hd) (by simp) fun k d hd => ?_
    rw [Client.fired_withoutOwned]
    obtain ⟨rfl, rfl⟩ | ⟨hkc, hd⟩ := eq_or_of_getElem?_set hd
    · simp [(h.shutdown _ client hc).1]
    · have hne : d.shutdown ≠ client.shutdown := fun heq => hkc (h.shutdowns k _ d client hd hc heq)
      rw [if_neg (fun hs => hne hs.1)]
      exact (h.shutdown k d hd).2
  · intro call hcall
    obtain ⟨i, hi⟩ := List.getElem?_of_mem hcall
    refine (h.stands call hcall).spared (h.call i call hi).table hkeyed fun hmem => ?_
    obtain ⟨hbefore, hother⟩ := mem_withoutOwned.1 hmem
    refine ⟨hbefore, h.sameParts_withoutOwned hc hi fun heq => hother ?_⟩
    exact (h.call i call hi).owner.trans heq

theorem join (htable : client.table = shared) (hshutdown : client.shutdown = (newSignal x).1)
    (hlifecycle : client.lifecycle ≠ .destroyed) :
    Coherent (newSignal x).2 (clients ++ [client]) calls := by
  refine ⟨h.toWired.join htable hshutdown hlifecycle, h.keyed, ?_, h.entries⟩
  intro call hcall
  obtain ⟨i, hi⟩ := List.getElem?_of_mem hcall
  refine (h.stands call hcall).spared (h.call i call hi).table h.keyed fun hmem => ⟨hmem, ?_⟩
  exact ⟨rfl, rfl, fired_newSignal, fired_newSignal⟩

/-- A call is issued under a free number. -/
theorem issue {l : Listener} (hc : clients[c.index]? = some client)
    (hactive : client.lifecycle ≠ .destroyed)
    (hfree : (x.table shared).find? (x.table shared).nextId = none)
    (hopen : Client.openCall shared client.shutdown x = (l, y)) :
    Coherent y clients (calls ++ [⟨c, l, .handle l⟩]) := by
  obtain rfl : Client.nextListener shared client.shutdown x = l := by rw [← Client.openCall_fst, hopen]
  obtain rfl : (Client.openCall shared client.shutdown x).2 = y := by rw [hopen]
  have hrunning : x.fired client.shutdown = false := by
    cases hshutdown : x.fired client.shutdown with
    | false => rfl
    | true => exact absurd ((h.shutdown _ client hc).2.1 hshutdown) hactive
  have hlive := Client.live_openCall h.tables hfree hrunning
  rw [Client.openCall_fst] at hlive
  have htable := Client.table_openCall (t := shared) (s := client.shutdown) (x := x) h.tables shared
  rw [if_pos rfl] at htable
  have hkeyed : ((Client.openCall shared client.shutdown x).2.table shared).Keyed := by
    rw [htable]
    exact h.keyed.register hfree
  have hmem : ∀ e, e ∈ ((Client.openCall shared client.shutdown x).2.table shared).calls →
      e ∈ (x.table shared).calls ∨ e = ((x.table shared).nextId,
        (Client.nextListener shared client.shutdown x).call) := by
    intro e he
    rw [htable, Table.register, List.mem_append, List.mem_singleton] at he
    exact he
  refine ⟨h.toWired.issue hc, hkeyed, ?_, ?_⟩
  · intro d hd
    obtain ⟨i, hi⟩ := List.getElem?_of_mem hd
    obtain hi | ⟨rfl, rfl⟩ := getElem?_concat.1 hi
    · refine (h.stands d (List.mem_of_getElem? hi)).spared (h.call i d hi).table hkeyed fun hentry => ?_
      refine ⟨?_, h.sameParts_openCall client.shutdown hi⟩
      obtain hbefore | hnew := hmem _ hentry
      · exact hbefore
      · have hlt := (List.getElem?_eq_some_iff.1 hi).1
        have hqueue : d.listener.queue = ⟨x.queues.length⟩ := congrArg (fun e => e.2.queue) hnew
        rw [(h.call i d hi).queue, h.queues] at hqueue
        have hindex : i = calls.length := QueueId.mk.inj hqueue
        omega
    · exact ⟨rfl, fun _ => rfl, fun _ => hlive⟩
  · intro e he
    obtain hbefore | rfl := hmem e he
    · obtain ⟨i, d, hi, heq, hlast⟩ := h.entries e hbefore
      refine ⟨i, d, getElem?_concat.2 (.inl hi), heq, fun j later hij hj => ?_⟩
      obtain hj | ⟨-, rfl⟩ := getElem?_concat.1 hj
      · exact hlast j later hij hj
      · -- The number of an entry is not free.
        intro hid
        have hkey := Table.find?_eq_none_iff.1 hfree e hbefore
        rw [heq] at hkey
        exact hkey hid.symm
    · refine ⟨calls.length, _, getElem?_concat.2 (.inr ⟨rfl, rfl⟩), rfl, fun j later hij hj => ?_⟩
      have hlt := (List.getElem?_eq_some_iff.1 hj).1
      simp at hlt
      omega

end Coherent

/-- A step that issues a call finds a number that is not outstanding. -/
def HasNumber (s : Session) (op : Op) : Prop :=
  s.calls.length < (s.step op).calls.length → (s.world.exchange.table shared).calls.length < 4294967295

instance (s : Session) (op : Op) : Decidable (s.HasNumber op) :=
  inferInstanceAs (Decidable (_ → _))

/-- Each step of a run that issues a call finds a number that is not outstanding. -/
def HasNumbers (s : Session) : List Op → Prop
  | [] => True
  | op :: ops => s.HasNumber op ∧ (s.step op).HasNumbers ops

instance decidableHasNumbers (s : Session) : (ops : List Op) → Decidable (s.HasNumbers ops)
  | [] => .isTrue trivial
  | op :: ops =>
    have := decidableHasNumbers (s.step op) ops
    inferInstanceAs (Decidable (_ ∧ _))

/-- The session without its engines is coherent. -/
def Ground.IsCoherent (g : Ground) : Prop := Coherent g.exchange g.clients g.calls

theorem Change.coherent {g g' : Ground} (hchange : Change g g')
    (hfree : g.calls.length < g'.calls.length →
      (g.exchange.table Session.shared).find? (g.exchange.table Session.shared).nextId = none)
    (h : g.IsCoherent) : g'.IsCoherent := by
  cases hchange with
  | act hi a => exact Coherent.act h hi a
  | deliver f => exact Coherent.deliver h f
  | unsubscribe id => exact Coherent.stopDeliveries h id
  | relabel hc htable hshutdown hlifecycle => exact Coherent.relabel h hc htable hshutdown hlifecycle
  | destroy hc => exact Coherent.destroy h hc
  | join htable hshutdown hlifecycle => exact Coherent.join h htable hshutdown hlifecycle
  | issue hc hactive hopen => exact Coherent.issue h hc hactive (hfree (by simp)) hopen

/-- Changes that issue no call need no number. -/
theorem Changes.coherent {g g' : Ground} (hchanges : Changes g g')
    (hsame : g'.calls.length = g.calls.length) (h : g.IsCoherent) : g'.IsCoherent := by
  induction hchanges with
  | refl => exact h
  | tail hbefore hlast ih =>
    have hlength := hlast.length_calls
    have hlength' := Changes.length_calls hbefore
    exact hlast.coherent (fun hgrows => by omega) (ih (by omega))

/-- Only a request issues a call. -/
theorem exists_request {s : Session} {op : Op} (hgrows : s.calls.length < (s.step op).calls.length) :
    ∃ c method params, op = .request c method params := by
  cases op with
  | request c method params => exact ⟨c, method, params, rfl⟩
  | act j a =>
    simp only [step] at hgrows
    split at hgrows
    case h_1 => exact absurd hgrows (Nat.lt_irrefl _)
    case h_2 call hi =>
      have hsame : (s.calls.set j { call with reader := (call.reader.act a s.world.exchange).1.2 }).length =
          s.calls.length := List.length_set
      exact absurd hgrows (Nat.not_lt_of_le (Nat.le_of_eq hsame))
  | unsubscribe | destroy | release =>
    simp only [step] at hgrows
    split at hgrows <;> exact absurd hgrows (Nat.lt_irrefl _)
  | _ => exact absurd hgrows (Nat.lt_irrefl _)

theorem shared_of_coherent {s : Session} (h : s.ground.IsCoherent) :
    ∀ client ∈ s.world.clients, client.table = shared := by
  intro client hmem
  obtain ⟨k, hk⟩ := List.getElem?_of_mem hmem
  exact h.tableOf k client hk

theorem coherent_step_of_free {s : Session} {op : Op}
    (hfree : s.calls.length < (s.step op).calls.length →
      (s.world.exchange.table shared).find? (s.world.exchange.table shared).nextId = none)
    (h : s.ground.IsCoherent) : (s.step op).ground.IsCoherent := by
  have hshared := shared_of_coherent h
  have hchanges := step_changes s op hshared
  by_cases hsame : (s.step op).calls.length = s.calls.length
  · exact hchanges.coherent hsame h
  · have hgrows : s.calls.length < (s.step op).calls.length := by
      have hlength := Changes.length_calls hchanges
      exact Nat.lt_of_le_of_ne hlength (Ne.symm hsame)
    obtain ⟨c, method, params, rfl⟩ := exists_request hgrows
    obtain ⟨-, hrefused⟩ | ⟨-, client, context, l, x, fs, hc, hactive, hopen, -, hanswered⟩ :=
      step_request (c := c) method params hshared
    · rw [hrefused]
      exact h
    · have hissued : Ground.IsCoherent ⟨x, s.world.clients, s.calls ++ [⟨c, l, .handle l⟩], s.history⟩ :=
        Coherent.issue h hc (by simp [hactive]) (hfree hgrows) hopen
      rw [hanswered]
      exact (changes_deliverAll fs).coherent rfl hissued

theorem coherent_step {s : Session} {op : Op} (hnumber : s.HasNumber op) (h : s.ground.IsCoherent) :
    (s.step op).ground.IsCoherent :=
  coherent_step_of_free (fun hgrows => Table.find?_nextId (hnumber hgrows)) h

/-- Every session is coherent in which no call has been issued under a number that was outstanding. -/
theorem coherent_run {s : Session} {ops : List Op} (hnumbers : s.HasNumbers ops) (h : s.ground.IsCoherent) :
    (s.run ops).ground.IsCoherent := by
  induction ops generalizing s with
  | nil => exact h
  | cons op ops ih => exact ih hnumbers.2 (coherent_step hnumbers.1 h)

end Switchboard.Session
