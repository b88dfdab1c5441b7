import Switchboard.Proofs.Client.Destroying
import Switchboard.Proofs.Exchange.Delivering
import Switchboard.Proofs.Exchange.Opening
import Switchboard.Proofs.Session.Acting
/-!
What holds in every session: a call is live as long as nothing has ended it, and is out of the table with its
queue closed from then on.
-/
namespace Switchboard.Session

open Exchange

variable {start : RequestId} {x y : Exchange} {clients : List Client} {calls : List Call}
  {history events : List Event} {call : Call} {l l' : Listener} {i : Nat}

/-- Two calls have nothing in common but perhaps their table and their client. -/
structure Apart (l l' : Listener) (x : Exchange) : Prop where
  id : l'.id ≠ l.id
  queue : l'.queue ≠ l.queue
  control : l'.control ≠ l.control
  cancel : (x.control l'.control).cancel ≠ (x.control l.control).cancel
  shutdown : l'.shutdown ≠ (x.control l.control).cancel

theorem Apart.find? (h : Apart l l' x) (htouches : Touches l x y) :
    (y.table l'.table).find? l'.id = (x.table l'.table).find? l'.id := by
  by_cases ht : l'.table = l.table
  · rw [ht]
    exact htouches.other l'.id h.id
  · rw [htouches.table l'.table ht]

theorem Apart.live (h : Apart l l' x) (htouches : Touches l x y) (hlive : x.Live l') : y.Live l' := by
  have hcontrol := htouches.control l'.control h.control
  have hqueue := htouches.queue l'.queue h.queue
  constructor
  case entry => rw [h.find? htouches]; exact hlive.entry
  case unclaimed => rw [hcontrol]; exact hlive.unclaimed
  case shutdown => rw [hcontrol]; exact hlive.shutdown
  case uncancelled => rw [hcontrol, htouches.fired _ h.cancel]; exact hlive.uncancelled
  case running => rw [htouches.fired _ h.shutdown]; exact hlive.running
  case accepting => rw [hqueue]; exact hlive.accepting
  case reading => rw [hqueue]; exact hlive.reading
  case unread => exact hlive.unread

theorem Apart.ended (h : Apart l l' x) (htouches : Touches l x y) (hended : x.Ended l') : y.Ended l' := by
  constructor
  case absent => rw [h.find? htouches]; exact hended.absent
  case closed => rw [htouches.queue l'.queue h.queue]; exact hended.closed

/-- How the call with an index has been issued, and where it stands. -/
structure CallSound (start : RequestId) (x : Exchange) (clients : List Client) (history : List Event)
    (i : Nat) (call : Call) : Prop where
  id : call.listener.id = Table.numbered start (i + 1)
  queue : call.listener.queue = ⟨i⟩
  control : call.listener.control = ⟨i⟩
  table : call.listener.table = shared
  client : ∃ client, clients[call.client.index]? = some client ∧ client.shutdown = call.listener.shutdown
  owner : (x.control call.listener.control).shutdown = call.listener.shutdown
  cancel : (x.control call.listener.control).cancel.index < x.signals.length
  reader : call.reader.On call.listener
  standing : x.Live call.listener ∧ call.Unended clients history ∨
    x.Ended call.listener ∧ ¬ call.Unended clients history

/-- What holds in every session in which not too many calls have been issued. -/
structure Sound (start : RequestId) (x : Exchange) (clients : List Client) (calls : List Call)
    (history : List Event) : Prop where
  few : calls.length < 4294967295
  queues : x.queues.length = calls.length
  controls : x.controls.length = calls.length
  tables : 0 < x.tables.length
  lastId : (x.table shared).lastId = Table.numbered start calls.length
  keyed : (x.table shared).Keyed
  entries : ∀ e ∈ (x.table shared).calls, ∃ call ∈ calls, e = (call.listener.id, call.listener.call)
  call : ∀ (i : Nat) (call : Call), calls[i]? = some call → CallSound start x clients history i call
  tableOf : ∀ (k : Nat) (client : Client), clients[k]? = some client → client.table = shared
  shutdown : ∀ (k : Nat) (client : Client), clients[k]? = some client →
    client.shutdown.index < x.signals.length ∧
      (x.fired client.shutdown = true ↔ client.lifecycle = .destroyed)
  shutdowns : ∀ (k k' : Nat) (client client' : Client), clients[k]? = some client →
    clients[k']? = some client' → client.shutdown = client'.shutdown → k = k'
  cancels : ∀ (i j : Nat) (call call' : Call), calls[i]? = some call → calls[j]? = some call' →
    (x.control call.listener.control).cancel = (x.control call'.listener.control).cancel → i = j
  apart : ∀ (i k : Nat) (call : Call) (client : Client), calls[i]? = some call →
    clients[k]? = some client → client.shutdown ≠ (x.control call.listener.control).cancel
  known : ∀ e ∈ history, ∀ id, e.ends id = true → ∃ call ∈ calls, call.listener.id = id

theorem sound_start (lastId : RequestId) :
    Sound lastId (Session.start lastId).world.exchange [] [] [] where
  few := by simp
  queues := rfl
  controls := rfl
  tables := by simp [Session.start]
  lastId := rfl
  keyed := List.nodup_nil
  entries := by simp [Session.start, Exchange.table]
  call := by simp
  tableOf := by simp
  shutdown := by simp
  shutdowns := by simp
  cancels := by simp
  apart := by simp
  known := by simp

theorem unended_append : call.Unended clients (history ++ events) ↔
    call.Unended clients history ∧ ∀ e ∈ events, e.ends call.listener.id = false := by
  constructor
  · intro h
    have hhistory := h.history
    simp only [List.mem_append, or_imp, forall_and] at hhistory
    exact ⟨⟨h.active, h.client, hhistory.1⟩, hhistory.2⟩
  · rintro ⟨h, hevents⟩
    refine ⟨h.active, h.client, ?_⟩
    simp only [List.mem_append, or_imp, forall_and]
    exact ⟨h.history, hevents⟩

namespace Sound

variable (h : Sound start x clients calls history)
include h

theorem apart_calls {j : Nat} {call' : Call} (hi : calls[i]? = some call) (hj : calls[j]? = some call')
    (hij : i ≠ j) : Apart call.listener call'.listener x := by
  have hcall := h.call i call hi
  have hcall' := h.call j call' hj
  have hfew := h.few
  have hlti := (List.getElem?_eq_some_iff.1 hi).1
  have hltj := (List.getElem?_eq_some_iff.1 hj).1
  constructor
  case id =>
    rw [hcall.id, hcall'.id]
    intro heq
    exact hij (Table.numbered_injective (by omega) (by omega) heq).symm
  case queue =>
    rw [hcall.queue, hcall'.queue]
    intro heq
    exact hij (QueueId.mk.inj heq).symm
  case control =>
    rw [hcall.control, hcall'.control]
    intro heq
    exact hij (ControlId.mk.inj heq).symm
  case cancel =>
    intro heq
    exact hij (h.cancels i j call call' hi hj heq.symm)
  case shutdown =>
    obtain ⟨client, hclient, hshutdown⟩ := hcall'.client
    rw [← hshutdown]
    exact h.apart i _ call client hi hclient

/-- Every entry of the table is a live call. -/
theorem live_of_find? {id : RequestId} {c : PendingCall} (hfind : (x.table shared).find? id = some c) :
    ∃ (i : Nat) (call : Call), calls[i]? = some call ∧ call.listener.id = id ∧ x.Live call.listener ∧
      call.Unended clients history := by
  obtain ⟨call, hmem, heq⟩ := h.entries _ (Table.mem_of_find? hfind)
  obtain ⟨i, hi⟩ := List.getElem?_of_mem hmem
  have hcall := h.call i call hi
  have hid : call.listener.id = id := (congrArg Prod.fst heq).symm
  refine ⟨i, call, hi, hid, ?_⟩
  obtain hlive | ⟨hended, -⟩ := hcall.standing
  · exact hlive
  · have habsent := hended.absent
    rw [hcall.table, hid, hfind] at habsent
    cases habsent

end Sound

end Switchboard.Session
