import Switchboard.Proofs.Session.Changes
import Switchboard.Proofs.Session.Clients
/-!
Which parts belong to which call in every session, however often the numbers have gone round.
-/
namespace Switchboard.Session

open Exchange

variable {x y : Exchange} {clients clients' : List Client} {calls calls' : List Call} {call call' : Call}
  {client client' : Client} {c : ClientId} {i : Nat} {l : Listener}

/-- Which parts belong to the call with an index, and to whom it belongs. -/
structure CallWired (x : Exchange) (clients : List Client) (i : Nat) (call : Call) : Prop where
  queue : call.listener.queue = ⟨i⟩
  control : call.listener.control = ⟨i⟩
  table : call.listener.table = shared
  client : ∃ client, clients[call.client.index]? = some client ∧ client.shutdown = call.listener.shutdown
  owner : (x.control call.listener.control).shutdown = call.listener.shutdown
  cancel : (x.control call.listener.control).cancel.index < x.signals.length

/-- Every call has a queue, a control and a cancel signal of its own, and every client a shutdown signal of its
own, which has been fired once the client is destroyed. -/
structure Wired (x : Exchange) (clients : List Client) (calls : List Call) : Prop where
  queues : x.queues.length = calls.length
  controls : x.controls.length = calls.length
  tables : 0 < x.tables.length
  call : ∀ (i : Nat) (call : Call), calls[i]? = some call → CallWired x clients i call
  tableOf : ∀ (k : Nat) (client : Client), clients[k]? = some client → client.table = shared
  shutdown : ∀ (k : Nat) (client : Client), clients[k]? = some client →
    client.shutdown.index < x.signals.length ∧
      (x.fired client.shutdown = true ↔ client.lifecycle = .destroyed)
  shutdowns : ∀ (k k' : Nat) (client client' : Client), clients[k]? = some client →
    clients[k']? = some client' → client.shutdown = client'.shutdown → k = k'
  cancels : ∀ (i j : Nat) (call call' : Call), calls[i]? = some call → calls[j]? = some call' →
    (x.control call.listener.control).cancel = (x.control call'.listener.control).cancel → i = j
  apart : ∀ (i k : Nat) (call : Call) (client : Client), calls[i]? = some call →
    clients[k]? = some client → client.shutdown ≠ (x.control call.listener.control).cancel

/-- The parts of a call are as they were, except for its entry in the table. -/
structure SameParts (l : Listener) (x y : Exchange) : Prop where
  queue : y.queue l.queue = x.queue l.queue
  control : y.control l.control = x.control l.control
  cancel : y.fired (x.control l.control).cancel = x.fired (x.control l.control).cancel
  shutdown : y.fired l.shutdown = x.fired l.shutdown

theorem SameParts.live (h : SameParts l x y) (hlive : x.Live l)
    (hentry : (y.table l.table).find? l.id = some l.call) : y.Live l := by
  constructor
  case entry => exact hentry
  case unclaimed => rw [h.control]; exact hlive.unclaimed
  case shutdown => rw [h.control]; exact hlive.shutdown
  case uncancelled => rw [h.control, h.cancel]; exact hlive.uncancelled
  case running => rw [h.shutdown]; exact hlive.running
  case accepting => rw [h.queue]; exact hlive.accepting
  case reading => rw [h.queue]; exact hlive.reading
  case unread => exact hlive.unread

namespace Wired

variable (h : Wired x clients calls)
include h

/-- A call has the shutdown signal of the client that has issued it, and of no other. -/
theorem shutdown_iff (hi : calls[i]? = some call) (hc : clients[c.index]? = some client) :
    call.listener.shutdown = client.shutdown ↔ call.client = c := by
  obtain ⟨owner, howner, hshutdown⟩ := (h.call i call hi).client
  rw [← hshutdown]
  constructor
  · exact fun hsame => congrArg ClientId.mk (h.shutdowns _ _ owner client howner hc hsame)
  · rintro rfl
    cases howner.symm.trans hc
    rfl

/-- The same for its control. -/
theorem owner_iff (hi : calls[i]? = some call) (hc : clients[c.index]? = some client) :
    (x.control call.listener.control).shutdown = client.shutdown ↔ call.client = c := by
  rw [(h.call i call hi).owner]
  exact h.shutdown_iff hi hc

/-- What leaves the parts of calls and clients where they are leaves them together. -/
theorem keep (hsizes : y.sizes = x.sizes)
    (hcancel : ∀ k, (y.control k).cancel = (x.control k).cancel)
    (howner : ∀ k, (y.control k).shutdown = (x.control k).shutdown)
    (hcalls : ∀ (j : Nat) (d : Call), calls'[j]? = some d →
      ∃ e, calls[j]? = some e ∧ e.client = d.client ∧ e.listener = d.listener)
    (hlength : calls'.length = calls.length)
    (hclients : ∀ (k : Nat) (d : Client), clients'[k]? = some d →
      ∃ e, clients[k]? = some e ∧ d.table = e.table ∧ d.shutdown = e.shutdown)
    (hsame : clients'.length = clients.length)
    (hfired : ∀ (k : Nat) (d : Client), clients'[k]? = some d →
      (y.fired d.shutdown = true ↔ d.lifecycle = .destroyed)) : Wired y clients' calls' := by
  simp only [sizes, Prod.mk.injEq] at hsizes
  obtain ⟨hsignals, hqueues, hcontrols, htables⟩ := hsizes
  constructor
  case queues => rw [hqueues, hlength]; exact h.queues
  case controls => rw [hcontrols, hlength]; exact h.controls
  case tables => rw [htables]; exact h.tables
  case call =>
    intro j d hd
    obtain ⟨e, he, hclient, hlistener⟩ := hcalls j d hd
    have hwired := h.call j e he
    obtain ⟨owner, howns, hshutdown⟩ := hwired.client
    have hlt : d.client.index < clients'.length := by
      rw [hsame, ← hclient]
      exact (List.getElem?_eq_some_iff.1 howns).1
    obtain ⟨before, hbefore, -, hkept⟩ := hclients _ _ (List.getElem?_eq_getElem hlt)
    rw [← hclient, howns] at hbefore
    cases hbefore
    constructor
    case queue => rw [← hlistener]; exact hwired.queue
    case control => rw [← hlistener]; exact hwired.control
    case table => rw [← hlistener]; exact hwired.table
    case client => exact ⟨_, List.getElem?_eq_getElem hlt, by rw [hkept, hshutdown, hlistener]⟩
    case owner => rw [howner, ← hlistener]; exact hwired.owner
    case cancel => rw [hcancel, hsignals, ← hlistener]; exact hwired.cancel
  case tableOf =>
    intro k d hd
    obtain ⟨e, he, htable, -⟩ := hclients k d hd
    exact htable.trans (h.tableOf k e he)
  case shutdown =>
    intro k d hd
    obtain ⟨e, he, -, hshutdown⟩ := hclients k d hd
    refine ⟨?_, hfired k d hd⟩
    rw [hshutdown, hsignals]
    exact (h.shutdown k e he).1
  case shutdowns =>
    intro k k' d d' hd hd' heq
    obtain ⟨e, he, -, hshutdown⟩ := hclients k d hd
    obtain ⟨e', he', -, hshutdown'⟩ := hclients k' d' hd'
    rw [hshutdown, hshutdown'] at heq
    exact h.shutdowns k k' e e' he he' heq
  case cancels =>
    intro j j' d d' hd hd' heq
    obtain ⟨e, he, -, hlistener⟩ := hcalls j d hd
    obtain ⟨e', he', -, hlistener'⟩ := hcalls j' d' hd'
    rw [hcancel, hcancel, ← hlistener, ← hlistener'] at heq
    exact h.cancels j j' e e' he he' heq
  case apart =>
    intro j k d client hd hclient
    obtain ⟨e, he, -, hlistener⟩ := hcalls j d hd
    obtain ⟨before, hbefore, -, hshutdown⟩ := hclients k client hclient
    rw [hcancel, ← hlistener, hshutdown]
    exact h.apart j k e before he hbefore

/-- Steps on one call keep the parts together. -/
theorem onward (hi : calls[i]? = some call) (honward : Onward call.listener x y) (reader : Reader) :
    Wired y clients (calls.set i { call with reader }) := by
  refine h.keep honward.sizes honward.control_cancel honward.control_shutdown ?_ (by simp)
    (fun k d hd => ⟨d, hd, rfl, rfl⟩) rfl ?_
  · intro j d hd
    obtain ⟨rfl, rfl⟩ | ⟨-, hd⟩ := eq_or_of_getElem?_set hd
    · exact ⟨call, hi, rfl, rfl⟩
    · exact ⟨d, hd, rfl, rfl⟩
  · intro k d hd
    rw [honward.fired _ (h.apart i k call d hi hd)]
    exact (h.shutdown k d hd).2

/-- Steps on one call leave the parts of the other calls as they are. -/
theorem sameParts (hi : calls[i]? = some call) (htouches : Touches call.listener x y) {j : Nat} {d : Call}
    (hj : calls[j]? = some d) (hij : j ≠ i) : SameParts d.listener x y := by
  have hcall := h.call i call hi
  have hother := h.call j d hj
  constructor
  case queue =>
    refine htouches.queue _ fun heq => hij ?_
    rw [hcall.queue, hother.queue] at heq
    exact QueueId.mk.inj heq
  case control =>
    refine htouches.control _ fun heq => hij ?_
    rw [hcall.control, hother.control] at heq
    exact ControlId.mk.inj heq
  case cancel => exact htouches.fired _ fun heq => hij (h.cancels j i d call hj hi heq)
  case shutdown =>
    obtain ⟨client, hclient, hshutdown⟩ := hother.client
    rw [← hshutdown]
    exact htouches.fired _ (h.apart i _ call client hi hclient)

theorem join (htable : client.table = shared) (hshutdown : client.shutdown = (newSignal x).1)
    (hlifecycle : client.lifecycle ≠ .destroyed) : Wired (newSignal x).2 (clients ++ [client]) calls := by
  have hsignals : (newSignal x).2.signals.length = x.signals.length + 1 := by simp [newSignal]
  have hindex : client.shutdown.index = x.signals.length := by rw [hshutdown]; rfl
  constructor
  case queues => exact h.queues
  case controls => exact h.controls
  case tables => exact h.tables
  case call =>
    intro i call hi
    have hcall := h.call i call hi
    obtain ⟨owner, howner, heq⟩ := hcall.client
    refine ⟨hcall.queue, hcall.control, hcall.table, ⟨owner, getElem?_concat.2 (.inl howner), heq⟩,
      hcall.owner, ?_⟩
    have hlt := hcall.cancel
    show (x.control call.listener.control).cancel.index < (newSignal x).2.signals.length
    omega
  case tableOf =>
    intro k d hd
    obtain hd | ⟨-, rfl⟩ := getElem?_concat.1 hd
    · exact h.tableOf k d hd
    · exact htable
  case shutdown =>
    intro k d hd
    rw [fired_newSignal]
    obtain hd | ⟨-, rfl⟩ := getElem?_concat.1 hd
    · have hbefore := h.shutdown k d hd
      exact ⟨by omega, hbefore.2⟩
    · refine ⟨by omega, ?_⟩
      simp [fired, hindex, hlifecycle]
  case shutdowns =>
    intro k k' d d' hd hd' heq
    have hindexes := congrArg SignalId.index heq
    obtain hd | ⟨hk, rfl⟩ := getElem?_concat.1 hd
    · obtain hd' | ⟨-, rfl⟩ := getElem?_concat.1 hd'
      · exact h.shutdowns k k' d d' hd hd' heq
      · have hlt := (h.shutdown k d hd).1
        omega
    · obtain hd' | ⟨hk', rfl⟩ := getElem?_concat.1 hd'
      · have hlt := (h.shutdown k' d' hd').1
        omega
      · rw [hk, hk']
  case cancels => exact h.cancels
  case apart =>
    intro i k call d hi hd
    obtain hd | ⟨-, rfl⟩ := getElem?_concat.1 hd
    · exact h.apart i k call d hi hd
    · intro heq
      have hlt := (h.call i call hi).cancel
      have hindexes : client.shutdown.index = (x.control call.listener.control).cancel.index :=
        congrArg SignalId.index heq
      omega

/-- Opening a call leaves the parts of the calls alone that have been issued before. -/
theorem sameParts_openCall (s : SignalId) (hi : calls[i]? = some call) :
    SameParts call.listener x (Client.openCall shared s x).2 := by
  have hcall := h.call i call hi
  have hlt := (List.getElem?_eq_some_iff.1 hi).1
  constructor
  case queue =>
    rw [Client.queue_openCall, if_neg]
    rw [hcall.queue]
    intro heq
    have hindex : i = x.queues.length := QueueId.mk.inj heq
    rw [h.queues] at hindex
    omega
  case control =>
    rw [Client.control_openCall, if_neg]
    rw [hcall.control]
    intro heq
    have hindex : i = x.controls.length := ControlId.mk.inj heq
    rw [h.controls] at hindex
    omega
  case cancel => exact Client.fired_openCall _
  case shutdown => exact Client.fired_openCall _

theorem issue (hc : clients[c.index]? = some client) :
    Wired (Client.openCall shared client.shutdown x).2 clients
      (calls ++ [⟨c, Client.nextListener shared client.shutdown x,
        .handle (Client.nextListener shared client.shutdown x)⟩]) := by
  have hcontrol := Client.control_openCall (t := shared) (s := client.shutdown) (x := x)
    (Client.nextListener shared client.shutdown x).control
  have hsizes := Client.sizes_openCall (t := shared) (s := client.shutdown) (x := x)
  rw [if_pos rfl] at hcontrol
  simp only [sizes, Prod.mk.injEq] at hsizes
  obtain ⟨hsignals, hqueues, hcontrols, htables⟩ := hsizes
  have hother (i : Nat) (call : Call) (hi : calls[i]? = some call) :=
    (h.sameParts_openCall client.shutdown hi).control
  constructor
  case queues => simp [hqueues, h.queues]
  case controls => simp [hcontrols, h.controls]
  case tables => rw [htables]; exact h.tables
  case call =>
    intro i d hd
    obtain hd | ⟨rfl, rfl⟩ := getElem?_concat.1 hd
    · have hcall := h.call i d hd
      refine ⟨hcall.queue, hcall.control, hcall.table, hcall.client, ?_, ?_⟩
      · rw [hother i d hd]
        exact hcall.owner
      · have hlt := hcall.cancel
        rw [hother i d hd]
        omega
    · refine ⟨?_, ?_, rfl, ⟨client, hc, rfl⟩, ?_, ?_⟩
      · simp [Client.nextListener, h.queues]
      · simp [Client.nextListener, h.controls]
      · rw [hcontrol]
        rfl
      · rw [hcontrol, hsignals]
        simp
  case tableOf => exact h.tableOf
  case shutdown =>
    intro k d hd
    have hbefore := h.shutdown k d hd
    rw [Client.fired_openCall]
    exact ⟨by omega, hbefore.2⟩
  case shutdowns => exact h.shutdowns
  case cancels =>
    intro i j d d' hi hj heq
    obtain hi | ⟨rfl, rfl⟩ := getElem?_concat.1 hi
    · obtain hj | ⟨rfl, rfl⟩ := getElem?_concat.1 hj
      · rw [hother i d hi, hother j d' hj] at heq
        exact h.cancels i j d d' hi hj heq
      · rw [hother i d hi, hcontrol] at heq
        have hlt := (h.call i d hi).cancel
        rw [heq] at hlt
        simp at hlt
    · obtain hj | ⟨rfl, rfl⟩ := getElem?_concat.1 hj
      · rw [hother j d' hj, hcontrol] at heq
        have hlt := (h.call j d' hj).cancel
        rw [← heq] at hlt
        simp at hlt
      · rfl
  case apart =>
    intro i k d e hi he
    obtain hi | ⟨rfl, rfl⟩ := getElem?_concat.1 hi
    · rw [hother i d hi]
      exact h.apart i k d e hi he
    · rw [hcontrol]
      intro heq
      have hlt := (h.shutdown k e he).1
      rw [heq] at hlt
      simp at hlt

end Wired

end Switchboard.Session
