import Switchboard.Proofs.Session.Steps
/-!
What happens to clients in a session: they join, they change where they stand, they are destroyed, and they
issue calls.
-/
namespace Switchboard.Session

open Exchange

variable {start : RequestId} {x y : Exchange} {clients : List Client} {calls : List Call}
  {history : List Event} {call : Call} {client client' : Client} {c : ClientId}

theorem lifecycleOf_set (hc : clients[c.index]? = some client) (c' : ClientId) :
    lifecycleOf (clients.set c.index client') c' =
      if c' = c then client'.lifecycle else lifecycleOf clients c' := by
  have hlt := (List.getElem?_eq_some_iff.1 hc).1
  by_cases hc' : c' = c
  · subst hc'
    simp [lifecycleOf, hlt]
  · have hindex : c.index ≠ c'.index := fun heq => hc' (congrArg ClientId.mk heq.symm)
    simp [lifecycleOf, hindex, hc']

theorem getElem?_set_client (hc : clients[c.index]? = some client)
    (htable : client'.table = client.table) (hshutdown : client'.shutdown = client.shutdown) {k : Nat}
    {d : Client} (hk : (clients.set c.index client')[k]? = some d) :
    ∃ e, clients[k]? = some e ∧ d.table = e.table ∧ d.shutdown = e.shutdown := by
  obtain ⟨rfl, rfl⟩ | ⟨-, hk⟩ := eq_or_of_getElem?_set hk
  · exact ⟨client, hc, htable, hshutdown⟩
  · exact ⟨d, hk, rfl, rfl⟩

theorem getElem?_set_of_client (hc : clients[c.index]? = some client)
    (hshutdown : client'.shutdown = client.shutdown) {k : Nat} {d : Client} (hk : clients[k]? = some d) :
    ∃ e, (clients.set c.index client')[k]? = some e ∧ e.shutdown = d.shutdown := by
  have hlt := (List.getElem?_eq_some_iff.1 hc).1
  obtain ⟨rfl, rfl⟩ | hk := eq_or_getElem?_set hc hk client'
  · exact ⟨client', List.getElem?_set_self hlt, hshutdown⟩
  · exact ⟨d, hk, rfl⟩

namespace Sound

variable (h : Sound start x clients calls history)
include h

/-- The fields about clients do not care where these stand in their lives. -/
theorem change (hc : clients[c.index]? = some client) (htable : client'.table = client.table)
    (hshutdown : client'.shutdown = client.shutdown) (hsizes : y.sizes = x.sizes)
    (hcontrol : ∀ k, y.control k = x.control k)
    (hlastId : (y.table shared).lastId = (x.table shared).lastId) (hkeyed : (y.table shared).Keyed)
    (hentries : ∀ e ∈ (y.table shared).calls, e ∈ (x.table shared).calls)
    (hfired : ∀ (k : Nat) (d : Client), (clients.set c.index client')[k]? = some d →
      (y.fired d.shutdown = true ↔ d.lifecycle = .destroyed))
    (hstanding : ∀ (i : Nat) (call : Call), calls[i]? = some call →
      y.Live call.listener ∧ call.Unended (clients.set c.index client') history ∨
        y.Ended call.listener ∧ ¬ call.Unended (clients.set c.index client') history) :
    Sound start y (clients.set c.index client') calls history := by
  simp only [sizes, Prod.mk.injEq] at hsizes
  obtain ⟨hsignals, hqueues, hcontrols, htables⟩ := hsizes
  constructor
  case few => exact h.few
  case queues => rw [hqueues]; exact h.queues
  case controls => rw [hcontrols]; exact h.controls
  case tables => rw [htables]; exact h.tables
  case lastId => rw [hlastId]; exact h.lastId
  case keyed => exact hkeyed
  case entries => exact fun e he => h.entries e (hentries e he)
  case call =>
    intro i call hi
    have hcall := h.call i call hi
    exact hcall.keep (by rw [hcontrol]) (by rw [hcontrol]) (Nat.le_of_eq hsignals.symm)
      (fun d hd => getElem?_set_of_client hc hshutdown hd) hcall.reader (hstanding i call hi)
  case tableOf =>
    intro k d hd
    obtain ⟨e, he, htable', -⟩ := getElem?_set_client hc htable hshutdown hd
    rw [htable']
    exact h.tableOf k e he
  case shutdown =>
    intro k d hd
    refine ⟨?_, hfired k d hd⟩
    obtain ⟨e, he, -, hshutdown'⟩ := getElem?_set_client hc htable hshutdown hd
    rw [hshutdown', hsignals]
    exact (h.shutdown k e he).1
  case shutdowns =>
    intro k k' d d' hd hd' heq
    obtain ⟨e, he, -, hshutdown'⟩ := getElem?_set_client hc htable hshutdown hd
    obtain ⟨e', he', -, hshutdown''⟩ := getElem?_set_client hc htable hshutdown hd'
    rw [hshutdown', hshutdown''] at heq
    exact h.shutdowns k k' e e' he he' heq
  case cancels =>
    intro i j call call' hi hj heq
    rw [hcontrol, hcontrol] at heq
    exact h.cancels i j call call' hi hj heq
  case apart =>
    intro i k call d hi hd
    obtain ⟨e, he, -, hshutdown'⟩ := getElem?_set_client hc htable hshutdown hd
    rw [hcontrol, hshutdown']
    exact h.apart i k call e hi he
  case known => exact h.known

/-- A client may change, as long as it is destroyed afterwards only if it was before. -/
theorem relabel (hc : clients[c.index]? = some client) (htable : client'.table = client.table)
    (hshutdown : client'.shutdown = client.shutdown)
    (hlifecycle : client'.lifecycle = .destroyed ↔ client.lifecycle = .destroyed) :
    Sound start x (clients.set c.index client') calls history := by
  refine h.change hc htable hshutdown rfl (fun _ => rfl) rfl h.keyed (fun _ he => he) ?_ ?_
  · intro k d hd
    obtain ⟨rfl, rfl⟩ | ⟨-, hd⟩ := eq_or_of_getElem?_set hd
    · rw [hshutdown, hlifecycle]
      exact (h.shutdown _ client hc).2
    · exact (h.shutdown k d hd).2
  · intro i call hi
    have hdestroyed : lifecycleOf (clients.set c.index client') call.client = .destroyed ↔
        lifecycleOf clients call.client = .destroyed := by
      rw [lifecycleOf_set hc]
      by_cases hcc : call.client = c
      · rw [if_pos hcc, hcc, hlifecycle]
        simp [lifecycleOf, hc]
      · rw [if_neg hcc]
    obtain ⟨hlive, hunended⟩ | ⟨hended, hunended⟩ := (h.call i call hi).standing
    · exact .inl ⟨hlive, hunended.active, fun hd => hunended.client (hdestroyed.1 hd), hunended.history⟩
    · refine .inr ⟨hended, fun hafter => hunended ⟨hafter.active, fun hd => ?_, hafter.history⟩⟩
      exact hafter.client (hdestroyed.2 hd)

/-- Destroying a client ends its calls and no others. -/
theorem destroy (hc : clients[c.index]? = some client) :
    Sound start (Client.withoutOwned shared client.shutdown x)
      (clients.set c.index { client with lifecycle := .destroyed }) calls history := by
  have hlt := (List.getElem?_eq_some_iff.1 hc).1
  have hbound := (h.shutdown _ client hc).1
  refine h.change hc rfl rfl Client.sizes_withoutOwned (fun _ => Client.control_withoutOwned) ?_ ?_ ?_ ?_ ?_
  · rw [Client.table_withoutOwned, if_pos rfl]
    rfl
  · rw [Client.table_withoutOwned, if_pos rfl]
    exact h.keyed.removeAll _
  · intro e he
    rw [Client.table_withoutOwned, if_pos rfl] at he
    exact (List.mem_filter.1 he).1
  · intro k d hd
    rw [Client.fired_withoutOwned]
    obtain ⟨rfl, rfl⟩ | ⟨hkc, hd⟩ := eq_or_of_getElem?_set hd
    · simp [hbound]
    · have hne : d.shutdown ≠ client.shutdown := fun heq => hkc (h.shutdowns k _ d client hd hc heq)
      rw [if_neg (fun hs => hne hs.1)]
      exact (h.shutdown k d hd).2
  · intro i call hi
    have hcall := h.call i call hi
    have hkeyed : (x.table call.listener.table).Keyed := hcall.table ▸ h.keyed
    obtain ⟨owner, howner, hshutdown⟩ := hcall.client
    -- The call goes with the client if and only if the client has issued it.
    have hmine : call.listener.shutdown = client.shutdown ↔ call.client = c := by
      rw [← hshutdown]
      constructor
      · intro heq
        exact congrArg ClientId.mk (h.shutdowns _ _ owner client howner hc heq)
      · rintro rfl
        cases howner.symm.trans hc
        rfl
    obtain ⟨hlive, hunended⟩ | ⟨hended, hunended⟩ := hcall.standing
    · by_cases hcc : call.client = c
      · refine .inr ⟨Client.withoutOwned_of_owned hlive hkeyed hcall.table (hmine.2 hcc), fun hafter => ?_⟩
        have halive := hafter.client
        rw [lifecycleOf_set hc, if_pos hcc] at halive
        exact halive rfl
      · refine .inl ⟨?_, hunended.active, ?_, hunended.history⟩
        · refine Client.withoutOwned_of_other hlive hkeyed (fun heq => hcc (hmine.1 heq))
            (h.apart i _ call client hi hc).symm fun pending hpending heq => ?_
          obtain ⟨howned, id, hmem⟩ := Client.mem_owned.1 hpending
          obtain ⟨call', hmem', hentry⟩ := h.entries _ hmem
          obtain ⟨j, hj⟩ := List.getElem?_of_mem hmem'
          obtain ⟨-, rfl⟩ := Prod.mk.inj hentry
          have hij : i = j := by
            by_contra hij
            exact (h.apart_calls hi hj hij).queue heq
          subst hij
          cases hi.symm.trans hj
          exact hcc (hmine.1 (hcall.owner.symm.trans howned))
        · rw [lifecycleOf_set hc, if_neg hcc]
          exact hunended.client
    · refine .inr ⟨Client.withoutOwned_of_ended hended hkeyed, fun hafter => hunended ?_⟩
      refine ⟨hafter.active, fun hd => hafter.client ?_, hafter.history⟩
      rw [lifecycleOf_set hc]
      split
      · rfl
      · exact hd

/-- A client that joins has a signal of its own. -/
theorem join (htable : client.table = shared) (hshutdown : client.shutdown = (newSignal x).1)
    (hlifecycle : client.lifecycle ≠ .destroyed) :
    Sound start (newSignal x).2 (clients ++ [client]) calls history := by
  have hsignals : (newSignal x).2.signals.length = x.signals.length + 1 := by simp [newSignal]
  have hindex : client.shutdown.index = x.signals.length := by rw [hshutdown]; rfl
  have hold : ∀ (k : Nat) (d : Client), clients[k]? = some d → (clients ++ [client])[k]? = some d :=
    fun k d hd => getElem?_concat.2 (.inl hd)
  constructor
  case few => exact h.few
  case queues => exact h.queues
  case controls => exact h.controls
  case tables => exact h.tables
  case lastId => exact h.lastId
  case keyed => exact h.keyed
  case entries => exact h.entries
  case call =>
    intro i call hi
    have hcall := h.call i call hi
    refine hcall.keep rfl rfl (by omega) (fun d hd => ⟨d, hold _ d hd, rfl⟩) hcall.reader ?_
    obtain ⟨owner, howner, -⟩ := hcall.client
    have hsame : lifecycleOf (clients ++ [client]) call.client = lifecycleOf clients call.client := by
      rw [lifecycleOf, hold _ _ howner, lifecycleOf, howner]
    obtain ⟨hlive, hunended⟩ | ⟨hended, hunended⟩ := hcall.standing
    · refine .inl ⟨?_, hunended.active, by rw [hsame]; exact hunended.client, hunended.history⟩
      exact ⟨hlive.entry, hlive.unclaimed, hlive.shutdown, fired_newSignal.trans hlive.uncancelled,
        fired_newSignal.trans hlive.running, hlive.accepting, hlive.reading, hlive.unread⟩
    · refine .inr ⟨⟨hended.absent, hended.closed⟩, fun hafter => hunended ?_⟩
      exact ⟨hafter.active, by rw [← hsame]; exact hafter.client, hafter.history⟩
  case tableOf =>
    intro k d hd
    obtain hd | ⟨-, rfl⟩ := getElem?_concat.1 hd
    · exact h.tableOf k d hd
    · exact htable
  case shutdown =>
    intro k d hd
    rw [fired_newSignal]
    obtain hd | ⟨-, rfl⟩ := getElem?_concat.1 hd
    · have hbefore := h.shutdown k d hd
      exact ⟨by omega, hbefore.2⟩
    · refine ⟨by omega, ?_⟩
      simp [fired, hindex, hlifecycle]
  case shutdowns =>
    intro k k' d d' hd hd' heq
    have hindexes := congrArg SignalId.index heq
    obtain hd | ⟨hk, rfl⟩ := getElem?_concat.1 hd
    · obtain hd' | ⟨-, rfl⟩ := getElem?_concat.1 hd'
      · exact h.shutdowns k k' d d' hd hd' heq
      · have hlt := (h.shutdown k d hd).1
        omega
    · obtain hd' | ⟨hk', rfl⟩ := getElem?_concat.1 hd'
      · have hlt := (h.shutdown k' d' hd').1
        omega
      · rw [hk, hk']
  case cancels => exact h.cancels
  case apart =>
    intro i k call d hi hd
    obtain hd | ⟨-, rfl⟩ := getElem?_concat.1 hd
    · exact h.apart i k call d hi hd
    · intro heq
      have hlt := (h.call i call hi).cancel
      have hindexes : client.shutdown.index = (x.control call.listener.control).cancel.index :=
        congrArg SignalId.index heq
      omega
  case known => exact h.known

/-- No call has been issued under the next number yet. -/
theorem next_free {call : Call} (hmem : call ∈ calls) :
    call.listener.id ≠ Table.numbered start (calls.length + 1) := by
  obtain ⟨i, hi⟩ := List.getElem?_of_mem hmem
  have hlt := (List.getElem?_eq_some_iff.1 hi).1
  have hfew := h.few
  rw [(h.call i call hi).id]
  intro heq
  have hindex := Table.numbered_injective (by omega) (by omega) heq
  omega

theorem next_id : (x.table shared).nextId = Table.numbered start (calls.length + 1) ∧
    (x.table shared).find? (x.table shared).nextId = none := by
  refine Table.nextId_of_numbered h.lastId (fun e he => ?_) h.few
  obtain ⟨call, hmem, hentry⟩ := h.entries e he
  obtain ⟨i, hi⟩ := List.getElem?_of_mem hmem
  exact ⟨i, (List.getElem?_eq_some_iff.1 hi).1, by rw [hentry, (h.call i call hi).id]⟩

/-- Opening a call leaves those alone that have been issued before. -/
theorem openCall_keeps (s : SignalId) {i : Nat} (hi : calls[i]? = some call) :
    (Client.openCall shared s x).2.control call.listener.control = x.control call.listener.control ∧
      (Client.openCall shared s x).2.queue call.listener.queue = x.queue call.listener.queue ∧
      ((Client.openCall shared s x).2.table shared).find? call.listener.id =
        (x.table shared).find? call.listener.id := by
  have hcall := h.call i call hi
  have hlt := (List.getElem?_eq_some_iff.1 hi).1
  obtain ⟨hnext, hfree⟩ := h.next_id
  refine ⟨?_, ?_, ?_⟩
  · rw [Client.control_openCall, if_neg]
    rw [hcall.control]
    intro heq
    have hindex : i = x.controls.length := ControlId.mk.inj heq
    rw [h.controls] at hindex
    omega
  · rw [Client.queue_openCall, if_neg]
    rw [hcall.queue]
    intro heq
    have hindex : i = x.queues.length := QueueId.mk.inj heq
    rw [h.queues] at hindex
    omega
  · rw [Client.table_openCall h.tables, if_pos rfl, Table.find?_register hfree, if_neg]
    rw [hnext]
    exact h.next_free (List.mem_of_getElem? hi)

/-- Opening a call leaves each call where it stands that has been issued before. -/
theorem call_openCall (s : SignalId) {i : Nat} (hi : calls[i]? = some call) :
    CallSound start (Client.openCall shared s x).2 clients history i call := by
  have hcall := h.call i call hi
  obtain ⟨hcontrol, hqueue, hshared⟩ := h.openCall_keeps s hi
  have hfind : ((Client.openCall shared s x).2.table call.listener.table).find? call.listener.id =
      (x.table call.listener.table).find? call.listener.id := by
    rw [hcall.table]
    exact hshared
  have hsame := fun s' => Client.fired_openCall (t := shared) (s := s) (x := x) s'
  have hsizes := Client.sizes_openCall (t := shared) (s := s) (x := x)
  simp only [sizes, Prod.mk.injEq] at hsizes
  refine hcall.keep (by rw [hcontrol]) (by rw [hcontrol]) (by omega) (fun d hd => ⟨d, hd, rfl⟩)
    hcall.reader ?_
  obtain ⟨hlive, hunended⟩ | ⟨hended, hunended⟩ := hcall.standing
  · refine .inl ⟨?_, hunended⟩
    constructor
    case entry => rw [hfind]; exact hlive.entry
    case unclaimed => rw [hcontrol]; exact hlive.unclaimed
    case shutdown => rw [hcontrol]; exact hlive.shutdown
    case uncancelled => rw [hcontrol, hsame]; exact hlive.uncancelled
    case running => rw [hsame]; exact hlive.running
    case accepting => rw [hqueue]; exact hlive.accepting
    case reading => rw [hqueue]; exact hlive.reading
    case unread => exact hlive.unread
  · exact .inr ⟨⟨by rw [hfind]; exact hended.absent, by rw [hqueue]; exact hended.closed⟩, hunended⟩

/-- A call that is issued is live, and nothing has ended it yet. -/
theorem call_issued (hc : clients[c.index]? = some client) (hactive : client.lifecycle ≠ .destroyed) :
    CallSound start (Client.openCall shared client.shutdown x).2 clients history calls.length
      ⟨c, Client.nextListener shared client.shutdown x,
        .handle (Client.nextListener shared client.shutdown x)⟩ := by
  obtain ⟨hnext, hfree⟩ := h.next_id
  have hrunning : x.fired client.shutdown = false := by
    cases hshutdown : x.fired client.shutdown with
    | false => rfl
    | true => exact absurd ((h.shutdown _ client hc).2.1 hshutdown) hactive
  have hcontrol := Client.control_openCall (t := shared) (s := client.shutdown) (x := x)
    (Client.nextListener shared client.shutdown x).control
  rw [if_pos rfl] at hcontrol
  have hsizes := Client.sizes_openCall (t := shared) (s := client.shutdown) (x := x)
  simp only [sizes, Prod.mk.injEq] at hsizes
  constructor
  case id => exact hnext
  case queue => simp [Client.nextListener, h.queues]
  case control => simp [Client.nextListener, h.controls]
  case table => rfl
  case client => exact ⟨client, hc, rfl⟩
  case owner => rw [hcontrol]; rfl
  case cancel => rw [hcontrol, hsizes.1]; simp
  case reader => rfl
  case standing =>
    refine .inl ⟨Client.live_openCall h.tables hfree hrunning, rfl, ?_, fun e he => ?_⟩
    · simpa [lifecycleOf, hc] using hactive
    · cases hends : e.ends (Client.nextListener shared client.shutdown x).id with
      | false => rfl
      | true =>
        obtain ⟨call, hmem, hid⟩ := h.known e he _ hends
        exact absurd (hid.trans hnext) (h.next_free hmem)

/-- A call is issued, and put on record. -/
theorem issue {l : Listener} (hc : clients[c.index]? = some client)
    (hactive : client.lifecycle ≠ .destroyed) (hfew : calls.length + 1 < 4294967295)
    (hopen : Client.openCall shared client.shutdown x = (l, y)) :
    Sound start y clients (calls ++ [⟨c, l, .handle l⟩]) (history ++ [.issued l.id]) := by
  suffices hissue : Sound start y clients (calls ++ [⟨c, l, .handle l⟩]) history by
    refine hissue.record fun e he id => ?_
    rw [List.mem_singleton.1 he]
    rfl
  obtain rfl : Client.nextListener shared client.shutdown x = l := by rw [← Client.openCall_fst, hopen]
  obtain rfl : (Client.openCall shared client.shutdown x).2 = y := by rw [hopen]
  obtain ⟨hnext, hfree⟩ := h.next_id
  have htable := Client.table_openCall (t := shared) (s := client.shutdown) (x := x) h.tables shared
  have hsame := fun s => Client.fired_openCall (t := shared) (s := client.shutdown) (x := x) s
  have hcontrol := Client.control_openCall (t := shared) (s := client.shutdown) (x := x)
    (Client.nextListener shared client.shutdown x).control
  have hsizes := Client.sizes_openCall (t := shared) (s := client.shutdown) (x := x)
  rw [if_pos rfl] at htable hcontrol
  simp only [sizes, Prod.mk.injEq] at hsizes
  obtain ⟨hsignals, hqueues, hcontrols, htables⟩ := hsizes
  have hother (i : Nat) (call : Call) (hi : calls[i]? = some call) :=
    (h.openCall_keeps client.shutdown hi).1
  constructor
  case few => simpa using hfew
  case queues => simp [hqueues, h.queues]
  case controls => simp [hcontrols, h.controls]
  case tables => rw [htables]; exact h.tables
  case lastId =>
    rw [htable]
    simpa [Table.register] using hnext
  case keyed =>
    rw [htable]
    exact h.keyed.register hfree
  case entries =>
    intro e he
    rw [htable, Table.register, List.mem_append, List.mem_singleton] at he
    obtain he | rfl := he
    · obtain ⟨call, hmem, hentry⟩ := h.entries e he
      exact ⟨call, List.mem_append_left _ hmem, hentry⟩
    · exact ⟨_, List.mem_append_right _ (List.mem_singleton.2 rfl), rfl⟩
  case call =>
    intro i d hd
    obtain hd | ⟨rfl, rfl⟩ := getElem?_concat.1 hd
    · exact h.call_openCall client.shutdown hd
    · exact h.call_issued hc hactive
  case tableOf => exact h.tableOf
  case shutdown =>
    intro k d hd
    have hbefore := h.shutdown k d hd
    rw [hsame]
    exact ⟨by omega, hbefore.2⟩
  case shutdowns => exact h.shutdowns
  case cancels =>
    intro i j d d' hi hj heq
    obtain hi | ⟨rfl, rfl⟩ := getElem?_concat.1 hi
    · obtain hj | ⟨rfl, rfl⟩ := getElem?_concat.1 hj
      · rw [hother i d hi, hother j d' hj] at heq
        exact h.cancels i j d d' hi hj heq
      · rw [hother i d hi, hcontrol] at heq
        have hlt := (h.call i d hi).cancel
        rw [heq] at hlt
        simp at hlt
    · obtain hj | ⟨rfl, rfl⟩ := getElem?_concat.1 hj
      · rw [hother j d' hj, hcontrol] at heq
        have hlt := (h.call j d' hj).cancel
        rw [← heq] at hlt
        simp at hlt
      · rfl
  case apart =>
    intro i k d e hi he
    obtain hi | ⟨rfl, rfl⟩ := getElem?_concat.1 hi
    · rw [hother i d hi]
      exact h.apart i k d e hi he
    · rw [hcontrol]
      intro heq
      have hlt := (h.shutdown k e he).1
      rw [heq] at hlt
      simp at hlt
  case known =>
    intro e he id hid
    obtain ⟨call, hmem, hcall⟩ := h.known e he id hid
    exact ⟨call, List.mem_append_left _ hmem, hcall⟩

end Sound

end Switchboard.Session
