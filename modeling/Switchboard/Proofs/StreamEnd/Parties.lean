import Switchboard.Proofs.Client.Operations
import Switchboard.Proofs.Exchange.Delivering
import Switchboard.Proofs.StreamEnd.Protocol
/-!
Everybody keeps to the protocol, whatever the others do in between.
-/
namespace Switchboard.StreamEnd

open Exchange Process World

variable {l m : Listener} {t : Stand} {x : Exchange} {b : Bool}

/-- A step that leaves the call alone is a move of anybody, and leaves the stand as it is. -/
theorem obeys_spares {α : Type} {a : StateM Exchange α} (h : ∀ x, Spares l x (a x).2) :
    (atomic a).Obeys (Setting l) (Moves l) (fun t' _ => t' = t) t :=
  Obeys.atomic fun x _ => ⟨t, .spares (h x), rfl⟩

section Deliveries

variable {call : PendingCall} {f : Fragment}

/-- A delivery tells of the end of the stream only if its fragment says so; and if it holds the call and has not
claimed it, its fragment is not marked as finished. -/
def Tells (f : Fragment) (t : Stand) (d : Delivery) : Prop :=
  d = .terminated → f.status = .streamTerminated ∧ ∀ g, t = .holds g → g.finished = false

theorem spares_abandon (t : TableId) (id : RequestId) (call : PendingCall) :
    (Delivery.abandon t id call).All (Spares l) (· ≠ .terminated) :=
  Delivery.all_abandon (fun _ => spares_onQueue) fun _ => spares_remove

/-- Handing a fragment over has to do with the queue of the call only. -/
theorem spares_handOver (t : TableId) (call : PendingCall) (f : Fragment) :
    (Delivery.handOver t call f).All (Spares l) (· = .terminated → f.status = .streamTerminated) :=
  Delivery.all_handOver (fun _ => spares_onQueue) (fun _ => spares_remove) fun _ => spares_onQueue

/-- A delivery that does not mean to claim the call has nothing to do with it but for its queue. -/
theorem spares_offer (hother : f.finished = true → call.control ≠ l.control) (t : TableId) :
    (Delivery.offer t call f).All (Spares l) (· = .terminated → f.status = .streamTerminated) :=
  Delivery.all_offer (fun _ => spares_onQueue) (fun _ => spares_remove) (fun _ => spares_onQueue) (.refl l)
    fun hfinished _ => spares_claimCompletion (hother hfinished)

/-- A delivery that holds the call claims it if its fragment is marked as finished, and does not end the stream
before. -/
theorem obeys_offer (f : Fragment) :
    (Delivery.offer l.table l.call f).Obeys (Setting l) (Moves l) (Tells f) (.holds f) := by
  have habandon (t : Stand) := (spares_abandon (l := l) l.table f.requestId l.call).obeys (I := Setting l)
    (R := Moves l) (P := Tells f) (t := t) (fun _ _ => .spares) fun d hd h => absurd h hd
  refine (obeys_spares fun x => .refl l x).bind fun t abandoned ht => ?_
  subst ht
  cases abandoned with
  | true => exact habandon _
  | false =>
    cases hfinished : f.finished with
    | false =>
      refine (spares_handOver l.table l.call f).obeys (fun _ _ => .spares) fun d hd hended => ⟨hd hended, ?_⟩
      rintro g hg
      cases hg
      exact hfinished
    | true =>
      have hclaims : (atomic (claimCompletion l.control)).Obeys (Setting l) (Moves l)
          (fun t claimed => claimed = true → t = .completes f) (.holds f) := by
        refine Obeys.atomic fun x _ => ?_
        rw [claimCompletion_fst]
        by_cases hfree : (x.control l.control).claim = .free
        · exact ⟨.completes f, .completes hfinished hfree, fun _ => rfl⟩
        · have hsame : (claimCompletion l.control x).2 = x := by
            unfold claimCompletion
            rw [if_neg hfree]
          rw [hsame, decide_eq_false hfree]
          exact ⟨.holds f, .spares (.refl l x), Bool.noConfusion⟩
      refine hclaims.bind fun t claimed ht => ?_
      cases claimed with
      | true =>
        cases ht rfl
        exact (spares_handOver l.table l.call f).obeys (fun _ _ => .spares) fun d hd hended =>
          ⟨hd hended, fun g hg => Stand.noConfusion hg⟩
      | false => exact habandon t

/-- A last fragment takes the call out of the table. -/
theorem takes_resolve (ht : t.holder = false) (hfind : (x.table l.table).find? l.id = some l.call) :
    Moves l t x (resolve l.table l.id true x).2 (.holds f) := by
  refine .takes ht spares_resolve (Table.mem_of_find? hfind) fun hmem => ?_
  rw [Registered, table_resolve, if_pos ⟨rfl, rfl⟩, Table.erase, List.mem_filter] at hmem
  simpa using hmem.2

/-- A delivery that finds the call takes it, if its fragment is the last one. -/
theorem obeys_deliver (f : Fragment) :
    (deliver l.table f).Obeys (Setting l) (Moves l) (Tells f) .apart := by
  have hpasses {call : PendingCall} (hother : f.finished = true → call.control ≠ l.control) :=
    (spares_offer hother l.table).obeys (I := Setting l) (R := Moves l)
      (P := Tells f) (t := .apart) (fun _ _ => .spares)
      fun d hd hended => ⟨hd hended, fun g hg => Stand.noConfusion hg⟩
  rw [deliver_eq]
  intro x hx
  dsimp only
  cases hfind : (x.table l.table).find? f.requestId with
  | none => exact ⟨.apart, .spares spares_resolve, fun h => Delivery.noConfusion h⟩
  | some call =>
    by_cases hown : call.control = l.control
    · obtain ⟨hid, rfl⟩ := Prod.mk.inj (hx.entries _ (Table.mem_of_find? hfind) hown)
      cases hlast : f.isLast with
      | true =>
        rw [hid] at hfind ⊢
        exact ⟨.holds f, takes_resolve rfl hfind, obeys_offer f⟩
      | false =>
        refine ⟨.apart, .spares spares_resolve, hpasses fun hfinished => ?_⟩
        simp [Fragment.isLast, hfinished] at hlast
    · exact ⟨.apart, .spares spares_resolve, hpasses fun _ => hown⟩

end Deliveries

section Readers

variable {c : ControlId}

/-- A party does not hold the call; and if it says of a control that it has cancelled what belongs to it, and that
is the call, it has. -/
structure Says (l : Listener) (c : ControlId) (cancelled : Bool) (t : Stand) : Prop where
  holder : t.holder = false
  cancelled : cancelled = true → c = l.control → t = .cancelled

theorem says_apart : Says l c false .apart := ⟨rfl, fun h => Bool.noConfusion h⟩

/-- Who cancels the call or another stands to the call accordingly. -/
theorem moves_claimCancellation (hx : Setting l x) (h : Says l c b t) :
    ∃ t', Moves l t x (claimCancellation c x).2 t' ∧ Says l c (b || (claimCancellation c x).1) t' := by
  by_cases hc : c = l.control
  · subst hc
    rw [claimCancellation_fst]
    by_cases hopen : (x.control l.control).claim = .completing
    · refine ⟨t, .spares ?_, ?_⟩
      · rw [claimCancellation_of_claimed (by simp [hopen])]
        exact .refl l x
      · simpa [hopen] using h
    · exact ⟨.cancelled, .cancels h.holder hopen, rfl, fun _ _ => rfl⟩
  · exact ⟨t, .spares (spares_claimCancellation hx hc), h.holder, fun _ h' => absurd h' hc⟩

theorem Says.of_or {b' : Bool} (h : Says l c (b || b') t) : Says l c b t :=
  ⟨h.holder, fun hb => h.cancelled (by rw [hb, Bool.true_or])⟩

theorem Says.falsely (h : Says l c b t) : Says l c false t := ⟨h.holder, fun h => Bool.noConfusion h⟩

theorem obeys_cancel (h : Says l m.control b t) :
    m.cancel.Obeys (Setting l) (Moves l)
      (fun t r => Says l m.control (b || r.1) t ∧ (r = (true, m.finish) ∨ r = (false, m))) t := by
  have hclaims : (atomic (claimCancellation m.control)).Obeys (Setting l) (Moves l)
      (fun t claimed => Says l m.control (b || claimed) t) t :=
    Obeys.atomic fun x hx => moves_claimCancellation hx h
  refine hclaims.bind fun t claimed ht => ?_
  cases claimed with
  | true =>
    have hleaves : (do
        atomic (closeReading m.queue)
        discard (atomic (remove m.table m.id))
        return (true, m.finish) : Process Exchange (Bool × Listener)).All (Spares l) (· = (true, m.finish)) :=
      ⟨fun _ => spares_onQueue, fun _ => ⟨fun _ => spares_remove, fun _ => rfl⟩⟩
    refine hleaves.obeys (fun _ _ => .spares) ?_
    rintro r rfl
    exact ⟨ht, .inl rfl⟩
  | false => exact ⟨ht, .inr rfl⟩

theorem obeys_release (h : Says l m.control b t) :
    m.release.Obeys (Setting l) (Moves l) (fun t _ => Says l m.control b t) t := by
  have hdrops (t : Stand) (ht : Says l m.control b t) : (atomic (dropReading m.queue)).Obeys (Setting l) (Moves l)
      (fun t _ => Says l m.control b t) t :=
    Obeys.atomic fun x _ => ⟨t, .spares spares_onQueue, ht⟩
  unfold Listener.release
  cases m.done with
  | true => exact hdrops t h
  | false =>
    have hcancels : (discard m.cancel).Obeys (Setting l) (Moves l) (fun t _ => Says l m.control b t) t :=
      (obeys_cancel h).bind fun t r ht => ht.1.of_or
    exact hcancels.bind fun t _ => hdrops t

/-- Who closes a subscription to a call that has not been done with says afterwards whether it has cancelled
it. -/
theorem obeys_close {s : Subscription} (h : Says l s.listener.control false t) :
    s.close.Obeys (Setting l) (Moves l) (fun t s' => s'.listener.control = s.listener.control ∧
      Says l s.listener.control (s'.listener.done && !s.listener.done) t) t := by
  refine (obeys_cancel h).bind fun t r hr => ?_
  obtain ⟨ht, rfl | rfl⟩ := hr
  · refine ⟨rfl, ht.holder, fun _ => ht.cancelled rfl⟩
  · have hcloses : (do
        atomic (closeReading s.listener.queue)
        return ⟨s.listener, true⟩ : Process Exchange Subscription).All (Spares l) (· = ⟨s.listener, true⟩) :=
      ⟨fun _ => spares_onQueue, fun _ => rfl⟩
    refine hcloses.obeys (fun _ _ => .spares) ?_
    rintro s' rfl
    refine ⟨rfl, ?_⟩
    rw [Bool.and_not_self]
    exact ht

/-- What a look of a wait tells befits the stand of the one who waits. -/
def LookSays (l : Listener) (c : ControlId) (t : Stand) : Waiting.Look → Prop
  | .pending v | .again v _ => v.listener.control = c ∧ Says l c false t
  | .finished v r => v.listener.control = c ∧ Says l c (outOfTime (.waited (some r))) t

theorem obeys_look_waiting {v : Waiting} (now : Nat) (h : Says l v.listener.control false t) :
    (v.look now).Obeys (Setting l) (Moves l) (LookSays l v.listener.control) t := by
  refine (obeys_spares fun x => .refl l x).bind fun r fired hr => ?_
  subst hr
  cases fired with
  | true => exact ⟨rfl, h⟩
  | false =>
    refine (obeys_spares fun x => spares_onQueue).bind fun r taken hr => ?_
    subst hr
    cases taken with
    | fragment f =>
      refine ⟨?_, h⟩
      unfold Waiting.add
      split <;> rfl
    | ended =>
      refine ⟨rfl, h.holder, fun hout => ?_⟩
      unfold Waiting.result at hout
      split at hout <;> cases hout
    | pending =>
      show (v.lookAtTime now).Obeys _ _ _ _
      unfold Waiting.lookAtTime
      cases v.deadline with
      | none => exact ⟨rfl, h⟩
      | some deadline =>
        by_cases hearly : now < deadline
        · simp only [hearly, if_true]
          exact ⟨rfl, h⟩
        · simp only [hearly, if_false]
          refine (obeys_cancel h).bind fun t r hr => ?_
          obtain ⟨ht, rfl | rfl⟩ := hr
          · exact ⟨rfl, ht⟩
          · exact ⟨rfl, ht⟩

theorem obeys_waitAfter {goOn : Waiting → Process Exchange Shutdown.Answer}
    (hgoOn : ∀ (v : Waiting) (t : Stand), v.listener.control = c → Says l c false t →
      (goOn v).Obeys (Setting l) (Moves l) (fun t a => Says l c (outOfTime a) t) t)
    {look : Waiting.Look} (h : LookSays l c t look) :
    (Shutdown.waitAfter goOn look).Obeys (Setting l) (Moves l) (fun t a => Says l c (outOfTime a) t) t := by
  cases look with
  | pending v => exact hgoOn v t h.1 h.2
  | again v f => exact hgoOn v t h.1 h.2
  | finished v r =>
    obtain ⟨rfl, ht⟩ := h
    exact (obeys_release ht).bind fun t _ ht => ht

/-- Who waits says in the end whether its time was over, and only then it has cancelled the call. -/
theorem obeys_wait (times : List Nat) {v : Waiting} (hv : v.listener.control = c) (h : Says l c false t) :
    (Shutdown.wait times v).Obeys (Setting l) (Moves l) (fun t a => Says l c (outOfTime a) t) t := by
  induction times generalizing v t with
  | nil => exact h
  | cons now later ih =>
    subst hv
    exact (obeys_look_waiting now h).bind fun t look hlook => obeys_waitAfter (fun _ _ hv ht => ih hv ht) hlook

/-- Whoever reads a subscription on is the same reader of the same call. -/
def ItemSays (l : Listener) (c : ControlId) (t : Stand) : Subscription.Look → Prop
  | .pending | .again _ => Says l c false t
  | .item s _ _ => s.listener.control = c ∧ Says l c false t

theorem obeys_look_subscription {s : Subscription} (h : Says l s.listener.control false t) :
    s.look.Obeys (Setting l) (Moves l) (ItemSays l s.listener.control) t := by
  unfold Subscription.look
  cases s.exhausted with
  | true => exact ⟨rfl, h⟩
  | false =>
    refine (obeys_spares fun x => .refl l x).bind fun r fired hr => ?_
    subst hr
    cases fired with
    | true => exact ⟨rfl, h⟩
    | false =>
      refine (obeys_spares fun x => spares_onQueue).bind fun r taken hr => ?_
      subst hr
      cases taken with
      | pending => exact h
      | ended => exact ⟨rfl, h⟩
      | fragment f =>
        dsimp only
        by_cases hstatus : f.status = .error
        · rw [if_pos hstatus]
          exact (obeys_close h).bind fun t s' hs' => ⟨hs'.1, hs'.2.falsely⟩
        · rw [if_neg hstatus]
          split
          · exact h
          · exact ⟨rfl, h⟩

theorem obeys_read (n : Nat) {s : Subscription} (items : List (Except ClientError Bytes))
    (hs : s.listener.control = c) (h : Says l c false t) :
    (Shutdown.read n items s).Obeys (Setting l) (Moves l) (fun t a => Says l c (outOfTime a) t) t := by
  induction n generalizing items s t with
  | zero => exact h
  | succ n ih =>
    subst hs
    refine (obeys_look_subscription h).bind fun t look hlook => ?_
    cases look with
    | pending => exact ih items rfl hlook
    | again f => exact ih items rfl hlook
    | item s' item read =>
      cases item with
      | none => exact hlook.2
      | some item => exact ih _ hlook.1 hlook.2

theorem obeys_watch (r : Shutdown.Watch) (h : Says l r.listener.control false t) :
    r.program.Obeys (Setting l) (Moves l) (fun t a => Says l r.listener.control (outOfTime a) t) t := by
  cases r with
  | wait v now later => exact obeys_wait (now :: later) rfl h
  | read m items later => exact obeys_read (later + 1) items rfl h

/-- Who leaves a call says whether it has cancelled it. -/
theorem obeys_leave (how : Race.Leave) (h : Says l m.control false t) :
    ((Race.Party.leave how).program m).Obeys (Setting l) (Moves l)
      (fun t a => Says l m.control (hasCancelled m a) t) t := by
  cases how with
  | giveUp => exact (obeys_cancel h).bind fun t r hr => hr.1
  | letGo => exact (obeys_release h).bind fun t _ ht => ht
  | close => exact (obeys_close (s := ⟨m, false⟩) h).bind fun t s hs => hs.2

end Readers

section Clients

variable {k : SignalId} {clients : List (TableId × SignalId)} {w : World} {c : ClientId} {client : Client}

theorem obeys_within {α : Type} {P : Stand → α → Prop} {p : Process Exchange α}
    (h : p.Obeys (Setting l) (Moves l) P t) :
    (withinExchange p).Obeys (Scene l k clients) (Acts l) P t :=
  Obeys.within (fun _ hw => hw.setting) (fun _ _ _ _ hmove => ⟨hmove, rfl⟩) h

/-- A step that leaves the call alone, and to each client what belongs to it. -/
def Aside (l : Listener) (w w' : World) : Prop :=
  Spares l w.exchange w'.exchange ∧ belongings w' = belongings w

theorem obeys_aside {α : Type} {p : Process World α} (h : p.All (Aside l) fun _ => True) :
    p.Obeys (Scene l k clients) (Acts l) (fun t _ => t = .apart) .apart :=
  h.obeys (fun _ _ h => ⟨.spares h.1, h.2⟩) fun _ _ => rfl

theorem aside_markDestroyed (c : ClientId) (w : World) : Aside l w (Client.markDestroyed c w).2 :=
  ⟨.refl l _, map_set_getD (f := fun client : Client => { client with lifecycle := .destroyed })
    (g := fun client : Client => (client.table, client.shutdown)) fun _ => rfl⟩

/-- Who looks a client up meets what belongs to it. -/
theorem obeys_client (hc : c.index < clients.length) :
    (atomic (do return (← get).client c) : Process World Client).Obeys (Scene l k clients) (Acts l)
      (fun t client => t = .apart ∧ (client.table, client.shutdown) ∈ clients) .apart := by
  refine Obeys.atomic fun w hw => ⟨.apart, ⟨.spares (.refl l _), rfl⟩, rfl, ?_⟩
  have hlt : c.index < w.clients.length := by
    rw [← hw.clients] at hc
    simpa [belongings] using hc
  rw [← hw.clients]
  refine List.mem_map.2 ⟨w.clients[c.index], List.getElem_mem hlt, ?_⟩
  show _ = ((w.client c).table, (w.client c).shutdown)
  rw [World.client_of_getElem? (List.getElem?_eq_getElem hlt)]

theorem aside_closeAll (calls : List PendingCall) : (Client.closeAll calls).All (Aside l) fun _ => True := by
  refine Client.all_closeAll fun call _ w => ?_
  have hspares : Spares l w.exchange (closeQueue call.queue w.exchange).2 := spares_onQueue
  exact ⟨hspares, rfl⟩

/-- The signal of a client is not the cancel signal of the call. -/
theorem obeys_withdraw (hclient : client.shutdown ≠ k) :
    (Client.withdraw client).Obeys (Scene l k clients) (Acts l) (fun t _ => t = .apart) .apart := by
  have hfires : (discard (atomic (atExchange (fire client.shutdown)))).Obeys (Scene l k clients) (Acts l)
      (fun t _ => t = .apart) .apart := by
    intro w hw
    refine ⟨.apart, ⟨.spares (spares_fire ?_), rfl⟩, rfl⟩
    rw [hw.cancel]
    exact hclient
  refine hfires.bind fun t _ ht => ?_
  subst ht
  refine obeys_aside ?_
  have hremoves : (atomic (atExchange (removeOwned client.table client.shutdown))).All (Aside l) fun _ => True :=
    Process.All.atomic fun _ => ⟨spares_removeOwned, rfl⟩
  exact hremoves.bind fun calls _ => aside_closeAll calls

theorem obeys_destroy (hc : c.index < clients.length) (hclients : ∀ b ∈ clients, b.1 = l.table ∧ b.2 ≠ k) :
    (Client.destroy c).Obeys (Scene l k clients) (Acts l) (fun t _ => t = .apart) .apart := by
  refine (obeys_client hc).bind fun t client hclient => ?_
  obtain ⟨rfl, hmem⟩ := hclient
  have hmarks : (atomic (Client.markDestroyed c)).All (Aside l) fun _ => True :=
    Process.All.atomic (aside_markDestroyed c)
  refine (obeys_aside hmarks).bind fun t before ht => ?_
  subst ht
  have hwithdraws : (Client.withdraw client).Obeys (Scene l k clients) (Acts l) (fun t _ => t = .apart) .apart :=
    obeys_withdraw (hclients _ hmem).2
  cases before with
  | active context =>
    have hquits : (atomic (Client.destroyContext client.engine context)).All (Aside l) fun _ => True :=
      Process.All.atomic fun w => ⟨.refl l w.exchange, rfl⟩
    refine (obeys_aside hquits).bind fun t _ ht => ?_
    subst ht
    exact hwithdraws
  | uninitialized | destroyed => exact hwithdraws

/-- Who stops the deliveries under a number may cancel the call by it. -/
theorem obeys_stopDeliveries (id : RequestId) :
    (Client.stopDeliveries l.table id).Obeys (Setting l) (Moves l) (fun _ _ => True) .apart := by
  refine (obeys_spares fun x => spares_resolve).bind fun t found ht => ?_
  subst ht
  cases found with
  | none => trivial
  | some call =>
    have hcancels : (discard (atomic (claimCancellation call.control))).Obeys (Setting l) (Moves l)
        (fun _ _ => True) .apart := by
      intro x hx
      obtain ⟨t', hmove, -⟩ := moves_claimCancellation (c := call.control) hx says_apart
      exact ⟨t', hmove, trivial⟩
    refine hcancels.bind fun t _ _ => ?_
    exact fun x _ => ⟨t, .spares spares_onQueue, trivial⟩

theorem obeys_unsubscribe (id : RequestId) (hc : c.index < clients.length)
    (hclients : ∀ b ∈ clients, b.1 = l.table ∧ b.2 ≠ k) :
    (Client.unsubscribe c id).Obeys (Scene l k clients) (Acts l) (fun _ _ => True) .apart := by
  refine (obeys_client hc).bind fun t client hclient => ?_
  obtain ⟨rfl, hmem⟩ := hclient
  rw [show client.table = l.table from (hclients _ hmem).1]
  exact obeys_within (obeys_stopDeliveries id)

end Clients

section Begin

variable {k : SignalId} {clients : List (TableId × SignalId)} {f : Fragment}

theorem befits_delivery {d : Delivery} (h : Tells f t d) : Befits l.control t (.delivery f d) := by
  refine ⟨Bool.noConfusion, fun g heq => ?_, fun g g' heq => ?_⟩
  · cases heq
    exact (h rfl).1
  · cases heq
    exact (h rfl).2 g'

/-- A last fragment that finds the call takes it, whoever delivers it. -/
theorem takes_deliver (htable : l.table = Session.shared) (hlast : f.isLast = true) (hid : f.requestId = l.id)
    {w : World} (hfind : (w.exchange.table l.table).find? l.id = some l.call) (ht : t.holder = false) :
    ∃ next effect, (Party.deliver f).program = .step next effect ∧ Acts l t w (effect w) (.holds f) ∧
      (next w).Obeys (Scene l k clients) (Acts l) (Befits l.control) (.holds f) := by
  have hprogram : (Party.deliver f).program =
      withinExchange (do return .delivery f (← Switchboard.deliver l.table f)) := by rw [htable]; rfl
  rw [deliver_eq, hid, hlast] at hprogram
  refine ⟨_, _, hprogram, ⟨takes_resolve ht hfind, rfl⟩, ?_⟩
  show (withinExchange ((((w.exchange.table l.table).find? l.id).elim (pure .unknownRequest) fun call =>
    Delivery.offer l.table call f) >>= fun d => pure (Answer.delivery f d))).Obeys _ _ _ _
  rw [hfind]
  exact obeys_within ((obeys_offer f).bind fun t d hd => befits_delivery hd)

/-- Whoever has nothing of the call in its hands to begin with keeps to the protocol. -/
theorem obeys_party (htable : l.table = Session.shared)
    (hclients : ∀ b ∈ clients, b.1 = l.table ∧ b.2 ≠ k) (p : Party)
    (hp : ∀ c, p.client? = some c → c.index < clients.length) :
    p.program.Obeys (Scene l k clients) (Acts l) (Befits l.control) .apart := by
  have hquiet {t : Stand} {a : Answer} (ht : a.cancels l.control = true → t = .cancelled)
      (ha : ∀ f d, a ≠ .delivery f d) : Befits l.control t a :=
    ⟨ht, fun f h => absurd h (ha f _), fun f g h => absurd h (ha f _)⟩
  cases p with
  | deliver f =>
    refine obeys_within ?_
    rw [← htable]
    exact (obeys_deliver f).bind fun t d hd => befits_delivery hd
  | read r =>
    refine obeys_within ((obeys_watch r says_apart).bind fun t a ha => hquiet (fun hcancels => ?_) ?_)
    · simp only [Answer.cancels, Bool.and_eq_true, beq_iff_eq] at hcancels
      exact ha.cancelled hcancels.1 hcancels.2
    · exact fun _ _ => Answer.noConfusion
  | leave m how =>
    refine obeys_within ((obeys_leave how says_apart).bind fun t a ha => hquiet (fun hcancels => ?_) ?_)
    · simp only [Answer.cancels, Bool.and_eq_true, beq_iff_eq] at hcancels
      exact ha.cancelled hcancels.1 hcancels.2
    · exact fun _ _ => Answer.noConfusion
  | unsubscribe c id =>
    refine (obeys_unsubscribe id (hp c rfl) hclients).bind fun t found _ => hquiet ?_ ?_
    · exact Bool.noConfusion
    · exact fun _ _ => Answer.noConfusion
  | destroy c =>
    refine (obeys_destroy (hp c rfl) hclients).bind fun t _ _ => hquiet ?_ ?_
    · exact Bool.noConfusion
    · exact fun _ _ => Answer.noConfusion
  | issue c =>
    refine (obeys_client (hp c rfl)).bind fun t client hclient => ?_
    obtain ⟨rfl, hmem⟩ := hclient
    intro w hw
    refine ⟨.apart, ⟨.spares ?_, rfl⟩, hquiet Bool.noConfusion fun _ _ => Answer.noConfusion⟩
    rw [show client.table = l.table from (hclients _ hmem).1]
    exact spares_openCall hw.setting

end Begin

end Switchboard.StreamEnd
