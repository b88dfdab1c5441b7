import Switchboard.Proofs.Client.Operations
import Switchboard.Proofs.Exchange.Delivering
import Switchboard.Proofs.Feed.Basic
import Switchboard.Proofs.Feed.Sound
/-!
What those do who do not read: each of them closes the queue of a call for a reason only, and whoever has destroyed the
client knows that the call is out of the table.
-/
namespace Switchboard.Feed

open Exchange Process World

variable {l : Listener} {x y : Exchange} {f : Fragment}

/-- A step of one who does not read. He puts fragments into the queue, or nothing, and cancels the call only if it is
out of the table. -/
structure Supplies (l : Listener) (x y : Exchange) : Prop extends Keeps l x y where
  cancelled : (y.control l.control).claim = .cancelled → (x.control l.control).claim = .cancelled ∨ Out l y
  puts : ∃ new, (y.queue l.queue).fragments = (x.queue l.queue).fragments ++ new ∧
    ((x.queue l.queue).isClosed = true → new = [])

/-- What one who does not read knows of the call: nothing, that there is a reason to close its queue, or that it is out
of the table. -/
inductive Know where
  | nothing
  | due
  | out

/-- What is known is so. -/
def Know.Fits (l : Listener) (x : Exchange) : Know → Prop
  | .nothing => True
  | .due => Due l x
  | .out => Out l x

/-- A step of one who knows something, and what he knows after it. -/
def Steps (l : Listener) (k : Know) (x y : Exchange) (k' : Know) : Prop :=
  k.Fits l x → Supplies l x y ∧ k'.Fits l y

variable {k : Know}

theorem Know.Fits.keep (h : k.Fits l x) (hkeeps : Keeps l x y) : k.Fits l y := by
  cases k with
  | nothing => trivial
  | due => exact hkeeps.due h
  | out => exact out_of_entries hkeeps.entries h

theorem Know.Fits.due (h : k.Fits l x) (hk : k ≠ .nothing) : Due l x := by
  cases k with
  | nothing => exact absurd rfl hk
  | due => exact h
  | out => exact .inl h

/-- A step that neither claims the call nor puts anything into its queue. -/
theorem Keeps.supplies (h : Keeps l x y) (hclaim : (y.control l.control).claim = (x.control l.control).claim)
    (hfragments : (y.queue l.queue).fragments = (x.queue l.queue).fragments) : Supplies l x y :=
  ⟨h, fun hcancelled => .inl (hclaim ▸ hcancelled), [], by rw [hfragments, List.append_nil], fun _ => rfl⟩

section Steps

variable (h : Sound l x)
include h

theorem supplies_refl : Supplies l x x := (keeps_refl h).supplies rfl rfl

theorem supplies_closeQueue {q : QueueId} (hdue : q = l.queue → Due l x) : Supplies l x (closeQueue q x).2 := by
  refine (keeps_closeQueue h hdue).supplies rfl ?_
  rw [queue_closeQueue]
  split
  case isTrue hq => rw [hq, Queue.fragments_close]
  case isFalse => rfl

theorem supplies_push (f : Fragment) : Supplies l x (push l.queue f x).2 := by
  refine ⟨keeps_push h f, .inl, if (x.queue l.queue).isClosed then [] else [f], ?_, fun hclosed => if_pos hclosed⟩
  rw [queue_push, if_pos rfl, Queue.fragments_push]
  split
  · rw [List.append_nil]
  · rfl

theorem supplies_claimCompletion (hout : Out l x) : Supplies l x (claimCompletion l.control x).2 := by
  refine ⟨keeps_claimCompletion h hout, fun hcancelled => .inl ?_, [], by simp, fun _ => rfl⟩
  rw [control_claimCompletion] at hcancelled
  split at hcancelled
  · cases hcancelled
  · exact hcancelled

theorem supplies_claimCancellation (hout : Out l x) : Supplies l x (claimCancellation l.control x).2 := by
  refine ⟨keeps_claimCancellation h, fun _ => .inr ?_, [], by simp, fun _ => rfl⟩
  rw [Out, table_claimCancellation]
  exact hout

end Steps

/-- A step after which one knows what one has known before. -/
theorem obeys_supplies {α : Type} {m : StateM Exchange α}
    (h : ∀ x, Sound l x → k.Fits l x → Supplies l x (m x).2) :
    (atomic m).Obeys (Sound l) (Steps l) (fun k' _ => k' = k) k :=
  Obeys.atomic fun x hx => ⟨k, fun hk => ⟨h x hx hk, hk.keep (h x hx hk).toKeeps⟩, rfl⟩

/-- One asks whether there is a reason to give the call up, and knows that the call is out of the table if he has a last
fragment. Then he knows that afterwards, and a reason if there is one. -/
theorem obeys_asking {m : StateM Exchange Bool} {reason : Bool} (hk : f.isLast = true → k = .out)
    (hsupplies : ∀ x, Sound l x → Supplies l x (m x).2)
    (hdue : ∀ x, Sound l x → (m x).1 = reason → Due l (m x).2) :
    (atomic m).Obeys (Sound l) (Steps l)
      (fun k' answer => (f.isLast = true → k' = .out) ∧ (answer = reason → k' ≠ .nothing)) k := by
  refine Obeys.atomic fun x hx => ?_
  have hstep := hsupplies x hx
  by_cases hreason : (m x).1 = reason
  · cases hlast : f.isLast with
    | false =>
      exact ⟨.due, fun _ => ⟨hstep, hdue x hx hreason⟩, fun h => Bool.noConfusion h, fun _ => Know.noConfusion⟩
    | true =>
      cases hk hlast
      exact ⟨.out, fun hfits => ⟨hstep, Know.Fits.keep (k := .out) hfits hstep.toKeeps⟩, fun _ => rfl,
        fun _ => Know.noConfusion⟩
  · exact ⟨k, fun hfits => ⟨hstep, hfits.keep hstep.toKeeps⟩, hk, fun h => absurd h hreason⟩

/-- Who knows a reason to give the call up does so. -/
theorem obeys_abandon (t : TableId) (id : RequestId) (hk : k ≠ .nothing) :
    (Delivery.abandon t id l.call).Obeys (Sound l) (Steps l) (fun _ _ => True) k := by
  have hcloses : (atomic (closeQueue l.queue)).Obeys (Sound l) (Steps l) (fun k' _ => k' = k) k :=
    obeys_supplies fun x hx hfits => supplies_closeQueue hx fun _ => hfits.due hk
  refine hcloses.bind fun k' _ hk' => ?_
  subst hk'
  have hremoves : (atomic (remove t id)).Obeys (Sound l) (Steps l) (fun k'' _ => k'' = k') k' :=
    obeys_supplies fun x hx _ => (keeps_remove hx).supplies rfl rfl
  exact Obeys.bind (Q := fun _ _ => True) (hremoves.bind fun _ _ _ => trivial) fun _ _ _ => trivial

/-- Who hands over a last fragment knows that the call is out of the table. -/
theorem obeys_handOver (t : TableId) (hk : f.isLast = true → k = .out) :
    (Delivery.handOver t l.call f).Obeys (Sound l) (Steps l) (fun _ _ => True) k := by
  have hcloses (hlast : f.isLast = true) :
      (atomic (closeQueue l.queue)).Obeys (Sound l) (Steps l) (fun k' _ => k' = .out) k := by
    cases hk hlast
    exact obeys_supplies fun x hx hfits => supplies_closeQueue hx fun _ => .inl hfits
  unfold Delivery.handOver
  split
  case isTrue hstatus => exact (hcloses (by simp [Fragment.isLast, hstatus])).bind fun _ _ _ => trivial
  case isFalse =>
    -- A fragment is refused only by a queue that is closed, and that is so for a reason.
    have hpushes : (atomic (push l.queue f)).Obeys (Sound l) (Steps l)
        (fun k' pushed => (f.isLast = true → k' = .out) ∧ (pushed = false → k' ≠ .nothing)) k := by
      refine obeys_asking hk (fun x hx => supplies_push hx f) fun x hx hrefused => ?_
      rw [push_fst] at hrefused
      exact (supplies_push hx f).due (hx.closed (by simpa using hrefused))
    refine hpushes.bind fun k' pushed hk' => ?_
    obtain ⟨hlast, hrefused⟩ := hk'
    have hresult (k' : Know) (hk' : pushed = false → k' ≠ .nothing) :
        (if pushed then pure .delivered else Delivery.abandon t f.requestId l.call : Process Exchange Delivery).Obeys
          (Sound l) (Steps l) (fun _ _ => True) k' := by
      cases pushed with
      | true => trivial
      | false => exact obeys_abandon t f.requestId (hk' rfl)
    cases hfinished : f.finished with
    | false => exact hresult k' hrefused
    | true =>
      cases hlast (by simp [Fragment.isLast, hfinished])
      refine Obeys.bind (Q := fun k' _ => k' = .out) (obeys_supplies fun x hx hfits => ?_) fun k' _ hk' => ?_
      · exact supplies_closeQueue hx fun _ => .inl hfits
      · subst hk'
        exact hresult .out fun _ => Know.noConfusion

theorem obeys_offer (t : TableId) (hk : f.isLast = true → k = .out) :
    (Delivery.offer t l.call f).Obeys (Sound l) (Steps l) (fun _ _ => True) k := by
  have hasks : (atomic (isAbandoned l.control)).Obeys (Sound l) (Steps l)
      (fun k' abandoned => (f.isLast = true → k' = .out) ∧ (abandoned = true → k' ≠ .nothing)) k :=
    obeys_asking hk (fun x hx => supplies_refl hx) fun x hx habandoned => hx.due_of_abandoned habandoned
  refine hasks.bind fun k' abandoned hk' => ?_
  obtain ⟨hlast, habandoned⟩ := hk'
  cases abandoned with
  | true => exact obeys_abandon t f.requestId (habandoned rfl)
  | false =>
    cases hfinished : f.finished with
    | false => exact obeys_handOver t hlast
    | true =>
      cases hlast (by simp [Fragment.isLast, hfinished])
      have hclaims : (atomic (claimCompletion l.control)).Obeys (Sound l) (Steps l) (fun k' _ => k' = .out) .out :=
        obeys_supplies fun x hx hfits => supplies_claimCompletion hx hfits
      refine hclaims.bind fun k' claimed hk' => ?_
      subst hk'
      cases claimed with
      | true => exact obeys_handOver t fun _ => rfl
      | false => exact obeys_abandon t f.requestId Know.noConfusion

/-- A last fragment takes the call out of the table. -/
theorem out_resolve : Out l (resolve l.table l.id true x).2 := by
  rw [Out, table_resolve, if_pos ⟨rfl, rfl⟩]
  exact Table.find?_erase_self

theorem obeys_deliver (hid : f.requestId = l.id) :
    (deliver l.table f).Obeys (Sound l) (Steps l) (fun _ _ => True) .nothing := by
  rw [deliver_eq, hid]
  intro x hx
  dsimp only
  cases hfind : (x.table l.table).find? l.id with
  | none => exact ⟨.nothing, fun _ => ⟨(keeps_resolve hx).supplies rfl rfl, trivial⟩, trivial⟩
  | some call =>
    cases hx.eq_of_find? hfind
    cases hlast : f.isLast with
    | false =>
      exact ⟨.nothing, fun _ => ⟨(keeps_resolve hx).supplies rfl rfl, trivial⟩,
        obeys_offer l.table fun h => absurd (hlast.symm.trans h) Bool.noConfusion⟩
    | true =>
      exact ⟨.out, fun _ => ⟨(keeps_resolve hx).supplies rfl rfl, out_resolve⟩, obeys_offer l.table fun _ => rfl⟩

theorem obeys_stopDeliveries :
    (Client.stopDeliveries l.table l.id).Obeys (Sound l) (Steps l) (fun _ _ => True) .nothing := by
  have hlifts : (atomic (resolve l.table l.id true)).Obeys (Sound l) (Steps l)
      (fun k' found => k' = .out ∧ ∀ call, found = some call → call = l.call) .nothing :=
    Obeys.atomic fun x hx => ⟨.out, fun _ => ⟨(keeps_resolve hx).supplies rfl rfl, out_resolve⟩, rfl,
      fun call hfound => hx.eq_of_find? hfound⟩
  refine hlifts.bind fun k' found hk' => ?_
  obtain ⟨rfl, hcall⟩ := hk'
  cases found with
  | none => trivial
  | some call =>
    cases hcall call rfl
    have hcancels : (discard (atomic (claimCancellation l.control))).Obeys (Sound l) (Steps l)
        (fun k' _ => k' = .out) .out := by
      refine (obeys_supplies (k := .out) fun x hx hfits => ?_).bind fun _ _ hk' => hk'
      exact supplies_claimCancellation hx hfits
    refine hcancels.bind fun k' _ hk' => ?_
    subst hk'
    refine (obeys_supplies (k := .out) fun x hx hfits => ?_).bind fun _ _ _ => trivial
    exact supplies_closeQueue hx fun _ => .inl hfits

/-- What is on record of the engines and of a client: nobody sends a request, and the client stays as it is or is
destroyed. -/
structure Quiet (c : ClientId) (w w' : World) : Prop where
  engines : w'.engines.length = w.engines.length
  requests : ∀ e, (w'.engine e).requests = (w.engine e).requests
  client : w'.client c = w.client c ∨ w'.client c = { w.client c with lifecycle := .destroyed }

variable {c : ClientId} {w w' w'' : World}

namespace Quiet

theorem refl (c : ClientId) (w : World) : Quiet c w w := ⟨rfl, fun _ => rfl, .inl rfl⟩

theorem trans (h : Quiet c w w') (h' : Quiet c w' w'') : Quiet c w w'' where
  engines := h'.engines.trans h.engines
  requests e := (h'.requests e).trans (h.requests e)
  client := by
    obtain hsame | hgone := h.client
    · rw [← hsame]
      exact h'.client
    · obtain hsame' | hgone' := h'.client
      · exact .inr (hsame'.trans hgone)
      · exact .inr (by rw [hgone', hgone])

theorem table (h : Quiet c w w') : (w'.client c).table = (w.client c).table := by
  obtain hsame | hgone := h.client
  · rw [hsame]
  · rw [hgone]

theorem shutdown (h : Quiet c w w') : (w'.client c).shutdown = (w.client c).shutdown := by
  obtain hsame | hgone := h.client
  · rw [hsame]
  · rw [hgone]

end Quiet

theorem quiet_markDestroyed (c : ClientId) (w : World) : Quiet c w (Client.markDestroyed c w).2 := by
  refine ⟨rfl, fun _ => rfl, ?_⟩
  have hclient : (Client.markDestroyed c w).2.client c =
      if c.index = c.index ∧ c.index < w.clients.length then { w.client c with lifecycle := .destroyed }
      else w.client c := getD_set
  rw [hclient]
  split
  · exact .inr rfl
  · exact .inl rfl

theorem quiet_destroyContext (c : ClientId) (e : EngineId) (context : UInt32) (w : World) :
    Quiet c w (Client.destroyContext e context w).2 := by
  refine ⟨List.length_set, fun e' => ?_, .inl rfl⟩
  show ((w.engines.set e.index { w.engine e with destroyed := (w.engine e).destroyed ++ [context] }).getD e'.index
    {}).requests = _
  rw [getD_set]
  split
  case isTrue he =>
    have hsame : w.engine e = w.engine e' := by simp only [World.engine, he.1]
    rw [hsame]
  case isFalse => rfl

/-- The call of a listener is sound, and the listener's client is known by its table and its signal. -/
structure Scene (c : ClientId) (l : Listener) (w : World) : Prop where
  sound : Sound l w.exchange
  table : (w.client c).table = l.table
  shutdown : (w.client c).shutdown = l.shutdown

/-- A step in a world of one who does not read. -/
def Acts (c : ClientId) (l : Listener) (k : Know) (w w' : World) (k' : Know) : Prop :=
  Quiet c w w' ∧ Steps l k w.exchange w'.exchange k'

theorem obeys_within {α : Type} {P : Know → α → Prop} {p : Process Exchange α}
    (h : p.Obeys (Sound l) (Steps l) P k) : (withinExchange p).Obeys (Scene c l) (Acts c l) P k :=
  Obeys.within (fun _ hw => hw.sound) (fun _ _ _ _ hstep => ⟨⟨rfl, fun _ => rfl, .inl rfl⟩, hstep⟩) h

/-- A step that leaves the exchange alone. -/
theorem obeys_aside {α : Type} {m : StateM World α} (hquiet : ∀ w, Quiet c w (m w).2)
    (hexchange : ∀ w, (m w).2.exchange = w.exchange) :
    (atomic m).Obeys (Scene c l) (Acts c l) (fun k' _ => k' = k) k := by
  refine Obeys.atomic fun w hw => ⟨k, ⟨hquiet w, fun hfits => ?_⟩, rfl⟩
  rw [hexchange]
  exact ⟨supplies_refl hw.sound, hfits⟩

/-- Who looks the client up meets its table and its signal. -/
theorem obeys_client : (atomic (do return (← get).client c) : Process World Client).Obeys (Scene c l) (Acts c l)
    (fun k' client => k' = k ∧ client.table = l.table ∧ client.shutdown = l.shutdown) k :=
  Obeys.atomic fun w hw => ⟨k, ⟨.refl c w, fun hfits => ⟨supplies_refl hw.sound, hfits⟩⟩, rfl, hw.table, hw.shutdown⟩

/-- Who takes the calls of the client out of the table takes this one out. -/
theorem out_removeOwned (h : Sound l x) : Out l (removeOwned l.table l.shutdown x).2 := by
  rw [Out, Table.find?_eq_none_iff, table_removeOwned, if_pos rfl]
  intro e he hid
  obtain ⟨hmem, hother⟩ := List.mem_filter.1 he
  rw [h.entries e hmem hid] at hother
  simp [Listener.call, h.shutdown] at hother

theorem obeys_closeAll (calls : List PendingCall) :
    (Client.closeAll calls).Obeys (Scene c l) (Acts c l) (fun k' _ => k' = .out) .out := by
  induction calls with
  | nil => rfl
  | cons call rest ih =>
    have hcloses : (withinExchange (atomic (closeQueue call.queue))).Obeys (Scene c l) (Acts c l)
        (fun k' _ => k' = .out) .out :=
      obeys_within (obeys_supplies fun x hx hfits => supplies_closeQueue hx fun _ => .inl hfits)
    refine Obeys.bind (p := atomic (atExchange (closeQueue call.queue))) hcloses fun k' _ hk' => ?_
    subst hk'
    exact ih

/-- Whoever withdraws the client from its calls knows that this one is out of the table. -/
theorem obeys_withdraw {client : Client} (htable : client.table = l.table) (hshutdown : client.shutdown = l.shutdown) :
    (Client.withdraw client).Obeys (Scene c l) (Acts c l) (fun k' _ => k' = .out) .nothing := by
  unfold Client.withdraw
  rw [htable, hshutdown]
  have hfires : (withinExchange (discard (atomic (fire l.shutdown)))).Obeys (Scene c l) (Acts c l)
      (fun k' _ => k' = .nothing) .nothing := by
    refine obeys_within ((obeys_supplies (k := .nothing) fun x hx _ => ?_).bind fun _ _ hk' => hk')
    exact (keeps_fire hx).supplies rfl rfl
  refine Obeys.bind (p := discard (atomic (atExchange (fire l.shutdown)))) hfires fun k' _ hk' => ?_
  subst hk'
  have hremoves : (withinExchange (atomic (removeOwned l.table l.shutdown))).Obeys (Scene c l) (Acts c l)
      (fun k' _ => k' = .out) .nothing := by
    refine obeys_within (Obeys.atomic fun x hx => ⟨.out, fun _ => ⟨?_, out_removeOwned hx⟩, rfl⟩)
    exact (keeps_removeOwned hx).supplies rfl rfl
  refine Obeys.bind (p := atomic (atExchange (removeOwned l.table l.shutdown))) hremoves fun k' calls hk' => ?_
  subst hk'
  exact obeys_closeAll calls

theorem obeys_destroy : (Client.destroy c).Obeys (Scene c l) (Acts c l) (fun k' _ => k' = .out) .nothing := by
  refine (obeys_client (k := .nothing)).bind fun k' client hk' => ?_
  obtain ⟨rfl, htable, hshutdown⟩ := hk'
  refine (obeys_aside (quiet_markDestroyed c) fun _ => rfl).bind fun k' before hk' => ?_
  subst hk'
  cases before with
  | active context =>
    refine (obeys_aside (quiet_destroyContext c client.engine context) fun _ => rfl).bind fun k' _ hk' => ?_
    subst hk'
    exact obeys_withdraw htable hshutdown
  | uninitialized | destroyed => exact obeys_withdraw htable hshutdown

/-- Whoever has nothing to do with the reading keeps to the protocol, if he delivers to the call only. -/
theorem obeys_party {p : Party} (hfor : ∀ f, p = .deliver f → f.requestId = l.id) :
    (p.program c l).Obeys (Scene c l) (Acts c l) (fun k' told => told = .destroyed → k' = .out) .nothing := by
  cases p with
  | deliver f =>
    exact obeys_within ((obeys_deliver (hfor f rfl)).bind fun _ _ _ h => Told.noConfusion h)
  | unsubscribe =>
    refine Obeys.bind (Q := fun _ _ => True) ?_ fun _ _ _ h => Told.noConfusion h
    refine (obeys_client (k := .nothing)).bind fun k' client hk' => ?_
    obtain ⟨rfl, htable, -⟩ := hk'
    rw [htable]
    exact obeys_within obeys_stopDeliveries
  | destroy => exact obeys_destroy.bind fun _ _ hk' _ => hk'

end Switchboard.Feed
