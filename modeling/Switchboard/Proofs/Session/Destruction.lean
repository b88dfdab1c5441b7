import Switchboard.Proofs.Session.Correlation
import Switchboard.Proofs.Session.Parallel
/-!
The destruction of a client takes its own calls out of the table and wakes their readers. To everybody else it is as
if it had not happened.
-/
namespace Switchboard

open Exchange Process

namespace Exchange

variable {x : Exchange} {t : TableId} {s : SignalId}

/-- Whoever withdraws once more finds nothing to do. -/
theorem withoutOwned_eq_self (hfired : x.fired s = true)
    (hnone : ∀ e ∈ (x.table t).calls, (x.control e.2.control).shutdown ≠ s) : Client.withoutOwned t s x = x := by
  have hfire : (fire s x).2 = x := by
    have hsame : x.signals.set s.index (x.fired s) = x.signals := set_getD_self
    rw [hfired] at hsame
    simp only [fire, hsame]
  have howned : Client.owned t s x = [] := by
    refine List.eq_nil_iff_forall_not_mem.2 fun call hcall => ?_
    obtain ⟨howner, id, hmem⟩ := Client.mem_owned.1 hcall
    exact hnone _ hmem howner
  have hremove : (removeOwned t s x).2 = x := by
    refine onTable_eq_self ?_
    have hall : (x.table t).calls.filter (fun e => !decide ((x.control e.2.control).shutdown = s)) = (x.table t).calls :=
      List.filter_eq_self.2 fun e he => by simp [hnone e he]
    simp only [Table.removeAll, hall]
  rw [Client.withoutOwned, howned, hfire, hremove]
  rfl

end Exchange

section Readers

variable {x : Exchange}

theorem Waiting.poll_of_shutdown {w : Waiting} (hfired : x.fired w.listener.shutdown = true) (now : Nat) :
    (w.poll now x).1.2 = some (.error .transportClosed) := by
  have hlook : (w.look now).run x = (.finished w.finish (.error .transportClosed), x) := by
    simp [look, isFired, hfired]
  simp only [poll, read, stateM_bind, stateM_pure, readAtMost, hlook]

theorem Subscription.read_of_shutdown {s : Subscription} (hmore : s.exhausted = false)
    (hfired : x.fired s.listener.shutdown = true) :
    s.read x = (([], some (s.finish, some (.error .transportClosed))), x) := by
  have hlook : s.look.run x = (.item s.finish (some (.error .transportClosed)) none, x) := by
    simp [look, hmore, isFired, hfired]
  simp only [read, readAtMost, stateM_bind, stateM_pure, hlook]
  rfl

/-- The sequence ends with the news that the client is gone, and nothing follows. -/
structure Subscription.Closed (s : Subscription) (x : Exchange) : Prop where
  next : ∃ s' : Subscription, (s.next x).1 = some (s', some (.error .transportClosed)) ∧
    ∀ y, (s'.next y).1 = some (s', none)
  nextDecoded : ∀ (α : Type) (decode : Bytes → Except Fault α), ∃ s' : Subscription,
    (s.nextDecoded decode x).1 = some (s', some (.error .transportClosed)) ∧
      ∀ y, (s'.nextDecoded decode y).1 = some (s', none)

theorem Subscription.closed_of_shutdown {s : Subscription} (hmore : s.exhausted = false)
    (hfired : x.fired s.listener.shutdown = true) : s.Closed x := by
  have hread := s.read_of_shutdown hmore hfired
  have hover {s' : Subscription} (hdone : s'.exhausted = true) (y : Exchange) :
      s'.next y = (some (s', none), y) := by
    simp only [Subscription.next, stateM_bind, Subscription.read_of_exhausted hdone]
    rfl
  constructor
  case next =>
    refine ⟨s.finish, ?_, fun y => by rw [hover (by rfl)]⟩
    simp only [Subscription.next, stateM_bind, hread]
    rfl
  case nextDecoded =>
    intro α decode
    refine ⟨(s.finish.close.run x).1, ?_, fun y => ?_⟩
    · simp only [Subscription.nextDecoded, Subscription.next, stateM_bind, hread]
      rfl
    · simp only [Subscription.nextDecoded, stateM_bind, hover (Subscription.close_exhausted _ _)]
      rfl

/-- Whoever reads is told that the client is gone, whatever is in the queue, and whether anything has been read
before. -/
def Reader.Closed (x : Exchange) : Reader → Prop
  | .handle l => (∀ now limit now', ((Waiting.start l now limit).poll now' x).1.2 = some (.error .transportClosed)) ∧
    (⟨l, false⟩ : Subscription).Closed x
  | .waiting w => ∀ now, (w.poll now x).1.2 = some (.error .transportClosed)
  | .subscription s => s.Closed x
  | .answered _ | .dropped => False

theorem Reader.closed_of_shutdown {l : Listener} {r : Reader} (hon : r.On l) (hactive : r.active = true)
    (hfired : x.fired l.shutdown = true) : r.Closed x := by
  cases r with
  | handle l' =>
    cases hon
    exact ⟨fun now limit now' => Waiting.poll_of_shutdown hfired now', Subscription.closed_of_shutdown rfl hfired⟩
  | waiting w =>
    cases hon
    exact fun now => Waiting.poll_of_shutdown hfired now
  | subscription s =>
    have hmore : s.exhausted = false := by simpa [active] using hactive
    obtain rfl | ⟨hdone, -⟩ := hon
    · exact Subscription.closed_of_shutdown rfl hfired
    · rw [hmore] at hdone
      cases hdone
  | answered | dropped => cases hactive

end Readers

namespace Session

variable {c c' : ClientId} {s t u v : Session} {op : Op} {client : Client}

/-- A client is destroyed by itself, or with its last copy. -/
def Destroys (s : Session) (c : ClientId) : Op → Prop
  | .destroy c' => c' = c
  | .release c' => c' = c ∧ (s.world.client c).holders ≤ 1
  | _ => False

instance (s : Session) (c : ClientId) : (op : Op) → Decidable (s.Destroys c op)
  | .destroy c' => inferInstanceAs (Decidable (c' = c))
  | .release c' => inferInstanceAs (Decidable (c' = c ∧ _))
  | .join _ | .teach _ _ | .createContext _ _ | .createContextFrom _ _ | .request _ _ _ | .deliver _ | .act _ _
  | .unsubscribe _ _ | .copy _ => .isFalse id

/-- An entry of the table that has been registered through a client. -/
def Through (s : Session) (c : ClientId) (e : RequestId × PendingCall) : Prop :=
  ∃ call ∈ s.calls, call.client = c ∧ e = (call.listener.id, call.listener.call)

/-- What is left of a session after a client has been destroyed. Its own entries are out of the table and their
queues closed, with what is in them; everything else is as it was. -/
structure Released (s t : Session) (c : ClientId) : Prop where
  lifecycle : (t.world.client c).lifecycle = .destroyed
  calls : t.calls = s.calls
  lastId : (t.world.exchange.table shared).lastId = (s.world.exchange.table shared).lastId
  entries : ∀ e, e ∈ (t.world.exchange.table shared).calls ↔
    e ∈ (s.world.exchange.table shared).calls ∧ ¬ s.Through c e
  closed : ∀ e ∈ (s.world.exchange.table shared).calls, s.Through c e →
    t.world.exchange.queue e.2.queue = (s.world.exchange.queue e.2.queue).close
  others : ∀ call ∈ s.calls, call.client ≠ c → SameParts call.listener s.world.exchange t.world.exchange
  clients : ∀ c', c' ≠ c → t.world.client c' = s.world.client c'

/-- What is left of a client that has been destroyed: whoever reads one of its calls and has not come to an end is
told so, nobody waits under one of its numbers, and it cannot be destroyed again. A number may have gone to a later
call of another client after all numbers have gone round. -/
structure Silent (u : Session) (c : ClientId) : Prop where
  readers : ∀ call ∈ u.calls, call.client = c → call.reader.active = true → call.reader.Closed u.world.exchange
  deliveries : ∀ (i : Nat) (call : Call), u.calls[i]? = some call → call.client = c →
    ∀ f, f.requestId = call.listener.id →
      (Switchboard.deliver shared f).run u.world.exchange = (.unknownRequest, u.world.exchange) ∨
        ∃ (j : Nat) (later : Call), i < j ∧ u.calls[j]? = some later ∧ later.client ≠ c ∧
          (call.listener.id, later.listener.call) ∈ (u.world.exchange.table shared).calls
  destroy : u.step (.destroy c) = u
  release : u.step (.release c) = { u with world := Client.letGo c u.world }

/-- Everybody but one client is told the same in two sessions. -/
structure Unaware (u v : Session) (c : ClientId) : Prop where
  calls : ∀ (i : Nat) (call : Call), call.client ≠ c → (u.calls[i]? = some call ↔ v.calls[i]? = some call)
  parts : ∀ call ∈ u.calls, call.client ≠ c → SameParts call.listener v.world.exchange u.world.exchange
  entries : ∀ e, ¬ v.Through c e →
    (e ∈ (u.world.exchange.table shared).calls ↔ e ∈ (v.world.exchange.table shared).calls)
  deliveries : ∀ f, (∀ e ∈ (v.world.exchange.table shared).calls, e.1 = f.requestId → ¬ v.Through c e) →
    ((Switchboard.deliver shared f).run u.world.exchange).1 = ((Switchboard.deliver shared f).run v.world.exchange).1
  readers : ∀ call ∈ u.calls, call.client ≠ c → ∀ a,
    (call.reader.act a u.world.exchange).1 = (call.reader.act a v.world.exchange).1
  items : ∀ call ∈ u.calls, call.client ≠ c → ∀ sub, call.reader = .subscription sub →
    (sub.next u.world.exchange).1 = (sub.next v.world.exchange).1 ∧
      ∀ (α : Type) (decode : Bytes → Except Fault α),
        (sub.nextDecoded decode u.world.exchange).1 = (sub.nextDecoded decode v.world.exchange).1

section

variable (hs : s.ground.IsCoherent)
include hs

/-- An entry has been registered through the client whose shutdown signal its control has. -/
theorem through_iff (hc : s.world.clients[c.index]? = some client) {e : RequestId × PendingCall}
    (he : e ∈ (s.world.exchange.table shared).calls) :
    s.Through c e ↔ (s.world.exchange.control e.2.control).shutdown = client.shutdown := by
  constructor
  · rintro ⟨call, hcall, rfl, rfl⟩
    obtain ⟨i, hi⟩ := List.getElem?_of_mem hcall
    exact (hs.owner_iff hi hc).2 rfl
  · intro howner
    obtain ⟨i, call, hi, rfl, -⟩ := hs.entries e he
    exact ⟨call, List.mem_of_getElem? hi, (hs.owner_iff hi hc).1 howner, rfl⟩

theorem ground_destroy (hc : s.world.clients[c.index]? = some client) :
    (s.step (.destroy c)).ground = ⟨Client.withoutOwned shared client.shutdown s.world.exchange,
      s.world.clients.set c.index { client with lifecycle := .destroyed }, s.calls, s.history⟩ := by
  have hthere : s.HasClient c := (List.getElem?_eq_some_iff.1 hc).1
  simp only [step, if_pos hthere, Client.destroy_world, ground, World.client_of_getElem? hc, hs.tableOf _ _ hc]

/-- The last copy of a client that is let go destroys it. -/
theorem ground_release (hc : s.world.clients[c.index]? = some client) (hlast : client.holders ≤ 1) :
    (s.step (.release c)).ground = ⟨Client.withoutOwned shared client.shutdown s.world.exchange,
      s.world.clients.set c.index { client with lifecycle := .destroyed, holders := client.holders - 1 },
      s.calls, s.history⟩ := by
  have hthere : s.HasClient c := (List.getElem?_eq_some_iff.1 hc).1
  have hafter : (Client.letGo c s.world).client c = { client with holders := client.holders - 1 } := by
    rw [Client.letGo, World.client, getD_set, if_pos ⟨rfl, hthere⟩, World.client_of_getElem? hc]
  have hnobody : ((Client.letGo c s.world).client c).holders = 0 := by
    rw [hafter]
    show client.holders - 1 = 0
    omega
  have hrun : (Client.release c s.world).2 = ((Client.destroy c).run (Client.letGo c s.world)).2 := by
    rw [Client.release_run, if_pos hnobody]
  obtain ⟨hexchange, hclients⟩ := Client.destroy_run c (Client.letGo c s.world)
  rw [hafter] at hexchange hclients
  simp only [step, if_pos hthere, hrun, ground, hexchange, hclients, hs.tableOf _ _ hc]
  simp only [Client.letGo, List.set_set]

theorem ground_destroys (hc : s.world.clients[c.index]? = some client) (hop : s.Destroys c op) :
    ∃ holders, (s.step op).ground = ⟨Client.withoutOwned shared client.shutdown s.world.exchange,
      s.world.clients.set c.index { client with lifecycle := .destroyed, holders }, s.calls, s.history⟩ := by
  cases op with
  | destroy c' =>
    obtain rfl : c' = c := hop
    exact ⟨client.holders, ground_destroy hs hc⟩
  | release c' =>
    obtain ⟨rfl, hlast⟩ := hop
    rw [World.client_of_getElem? hc] at hlast
    exact ⟨client.holders - 1, ground_release hs hc hlast⟩
  | _ => exact hop.elim

theorem released (hc : s.HasClient c) (hop : s.Destroys c op) : Released s (s.step op) c := by
  have hclient := List.getElem?_eq_getElem hc
  generalize s.world.clients[c.index] = client at hclient
  obtain ⟨holders, hground⟩ := ground_destroys hs hclient hop
  obtain ⟨hexchange, hclients, hcalls, -⟩ := Ground.mk.inj hground
  constructor
  case lifecycle =>
    rw [World.client, hclients, getD_set, if_pos ⟨rfl, hc⟩]
  case calls => exact hcalls
  case lastId =>
    rw [hexchange, Client.table_withoutOwned, if_pos rfl]
    rfl
  case entries =>
    intro e
    rw [hexchange, mem_withoutOwned]
    exact and_congr_right fun he => not_congr (through_iff hs hclient he).symm
  case closed =>
    intro e he hthrough
    have howned : e.2 ∈ Client.owned shared client.shutdown s.world.exchange :=
      Client.mem_owned.2 ⟨(through_iff hs hclient he).1 hthrough, e.1, he⟩
    rw [hexchange, Client.queue_withoutOwned, if_pos ⟨e.2, howned, rfl⟩]
  case others =>
    intro call hcall hother
    obtain ⟨i, hi⟩ := List.getElem?_of_mem hcall
    rw [hexchange]
    exact Coherent.sameParts_withoutOwned hs hclient hi fun heq => hother ((hs.shutdown_iff hi hclient).1 heq)
  case clients =>
    intro c' hc'
    have hindex : ¬ (c'.index = c.index ∧ c.index < s.world.clients.length) :=
      fun heq => hc' (congrArg ClientId.mk heq.1)
    rw [World.client, hclients, getD_set, if_neg hindex]
    rfl

/-- The session with the destruction and the one without it differ in the client only. -/
theorem beside_destroys (hc : s.HasClient c) (hop : s.Destroys c op) (ht : (s.step op).ground.IsCoherent) :
    Beside (partsOf c s.ground) c (s.step op).ground s.ground := by
  have hclient := List.getElem?_eq_getElem hc
  generalize s.world.clients[c.index] = client at hclient
  obtain ⟨holders, hground⟩ := ground_destroys hs hclient hop
  have hides := hides_partsOf c s.ground
  have halike : Alike (partsOf c s.ground) c s.ground (s.step op).ground := by
    rw [hground]
    constructor
    case exchange => exact hides.agree_withoutOwned hs hclient
    case calls => rfl
    case clients => exact fun k hk => List.getElem?_set_ne (Ne.symm hk)
    case shutdowns => exact map_set_of_getElem? hclient (by rfl)
  refine { halike.symm with left := ht, right := hs, hides, gone := ?_ }
  rw [hground]
  exact ⟨_, List.getElem?_set_self hc, rfl⟩

end

section

variable (hs : s.ground.IsCoherent) (hgone : Gone c s.ground)
include hs hgone

/-- No call of a client that has been destroyed is in the table. -/
theorem not_through {e : RequestId × PendingCall} (he : e ∈ (s.world.exchange.table shared).calls) :
    ¬ s.Through c e := by
  rintro ⟨call, hcall, hown, rfl⟩
  obtain ⟨i, hi⟩ := List.getElem?_of_mem hcall
  exact hgone.visible (hides_partsOf c s.ground) hs he ((hides_partsOf c s.ground).hidden hs hi hown).1

theorem fired_of_gone {call : Call} (hcall : call ∈ s.calls) (hown : call.client = c) :
    s.world.exchange.fired call.listener.shutdown = true := by
  obtain ⟨i, hi⟩ := List.getElem?_of_mem hcall
  obtain ⟨client, hc, hdestroyed⟩ := hgone
  rw [(hs.shutdown_iff hi hc).2 hown]
  exact (hs.shutdown _ client hc).2.2 hdestroyed

/-- A client that has been destroyed is not destroyed again. -/
theorem destroy_of_gone : ((Client.destroy c).run s.world).2 = s.world := by
  obtain ⟨client, hc, hdestroyed⟩ := id hgone
  have hc : s.world.clients[c.index]? = some client := hc
  have hexchange : Client.withoutOwned shared client.shutdown s.world.exchange = s.world.exchange := by
    refine withoutOwned_eq_self ((hs.shutdown _ client hc).2.2 hdestroyed) fun e he howner => ?_
    exact not_through hs hgone he ((through_iff hs hc he).2 howner)
  have hclients : s.world.clients.set c.index { client with lifecycle := .destroyed } = s.world.clients := by
    obtain ⟨hlt, hat⟩ := List.getElem?_eq_some_iff.1 hc
    rw [← hdestroyed, ← hat]
    exact List.set_getElem_self hlt
  have hengines : s.world.engines.set client.engine.index { s.world.engine client.engine with
      destroyed := (s.world.engine client.engine).destroyed ++ client.lifecycle.contexts } = s.world.engines := by
    rw [hdestroyed, Lifecycle.contexts, List.append_nil]
    exact set_getD_self
  rw [Client.destroy_world, World.client_of_getElem? hc, hs.tableOf _ _ hc, hexchange, hclients, hengines]

theorem silent_of_gone : Silent s c := by
  have hthere : s.HasClient c := hgone.lt
  constructor
  case readers =>
    intro call hcall hown hactive
    exact Reader.closed_of_shutdown (hs.stands call hcall).reader hactive (fired_of_gone hs hgone hcall hown)
  case deliveries =>
    intro i call hi hown f hid
    cases hfind : (s.world.exchange.table shared).find? f.requestId with
    | none => exact .inl (deliver_of_absent hfind)
    | some pending =>
      obtain ⟨j, later, hj, hlater, rfl, -, hlast⟩ := hs.of_find? hfind
      have hmem := Table.mem_of_find? hfind
      have hother : later.client ≠ c := fun hclient =>
        not_through hs hgone hmem ⟨later, List.mem_of_getElem? hj, hclient, by rw [hlater]⟩
      rw [hid] at hmem hlast
      refine .inr ⟨j, later, ?_, hj, hother, hmem⟩
      obtain hlt | rfl | hgt := Nat.lt_trichotomy i j
      · exact hlt
      · cases hi.symm.trans hj
        exact absurd hown hother
      · exact absurd rfl (hlast i call hgt hi)
  case destroy => simp only [step, if_pos hthere, destroy_of_gone hs hgone]
  case release =>
    have hchanges : Changes s.ground { s with world := Client.letGo c s.world }.ground :=
      changes_hold (w := s.world) (c := c) (· - 1)
    have hsame := destroy_of_gone (s := { s with world := Client.letGo c s.world })
      (Changes.coherent hchanges rfl hs) (Changes.gone hchanges hgone)
    simp only [step, if_pos hthere, Client.release_run, hsame, ite_self]

end

theorem Beside.unaware {h : Hidden} (hbeside : Beside h c u.ground v.ground) : Unaware u v c := by
  have hhidden {e : RequestId × PendingCall} (he : e ∈ (v.world.exchange.table shared).calls)
      (hqueue : h.queue e.2.queue) : v.Through c e := by
    obtain ⟨i, call, hi, rfl, -⟩ := hbeside.right.entries e he
    by_contra hthrough
    refine (hbeside.hides.visible hbeside.right hi fun hown => hthrough ?_).1 hqueue
    exact ⟨call, List.mem_of_getElem? hi, hown, rfl⟩
  have hright {i : Nat} {call : Call} (hi : u.calls[i]? = some call) (hother : call.client ≠ c) :
      v.calls[i]? = some call := hbeside.toAlike.symm.call_of_other hi hother
  constructor
  case calls => exact fun i call hother => ⟨fun hi => hright hi hother, fun hi => hbeside.call_of_other hi hother⟩
  case parts =>
    intro call hcall hother
    obtain ⟨i, hi⟩ := List.getElem?_of_mem hcall
    have hi := hright hi hother
    obtain ⟨hqueue, hcontrol, hsignal⟩ := hbeside.hides.visible hbeside.right hi hother
    have hagree := hbeside.exchange.symm
    exact ⟨hagree.queue _ hqueue, hagree.control _ hcontrol,
      hagree.fired _ (hbeside.hides.cancel_visible hbeside.right hi hother), hagree.fired _ hsignal⟩
  case entries =>
    intro e hthrough
    refine ⟨fun he => hbeside.subset he, fun he => (hbeside.entries fun hqueue => hthrough (hhidden he hqueue)).1 he⟩
  case deliveries =>
    intro f hnone
    exact ((hbeside.deliver f).2 fun e he hid hqueue => hnone e he hid (hhidden he hqueue)).symm
  case readers =>
    intro call hcall hother a
    obtain ⟨i, hi⟩ := List.getElem?_of_mem hcall
    exact (hbeside.act_of_other (hright hi hother) hother a).1.symm
  case items =>
    intro call hcall hother sub hsub
    obtain ⟨i, hi⟩ := List.getElem?_of_mem hcall
    have hi := hright hi hother
    obtain ⟨hqueue, hcontrol, hsignal⟩ := hbeside.hides.visible hbeside.right hi hother
    have hon := (hbeside.right.stands call (List.mem_of_getElem? hi)).reader
    rw [hsub] at hon
    obtain ⟨hqueue, hcontrol, hsignal⟩ :=
      Subscription.visible_of_follows (s := ⟨call.listener, false⟩) hon hqueue hcontrol hsignal
    refine ⟨(Subscription.respects_next hqueue hcontrol hsignal _ _ hbeside.exchange).1.symm, fun α decode => ?_⟩
    exact (Subscription.respects_nextDecoded decode hqueue hcontrol hsignal _ _ hbeside.exchange).1.symm

theorem voices_destroys (hop : s.Destroys c op) : (s.step op).world.voices = s.world.voices := by
  cases op with
  | destroy c' =>
    simp only [step]
    split
    case isFalse => rfl
    case isTrue => exact World.voices_destroy
  | release c' =>
    simp only [step]
    split
    case isFalse => rfl
    case isTrue => exact World.voices_release
  | _ => exact hop.elim

section Few

variable {start : RequestId} (hs : s.ground.IsSound start)
include hs

theorem length_calls_le : (s.world.exchange.table shared).calls.length ≤ s.calls.length := by
  have hsubset : (s.world.exchange.table shared).calls.map Prod.fst ⊆ s.calls.map fun call => call.listener.id := by
    intro id hid
    obtain ⟨e, he, rfl⟩ := List.mem_map.1 hid
    obtain ⟨call, hcall, rfl⟩ := hs.entries e he
    exact List.mem_map.2 ⟨call, hcall, rfl⟩
  have hlength := (List.subperm_of_subset hs.keyed hsubset).length_le
  rwa [List.length_map, List.length_map] at hlength

/-- As long as the numbers have not gone round, a client that has been destroyed shares no number with anybody. -/
theorem parted_of_sound (hcoherent : s.ground.IsCoherent) (hgone : Gone c s.ground) : s.Parted c op := by
  cases op with
  | request c' method params =>
    intro _ call hcall _
    have hnext : (s.world.exchange.table shared).nextId = Table.numbered start (s.calls.length + 1) :=
      (Sound.next_id hs).1
    rw [hnext]
    exact Sound.next_free hs hcall
  | act i a =>
    intro call hi hown e he hid
    obtain ⟨later, hlater, rfl⟩ := hs.entries e he
    have hsame : later = call :=
      List.inj_on_of_nodup_map (Sound.nodup_ids hs) hlater (List.mem_of_getElem? hi) hid
    exact not_through hcoherent hgone he ⟨later, hlater, hsame ▸ hown, rfl⟩
  | _ => trivial

theorem unknown_of_sound (hcoherent : s.ground.IsCoherent) (hgone : Gone c s.ground) {call : Call}
    (hcall : call ∈ s.calls) (hown : call.client = c) {f : Fragment} (hid : f.requestId = call.listener.id) :
    (Switchboard.deliver shared f).run s.world.exchange = (.unknownRequest, s.world.exchange) := by
  refine deliver_of_absent (Table.find?_eq_none_iff.2 fun e he hkey => ?_)
  obtain ⟨later, hlater, rfl⟩ := hs.entries e he
  have hsame : later = call := List.inj_on_of_nodup_map (Sound.nodup_ids hs) hlater hcall (hkey.trans hid)
  exact not_through hcoherent hgone he ⟨later, hlater, hsame ▸ hown, rfl⟩

end Few

/-- What the destruction of a client comes to, now and whatever happens from then on. To everybody else it is as if the
client had only stopped sending requests. As long as fewer calls have been issued than there are numbers, no number
is given out twice, so that nobody has to see to it that the calls are not mixed up. -/
structure Ends (s : Session) (op : Op) (c : ClientId) : Prop where
  released : Released s (s.step op) c
  silent : ∀ more, (s.step op).HasNumbers more → Silent ((s.step op).run more) c
  unaware : ∀ more, (s.step op).HasNumbers more → (s.step op).StaysParted c more →
    Unaware ((s.step op).run more) (s.run (quieted c more)) c
  few : ∀ more, ((s.step op).run more).calls.length < 4294967295 →
    (s.step op).HasNumbers more ∧ (s.step op).StaysParted c more ∧
      ∀ call ∈ ((s.step op).run more).calls, call.client = c → ∀ f, f.requestId = call.listener.id →
        (Switchboard.deliver shared f).run ((s.step op).run more).world.exchange =
          (.unknownRequest, ((s.step op).run more).world.exchange)

/-- In a run in which the numbers do not go round nobody is given a number of a destroyed client. -/
theorem staysParted_of_few {lastId : RequestId} {ops more : List Op}
    (hcoherent : ((Session.start lastId).run ops).ground.IsCoherent)
    (hgone : Gone c ((Session.start lastId).run ops).ground)
    (hfew : (((Session.start lastId).run ops).run more).calls.length < 4294967295) :
    ((Session.start lastId).run ops).HasNumbers more ∧ ((Session.start lastId).run ops).StaysParted c more := by
  induction more generalizing ops with
  | nil => exact ⟨trivial, trivial⟩
  | cons op more ih =>
    have hlength : ((Session.start lastId).run ops).calls.length ≤
        (((Session.start lastId).run ops).run (op :: more)).calls.length :=
      Changes.length_calls (changes_run _ (op :: more) (shared_of_coherent hcoherent))
    have hsound := sound_run lastId ops (Nat.lt_of_le_of_lt hlength hfew)
    have hnumber : ((Session.start lastId).run ops).HasNumber op := fun _ =>
      Nat.lt_of_le_of_lt (length_calls_le hsound) (Nat.lt_of_le_of_lt hlength hfew)
    have hafter := run_concat (Session.start lastId) ops op
    have hgone' := Changes.gone (step_changes _ op (shared_of_coherent hcoherent)) hgone
    have hrest := @ih (ops ++ [op])
    rw [hafter] at hrest
    obtain ⟨hnumbers, hparted⟩ := hrest (coherent_step hnumber hcoherent) hgone' hfew
    exact ⟨⟨hnumber, hnumbers⟩, parted_of_sound hsound hcoherent hgone, hparted⟩

/-- In every session, destroying a client releases its own calls and no others. -/
theorem destroy_releases_own (lastId : RequestId) (ops : List Op) (hnumbers : (Session.start lastId).HasNumbers ops)
    (c : ClientId) (hc : ((Session.start lastId).run ops).HasClient c) (op : Op)
    (hop : ((Session.start lastId).run ops).Destroys c op) : Ends ((Session.start lastId).run ops) op c := by
  have hs := coherent_run hnumbers (coherent_start lastId)
  have hnumber : ((Session.start lastId).run ops).HasNumber op := by
    intro hgrows
    obtain ⟨c', method, params, rfl⟩ := exists_request hgrows
    exact hop.elim
  have ht := coherent_step hnumber hs
  have hbeside := beside_destroys hs hc hop ht
  constructor
  case released => exact released hs hc hop
  case silent =>
    intro more hmore
    refine silent_of_gone (coherent_run hmore ht) ?_
    exact Changes.gone (changes_run _ more (shared_of_coherent ht)) hbeside.gone
  case unaware =>
    intro more hmore hparted
    exact (hbeside.run (voices_destroys hop).symm hmore hparted).unaware
  case few =>
    intro more hfew
    rw [← run_concat] at hfew ht ⊢
    have hgone : Gone c ((Session.start lastId).run (ops ++ [op])).ground := by
      rw [run_concat]
      exact hbeside.gone
    obtain ⟨hmore, hparted⟩ := staysParted_of_few ht hgone hfew
    refine ⟨hmore, hparted, fun call hcall hown f hid => ?_⟩
    have hsound := sound_run lastId (ops ++ [op] ++ more) (by simpa [run] using hfew)
    have hrun : (Session.start lastId).run (ops ++ [op] ++ more) =
        ((Session.start lastId).run (ops ++ [op])).run more := by simp [run]
    rw [hrun] at hsound
    exact unknown_of_sound hsound (coherent_run hmore ht)
      (Changes.gone (changes_run _ more (shared_of_coherent ht)) hgone) hcall hown hid

/-- Two clients have a call each, and the first call is waited for. -/
def callEach : List Op :=
  [.join ticking, .join ticking, .createContextFrom ⟨0⟩ "", .createContextFrom ⟨1⟩ "",
    .request ⟨0⟩ "ticks" [], .request ⟨1⟩ "ticks" [], .act 0 (.wait 0 none)]

/-- The answers to both calls come, and both readers look at them. -/
def bothAnswered : List Op :=
  [.deliver ⟨1, [50], .success, true⟩, .deliver ⟨2, [50], .success, true⟩, .act 0 (.poll 0),
    .act 1 (.wait 0 none), .act 1 (.poll 0)]

theorem destroy_releases_own_first :
    (Session.start 0).HasNumbers callEach ∧ ((Session.start 0).run callEach).HasClient ⟨0⟩ ∧
      ((Session.start 0).run callEach).Destroys ⟨0⟩ (.destroy ⟨0⟩) ∧
      Ends ((Session.start 0).run callEach) (.destroy ⟨0⟩) ⟨0⟩ ∧
      Unaware ((((Session.start 0).run callEach).step (.destroy ⟨0⟩)).run bothAnswered)
        (((Session.start 0).run callEach).run (quieted ⟨0⟩ bothAnswered)) ⟨0⟩ := by
  have hnumbers : (Session.start 0).HasNumbers callEach := by decide +kernel
  have hc : ((Session.start 0).run callEach).HasClient ⟨0⟩ := by decide +kernel
  have hop : ((Session.start 0).run callEach).Destroys ⟨0⟩ (.destroy ⟨0⟩) := by decide +kernel
  have hends := destroy_releases_own 0 callEach hnumbers ⟨0⟩ hc (.destroy ⟨0⟩) hop
  have hfew : ((((Session.start 0).run callEach).step (.destroy ⟨0⟩)).run bothAnswered).calls.length < 4294967295 := by
    decide +kernel
  obtain ⟨hmore, hparted, -⟩ := hends.few bothAnswered hfew
  exact ⟨hnumbers, hc, hop, hends, hends.unaware bothAnswered hmore hparted⟩

end Session

end Switchboard
