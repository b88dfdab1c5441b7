import Switchboard.Proofs.Session.Alike
import Switchboard.Proofs.Session.Outstanding
/-!
The same things happen in two sessions that differ in one client only. They go on to differ in this client only, as
long as the calls of the client are not mixed up with those of others.
-/
namespace Switchboard

open Exchange

/-- How an engine answers. -/
def Engine.voice (e : Engine) : List (String × List Frame) × Bytes := (e.routes, e.contextResponse)

/-- How the engines of a world answer. -/
def World.voices (w : World) : List (List (String × List Frame) × Bytes) := w.engines.map Engine.voice

namespace World

variable {w w' : World} {e : EngineId} {c : ClientId}

theorem voice_engine (w : World) (e : EngineId) :
    (w.engine e).voice = w.voices.getD e.index (Engine.voice {}) := by
  simp [engine, voices, List.getD_eq_getElem?_getD]

/-- What is put on the record of an engine does not change how it answers. -/
theorem voices_record {f : Engine → Engine} (hf : ∀ e, (f e).voice = e.voice) :
    (w.engines.set e.index (f (w.engine e))).map Engine.voice = w.voices := map_set_getD hf

theorem voices_createContextFrom (config : String) :
    (Client.createContextFrom c config w).2.voices = w.voices := by
  cases hrefusal : Client.contextRefusal? (w.client c).lifecycle config with
  | some err => rw [Client.createContextFrom_of_refusal hrefusal]
  | none =>
    rw [(Client.createContextFrom_of_accepted hrefusal).2]
    have hrecorded : (Client.configured c config w).voices = w.voices :=
      voices_record (f := fun e => { e with configs := e.configs ++ [config] }) fun _ => rfl
    split
    case h_1 => exact hrecorded
    case h_2 => exact hrecorded

theorem voices_destroy : ((Client.destroy c).run w).2.voices = w.voices := by
  rw [Client.destroy_world]
  exact voices_record
    (f := fun e => { e with destroyed := e.destroyed ++ (w.client c).lifecycle.contexts }) fun _ => rfl

theorem voices_release : (Client.release c w).2.voices = w.voices := by
  rw [Client.release_run]
  split
  · exact voices_destroy
  · rfl

theorem voices_requestAnswered (method : String) (params : Bytes) :
    (Client.requestAnswered c method params w).2.voices = w.voices := by
  obtain ⟨err, -, hrefused⟩ | ⟨-, context, -, l, x, fs, -, -, -, -, -, outcomes, hengines⟩ :=
    Client.requestAnswered_run c method params w
  · rw [hrefused]
  · unfold voices
    rw [hengines]
    exact voices_record (f := fun engine => { engine with
      requests := engine.requests ++ [⟨context, method, params, l.id⟩]
      lastTable := some (w.client c).table
      outcomes }) fun _ => rfl

end World

namespace Session

variable {h : Hidden} {c c' : ClientId} {s u v : Session}

theorem ground_act {call : Call} {i : Nat} (hi : s.calls[i]? = some call) (a : Act) :
    (s.step (.act i a)).ground =
      ⟨(call.reader.act a s.world.exchange).2, s.world.clients,
        s.calls.set i { call with reader := (call.reader.act a s.world.exchange).1.2 },
        s.history ++ (call.reader.act a s.world.exchange).1.1.map (.read i)⟩ := by
  simp only [step, hi]
  rfl

section Own

/-- What changes about the client itself is hidden, except its shutdown signal. -/
theorem alike_own (world : World) (hexchange : world.exchange = s.world.exchange) (f : Client → Client)
    (hf : ∀ d, (f d).shutdown = d.shutdown)
    (hclients : world.clients = s.world.clients.set c.index (f (s.world.client c))) :
    Alike h c s.ground { s with world }.ground := by
  constructor
  case exchange =>
    show Agree h s.world.exchange world.exchange
    rw [hexchange]
    exact .refl h _
  case calls => rfl
  case clients =>
    intro k hk
    show world.clients[k]? = _
    rw [hclients, List.getElem?_set_ne (Ne.symm hk)]
    rfl
  case shutdowns =>
    show world.clients.map Client.shutdown = _
    rw [hclients]
    exact map_set_getD hf

theorem alike_createContextFrom (config : String) :
    Alike h c s.ground { s with world := (Client.createContextFrom c config s.world).2 }.ground := by
  obtain ⟨hexchange, hclients | ⟨-, context, hclients⟩⟩ :=
    Client.createContextFrom_clients (c := c) (w := s.world) config
  · refine alike_own _ hexchange id (fun _ => rfl) ?_
    rw [hclients]
    exact set_getD_self.symm
  · exact alike_own _ hexchange (fun client => { client with lifecycle := .active context }) (fun _ => rfl) hclients

theorem alike_letGo : Alike h c s.ground { s with world := Client.letGo c s.world }.ground :=
  alike_own (Client.letGo c s.world) rfl (fun client => { client with holders := client.holders - 1 }) (fun _ => rfl) rfl

variable (hides : Hides h c s.ground) (hs : s.ground.IsCoherent) (hc : s.HasClient c)
include hides hs hc

theorem alike_destroy : Alike h c s.ground { s with world := ((Client.destroy c).run s.world).2 }.ground := by
  have hclient := List.getElem?_eq_getElem hc
  have hat := World.client_of_getElem? (w := s.world) hclient
  constructor
  case exchange =>
    show Agree h s.world.exchange ((Client.destroy c).run s.world).2.exchange
    rw [(Client.destroy_run c s.world).1, hat, hs.tableOf _ _ hclient]
    exact hides.agree_withoutOwned hs hclient
  case calls => rfl
  case clients =>
    intro k hk
    show ((Client.destroy c).run s.world).2.clients[k]? = _
    rw [(Client.destroy_run c s.world).2, List.getElem?_set_ne (Ne.symm hk)]
    rfl
  case shutdowns =>
    show ((Client.destroy c).run s.world).2.clients.map Client.shutdown = _
    rw [(Client.destroy_run c s.world).2]
    exact map_set_getD (f := fun client : Client => { client with lifecycle := .destroyed }) fun _ => rfl

theorem alike_release : Alike h c s.ground { s with world := (Client.release c s.world).2 }.ground := by
  have hletGo : Alike h c s.ground { s with world := Client.letGo c s.world }.ground := alike_letGo
  rw [Client.release_run]
  split
  case isFalse => exact hletGo
  case isTrue =>
    have hcoherent : { s with world := Client.letGo c s.world }.ground.IsCoherent :=
      Changes.coherent (g := s.ground) (changes_hold (w := s.world) (c := c) (· - 1)) rfl hs
    refine hletGo.trans (alike_destroy (s := { s with world := Client.letGo c s.world }) (hletGo.hides hides) hcoherent ?_)
    show c.index < (Client.letGo c s.world).clients.length
    rw [Client.letGo, List.length_set]
    exact hc

omit hc in
/-- What a reader of the client does is hidden, as long as no other call is in the table under its number. -/
theorem alike_act {call : Call} {i : Nat} {a : Act} (hi : s.calls[i]? = some call) (hown : call.client = c)
    (hnone : ∀ e ∈ (s.world.exchange.table shared).calls, e.1 = call.listener.id → h.queue e.2.queue) :
    Alike h c s.ground (s.step (.act i a)).ground := by
  rw [ground_act hi a]
  constructor
  case exchange => exact hides.agree_onward hs hi hown (Coherent.act_reads hs hi a).1.onward hnone
  case calls =>
    refine map_set_of_getElem? hi ?_
    rw [seen_eq_iff]
    exact ⟨rfl, rfl, fun hother => absurd hown hother⟩
  case clients => exact fun _ _ => rfl
  case shutdowns => rfl

end Own

section Other

variable (halike : Alike h c u.ground v.ground)
include halike

/-- What changes about another client changes alike. -/
theorem Alike.other {world world' : World} (hexchange : Agree h world.exchange world'.exchange) (client : Client)
    (hclients : world.clients = u.world.clients.set c'.index client)
    (hclients' : world'.clients = v.world.clients.set c'.index client) :
    Alike h c { u with world }.ground { v with world := world' }.ground := by
  constructor
  case exchange => exact hexchange
  case calls => exact halike.calls
  case clients =>
    intro k hk
    show world'.clients[k]? = world.clients[k]?
    have hsame : v.world.clients[k]? = u.world.clients[k]? := halike.clients k hk
    have hlength := congrArg List.length halike.shutdowns
    rw [List.length_map, List.length_map] at hlength
    have hlength : v.world.clients.length = u.world.clients.length := hlength
    rw [hclients, hclients', List.getElem?_set, List.getElem?_set, hsame, hlength]
  case shutdowns =>
    show world'.clients.map Client.shutdown = world.clients.map Client.shutdown
    have hsame : v.world.clients.map Client.shutdown = u.world.clients.map Client.shutdown := halike.shutdowns
    rw [hclients, hclients', List.map_set, List.map_set, hsame]

variable (hother : c' ≠ c)
include hother

theorem Alike.client : v.world.client c' = u.world.client c' := by
  have hindex : c'.index ≠ c.index := fun heq => hother (congrArg ClientId.mk heq)
  have hsame : v.world.clients[c'.index]? = u.world.clients[c'.index]? := halike.clients _ hindex
  unfold World.client
  rw [List.getD_eq_getElem?_getD, List.getD_eq_getElem?_getD, hsame]

theorem Alike.createContextFrom (hvoices : v.world.voices = u.world.voices) (config : String) :
    Alike h c { u with world := (Client.createContextFrom c' config u.world).2 }.ground
      { v with world := (Client.createContextFrom c' config v.world).2 }.ground := by
  have hclient := halike.client hother
  cases hrefusal : Client.contextRefusal? (u.world.client c').lifecycle config with
  | some err =>
    rw [Client.createContextFrom_of_refusal hrefusal, Client.createContextFrom_of_refusal (hclient ▸ hrefusal)]
    exact halike
  | none =>
    have hvoice : (v.world.engine (u.world.client c').engine).voice =
        (u.world.engine (u.world.client c').engine).voice := by
      rw [World.voice_engine, World.voice_engine, hvoices]
    have hresponse : (v.world.engine (u.world.client c').engine).contextResponse =
        (u.world.engine (u.world.client c').engine).contextResponse := congrArg Prod.snd hvoice
    rw [(Client.createContextFrom_of_accepted hrefusal).2,
      (Client.createContextFrom_of_accepted (hclient ▸ hrefusal)).2, hclient, hresponse]
    cases Client.contextOf (u.world.engine (u.world.client c').engine).contextResponse with
    | error err => exact halike
    | ok context =>
      exact halike.other halike.exchange { u.world.client c' with lifecycle := .active context } rfl rfl

theorem Alike.destroy (htable : (u.world.client c').table = shared) :
    Alike h c { u with world := ((Client.destroy c').run u.world).2 }.ground
      { v with world := ((Client.destroy c').run v.world).2 }.ground := by
  refine halike.other ?_ { u.world.client c' with lifecycle := .destroyed } (Client.destroy_run c' u.world).2 ?_
  · rw [(Client.destroy_run c' u.world).1, (Client.destroy_run c' v.world).1, halike.client hother, htable]
    exact halike.exchange.withoutOwned
  · rw [(Client.destroy_run c' v.world).2, halike.client hother]

theorem Alike.release (htable : (u.world.client c').table = shared) :
    Alike h c { u with world := (Client.release c' u.world).2 }.ground
      { v with world := (Client.release c' v.world).2 }.ground := by
  have hclient := halike.client hother
  have hletGo : Alike h c { u with world := Client.letGo c' u.world }.ground
      { v with world := Client.letGo c' v.world }.ground := by
    refine halike.other halike.exchange
      { u.world.client c' with holders := (u.world.client c').holders - 1 } rfl ?_
    rw [Client.letGo, hclient]
  have hafter : (Client.letGo c' v.world).client c' = (Client.letGo c' u.world).client c' :=
    hletGo.client (u := { u with world := Client.letGo c' u.world })
      (v := { v with world := Client.letGo c' v.world }) hother
  rw [Client.release_run, Client.release_run, hafter]
  split
  case isFalse => exact hletGo
  case isTrue =>
    refine hletGo.destroy (u := { u with world := Client.letGo c' u.world })
      (v := { v with world := Client.letGo c' v.world }) hother ?_
    show (World.client _ _).table = shared
    rw [World.client, Client.letGo, getD_set]
    split
    case isTrue => exact htable
    case isFalse => exact htable

end Other

section Calls

variable {g g' : Ground}

theorem Change.gone (hchange : Change g g') (hgone : Gone c g) : Gone c g' := by
  obtain ⟨client, hc, hdestroyed⟩ := hgone
  cases hchange with
  | relabel hd htable hshutdown hlifecycle =>
    obtain ⟨hindex, rfl⟩ | hsame := eq_or_getElem?_set hd hc _
    · refine ⟨_, ?_, hlifecycle.2 hdestroyed⟩
      rw [hindex]
      exact List.getElem?_set_self (List.getElem?_eq_some_iff.1 hd).1
    · exact ⟨client, hsame, hdestroyed⟩
  | @destroy _ _ _ _ d before hd =>
    obtain ⟨hindex, rfl⟩ | hsame := eq_or_getElem?_set hd hc { before with lifecycle := .destroyed }
    · refine ⟨{ client with lifecycle := .destroyed }, ?_, rfl⟩
      rw [hindex]
      exact List.getElem?_set_self (List.getElem?_eq_some_iff.1 hd).1
    · exact ⟨client, hsame, hdestroyed⟩
  | join => exact ⟨client, getElem?_concat.2 (.inl hc), hdestroyed⟩
  | _ => exact ⟨client, hc, hdestroyed⟩

theorem Changes.gone (hchanges : Changes g g') (hgone : Gone c g) : Gone c g' := by
  induction hchanges with
  | refl => exact hgone
  | tail _ hlast ih => exact hlast.gone ih

theorem Change.length_clients (hchange : Change g g') : g.clients.length ≤ g'.clients.length := by
  cases hchange with
  | relabel | destroy | join => simp
  | _ => exact Nat.le_refl _

/-- What is hidden stays the same through changes that issue no call. -/
theorem Changes.hides (hchanges : Changes g g') (hsame : g'.calls.length = g.calls.length) (hg : g.IsCoherent)
    (hc : c.index < g.clients.length) (hides : Hides h c g) : Hides h c g' ∧ c.index < g'.clients.length := by
  induction hchanges with
  | refl => exact ⟨hides, hc⟩
  | tail hbefore hlast ih =>
    have hlength := hlast.length_calls
    have hlength' := Changes.length_calls hbefore
    obtain ⟨hhides, hlt⟩ := ih (by omega)
    refine ⟨hlast.hides (Changes.coherent hbefore (by omega) hg) hlt (fun call hcall => ?_) hhides,
      Nat.lt_of_lt_of_le hlt hlast.length_clients⟩
    have hbound := (List.getElem?_eq_some_iff.1 hcall).1
    omega

theorem Gone.lt (hgone : Gone c g) : c.index < g.clients.length := by
  obtain ⟨client, hc, -⟩ := hgone
  exact (List.getElem?_eq_some_iff.1 hc).1

namespace Beside

variable (hbeside : Beside h c g g')
include hbeside

theorem lt : c.index < g'.clients.length := by
  have hlength := congrArg List.length hbeside.shutdowns
  rw [List.length_map, List.length_map] at hlength
  rw [hlength]
  exact hbeside.gone.lt

/-- Both sessions go through changes that issue no call. -/
theorem changes {p q : Ground} (halike : Alike h c p q) (hchanges : Changes g p) (hchanges' : Changes g' q)
    (hsame : p.calls.length = g.calls.length) (hsame' : q.calls.length = g'.calls.length) :
    Beside h c p q where
  toAlike := halike
  left := hchanges.coherent hsame hbeside.left
  right := hchanges'.coherent hsame' hbeside.right
  hides := (Changes.hides hchanges' hsame' hbeside.right hbeside.lt hbeside.hides).1
  gone := Changes.gone hchanges hbeside.gone

/-- What an engine delivers is delivered alike. -/
theorem deliverAll (fs : List Fragment) :
    Agree h (Client.deliverAll shared fs g.exchange).2 (Client.deliverAll shared fs g'.exchange).2 := by
  induction fs generalizing g g' with
  | nil => exact hbeside.exchange
  | cons f rest ih =>
    have hagree := (hbeside.deliver f).1
    exact ih (hbeside.changes (p := ⟨_, g.clients, g.calls, _⟩) (q := ⟨_, g'.clients, g'.calls, _⟩)
      ⟨hagree, hbeside.calls, hbeside.clients, hbeside.shutdowns⟩ (.single (.deliver f)) (.single (.deliver f)) rfl rfl)

/-- A call that another client issues is issued under the same number, unless this is the number of a call of the
client. -/
theorem nextId (hfree : (g.exchange.table shared).find? (g.exchange.table shared).nextId = none)
    (hown : ∀ call ∈ g.calls, call.client = c → call.listener.id ≠ (g.exchange.table shared).nextId) :
    (g'.exchange.table shared).nextId = (g.exchange.table shared).nextId ∧
      (g'.exchange.table shared).find? (g.exchange.table shared).nextId = none := by
  have hfree' : (g'.exchange.table shared).find? (g.exchange.table shared).nextId = none := by
    obtain ⟨-, habsent⟩ | ⟨i, call, -, -, -, hid, htable, hlive, -⟩ | ⟨-, i, call, hi, hclient, hid, -⟩ :=
      hbeside.find_cases (g.exchange.table shared).nextId
    · exact habsent
    · have hentry := hlive.entry
      rw [htable, ← hid, hfree] at hentry
      cases hentry
    · obtain ⟨d, hd, hseen⟩ := hbeside.call_at hi
      obtain ⟨hsame, hlistener, -⟩ := seen_eq_iff.1 hseen
      refine absurd ?_ (hown d (List.mem_of_getElem? hd) (hsame.trans hclient))
      rw [hlistener]
      exact hid.symm
  refine ⟨Table.nextId_of_subset (hbeside.exchange.lastId shared) hbeside.left.keyed (fun e he => ?_) hfree', hfree'⟩
  exact hbeside.subset he

theorem issue {client : Client} {l : Listener} {x y : Exchange} {events events' : List Event}
    (hc : g.clients[c'.index]? = some client) (hc' : g'.clients[c'.index]? = some client)
    (hother : c' ≠ c) (hactive : client.lifecycle ≠ .destroyed)
    (hfree : (g.exchange.table shared).find? (g.exchange.table shared).nextId = none)
    (hnew : (g'.exchange.table shared).nextId = (g.exchange.table shared).nextId ∧
      (g'.exchange.table shared).find? (g.exchange.table shared).nextId = none)
    (hopen : Client.openCall shared client.shutdown g.exchange = (l, x))
    (hopen' : Client.openCall shared client.shutdown g'.exchange = (l, y)) (hagree : Agree h x y) :
    Beside h c ⟨x, g.clients, g.calls ++ [⟨c', l, .handle l⟩], events⟩
      ⟨y, g'.clients, g'.calls ++ [⟨c', l, .handle l⟩], events'⟩ where
  exchange := hagree
  calls := by
    have hcalls : g'.calls.map (seen c) = g.calls.map (seen c) := hbeside.calls
    show (g'.calls ++ _).map (seen c) = (g.calls ++ _).map (seen c)
    rw [List.map_append, List.map_append, hcalls]
  clients := hbeside.clients
  shutdowns := hbeside.shutdowns
  left := Coherent.issue hbeside.left hc hactive hfree hopen
  right := Coherent.issue hbeside.right hc' hactive (hnew.1 ▸ hnew.2) hopen'
  hides := by
    have hissue : Change g' ⟨y, g'.clients, g'.calls ++ [⟨c', l, .handle l⟩], g'.history ++ [.issued l.id]⟩ :=
      .issue hc' hactive hopen'
    have hafter := hissue.hides hbeside.right hbeside.lt (fun call hcall => ?_) hbeside.hides
    · exact ⟨hafter.queue, hafter.control, hafter.signal⟩
    · obtain hcall | ⟨-, rfl⟩ := getElem?_concat.1 hcall
      · exact absurd (List.getElem?_eq_some_iff.1 hcall).1 (Nat.lt_irrefl _)
      · exact hother
  gone := hbeside.gone

end Beside

end Calls

/-- The calls of a client are not mixed up with those of others: their readers do nothing about a number that is
outstanding for another call, and no other client is given such a number. -/
def Parted (s : Session) (c : ClientId) : Op → Prop
  | .request c' _ _ =>
    c' ≠ c → ∀ call ∈ s.calls, call.client = c → call.listener.id ≠ (s.world.exchange.table shared).nextId
  | .act i _ => ∀ call ∈ s.calls[i]?, call.client = c →
    ∀ e ∈ (s.world.exchange.table shared).calls, e.1 ≠ call.listener.id
  | _ => True

/-- The same at every step of a run. -/
def StaysParted (s : Session) (c : ClientId) : List Op → Prop
  | [] => True
  | op :: ops => s.Parted c op ∧ (s.step op).StaysParted c ops

/-- Whether somebody sends a request through a client. -/
def sends (c : ClientId) : Op → Bool
  | .request c' _ _ => c' = c
  | _ => false

/-- What happens if a client sends no more requests. -/
def quieted (c : ClientId) (ops : List Op) : List Op := ops.filter fun op => !sends c op

/-- The client that joins next. -/
def newClient (w : World) : Client where
  engine := ⟨w.engines.length⟩
  table := shared
  shutdown := (newSignal w.exchange).1

theorem ground_join (s : Session) (e : Engine) :
    (s.step (.join e)).ground = ⟨(newSignal s.world.exchange).2,
      s.world.clients ++ [newClient s.world], s.calls, s.history⟩ := by
  have hshared : ((World.addEngine { e with sharedTable := some shared } s.world).2.engine
      ⟨s.world.engines.length⟩).sharedTable = some shared := by
    simp [World.addEngine, World.engine, List.getD_eq_getElem?_getD]
  obtain ⟨hexchange, hclients⟩ := Client.create_of_shared hshared
  exact congrArg₂ (fun exchange clients => Ground.mk exchange clients s.calls s.history) hexchange hclients

theorem voices_join (s : Session) (e : Engine) :
    (s.step (.join e)).world.voices = s.world.voices ++ [e.voice] := by
  have hengines : (s.step (.join e)).world.engines = s.world.engines ++ [{ e with sharedTable := some shared }] := by
    simp only [step, World.addEngine, Client.create, World.engine, List.getD_eq_getElem?_getD, stateM_bind,
      stateM_get, List.getElem?_concat_length, Option.getD_some]
    rfl
  rw [World.voices, hengines, List.map_append]
  rfl

/-- The engines of two sessions that answer alike go on to do so. -/
theorem voices_step (hvoices : v.world.voices = u.world.voices) (op : Op) :
    (v.step op).world.voices = (u.step op).world.voices := by
  have hsame (s : Session) (hnew : ∀ e, op ≠ .join e) (hset : ∀ e engine, op ≠ .teach e engine) :
      (s.step op).world.voices = s.world.voices := by
    cases op with
    | join e => exact absurd rfl (hnew e)
    | teach e engine => exact absurd rfl (hset e engine)
    | createContext c settings => exact World.voices_createContextFrom (Client.configOf settings)
    | createContextFrom c config => exact World.voices_createContextFrom config
    | request c method params =>
      have hrecorded := World.voices_requestAnswered (w := s.world) (c := c) method params
      simp only [step]
      generalize Client.requestAnswered c method params s.world = answered at hrecorded ⊢
      obtain ⟨result, world⟩ := answered
      cases result with
      | error err => exact hrecorded
      | ok answer => exact hrecorded
    | deliver | copy => rfl
    | act i a =>
      simp only [step]
      split
      case h_1 => rfl
      case h_2 => rfl
    | unsubscribe c id =>
      simp only [step]
      split
      case isFalse => rfl
      case isTrue =>
        rw [Client.unsubscribe_run]
        rfl
    | destroy c =>
      simp only [step]
      split
      case isFalse => rfl
      case isTrue => exact World.voices_destroy
    | release c =>
      simp only [step]
      split
      case isFalse => rfl
      case isTrue => exact World.voices_release
  cases op with
  | join e => rw [voices_join, voices_join, hvoices]
  | teach e engine =>
    show (v.world.engines.set e.index engine).map Engine.voice = (u.world.engines.set e.index engine).map Engine.voice
    have hvoices : v.world.engines.map Engine.voice = u.world.engines.map Engine.voice := hvoices
    rw [List.map_set, List.map_set, hvoices]
  | _ => rw [hsame u (by simp) (by simp), hsame v (by simp) (by simp), hvoices]

theorem table_eq (hs : s.ground.IsCoherent) (hc : s.HasClient c) : (s.world.client c).table = shared := by
  have hclient := List.getElem?_eq_getElem hc
  rw [World.client_of_getElem? hclient]
  exact hs.tableOf _ _ hclient

namespace Beside

variable (hbeside : Beside h c u.ground v.ground)
include hbeside

theorem hasClient_iff (c' : ClientId) : v.HasClient c' ↔ u.HasClient c' := by
  have hlength := congrArg List.length hbeside.shutdowns
  rw [List.length_map, List.length_map] at hlength
  unfold HasClient
  rw [show v.world.clients.length = u.world.clients.length from hlength]

/-- What is hidden on both sides leaves the sessions alike. -/
theorem hidden {g g' : Ground} (hleft : Alike h c u.ground g) (hright : Alike h c v.ground g') : Alike h c g g' :=
  hleft.symm.trans (hbeside.toAlike.trans hright)

/-- The same client joins. -/
theorem join (hvoices : v.world.voices = u.world.voices) (e : Engine) :
    Alike h c (u.step (.join e)).ground (v.step (.join e)).ground := by
  have hengines := congrArg List.length hvoices
  simp only [World.voices, List.length_map] at hengines
  obtain ⟨hsignal, hagree⟩ := hbeside.exchange.newSignal
  have hclient : newClient v.world = newClient u.world := by
    unfold newClient
    rw [hengines, show (newSignal v.world.exchange).1 = (newSignal u.world.exchange).1 from hsignal]
  have hlength := congrArg List.length hbeside.shutdowns
  rw [List.length_map, List.length_map] at hlength
  rw [ground_join, ground_join, hclient]
  constructor
  case exchange => exact hagree
  case calls => exact hbeside.calls
  case clients =>
    intro k hk
    show (v.ground.clients ++ _)[k]? = (u.ground.clients ++ _)[k]?
    rw [List.getElem?_append, List.getElem?_append, hlength, hbeside.clients k hk]
  case shutdowns =>
    show (v.ground.clients ++ _).map _ = (u.ground.clients ++ _).map _
    rw [List.map_append, List.map_append, hbeside.shutdowns]

theorem createContextFrom (hvoices : v.world.voices = u.world.voices) (c' : ClientId) (config : String) :
    Alike h c { u with world := (Client.createContextFrom c' config u.world).2 }.ground
      { v with world := (Client.createContextFrom c' config v.world).2 }.ground := by
  by_cases hown : c' = c
  · subst hown
    exact hbeside.hidden (alike_createContextFrom _) (alike_createContextFrom _)
  · exact hbeside.toAlike.createContextFrom hown hvoices _

/-- The reader of a call goes on alike. If the call is one of the client, what it does is hidden. -/
theorem act (i : Nat) (a : Act) (hparted : u.Parted c (.act i a)) :
    Alike h c (u.step (.act i a)).ground (v.step (.act i a)).ground := by
  cases hi : v.calls[i]? with
  | none =>
    have hi' : u.calls[i]? = none := by
      cases hi' : u.calls[i]? with
      | none => rfl
      | some call =>
        obtain ⟨d, hd, -⟩ := hbeside.toAlike.symm.call_at hi'
        cases hi.symm.trans hd
    simp only [step, hi, hi']
    exact hbeside.toAlike
  | some call =>
    by_cases hown : call.client = c
    · obtain ⟨d, hd, hseen⟩ := hbeside.call_at hi
      obtain ⟨hclient, hlistener, -⟩ := seen_eq_iff.1 hseen
      have hnumber := hparted d hd (hclient.trans hown)
      refine hbeside.hidden
        (alike_act hbeside.hides_left hbeside.left hd (hclient.trans hown) fun e he heq => ?_)
        (alike_act hbeside.hides hbeside.right hi hown fun e he heq => ?_)
      · exact absurd heq (hnumber e he)
      · by_contra hvisible
        rw [← hlistener] at heq
        exact hnumber e ((hbeside.entries hvisible).1 he) heq
    · have hi' : u.calls[i]? = some call := hbeside.call_of_other hi hown
      obtain ⟨hsame, hagree⟩ := hbeside.act_of_other hi hown a
      have hsame : (call.reader.act a v.world.exchange).1 = (call.reader.act a u.world.exchange).1 := hsame
      have hcalls : v.calls.map (seen c) = u.calls.map (seen c) := hbeside.calls
      rw [ground_act hi a, ground_act hi' a, hsame]
      refine ⟨hagree, ?_, hbeside.clients, hbeside.shutdowns⟩
      show (v.calls.set i _).map (seen c) = (u.calls.set i _).map (seen c)
      rw [List.map_set, List.map_set, hcalls]

/-- Everything but a request goes on alike. -/
theorem alike_step (hvoices : v.world.voices = u.world.voices) (op : Op) (hparted : u.Parted c op)
    (hnone : ∀ c method params, op ≠ .request c method params) :
    Alike h c (u.step op).ground (v.step op).ground := by
  cases op with
  | request c method params => exact absurd rfl (hnone c method params)
  | join e => exact hbeside.join hvoices e
  | teach e engine => exact hbeside.toAlike
  | createContext c' settings => exact hbeside.createContextFrom hvoices c' (Client.configOf settings)
  | createContextFrom c' config => exact hbeside.createContextFrom hvoices c' config
  | deliver f => exact ⟨(hbeside.deliver f).1, hbeside.calls, hbeside.clients, hbeside.shutdowns⟩
  | act i a => exact hbeside.act i a hparted
  | unsubscribe c' id =>
    simp only [step, hbeside.hasClient_iff c']
    split
    case isFalse => exact hbeside.toAlike
    case isTrue hc =>
      rw [Client.unsubscribe_run, Client.unsubscribe_run, table_eq hbeside.left hc,
        table_eq hbeside.right ((hbeside.hasClient_iff c').2 hc)]
      exact ⟨hbeside.stopDeliveries id, hbeside.calls, hbeside.clients, hbeside.shutdowns⟩
  | destroy c' =>
    simp only [step, hbeside.hasClient_iff c']
    split
    case isFalse => exact hbeside.toAlike
    case isTrue hc =>
      by_cases hown : c' = c
      · subst hown
        exact hbeside.hidden (alike_destroy hbeside.hides_left hbeside.left hc)
          (alike_destroy hbeside.hides hbeside.right ((hbeside.hasClient_iff c').2 hc))
      · exact hbeside.toAlike.destroy hown (table_eq hbeside.left hc)
  | copy c' =>
    by_cases hown : c' = c
    · subst hown
      have hcopied (s : Session) : Alike h c' s.ground { s with world := (Client.copy c' s.world).2 }.ground :=
        alike_own _ rfl (fun client => { client with holders := client.holders + 1 }) (fun _ => rfl) rfl
      exact hbeside.hidden (hcopied u) (hcopied v)
    · refine hbeside.toAlike.other hbeside.exchange
        { u.world.client c' with holders := (u.world.client c').holders + 1 } rfl ?_
      rw [← hbeside.toAlike.client hown]
      rfl
  | release c' =>
    simp only [step, hbeside.hasClient_iff c']
    split
    case isFalse => exact hbeside.toAlike
    case isTrue hc =>
      by_cases hown : c' = c
      · subst hown
        exact hbeside.hidden (alike_release hbeside.hides_left hbeside.left hc)
          (alike_release hbeside.hides hbeside.right ((hbeside.hasClient_iff c').2 hc))
      · exact hbeside.toAlike.release hown (table_eq hbeside.left hc)

/-- Requests of other clients are issued and answered alike. -/
theorem request (hvoices : v.world.voices = u.world.voices) (method : String) (params : Bytes)
    (hother : c' ≠ c) (hnumber : u.HasNumber (.request c' method params))
    (hparted : u.Parted c (.request c' method params)) :
    Beside h c (u.step (.request c' method params)).ground (v.step (.request c' method params)).ground := by
  have hown := hparted hother
  have hclient := hbeside.toAlike.client hother
  obtain ⟨⟨err, hrefusal⟩, hrefused⟩ | ⟨haccepted, client, context, l, x, fs, hc, hactive, hopen, hfs, hground⟩ :=
    step_request (c := c') method params (shared_of_coherent hbeside.left)
  · obtain ⟨-, hrefused'⟩ | ⟨haccepted', -⟩ :=
      step_request (c := c') method params (shared_of_coherent hbeside.right)
    · rw [hrefused, hrefused']
      exact hbeside
    · rw [hclient, hrefusal] at haccepted'
      cases haccepted'
  · obtain ⟨⟨err, hrefusal'⟩, -⟩ |
      ⟨-, client', context', l', y, fs', hc', hactive', hopen', hfs', hground'⟩ :=
      step_request (c := c') method params (shared_of_coherent hbeside.right)
    · rw [hclient, haccepted] at hrefusal'
      cases hrefusal'
    · have hindex : c'.index ≠ c.index := fun heq => hother (congrArg ClientId.mk heq)
      obtain rfl : client' = client := by
        have hsame : v.world.clients[c'.index]? = u.world.clients[c'.index]? := hbeside.clients _ hindex
        rw [hc, hc', Option.some.injEq] at hsame
        exact hsame
      obtain rfl : context' = context := by
        rw [hactive, Lifecycle.active.injEq] at hactive'
        exact hactive'.symm
      have hgrows : u.calls.length < (u.step (.request c' method params)).calls.length := by
        have hcalls := congrArg (fun g => g.calls.length) hground
        simp only [ground, List.length_append, List.length_singleton] at hcalls
        omega
      have hfree := Table.find?_nextId (hnumber hgrows)
      have hnew := hbeside.nextId hfree hown
      obtain ⟨hlistener, hagree⟩ := hbeside.exchange.openCall (s := client'.shutdown) hbeside.left.tables
        hbeside.right.tables hnew.1
      rw [show u.ground.exchange = u.world.exchange from rfl, show v.ground.exchange = v.world.exchange from rfl,
        hopen, hopen'] at hlistener hagree
      obtain rfl : l' = l := hlistener
      have hissued : Beside h c ⟨x, u.world.clients, u.calls ++ [⟨c', l', .handle l'⟩],
            u.history ++ [.issued l'.id]⟩
          ⟨y, v.world.clients, v.calls ++ [⟨c', l', .handle l'⟩], v.history ++ [.issued l'.id]⟩ :=
        hbeside.issue hc hc' hother (by simp [hactive]) hfree hnew hopen hopen' hagree
      have hvoice : (v.world.engine client'.engine).voice = (u.world.engine client'.engine).voice := by
        rw [World.voice_engine, World.voice_engine, hvoices]
      obtain rfl : fs' = fs := by
        rw [hfs, hfs', Client.answerTo, Client.answerTo, Engine.framesFor, Engine.framesFor,
          show (v.world.engine client'.engine).routes = (u.world.engine client'.engine).routes from
            congrArg Prod.fst hvoice]
      rw [hground, hground', List.append_cons u.history, List.append_cons v.history]
      refine hissued.changes (p := ⟨_, _, _, _⟩) (q := ⟨_, _, _, _⟩) ?_ (changes_deliverAll fs')
        (changes_deliverAll fs') rfl rfl
      exact ⟨hissued.deliverAll fs', hissued.calls, hissued.clients, hissued.shutdowns⟩

/-- Whatever happens goes on alike, as long as the calls of the client are not mixed up with those of others. -/
theorem step (hvoices : v.world.voices = u.world.voices) {op : Op} (hquiet : sends c op = false)
    (hnumber : u.HasNumber op) (hparted : u.Parted c op) : Beside h c (u.step op).ground (v.step op).ground := by
  by_cases hrequest : ∃ c method params, op = .request c method params
  · obtain ⟨c', method, params, rfl⟩ := hrequest
    exact hbeside.request hvoices method params (by simpa [sends] using hquiet) hnumber hparted
  · have hnone : ∀ c method params, op ≠ .request c method params :=
      fun c method params heq => hrequest ⟨c, method, params, heq⟩
    have hsame (s : Session) (hs : s.ground.IsCoherent) : (s.step op).calls.length = s.calls.length := by
      refine Nat.le_antisymm (Nat.le_of_not_lt fun hgrows => hrequest (exists_request hgrows)) ?_
      exact Changes.length_calls (step_changes s op (shared_of_coherent hs))
    exact hbeside.changes (hbeside.alike_step hvoices op hparted hnone)
      (step_changes u op (shared_of_coherent hbeside.left)) (step_changes v op (shared_of_coherent hbeside.right))
      (hsame u hbeside.left) (hsame v hbeside.right)

end Beside

/-- A client that has been destroyed sends nothing. -/
theorem step_of_gone {op : Op} (hs : s.ground.IsCoherent) (hgone : Gone c s.ground) (hsends : sends c op = true) :
    s.step op = s := by
  cases op with
  | request c' method params =>
    obtain rfl : c' = c := by simpa [sends] using hsends
    obtain ⟨client, hc, hdestroyed⟩ := hgone
    obtain ⟨-, hrefused⟩ | ⟨-, client', context, l, x, fs, hc', hactive, -⟩ :=
      step_request (c := c') method params (shared_of_coherent hs)
    · exact hrefused
    · cases hc.symm.trans hc'
      rw [hdestroyed] at hactive
      cases hactive
  | _ => cases hsends

/-- Two sessions that differ in one client only go on to do so, if this client sends no more requests in the one in
which it is still there. -/
theorem Beside.run (hbeside : Beside h c u.ground v.ground) (hvoices : v.world.voices = u.world.voices)
    {ops : List Op} (hnumbers : u.HasNumbers ops) (hparted : u.StaysParted c ops) :
    Beside h c (u.run ops).ground (v.run (quieted c ops)).ground := by
  induction ops generalizing u v with
  | nil => exact hbeside
  | cons op ops ih =>
    cases hsends : sends c op with
    | true =>
      have hsame := step_of_gone hbeside.left hbeside.gone hsends
      have hquieted : quieted c (op :: ops) = quieted c ops := by simp [quieted, hsends]
      have hrest := ih hbeside hvoices (hsame ▸ hnumbers.2) (hsame ▸ hparted.2)
      rw [hquieted]
      show Beside h c ((u.step op).run ops).ground _
      rw [hsame]
      exact hrest
    | false =>
      have hquieted : quieted c (op :: ops) = op :: quieted c ops := by simp [quieted, hsends]
      rw [hquieted]
      exact ih (hbeside.step hvoices hsends hnumbers.1 hparted.1) (voices_step hvoices op) hnumbers.2 hparted.2

end Session

end Switchboard
