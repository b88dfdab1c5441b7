import Switchboard.Proofs.Client.Operations
import Switchboard.Proofs.Session.Basic
import Mathlib.Data.List.Induction
import Mathlib.Logic.Relation
/-!
What a session comes down to: seven kinds of change, of which everything that can happen is made. The engines
are left out, as they only decide what is delivered.
-/
namespace Switchboard.Session

open Exchange

/-- A session without its engines. -/
structure Ground where
  exchange : Exchange
  clients : List Client
  calls : List Call
  history : List Event

/-- The session without its engines. -/
def ground (s : Session) : Ground := ⟨s.world.exchange, s.world.clients, s.calls, s.history⟩

/-- One change: a reader acts, a fragment is delivered, somebody unsubscribes, something about a client
changes, a client is destroyed, a client joins, a call is issued. -/
inductive Change : Ground → Ground → Prop where
  | act {x : Exchange} {clients : List Client} {calls : List Call} {history : List Event} {i : Nat}
      {call : Call} (hi : calls[i]? = some call) (a : Act) :
      Change ⟨x, clients, calls, history⟩
        ⟨(call.reader.act a x).2, clients, calls.set i { call with reader := (call.reader.act a x).1.2 },
          history ++ (call.reader.act a x).1.1.map (.read i)⟩
  | deliver {x : Exchange} {clients : List Client} {calls : List Call} {history : List Event}
      (f : Fragment) :
      Change ⟨x, clients, calls, history⟩
        ⟨((Switchboard.deliver shared f).run x).2, clients, calls,
          history ++ [.delivery f ((Switchboard.deliver shared f).run x).1]⟩
  | unsubscribe {x : Exchange} {clients : List Client} {calls : List Call} {history : List Event}
      (id : RequestId) :
      Change ⟨x, clients, calls, history⟩
        ⟨((Client.stopDeliveries shared id).run x).2, clients, calls,
          history ++ [.unsubscribed id ((Client.stopDeliveries shared id).run x).1]⟩
  | relabel {x : Exchange} {clients : List Client} {calls : List Call} {history : List Event}
      {c : ClientId} {client client' : Client} (hc : clients[c.index]? = some client)
      (htable : client'.table = client.table) (hshutdown : client'.shutdown = client.shutdown)
      (hlifecycle : client'.lifecycle = .destroyed ↔ client.lifecycle = .destroyed) :
      Change ⟨x, clients, calls, history⟩ ⟨x, clients.set c.index client', calls, history⟩
  | destroy {x : Exchange} {clients : List Client} {calls : List Call} {history : List Event}
      {c : ClientId} {client : Client} (hc : clients[c.index]? = some client) :
      Change ⟨x, clients, calls, history⟩
        ⟨Client.withoutOwned shared client.shutdown x,
          clients.set c.index { client with lifecycle := .destroyed }, calls, history⟩
  | join {x : Exchange} {clients : List Client} {calls : List Call} {history : List Event}
      {client : Client} (htable : client.table = shared) (hshutdown : client.shutdown = (newSignal x).1)
      (hlifecycle : client.lifecycle ≠ .destroyed) :
      Change ⟨x, clients, calls, history⟩ ⟨(newSignal x).2, clients ++ [client], calls, history⟩
  | issue {x y : Exchange} {clients : List Client} {calls : List Call} {history : List Event}
      {c : ClientId} {client : Client} {l : Listener} (hc : clients[c.index]? = some client)
      (hactive : client.lifecycle ≠ .destroyed)
      (hopen : Client.openCall shared client.shutdown x = (l, y)) :
      Change ⟨x, clients, calls, history⟩
        ⟨y, clients, calls ++ [⟨c, l, .handle l⟩], history ++ [.issued l.id]⟩

/-- Changes one after another. -/
abbrev Changes : Ground → Ground → Prop := Relation.ReflTransGen Change

theorem Change.length_calls {g g' : Ground} (h : Change g g') : g.calls.length ≤ g'.calls.length := by
  cases h with
  | act => simp
  | issue => simp
  | _ => exact Nat.le_refl _

theorem Changes.length_calls {g g' : Ground} (h : Changes g g') : g.calls.length ≤ g'.calls.length := by
  induction h with
  | refl => exact Nat.le_refl _
  | tail _ hlast ih => exact Nat.le_trans ih hlast.length_calls

theorem changes_deliverAll {x : Exchange} {clients : List Client} {calls : List Call}
    {history : List Event} (fs : List Fragment) :
    Changes ⟨x, clients, calls, history⟩
      ⟨(Client.deliverAll shared fs x).2, clients, calls,
        history ++ (Client.deliverAll shared fs x).1.map fun (f, d) => .delivery f d⟩ := by
  induction fs generalizing x history with
  | nil =>
    simp only [Client.deliverAll, stateM_pure, List.map_nil, List.append_nil]
    exact .refl
  | cons f rest ih =>
    have hrest := @ih ((Switchboard.deliver shared f).run x).2
      (history ++ [.delivery f ((Switchboard.deliver shared f).run x).1])
    rw [List.append_assoc] at hrest
    exact .head (.deliver f) hrest

theorem Change.deliverAll {g : Ground} {x : Exchange} {clients : List Client} {calls : List Call}
    {history : List Event} (h : Change g ⟨x, clients, calls, history⟩) (fs : List Fragment) :
    Changes g
      ⟨(Client.deliverAll shared fs x).2, clients, calls,
        history ++ (Client.deliverAll shared fs x).1.map fun (f, d) => .delivery f d⟩ :=
  .head h (changes_deliverAll fs)

section Worlds

variable {w : World} {c : ClientId} {calls : List Call} {history : List Event}

theorem changes_create {e : EngineId} (hshared : (w.engine e).sharedTable = some shared) :
    Changes ⟨w.exchange, w.clients, calls, history⟩
      ⟨(Client.create e w).2.exchange, (Client.create e w).2.clients, calls, history⟩ := by
  obtain ⟨hexchange, hclients⟩ := Client.create_of_shared hshared
  rw [hexchange, hclients]
  exact .single (.join rfl rfl (by simp))

/-- Counting the holders of a client anew changes nothing else about it. -/
theorem changes_hold (holders : Nat → Nat) :
    Changes ⟨w.exchange, w.clients, calls, history⟩
      ⟨w.exchange, w.clients.set c.index { w.client c with holders := holders (w.client c).holders }, calls,
        history⟩ := by
  cases hc : w.clients[c.index]? with
  | none =>
    rw [List.set_eq_of_length_le (List.getElem?_eq_none_iff.1 hc)]
  | some client =>
    rw [World.client_of_getElem? hc]
    exact .single (.relabel hc rfl rfl Iff.rfl)

theorem changes_createContextFrom (config : String) :
    Changes ⟨w.exchange, w.clients, calls, history⟩
      ⟨(Client.createContextFrom c config w).2.exchange, (Client.createContextFrom c config w).2.clients,
        calls, history⟩ := by
  obtain ⟨hexchange, hclients⟩ := Client.createContextFrom_clients (c := c) (w := w) config
  rw [hexchange]
  obtain hclients | ⟨hlifecycle, context, hclients⟩ := hclients
  · rw [hclients]
  · rw [hclients]
    have hc := World.getElem?_of_lifecycle (w := w) (c := c) (by simp [hlifecycle])
    exact .single (.relabel hc rfl rfl (by simp [hlifecycle]))

variable (hshared : ∀ client ∈ w.clients, client.table = shared)
include hshared

theorem changes_destroy (hc : c.index < w.clients.length) :
    Changes ⟨w.exchange, w.clients, calls, history⟩
      ⟨((Client.destroy c).run w).2.exchange, ((Client.destroy c).run w).2.clients, calls, history⟩ := by
  have hclient := List.getElem?_eq_getElem hc
  obtain ⟨hexchange, hclients⟩ := Client.destroy_run c w
  rw [hexchange, hclients, World.client_of_getElem? hclient, hshared _ (List.getElem_mem hc)]
  exact .single (.destroy hclient)

theorem changes_release (hc : c.index < w.clients.length) :
    Changes ⟨w.exchange, w.clients, calls, history⟩
      ⟨(Client.release c w).2.exchange, (Client.release c w).2.clients, calls, history⟩ := by
  have hbefore : Changes ⟨w.exchange, w.clients, calls, history⟩
      ⟨(Client.letGo c w).exchange, (Client.letGo c w).clients, calls, history⟩ := changes_hold (· - 1)
  have hthere : c.index < (Client.letGo c w).clients.length := by simpa [Client.letGo] using hc
  have hsame : ∀ client ∈ (Client.letGo c w).clients, client.table = shared := by
    intro client hmem
    obtain hmem | rfl := List.mem_or_eq_of_mem_set hmem
    · exact hshared client hmem
    · show (w.client c).table = shared
      rw [World.client_of_getElem? (List.getElem?_eq_getElem hc)]
      exact hshared _ (List.getElem_mem hc)
  rw [Client.release_run]
  split
  · exact hbefore.trans (changes_destroy (w := Client.letGo c w) hsame hthere)
  · exact hbefore

end Worlds

theorem Change.shared {g g' : Ground} (h : Change g g') (hg : ∀ client ∈ g.clients, client.table = shared) :
    ∀ client ∈ g'.clients, client.table = shared := by
  cases h with
  | relabel hc htable =>
    intro client hmem
    obtain hmem | rfl := List.mem_or_eq_of_mem_set hmem
    · exact hg client hmem
    · exact htable.trans (hg _ (List.mem_of_getElem? hc))
  | destroy hc =>
    intro client hmem
    have htable := hg _ (List.mem_of_getElem? hc)
    obtain hmem | rfl := List.mem_or_eq_of_mem_set hmem
    · exact hg client hmem
    · exact htable
  | join htable =>
    intro client hmem
    obtain hmem | hmem := List.mem_append.1 hmem
    · exact hg client hmem
    · rw [List.mem_singleton.1 hmem]
      exact htable
  | _ => exact hg

theorem Changes.shared {g g' : Ground} (h : Changes g g') (hg : ∀ client ∈ g.clients, client.table = shared) :
    ∀ client ∈ g'.clients, client.table = shared := by
  induction h with
  | refl => exact hg
  | tail _ hlast ih => exact hlast.shared ih

/-- A request is refused, or it issues a call and the engine delivers its answer. -/
theorem step_request {s : Session} {c : ClientId} (method : String) (params : Bytes)
    (hshared : ∀ client ∈ s.world.clients, client.table = shared) :
    (∃ err, Client.refusal? (s.world.client c).lifecycle method params = some err) ∧
        s.step (.request c method params) = s ∨
      Client.refusal? (s.world.client c).lifecycle method params = none ∧ ∃ client context l x fs,
        s.world.clients[c.index]? = some client ∧ client.lifecycle = .active context ∧
        Client.openCall shared client.shutdown s.world.exchange = (l, x) ∧
        fs = Client.answerTo (s.world.engine client.engine) ⟨context, method, params, l.id⟩ ∧
        (s.step (.request c method params)).ground =
          ⟨(Client.deliverAll shared fs x).2, s.world.clients, s.calls ++ [⟨c, l, .handle l⟩],
            s.history ++ .issued l.id :: (Client.deliverAll shared fs x).1.map fun (f, d) => .delivery f d⟩ := by
  obtain ⟨err, hrefusal, hrefused⟩ |
    ⟨haccepted, context, hactive, l, x, fs, hopen, hfs, houtcomes, hexchange, hclients, -⟩ :=
    Client.requestAnswered_run c method params s.world
  · refine .inl ⟨⟨err, hrefusal⟩, ?_⟩
    simp only [step, hrefused]
  · refine .inr ⟨haccepted, ?_⟩
    have hc := World.getElem?_of_lifecycle (w := s.world) (c := c) (by simp [hactive])
    have htable := hshared _ (List.mem_of_getElem? hc)
    rw [htable] at hopen houtcomes hexchange
    refine ⟨s.world.client c, context, l, x, fs, hc, hactive, hopen, hfs, ?_⟩
    generalize hrequest : Client.requestAnswered c method params s.world = answered at *
    obtain ⟨result, world⟩ := answered
    simp only at houtcomes hexchange hclients
    subst houtcomes
    simp only [step, hrequest, ground]
    rw [hexchange, hclients]

/-- Everything that can happen is made of changes, as long as all clients share the table. -/
theorem step_changes (s : Session) (op : Op) (hshared : ∀ client ∈ s.world.clients, client.table = shared) :
    Changes s.ground (s.step op).ground := by
  cases op with
  | join e =>
    refine changes_create (w := (World.addEngine { e with sharedTable := some shared } s.world).2) ?_
    simp [World.addEngine, World.engine, List.getD_eq_getElem?_getD]
  | teach e engine => exact .refl
  | createContext c settings => exact changes_createContextFrom (Client.configOf settings)
  | createContextFrom c config => exact changes_createContextFrom config
  | request c method params =>
    obtain ⟨-, hrefused⟩ | ⟨-, client, context, l, x, fs, hc, hactive, hopen, -, hanswered⟩ :=
      step_request (c := c) method params hshared
    · rw [hrefused]
    · rw [hanswered]
      have hissue : Change s.ground
          ⟨x, s.world.clients, s.calls ++ [⟨c, l, .handle l⟩], s.history ++ [.issued l.id]⟩ :=
        .issue hc (by simp [hactive]) hopen
      have hdelivered := hissue.deliverAll fs
      rw [List.append_assoc, List.singleton_append] at hdelivered
      exact hdelivered
  | deliver f => exact .single (.deliver f)
  | act i a =>
    simp only [step]
    split
    case h_1 => exact .refl
    case h_2 call hi => exact .single (.act hi a)
  | unsubscribe c id =>
    simp only [step]
    split
    case isFalse => exact .refl
    case isTrue hc =>
      have hclient := List.getElem?_eq_getElem hc
      rw [Client.unsubscribe_run, World.client_of_getElem? hclient, hshared _ (List.getElem_mem hc)]
      exact .single (.unsubscribe id)
  | destroy c =>
    simp only [step]
    split
    case isFalse => exact .refl
    case isTrue hc => exact changes_destroy hshared hc
  | copy c => exact changes_hold (· + 1)
  | release c =>
    simp only [step]
    split
    case isFalse => exact .refl
    case isTrue hc => exact changes_release hshared hc

/-- A run is made of changes. -/
theorem changes_run (s : Session) (ops : List Op) (hshared : ∀ client ∈ s.world.clients, client.table = shared) :
    Changes s.ground (s.run ops).ground := by
  induction ops using List.reverseRecOn with
  | nil => exact .refl
  | append_singleton ops op ih =>
    rw [run_concat]
    exact ih.trans (step_changes _ op (ih.shared hshared))

theorem run_changes (lastId : RequestId) (ops : List Op) :
    Changes (Session.start lastId).ground ((Session.start lastId).run ops).ground :=
  changes_run (Session.start lastId) ops fun _ hmem => nomatch hmem

end Switchboard.Session
