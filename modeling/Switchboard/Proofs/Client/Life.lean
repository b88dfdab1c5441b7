import Switchboard.Proofs.Client.Operations
/-!
What a client and its copies can do in their life, and what each deed calls the engine for.
-/
namespace Switchboard.Client

open Exchange

/-- What an engine is called for. The making of a context goes with the answer that the engine gives. -/
inductive EngineCall where
  | createContext (config : String) (response : Bytes)
  | request (r : EngineRequest)
  | destroyContext (context : UInt32)
  deriving DecidableEq

/-- The calls that an engine has on record in one world and did not have in another. -/
def callsBetween (e : EngineId) (before after : World) : List EngineCall :=
  let response := (before.engine e).contextResponse
  ((after.engine e).configs.drop (before.engine e).configs.length).map (.createContext · response) ++
    ((after.engine e).requests.drop (before.engine e).requests.length).map .request ++
    ((after.engine e).destroyed.drop (before.engine e).destroyed.length).map .destroyContext

/-- What can be done with a client or one of its copies. Parameters that cannot be written as a document are
`none`. -/
inductive Deed where
  | createContext (s : Settings)
  | createContextFrom (config : String)
  | request (method : String) (params : Bytes)
  | send (method : String) (params : Option Doc)
  | subscribe (method : String) (params : Option Doc)
  | destroy
  | copy
  | release

/-- Does it, and says whether it has been refused or has failed. -/
def Deed.run (c : ClientId) : Deed → StateM World (Except ClientError Unit)
  | .createContext s => do return (← Client.createContext c s).map fun _ => ()
  | .createContextFrom config => do return (← Client.createContextFrom c config).map fun _ => ()
  | .request method params => do return (← Client.request c method params).map fun _ => ()
  | .send method params => do return (← Client.send c method params).map fun _ => ()
  | .subscribe method params => do return (← Client.subscribe c method params).map fun _ => ()
  | .destroy => do
    (Client.destroy c).run
    return .ok ()
  | .copy => do
    Client.copy c
    return .ok ()
  | .release => do
    Client.release c
    return .ok ()

/-- What a deed does to its client and calls the engine for, by what the engine answers to the making of a
context. -/
inductive Effect (client : Client) (response : Bytes) : List EngineCall → Client → Prop where
  | quiet : Effect client response [] client
  | failed {config : String} {err : ClientError} (huninitialized : client.lifecycle = .uninitialized)
      (hresponse : contextOf response = .error err) :
      Effect client response [.createContext config response] client
  | opened {config : String} {context : UInt32} (huninitialized : client.lifecycle = .uninitialized)
      (hresponse : contextOf response = .ok context) :
      Effect client response [.createContext config response] { client with lifecycle := .active context }
  | requested {r : EngineRequest} (hactive : client.lifecycle = .active r.context) :
      Effect client response [.request r] client
  | held {holders : Nat} (hheld : holders = 0 → client.lifecycle = .destroyed) :
      Effect client response [] { client with holders }
  | destroyed {holders : Nat} :
      Effect client response (client.lifecycle.contexts.map .destroyContext)
        { client with lifecycle := .destroyed, holders }

variable {w w' : World} {c : ClientId} {client : Client} {e : EngineId}

theorem callsBetween_of_append (configs : List String) (requests : List EngineRequest) (destroyed : List UInt32)
    (hconfigs : (w'.engine e).configs = (w.engine e).configs ++ configs)
    (hrequests : (w'.engine e).requests = (w.engine e).requests ++ requests)
    (hdestroyed : (w'.engine e).destroyed = (w.engine e).destroyed ++ destroyed) :
    callsBetween e w w' = configs.map (.createContext · (w.engine e).contextResponse) ++
      requests.map .request ++ destroyed.map .destroyContext := by
  simp only [callsBetween, hconfigs, hrequests, hdestroyed, List.drop_left]

theorem callsBetween_self (hsame : w'.engine e = w.engine e) : callsBetween e w w' = [] := by
  refine callsBetween_of_append [] [] [] ?_ ?_ ?_ <;> rw [hsame, List.append_nil]

/-- An engine that is set is the engine that it has been set to, and the others stay as they are. -/
theorem engine_of_set {engine : Engine} (hengines : w'.engines = w.engines.set e.index engine)
    (he : e.index < w.engines.length) : w'.engine e = engine ∧ ∀ e', e' ≠ e → w'.engine e' = w.engine e' := by
  refine ⟨?_, fun e' hother => ?_⟩
  · rw [World.engine, hengines, getD_set, if_pos ⟨rfl, he⟩]
  · rw [World.engine, hengines, getD_set, if_neg]
    · rfl
    · exact fun heq => hother (congrArg EngineId.mk heq.1)

/-- What a deed leaves behind. -/
structure Leaves (c : ClientId) (client : Client) (w w' : World) : Prop where
  effect : ∃ after, w'.clients[c.index]? = some after ∧ after.engine = client.engine ∧
    Effect client (w.engine client.engine).contextResponse (callsBetween client.engine w w') after
  engines : w'.engines.length = w.engines.length
  others : ∀ e, e ≠ client.engine → w'.engine e = w.engine e

section

variable (hc : w.clients[c.index]? = some client) (he : client.engine.index < w.engines.length)
include hc

theorem leaves_self : Leaves c client w w :=
  ⟨⟨client, hc, rfl, by rw [callsBetween_self rfl]; exact .quiet⟩, rfl, fun _ _ => rfl⟩

theorem leaves_set {after : Client} (hengines : w'.engines = w.engines)
    (hclients : w'.clients = w.clients.set c.index after) (hengine : after.engine = client.engine)
    (heffect : Effect client (w.engine client.engine).contextResponse [] after) : Leaves c client w w' := by
  have hsame (e : EngineId) : w'.engine e = w.engine e := by rw [World.engine, World.engine, hengines]
  refine ⟨⟨after, ?_, hengine, by rwa [callsBetween_self (hsame _)]⟩, by rw [hengines], fun e _ => hsame e⟩
  rw [hclients]
  exact List.getElem?_set_self (List.getElem?_eq_some_iff.1 hc).1

include he

theorem leaves_createContextFrom (config : String) : Leaves c client w (createContextFrom c config w).2 := by
  have hclient := World.client_of_getElem? hc
  cases hrefusal : contextRefusal? (w.client c).lifecycle config with
  | some err =>
    rw [createContextFrom_of_refusal hrefusal]
    exact leaves_self hc
  | none =>
    obtain ⟨huninitialized, hrun⟩ := createContextFrom_of_accepted hrefusal
    rw [hrun]
    rw [hclient] at huninitialized ⊢
    have hengines : (configured c config w).engines = w.engines.set client.engine.index
        { w.engine client.engine with configs := (w.engine client.engine).configs ++ [config] } := by
      rw [configured, hclient]
    obtain ⟨hat, hothers⟩ := engine_of_set hengines he
    have hcalls : callsBetween client.engine w (configured c config w) =
        [.createContext config (w.engine client.engine).contextResponse] := by
      refine callsBetween_of_append [config] [] [] ?_ ?_ ?_
      · rw [hat]
      · rw [hat, List.append_nil]
      · rw [hat, List.append_nil]
    have hlength : (configured c config w).engines.length = w.engines.length := List.length_set
    cases hresponse : contextOf (w.engine client.engine).contextResponse with
    | error err =>
      refine ⟨⟨client, hc, rfl, ?_⟩, hlength, hothers⟩
      rw [hcalls]
      exact .failed huninitialized hresponse
    | ok context =>
      refine ⟨⟨{ client with lifecycle := .active context }, ?_, rfl, ?_⟩, hlength, hothers⟩
      · exact List.getElem?_set_self (List.getElem?_eq_some_iff.1 hc).1
      · show Effect _ _ (callsBetween client.engine w (configured c config w)) _
        rw [hcalls]
        exact .opened huninitialized hresponse

theorem leaves_requestAnswered (method : String) (params : Bytes) :
    Leaves c client w (requestAnswered c method params w).2 := by
  obtain ⟨err, -, hrefused⟩ | ⟨-, context, hactive, l, x, fs, -, -, -, -, hclients, outcomes, hengines⟩ :=
    requestAnswered_run c method params w
  · rw [hrefused]
    exact leaves_self hc
  · rw [World.client_of_getElem? hc] at hactive hengines
    obtain ⟨hat, hothers⟩ := engine_of_set hengines he
    have hcalls : callsBetween client.engine w (requestAnswered c method params w).2 =
        [.request ⟨context, method, params, l.id⟩] := by
      refine callsBetween_of_append [] [_] [] ?_ ?_ ?_
      · rw [hat, List.append_nil]
      · rw [hat]
      · rw [hat, List.append_nil]
    refine ⟨⟨client, by rw [hclients, hc], rfl, ?_⟩, by rw [hengines, List.length_set], hothers⟩
    rw [hcalls]
    exact .requested hactive

/-- Destroying a client calls its engine to give up the contexts that it still has. -/
theorem destroy_calls : ((destroy c).run w).2.clients[c.index]? = some { client with lifecycle := .destroyed } ∧
    callsBetween client.engine w ((destroy c).run w).2 = client.lifecycle.contexts.map .destroyContext ∧
    ((destroy c).run w).2.engines.length = w.engines.length ∧
    ∀ e, e ≠ client.engine → ((destroy c).run w).2.engine e = w.engine e := by
  have hrun := destroy_world c w
  rw [World.client_of_getElem? hc] at hrun
  have hengines := congrArg World.engines hrun
  obtain ⟨hat, hothers⟩ := engine_of_set hengines he
  refine ⟨?_, ?_, by rw [hengines, List.length_set], hothers⟩
  · rw [hrun]
    exact List.getElem?_set_self (List.getElem?_eq_some_iff.1 hc).1
  · refine callsBetween_of_append [] [] client.lifecycle.contexts ?_ ?_ ?_
    · rw [hat, List.append_nil]
    · rw [hat, List.append_nil]
    · rw [hat]

theorem leaves_destroy : Leaves c client w ((destroy c).run w).2 := by
  obtain ⟨hthere, hcalls, hlength, hothers⟩ := destroy_calls hc he
  refine ⟨⟨_, hthere, rfl, ?_⟩, hlength, hothers⟩
  rw [hcalls]
  exact .destroyed

omit he in
theorem getElem?_letGo :
    (letGo c w).clients[c.index]? = some { client with holders := client.holders - 1 } := by
  rw [letGo, World.client_of_getElem? hc]
  exact List.getElem?_set_self (List.getElem?_eq_some_iff.1 hc).1

omit he in
/-- The last copy of a client takes the client with it. -/
theorem release_last (hlast : client.holders ≤ 1) : (release c w).2 = ((destroy c).run (letGo c w)).2 := by
  rw [release_run, if_pos]
  rw [World.client_of_getElem? (getElem?_letGo hc)]
  show client.holders - 1 = 0
  omega

omit he in
theorem release_more (hmore : 1 < client.holders) : (release c w).2 = letGo c w := by
  rw [release_run, if_neg]
  rw [World.client_of_getElem? (getElem?_letGo hc)]
  show client.holders - 1 ≠ 0
  omega

theorem leaves_release : Leaves c client w (release c w).2 := by
  by_cases hlast : client.holders ≤ 1
  · rw [release_last hc hlast]
    obtain ⟨hthere, hcalls, hlength, hothers⟩ := destroy_calls (getElem?_letGo hc) he
    have hcalls : callsBetween client.engine w ((destroy c).run (letGo c w)).2 =
        client.lifecycle.contexts.map .destroyContext := hcalls
    refine ⟨⟨_, hthere, rfl, ?_⟩, hlength, hothers⟩
    rw [hcalls]
    exact .destroyed
  · rw [release_more hc (by omega)]
    have hclients : (letGo c w).clients = w.clients.set c.index { client with holders := client.holders - 1 } := by
      rw [letGo, World.client_of_getElem? hc]
    refine leaves_set hc rfl hclients rfl (.held fun hnobody => ?_)
    omega

/-- Whatever is done with a client has one of these effects. -/
theorem leaves_run (d : Deed) : Leaves c client w (d.run c w).2 := by
  cases d with
  | createContext s => exact leaves_createContextFrom hc he (configOf s)
  | createContextFrom config => exact leaves_createContextFrom hc he config
  | request method params => exact leaves_requestAnswered hc he method params
  | send method params | subscribe method params =>
    cases params with
    | none => exact leaves_self hc
    | some d => exact leaves_requestAnswered hc he method (encodeParams d)
  | destroy => exact leaves_destroy hc he
  | copy =>
    have hclients : (copy c w).2.clients = w.clients.set c.index { client with holders := client.holders + 1 } := by
      show w.clients.set c.index _ = _
      rw [World.client_of_getElem? hc]
    exact leaves_set hc rfl hclients rfl (.held fun h => absurd h (Nat.succ_ne_zero _))
  | release => exact leaves_release hc he

end

end Switchboard.Client
