import Switchboard.Proofs.Client.Life
import Mathlib.Data.List.Induction
/-!
The calls that an engine gets on behalf of one client, over the whole life of the client: contexts that are refused,
one that is made, requests in this context, and that it is given up.
-/
namespace Switchboard

/-- The failures of an operation before it has begun. -/
def ClientError.refuses : ClientError → Bool
  | .invalidState _ _ | .encode | .payloadTooLarge _ => true
  | _ => false

namespace Client

open Exchange

variable {w w' w'' : World} {c : ClientId} {client after : Client} {e : EngineId} {response : Bytes}
  {log calls tries : List EngineCall} {config : String} {context : UInt32} {requests : List EngineRequest}

/-- A life of a client from one world to another, and what its engine has been called for on its behalf. In between
anything may happen that leaves the client as it is, also to its engine. -/
inductive Life (c : ClientId) (e : EngineId) (w : World) : List EngineCall → World → Prop where
  | start : Life c e w [] w
  | deed {log : List EngineCall} {w' : World} (before : Life c e w log w') (d : Deed) :
      Life c e w (log ++ callsBetween e w' (d.run c w').2) (d.run c w').2
  | elsewhere {log : List EngineCall} {w' w'' : World} (before : Life c e w log w')
      (hclient : w''.clients[c.index]? = w'.clients[c.index]?)
      (hengines : w'.engines.length ≤ w''.engines.length) : Life c e w log w''

/-- Nothing but contexts that the engine has not made. -/
def Failed (calls : List EngineCall) : Prop :=
  ∀ call ∈ calls, ∃ config response err, call = .createContext config response ∧ contextOf response = .error err

/-- Where a client stands after its engine has been called for these things. -/
inductive Standing : List EngineCall → Lifecycle → Prop where
  | waiting {tries : List EngineCall} (hfailed : Failed tries) : Standing tries .uninitialized
  | opened {tries : List EngineCall} {config : String} {response : Bytes} {context : UInt32}
      {requests : List EngineRequest} (hfailed : Failed tries) (hresponse : contextOf response = .ok context)
      (hrequests : ∀ r ∈ requests, r.context = context) :
      Standing (tries ++ .createContext config response :: requests.map .request) (.active context)
  | closed {tries : List EngineCall} {config : String} {response : Bytes} {context : UInt32}
      {requests : List EngineRequest} (hfailed : Failed tries) (hresponse : contextOf response = .ok context)
      (hrequests : ∀ r ∈ requests, r.context = context) :
      Standing (tries ++ .createContext config response :: requests.map .request ++ [.destroyContext context]) .destroyed
  | unused {tries : List EngineCall} (hfailed : Failed tries) : Standing tries .destroyed

/-- The contexts that an engine has made. -/
def obtained (calls : List EngineCall) : List UInt32 :=
  calls.filterMap fun
    | .createContext _ response => (contextOf response).toOption
    | _ => none

/-- The contexts that an engine has been told to give up. -/
def givenUp (calls : List EngineCall) : List UInt32 :=
  calls.filterMap fun
    | .destroyContext context => some context
    | _ => none

theorem contextOf_ne_zero (hresponse : contextOf response = .ok context) : context ≠ 0 := by
  unfold contextOf at hresponse
  split at hresponse
  case h_1 => cases hresponse
  case h_2 => cases hresponse
  case h_3 =>
    split at hresponse
    case isTrue => cases hresponse
    case isFalse hne =>
      cases hresponse
      exact hne
  case h_4 => cases hresponse

theorem refuses_contextOf {err : ClientError} (hresponse : contextOf response = .error err) :
    err.refuses = false := by
  unfold contextOf at hresponse
  split at hresponse
  case h_1 => cases hresponse; rfl
  case h_2 => cases hresponse; rfl
  case h_3 =>
    split at hresponse
    case isTrue => cases hresponse; rfl
    case isFalse => cases hresponse
  case h_4 => cases hresponse; rfl

/-- A deed leads from where a client stands to where it stands then. -/
theorem Standing.step (hstanding : Standing log client.lifecycle) (heffect : Effect client response calls after) :
    Standing (log ++ calls) after.lifecycle := by
  cases heffect with
  | quiet | held =>
    rw [List.append_nil]
    exact hstanding
  | failed huninitialized hresponse =>
    rw [huninitialized] at hstanding ⊢
    cases hstanding with
    | waiting hfailed =>
      refine .waiting fun call hcall => ?_
      obtain hcall | hcall := List.mem_append.1 hcall
      · exact hfailed call hcall
      · exact ⟨_, _, _, List.mem_singleton.1 hcall, hresponse⟩
  | @opened config context huninitialized hresponse =>
    rw [huninitialized] at hstanding
    cases hstanding with
    | waiting hfailed =>
      have hnone : ∀ r ∈ ([] : List EngineRequest), r.context = context := fun _ hr => nomatch hr
      exact .opened hfailed hresponse hnone
  | @requested r hactive =>
    rw [hactive] at hstanding ⊢
    cases hstanding with
    | @opened tries config response _ requests hfailed hresponse hrequests =>
      have hnext : Standing (tries ++ .createContext config response :: (requests ++ [r]).map .request)
          (.active r.context) := by
        refine .opened hfailed hresponse fun r' hr' => ?_
        obtain hr' | hr' := List.mem_append.1 hr'
        · exact hrequests r' hr'
        · rw [List.mem_singleton.1 hr']
      simpa using hnext
  | destroyed =>
    generalize client.lifecycle = lifecycle at hstanding ⊢
    cases hstanding with
    | waiting hfailed =>
      rw [Lifecycle.contexts, List.map_nil, List.append_nil]
      exact .unused hfailed
    | opened hfailed hresponse hrequests => exact .closed hfailed hresponse hrequests
    | closed hfailed hresponse hrequests =>
      rw [Lifecycle.contexts, List.map_nil, List.append_nil]
      exact .closed hfailed hresponse hrequests
    | unused hfailed =>
      rw [Lifecycle.contexts, List.map_nil, List.append_nil]
      exact .unused hfailed

/-- Where a client stands that is there in a world, after its engine has been called for these things. -/
structure Stands (c : ClientId) (e : EngineId) (log : List EngineCall) (w : World) (client : Client) : Prop where
  there : w.clients[c.index]? = some client
  engine : client.engine = e
  known : e.index < w.engines.length
  standing : Standing log client.lifecycle
  dropped : client.holders = 0 → client.lifecycle = .destroyed

theorem Effect.dropped (heffect : Effect client response calls after)
    (hdropped : client.holders = 0 → client.lifecycle = .destroyed) :
    after.holders = 0 → after.lifecycle = .destroyed := by
  cases heffect with
  | quiet | failed | requested => exact hdropped
  | opened huninitialized hresponse =>
    intro hnobody
    have hdestroyed := hdropped hnobody
    rw [huninitialized] at hdestroyed
    cases hdestroyed
  | held hheld => exact hheld
  | destroyed => exact fun _ => rfl

theorem Stands.run (hstands : Stands c e log w client) (d : Deed) :
    ∃ after, Effect client (w.engine e).contextResponse (callsBetween e w (d.run c w).2) after ∧
      Stands c e (log ++ callsBetween e w (d.run c w).2) (d.run c w).2 after := by
  obtain ⟨hthere, rfl, hknown, hstanding, hdropped⟩ := hstands
  obtain ⟨⟨after, hafter, hengine, heffect⟩, hlength, -⟩ := leaves_run hthere hknown d
  exact ⟨after, heffect, hafter, hengine, by rw [hlength]; exact hknown, hstanding.step heffect,
    heffect.dropped hdropped⟩

theorem create_world (e : EngineId) (w : World) :
    ∃ x t s, create e w = (⟨w.clients.length⟩,
      { exchange := x, engines := w.engines, clients := w.clients ++ [{ engine := e, table := t, shutdown := s }] }) := by
  unfold create
  cases hshared : (w.engine e).sharedTable with
  | some t =>
    simp only [stateM_bind, stateM_get, hshared]
    exact ⟨_, _, _, rfl⟩
  | none =>
    simp only [stateM_bind, stateM_get, hshared]
    exact ⟨_, _, _, rfl⟩

theorem stands_create (he : e.index < w.engines.length) :
    ∃ client, Stands (create e w).1 e [] (create e w).2 client := by
  obtain ⟨x, t, s, hcreate⟩ := create_world e w
  rw [hcreate]
  refine ⟨{ engine := e, table := t, shutdown := s }, ?_, rfl, he, ?_, ?_⟩
  · exact getElem?_concat.2 (.inr ⟨rfl, rfl⟩)
  · exact .waiting fun _ hcall => nomatch hcall
  · exact fun hnobody => nomatch hnobody

theorem Life.stands (hlife : Life c e w calls w') (hstart : Stands c e log w client) :
    ∃ after, Stands c e (log ++ calls) w' after := by
  induction hlife with
  | start => exact ⟨client, by rwa [List.append_nil]⟩
  | deed before d ih =>
    obtain ⟨after, hstands⟩ := ih
    obtain ⟨last, -, hlast⟩ := hstands.run d
    exact ⟨last, by rwa [List.append_assoc] at hlast⟩
  | elsewhere before hclient hengines ih =>
    obtain ⟨after, hthere, hengine, hknown, hstanding, hdropped⟩ := ih
    exact ⟨after, hclient.trans hthere, hengine, Nat.lt_of_lt_of_le hknown hengines, hstanding, hdropped⟩

/-- A client that has been destroyed stays so, and its engine is called for nothing more. -/
theorem Life.final (hlife : Life c e w calls w') (hstart : Stands c e log w client)
    (hdestroyed : client.lifecycle = .destroyed) :
    calls = [] ∧ ∃ after, Stands c e log w' after ∧ after.lifecycle = .destroyed := by
  induction hlife with
  | start => exact ⟨rfl, client, hstart, hdestroyed⟩
  | @deed calls w' before d ih =>
    obtain ⟨rfl, after, hstands, hdestroyed⟩ := ih
    obtain ⟨last, heffect, hlast⟩ := hstands.run d
    have hnone : callsBetween e w' (d.run c w').2 = [] ∧ last.lifecycle = .destroyed := by
      generalize callsBetween e w' (d.run c w').2 = calls at heffect
      cases heffect with
      | quiet | held => exact ⟨rfl, hdestroyed⟩
      | failed huninitialized | opened huninitialized =>
        rw [hdestroyed] at huninitialized
        cases huninitialized
      | requested hactive =>
        rw [hdestroyed] at hactive
        cases hactive
      | destroyed => exact ⟨by rw [hdestroyed]; rfl, rfl⟩
    rw [hnone.1, List.append_nil] at hlast ⊢
    exact ⟨rfl, last, hlast, hnone.2⟩
  | elsewhere before hclient hengines ih =>
    obtain ⟨hnone, after, ⟨hthere, hengine, hknown, hstanding, hdropped⟩, hdestroyed⟩ := ih
    exact ⟨hnone, after, ⟨hclient.trans hthere, hengine, Nat.lt_of_lt_of_le hknown hengines, hstanding, hdropped⟩,
      hdestroyed⟩

section Failures

variable {err : ClientError}

/-- A context that is not made leaves calls and clients as they are, and nothing has happened at all if the engine has
not been asked. -/
theorem createContextFrom_error (herr : (createContextFrom c config w).1 = .error err) :
    (createContextFrom c config w).2.exchange = w.exchange ∧ (createContextFrom c config w).2.clients = w.clients ∧
      (err.refuses = true → (createContextFrom c config w).2 = w) := by
  cases hrefusal : contextRefusal? (w.client c).lifecycle config with
  | some refusal =>
    rw [createContextFrom_of_refusal hrefusal]
    exact ⟨rfl, rfl, fun _ => rfl⟩
  | none =>
    have hrun := (createContextFrom_of_accepted hrefusal).2
    rw [hrun] at herr ⊢
    cases hresponse : contextOf (w.engine (w.client c).engine).contextResponse with
    | ok context =>
      rw [hresponse] at herr
      cases herr
    | error failure =>
      rw [hresponse] at herr
      cases herr
      refine ⟨rfl, rfl, fun hrefuses => ?_⟩
      rw [refuses_contextOf hresponse] at hrefuses
      cases hrefuses

theorem requestAnswered_error {method : String} {params : Bytes}
    (herr : (requestAnswered c method params w).1 = .error err) : (requestAnswered c method params w).2 = w := by
  obtain ⟨refusal, -, hrefused⟩ | ⟨-, context, -, l, x, fs, -, -, hanswered, -⟩ :=
    requestAnswered_run c method params w
  · rw [hrefused]
  · rw [hanswered] at herr
    cases herr

theorem eq_error_of_map {α β : Type} {r : Except ClientError α} {f : α → β} (herr : r.map f = .error err) :
    r = .error err := by
  cases r with
  | error failure => exact congrArg Except.error (Except.error.inj herr)
  | ok a => cases herr

theorem request_error {method : String} {params : Bytes} (herr : (request c method params w).1 = .error err) :
    (request c method params w).2 = w :=
  requestAnswered_error (eq_error_of_map herr)

theorem send_error {method : String} {params : Option Doc} (herr : (send c method params w).1 = .error err) :
    (send c method params w).2 = w := by
  cases params with
  | none => rfl
  | some d => exact request_error herr

/-- A deed that fails leaves calls and clients as they are, and one that is refused leaves everything as it is. -/
theorem run_error (d : Deed) (herr : (d.run c w).1 = .error err) :
    (d.run c w).2.exchange = w.exchange ∧ (d.run c w).2.clients = w.clients ∧
      (err.refuses = true → (d.run c w).2 = w) := by
  have hsame {w' : World} (hw : w' = w) :
      w'.exchange = w.exchange ∧ w'.clients = w.clients ∧ (err.refuses = true → w' = w) := by
    rw [hw]
    exact ⟨rfl, rfl, fun _ => rfl⟩
  cases d with
  | createContext s => exact createContextFrom_error (eq_error_of_map herr)
  | createContextFrom config => exact createContextFrom_error (eq_error_of_map herr)
  | request method params => exact hsame (request_error (eq_error_of_map herr))
  | send method params => exact hsame (send_error (eq_error_of_map herr))
  | subscribe method params => exact hsame (send_error (eq_error_of_map (eq_error_of_map herr)))
  | destroy | copy | release => cases herr

end Failures

section Contexts

theorem Failed.contexts (hfailed : Failed tries) : obtained tries = [] ∧ givenUp tries = [] := by
  constructor
  · refine List.filterMap_eq_nil_iff.2 fun call hcall => ?_
    obtain ⟨config, response, err, rfl, hresponse⟩ := hfailed call hcall
    simp only [hresponse]
    rfl
  · refine List.filterMap_eq_nil_iff.2 fun call hcall => ?_
    obtain ⟨config, response, err, rfl, -⟩ := hfailed call hcall
    rfl

theorem obtained_append : obtained (log ++ calls) = obtained log ++ obtained calls := List.filterMap_append

theorem givenUp_append : givenUp (log ++ calls) = givenUp log ++ givenUp calls := List.filterMap_append

/-- An engine that makes a context and then answers requests. -/
theorem contexts_opened (hfailed : Failed tries) (hresponse : contextOf response = .ok context) :
    obtained (tries ++ .createContext config response :: requests.map .request) = [context] ∧
      givenUp (tries ++ .createContext config response :: requests.map .request) = [] := by
  have hrequests : obtained (requests.map .request) = [] ∧ givenUp (requests.map .request) = [] := by
    constructor <;> simp [obtained, givenUp, List.filterMap_map]
  have hcons : obtained (.createContext config response :: requests.map .request) =
      (contextOf response).toOption.toList ++ obtained (requests.map .request) := by
    rw [hresponse]
    simp only [obtained, List.filterMap_cons, hresponse]
    rfl
  constructor
  · rw [obtained_append, hfailed.contexts.1, hcons, hresponse, hrequests.1]
    rfl
  · rw [givenUp_append, hfailed.contexts.2]
    exact hrequests.2

/-- A client obtains at most one context, and gives it up when it is destroyed and not before. -/
theorem Standing.contexts {lifecycle : Lifecycle} (hstanding : Standing log lifecycle) :
    (obtained log = [] ∨ ∃ context, context ≠ 0 ∧ obtained log = [context]) ∧
      givenUp log = if lifecycle = .destroyed then obtained log else [] := by
  cases hstanding with
  | waiting hfailed => exact ⟨.inl hfailed.contexts.1, hfailed.contexts.2⟩
  | unused hfailed =>
    rw [if_pos rfl, hfailed.contexts.1]
    exact ⟨.inl rfl, hfailed.contexts.2⟩
  | opened hfailed hresponse hrequests =>
    obtain ⟨hobtained, hgiven⟩ := contexts_opened hfailed hresponse
    rw [hobtained, hgiven]
    exact ⟨.inr ⟨_, contextOf_ne_zero hresponse, rfl⟩, rfl⟩
  | closed hfailed hresponse hrequests =>
    obtain ⟨hobtained, hgiven⟩ := contexts_opened hfailed hresponse
    rw [obtained_append, givenUp_append, hobtained, hgiven, if_pos rfl]
    exact ⟨.inr ⟨_, contextOf_ne_zero hresponse, rfl⟩, rfl⟩

end Contexts

/-- The engine of a client has been called in order. -/
structure Disciplined (c : ClientId) (e : EngineId) (log : List EngineCall) (w : World) : Prop where
  standing : Standing log (w.client c).lifecycle
  handles : ∀ context ∈ obtained log, 0 < context.toNat ∧ context.toNat < 4294967296
  single : (obtained log).length ≤ 1
  givenUp : givenUp log = if (w.client c).lifecycle = .destroyed then obtained log else []
  dropped : (w.client c).holders = 0 → (w.client c).lifecycle = .destroyed
  destroy : ((Deed.destroy.run c w).2.client c).lifecycle = .destroyed
  release : (w.client c).holders ≤ 1 → ((Deed.release.run c w).2.client c).lifecycle = .destroyed
  final : (w.client c).lifecycle = .destroyed → ∀ more w', Life c e w more w' →
    more = [] ∧ (w'.client c).lifecycle = .destroyed
  refused : ∀ d err, (Deed.run c d w).1 = .error err → err.refuses = true → (Deed.run c d w).2 = w
  failed : ∀ d err, (Deed.run c d w).1 = .error err →
    (Deed.run c d w).2.exchange = w.exchange ∧ (Deed.run c d w).2.clients = w.clients
  again : ∀ config context, (w.client c).lifecycle = .uninitialized → checkLength (Utf8.encode config) = .ok () →
    contextOf (w.engine e).contextResponse = .ok context →
      (createContextFrom c config w).1 = .ok context ∧
        ((createContextFrom c config w).2.client c).lifecycle = .active context
  others : ∀ d e', e' ≠ e → (Deed.run c d w).2.engine e' = w.engine e'

/-- Over its whole life, an engine is called in order on behalf of a client. -/
theorem engine_called_in_order (e : EngineId) (w₀ : World) (he : e.index < w₀.engines.length) (log : List EngineCall)
    (w : World) (hlife : Life (create e w₀).1 e (create e w₀).2 log w) : Disciplined (create e w₀).1 e log w := by
  obtain ⟨first, hstart⟩ := stands_create he
  obtain ⟨client, hstands⟩ := hlife.stands hstart
  rw [List.nil_append] at hstands
  generalize (create e w₀).1 = c at hstands
  have hclient := World.client_of_getElem? hstands.there
  obtain ⟨hthere, rfl, hknown, hstanding, hdropped⟩ := id hstands
  have hcontexts := hstanding.contexts
  constructor
  case standing => rwa [hclient]
  case handles =>
    intro context hmem
    refine ⟨?_, context.toNat_lt⟩
    obtain hnone | ⟨only, hne, honly⟩ := hcontexts.1
    · rw [hnone] at hmem
      cases hmem
    · rw [honly, List.mem_singleton] at hmem
      rw [hmem]
      exact Nat.pos_of_ne_zero fun hzero => hne (UInt32.toNat_inj.1 hzero)
  case single =>
    obtain hnone | ⟨only, -, honly⟩ := hcontexts.1
    · simp [hnone]
    · simp [honly]
  case givenUp =>
    rw [hclient]
    exact hcontexts.2
  case dropped =>
    rw [hclient]
    exact hdropped
  case destroy =>
    show (((destroy c).run w).2.client c).lifecycle = .destroyed
    rw [World.client_of_getElem? (destroy_calls hthere hknown).1]
  case release =>
    rw [hclient]
    intro hlast
    show ((release c w).2.client c).lifecycle = .destroyed
    rw [release_last hthere hlast, World.client_of_getElem? (destroy_calls (getElem?_letGo hthere) hknown).1]
  case final =>
    rw [hclient]
    intro hdestroyed more w' hmore
    obtain ⟨hnone, after, hafter, hstays⟩ := hmore.final hstands hdestroyed
    rw [World.client_of_getElem? hafter.there]
    exact ⟨hnone, hstays⟩
  case refused => exact fun d err herr => (run_error d herr).2.2
  case failed => exact fun d err herr => ⟨(run_error d herr).1, (run_error d herr).2.1⟩
  case again =>
    intro config context huninitialized hfits hresponse
    have haccepted : contextRefusal? (w.client c).lifecycle config = none := by
      rw [huninitialized]
      simp only [contextRefusal?, hfits]
    have hrun := (createContextFrom_of_accepted haccepted).2
    rw [hclient, hresponse] at hrun
    rw [hrun]
    refine ⟨rfl, ?_⟩
    rw [World.client, getD_set, if_pos ⟨rfl, (List.getElem?_eq_some_iff.1 hthere).1⟩]
  case others => exact fun d => (leaves_run hthere hknown d).others

/-- Does one deed after another. -/
def live (c : ClientId) (e : EngineId) (w : World) (ds : List Deed) : List EngineCall × World :=
  ds.foldl (fun (log, w) d => (log ++ callsBetween e w (d.run c w).2, (d.run c w).2)) ([], w)

theorem life_live (ds : List Deed) : Life c e w (live c e w ds).1 (live c e w ds).2 := by
  induction ds using List.reverseRecOn with
  | nil => exact .start
  | append_singleton ds d ih =>
    have hlast : live c e w (ds ++ [d]) =
        ((live c e w ds).1 ++ callsBetween e (live c e w ds).2 (d.run c (live c e w ds).2).2,
          (d.run c (live c e w ds).2).2) := by
      rw [live, List.foldl_append]
      rfl
    rw [hlast]
    exact ih.deed d

/-- An engine that makes context 7. -/
def generous : World where
  engines := [{ contextResponse := Utf8.encode "\x7b\"result\":7\x7d" }]

/-- A request too early, a context, two requests, one of them with parameters that cannot be written, another
context, and the end, which comes twice. -/
def wholeLife : List Deed :=
  [.request "ping" [], .createContextFrom "a", .request "ping" [], .send "ping" none, .createContextFrom "b", .copy,
    .release, .destroy, .request "ping" [], .release]

theorem engine_called_in_order_whole :
    0 < generous.engines.length ∧
      Life ⟨0⟩ ⟨0⟩ (create ⟨0⟩ generous).2 (live ⟨0⟩ ⟨0⟩ (create ⟨0⟩ generous).2 wholeLife).1
        (live ⟨0⟩ ⟨0⟩ (create ⟨0⟩ generous).2 wholeLife).2 ∧
      Disciplined ⟨0⟩ ⟨0⟩ (live ⟨0⟩ ⟨0⟩ (create ⟨0⟩ generous).2 wholeLife).1
        (live ⟨0⟩ ⟨0⟩ (create ⟨0⟩ generous).2 wholeLife).2 ∧
      (live ⟨0⟩ ⟨0⟩ (create ⟨0⟩ generous).2 wholeLife).1 =
        [.createContext "a" (Utf8.encode "\x7b\"result\":7\x7d"), .request ⟨7, "ping", [], 1⟩, .destroyContext 7] := by
  have he : 0 < generous.engines.length := by decide
  have hlife := life_live (c := ⟨0⟩) (e := ⟨0⟩) (w := (create ⟨0⟩ generous).2) wholeLife
  exact ⟨he, hlife, engine_called_in_order ⟨0⟩ generous he _ _ hlife, by decide +kernel⟩

end Client

end Switchboard
