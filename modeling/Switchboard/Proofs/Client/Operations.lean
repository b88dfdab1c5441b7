import Switchboard.Proofs.Client.Destroying
/-!
What the operations of a client do to the exchange and to the clients, whatever its engine does.
-/
namespace Switchboard

open Exchange Process

variable {w : World} {c : ClientId} {client : Client} {e : EngineId} {t : TableId}

theorem World.client_of_getElem? (hc : w.clients[c.index]? = some client) : w.client c = client := by
  simp [World.client, List.getD_eq_getElem?_getD, hc]

/-- A client that is not there counts as destroyed. -/
theorem World.getElem?_of_lifecycle (h : (w.client c).lifecycle ≠ .destroyed) :
    w.clients[c.index]? = some (w.client c) := by
  cases hc : w.clients[c.index]? with
  | none => simp [World.client, List.getD_eq_getElem?_getD, hc] at h
  | some client => rw [World.client_of_getElem? hc]

/-- A program on the exchange changes nothing else in the world. -/
theorem World.run_withinExchange {α : Type} (p : Process Exchange α) (w : World) :
    (World.withinExchange p).run w =
      ((p.run w.exchange).1, { w with exchange := (p.run w.exchange).2 }) := by
  induction p generalizing w with
  | done a => rfl
  | step next effect ih => exact ih w.exchange { w with exchange := effect w.exchange }

namespace Client

theorem create_of_shared (hshared : (w.engine e).sharedTable = some t) :
    (create e w).2.exchange = (newSignal w.exchange).2 ∧
      (create e w).2.clients =
        w.clients ++ [{ engine := e, table := t, shutdown := (newSignal w.exchange).1 }] := by
  simp only [create, stateM_bind, stateM_get, hshared]
  exact ⟨rfl, rfl⟩

/-- Why a client does not hand a configuration to its engine, if it does not. -/
def contextRefusal? (lifecycle : Lifecycle) (config : String) : Option ClientError :=
  match lifecycle with
  | .uninitialized =>
    match checkLength (Utf8.encode config) with
    | .error e => some e
    | .ok () => none
  | other => some (.invalidState .createContext other.state)

/-- The world once the engine of a client has been handed a configuration. -/
def configured (c : ClientId) (config : String) (w : World) : World :=
  { w with
    engines := w.engines.set (w.client c).engine.index
      { w.engine (w.client c).engine with configs := (w.engine (w.client c).engine).configs ++ [config] } }

/-- A context that is refused to be made changes nothing. -/
theorem createContextFrom_of_refusal {config : String} {err : ClientError}
    (h : contextRefusal? (w.client c).lifecycle config = some err) :
    createContextFrom c config w = (.error err, w) := by
  unfold createContextFrom
  unfold contextRefusal? at h
  cases hlifecycle : (w.client c).lifecycle with
  | uninitialized =>
    simp only [hlifecycle] at h
    simp only [stateM_bind, stateM_get, hlifecycle]
    split at h
    case h_1 hcheck =>
      cases h
      simp only [hcheck]
      rfl
    case h_2 => cases h
  | active context =>
    simp only [hlifecycle, Option.some.injEq] at h
    subst h
    simp only [stateM_bind, stateM_get, hlifecycle]
    rfl
  | destroyed =>
    simp only [hlifecycle, Option.some.injEq] at h
    subst h
    simp only [stateM_bind, stateM_get, hlifecycle]
    rfl

/-- A client without a context hands the configuration to its engine, and has the context that the engine
answers with, if it answers with one. -/
theorem createContextFrom_of_accepted {config : String}
    (h : contextRefusal? (w.client c).lifecycle config = none) :
    (w.client c).lifecycle = .uninitialized ∧
      createContextFrom c config w =
        match contextOf (w.engine (w.client c).engine).contextResponse with
        | .error err => (.error err, configured c config w)
        | .ok context => (.ok context,
            { configured c config w with
              clients := w.clients.set c.index { w.client c with lifecycle := .active context } }) := by
  have hanswer : ((configured c config w).engine (w.client c).engine).contextResponse =
      (w.engine (w.client c).engine).contextResponse := by
    simp only [configured, World.engine, getD_set]
    split
    case isTrue => rfl
    case isFalse => rfl
  unfold createContextFrom
  unfold contextRefusal? at h
  cases hlifecycle : (w.client c).lifecycle with
  | uninitialized =>
    refine ⟨rfl, ?_⟩
    simp only [hlifecycle] at h
    simp only [stateM_bind, stateM_get, hlifecycle]
    split at h
    case h_1 => cases h
    case h_2 hcheck =>
      simp only [hcheck]
      have hcalled : (World.modifyEngine (w.client c).engine
          (fun e => { e with configs := e.configs ++ [config] }) w).2 = configured c config w := rfl
      simp only [stateM_bind, stateM_get, hcalled, hanswer]
      generalize contextOf _ = response
      cases response with
      | error err => rfl
      | ok context => rfl
  | active context =>
    simp only [hlifecycle] at h
    cases h
  | destroyed =>
    simp only [hlifecycle] at h
    cases h

/-- Making a context leaves the exchange alone, and changes its client only if this has no context yet. -/
theorem createContextFrom_clients (config : String) :
    (createContextFrom c config w).2.exchange = w.exchange ∧
      ((createContextFrom c config w).2.clients = w.clients ∨
        (w.client c).lifecycle = .uninitialized ∧ ∃ context,
          (createContextFrom c config w).2.clients =
            w.clients.set c.index { w.client c with lifecycle := .active context }) := by
  cases hrefusal : contextRefusal? (w.client c).lifecycle config with
  | some err =>
    rw [createContextFrom_of_refusal hrefusal]
    exact ⟨rfl, .inl rfl⟩
  | none =>
    obtain ⟨huninitialized, hrun⟩ := createContextFrom_of_accepted hrefusal
    rw [hrun]
    split
    case h_1 => exact ⟨rfl, .inl rfl⟩
    case h_2 context _ => exact ⟨rfl, .inr ⟨huninitialized, context, rfl⟩⟩

/-- The fragments with which an engine answers a request from within. -/
def answerTo (engine : Engine) (r : EngineRequest) : List Fragment :=
  (engine.framesFor r.method).map (·.fragment r)

/-- An engine that is called puts the request on record, and delivers its answer. -/
theorem callEngine_run (r : EngineRequest) (w : World) :
    (callEngine e t r w).1 = (deliverAll t (answerTo (w.engine e) r) w.exchange).1 ∧
      (callEngine e t r w).2.exchange = (deliverAll t (answerTo (w.engine e) r) w.exchange).2 ∧
      (callEngine e t r w).2.clients = w.clients ∧
      ∃ outcomes, (callEngine e t r w).2.engines = w.engines.set e.index
        { w.engine e with requests := (w.engine e).requests ++ [r], lastTable := some t, outcomes } := by
  let called : Engine := { w.engine e with requests := (w.engine e).requests ++ [r], lastTable := some t }
  let before : World := { w with engines := w.engines.set e.index called }
  have hframes : (before.engine e).framesFor r.method = (w.engine e).framesFor r.method := by
    show ((w.engines.set e.index called).getD e.index {}).framesFor r.method = _
    rw [getD_set]
    split
    case isTrue => rfl
    case isFalse => rfl
  have hanswer : answerTo (before.engine e) r = answerTo (w.engine e) r := by
    simp only [answerTo, hframes]
  have hdelivered : (callEngine e t r w).1 = (deliverAll t (answerTo (before.engine e) r) w.exchange).1 ∧
      (callEngine e t r w).2.exchange = (deliverAll t (answerTo (before.engine e) r) w.exchange).2 :=
    ⟨rfl, rfl⟩
  rw [hanswer] at hdelivered
  refine ⟨hdelivered.1, hdelivered.2, rfl, ?_⟩
  let learn (engine : Engine) : Engine :=
    if engine.learnsOutcomes then
      { engine with outcomes := engine.outcomes ++ (callEngine e t r w).1.map Prod.snd }
    else engine
  have hlearned : (callEngine e t r w).2.engines =
      (w.engines.set e.index called).set e.index (learn ((w.engines.set e.index called).getD e.index {})) := rfl
  rw [hlearned, set_getD_set]
  by_cases hlearns : called.learnsOutcomes
  · exact ⟨_, congrArg (w.engines.set e.index) (if_pos hlearns)⟩
  · exact ⟨_, congrArg (w.engines.set e.index) (if_neg hlearns)⟩

/-- Why a client does not send a request, if it does not. -/
def refusal? (lifecycle : Lifecycle) (method : String) (params : Bytes) : Option ClientError :=
  match lifecycle with
  | .active _ =>
    match checkLength (Utf8.encode method), checkLength params with
    | .error e, _ | .ok (), .error e => some e
    | .ok (), .ok () => none
  | other => some (.invalidState .sendRequest other.state)

/-- A request that is refused changes nothing. -/
theorem requestAnswered_of_refusal {method : String} {params : Bytes} {err : ClientError}
    (h : refusal? (w.client c).lifecycle method params = some err) :
    requestAnswered c method params w = (.error err, w) := by
  unfold requestAnswered
  unfold refusal? at h
  cases hlifecycle : (w.client c).lifecycle with
  | active context =>
    simp only [hlifecycle] at h
    simp only [stateM_bind, stateM_get, hlifecycle]
    split at h
    case h_1 hcheck =>
      cases h
      simp only [hcheck]
      rfl
    case h_2 hcheck hcheck' =>
      cases h
      simp only [hcheck, hcheck']
      rfl
    case h_3 => cases h
  | uninitialized | destroyed =>
    simp only [hlifecycle, Option.some.injEq] at h
    subst h
    simp only [stateM_bind, stateM_get, hlifecycle]
    rfl

/-- A request that is not refused opens a call and calls the engine. -/
theorem requestAnswered_of_accepted {method : String} {params : Bytes}
    (h : refusal? (w.client c).lifecycle method params = none) :
    ∃ context, (w.client c).lifecycle = .active context ∧ ∀ l x,
      openCall (w.client c).table (w.client c).shutdown w.exchange = (l, x) →
        requestAnswered c method params w =
          ((.ok (l, (callEngine (w.client c).engine (w.client c).table ⟨context, method, params, l.id⟩
              { w with exchange := x }).1)),
            (callEngine (w.client c).engine (w.client c).table ⟨context, method, params, l.id⟩
              { w with exchange := x }).2) := by
  unfold requestAnswered
  unfold refusal? at h
  cases hlifecycle : (w.client c).lifecycle with
  | active context =>
    refine ⟨context, rfl, fun l x hopen => ?_⟩
    obtain rfl : (openCall (w.client c).table (w.client c).shutdown w.exchange).1 = l := by rw [hopen]
    obtain rfl : (openCall (w.client c).table (w.client c).shutdown w.exchange).2 = x := by rw [hopen]
    simp only [hlifecycle] at h
    simp only [stateM_bind, stateM_get, hlifecycle]
    cases hmethod : checkLength (Utf8.encode method) with
    | error e =>
      rw [hmethod] at h
      cases h
    | ok _ =>
      rw [hmethod] at h
      cases hparams : checkLength params with
      | error e =>
        rw [hparams] at h
        cases h
      | ok _ => rfl
  | uninitialized | destroyed =>
    simp only [hlifecycle] at h
    cases h

/-- A request is refused, or a call is opened and the engine delivers its answer. -/
theorem requestAnswered_run (c : ClientId) (method : String) (params : Bytes) (w : World) :
    (∃ err, refusal? (w.client c).lifecycle method params = some err ∧
      requestAnswered c method params w = (.error err, w)) ∨
    (refusal? (w.client c).lifecycle method params = none ∧ ∃ context,
      (w.client c).lifecycle = .active context ∧ ∃ l x fs,
      openCall (w.client c).table (w.client c).shutdown w.exchange = (l, x) ∧
      fs = answerTo (w.engine (w.client c).engine) ⟨context, method, params, l.id⟩ ∧
      (requestAnswered c method params w).1 = .ok (l, (deliverAll (w.client c).table fs x).1) ∧
      (requestAnswered c method params w).2.exchange = (deliverAll (w.client c).table fs x).2 ∧
      (requestAnswered c method params w).2.clients = w.clients ∧
      ∃ outcomes, (requestAnswered c method params w).2.engines =
        w.engines.set (w.client c).engine.index
          { w.engine (w.client c).engine with
            requests := (w.engine (w.client c).engine).requests ++ [⟨context, method, params, l.id⟩]
            lastTable := some (w.client c).table
            outcomes }) := by
  cases hrefusal : refusal? (w.client c).lifecycle method params with
  | some err => exact .inl ⟨err, rfl, requestAnswered_of_refusal hrefusal⟩
  | none =>
    obtain ⟨context, hactive, hsent⟩ := requestAnswered_of_accepted hrefusal
    generalize hopen : openCall (w.client c).table (w.client c).shutdown w.exchange = opened at hsent
    obtain ⟨l, x⟩ := opened
    obtain ⟨houtcomes, hexchange, hclients, outcomes, hengines⟩ := callEngine_run (e := (w.client c).engine)
      (t := (w.client c).table) ⟨context, method, params, l.id⟩ { w with exchange := x }
    rw [hsent l x rfl]
    exact .inr ⟨rfl, context, hactive, l, x, _, rfl, rfl, congrArg (fun outcomes => Except.ok (_, outcomes)) houtcomes,
      hexchange, hclients, outcomes, hengines⟩

theorem unsubscribe_run (c : ClientId) (id : RequestId) (w : World) :
    (unsubscribe c id).run w =
      (((stopDeliveries (w.client c).table id).run w.exchange).1,
        { w with exchange := ((stopDeliveries (w.client c).table id).run w.exchange).2 }) := by
  simp only [unsubscribe, run_bind, run_atomic, World.run_withinExchange]
  rfl

/-- The world with one copy of a client less. -/
def letGo (c : ClientId) (w : World) : World :=
  { w with clients := w.clients.set c.index { w.client c with holders := (w.client c).holders - 1 } }

/-- The last copy that is let go takes the client with it. -/
theorem release_run (c : ClientId) (w : World) :
    (release c w).2 =
      if ((letGo c w).client c).holders = 0 then ((destroy c).run (letGo c w)).2 else letGo c w := by
  have hrelease : release c w =
      (if ((letGo c w).client c).holders = 0 then (destroy c).run else pure ()) (letGo c w) := rfl
  rw [hrelease]
  split <;> rfl

end Client

end Switchboard
