import Switchboard.Form.Choice
/-!
What the engine says about itself, and replies to the requests that it makes of an application.
-/
namespace Switchboard.Api

/-- The version of the engine. -/
structure EngineVersion where
  version : String

/-- Versions as records. -/
def EngineVersion.form : Form EngineVersion :=
  .record (.cons (.required "version" .text) .done) (fun (version, ()) => { version })
    fun v => (v.version, ())

/-- A part that the engine was built from. -/
structure BuildDependency where
  name : String
  gitCommit : String

/-- Parts of a build as records. -/
def BuildDependency.form : Form BuildDependency :=
  .record (.cons (.required "name" .text) <| .cons (.required "git_commit" .text) .done)
    (fun (name, gitCommit, ()) => { name, gitCommit })
    fun d => (d.name, d.gitCommit, ())

/-- How the engine was built. -/
structure BuildInfo where
  buildNumber : UInt32
  dependencies : List BuildDependency

/-- Builds as records. -/
def BuildInfo.form : Form BuildInfo :=
  .record
    (.cons (.defaulted "build_number" .uint32 0) <|
      .cons (.defaulted "dependencies" (.list BuildDependency.form) []) .done)
    (fun (buildNumber, dependencies, ()) => { buildNumber, dependencies })
    fun b => (b.buildNumber, b.dependencies, ())

/-- The description of the engine's methods. -/
structure ApiReference where
  api : Value

/-- Descriptions as records. -/
def ApiReference.form : Form ApiReference :=
  .record (.cons (.required "api" .value) .done) (fun (api, ()) => { api }) fun a => (a.api, ())

/-- What an application answers to a request of the engine. -/
inductive AppResult where
  | error (text : String)
  | ok (result : Value)

namespace AppResult

/-- The field of a refusal. -/
def errorFields : Fields (String × Unit) := .cons (.required "text" .text) .done

/-- The field of a result. -/
def okFields : Fields (Value × Unit) := .cons (.required "result" .value) .done

/-- Answers of an application as variants. -/
def form : Form AppResult where
  encode
    | .error text => Tagged.write "Error" errorFields (text, ())
    | .ok v => Tagged.write "Ok" okFields (v, ())
  decode r d := do
    let t ← Tagged.ofDoc r d
    match t.name with
    | "Error" => let (text, ()) ← t.fields errorFields; return .error text
    | "Ok" => let (v, ()) ← t.fields okFields; return .ok v
    | _ => throw .malformed

end AppResult

/-- The reply to a request of the engine. -/
structure AppReply where
  appRequestId : UInt32
  result : AppResult

/-- Replies as records. -/
def AppReply.form : Form AppReply :=
  .record
    (.cons (.required "app_request_id" .uint32) <| .cons (.required "result" AppResult.form) .done)
    (fun (appRequestId, result, ()) => { appRequestId, result })
    fun r => (r.appRequestId, r.result, ())

end Switchboard.Api
