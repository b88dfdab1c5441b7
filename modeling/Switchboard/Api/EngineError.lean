import Switchboard.Form.Record
import Switchboard.Form.Value
/-!
Errors that the engine reports. An error answer holds a code, a message and any further data; an
answer that is nothing of the kind is a message of its own.
-/
namespace Switchboard

/-- An error reported by the engine. -/
structure EngineError where
  code : Int64
  message : String
  data : Value

namespace EngineError

/-- Errors as records. -/
def form : Form EngineError :=
  .record
    (.cons (.required "code" .int64) <| .cons (.required "message" .text) <|
      .cons (.defaulted "data" .value .null) .done)
    (fun (code, message, data, ()) => { code, message, data })
    fun e => (e.code, e.message, e.data, ())

/-- The error that an error answer reports. What is not written as an error has code 0 and is its own
message. -/
def ofPayload (payload : Bytes) : EngineError :=
  match form.read payload with
  | .ok e => e
  | .error _ => { code := 0, message := Utf8.lossy payload, data := .null }

/-- The text of an error. -/
def shown (e : EngineError) : String :=
  e.message ++ " (code " ++ Text.decimalInt e.code.toInt ++ ")"

end EngineError

end Switchboard
