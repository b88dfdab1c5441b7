import Switchboard.Client.Basic
/-!
Calls of the engine's methods, with what their answers mean. Events that arrive before the result are
decoded one by one; one that cannot be decoded is left out, and the first of these stands in for the
result of a call that has not failed otherwise.
-/
namespace Switchboard

/-- A method with its parameters, the time in milliseconds after which its answer is no longer waited
for, and the meaning of the answer. -/
structure MethodCall (α : Type) where
  method : String
  params : Doc
  limit : Option Nat := none
  result : Bytes → Except Fault α

/-- A call whose answer may be preceded by events. -/
structure EventCall (ε α : Type) extends MethodCall α where
  event : Bytes → Except Fault ε

namespace MethodCall

variable {α : Type}

/-- A call without parameters. -/
def plain (method : String) (form : Form α) : MethodCall α where
  method
  params := .null
  result := form.ofPayload

/-- A call whose answer has no meaning beyond its success. -/
def silent (method : String) (params : Doc) : MethodCall Unit where
  method
  params
  result _ := .ok ()

/-- The result that an answer means. -/
def resultOf (c : MethodCall α) (answer : Except ClientError Bytes) : Except ClientError α :=
  match answer with
  | .error e => .error e
  | .ok payload => (c.result payload).mapError .decode

end MethodCall

/-- The values of the events that can be decoded, in order, and the fault of the first that cannot. -/
def decodeEvents {ε : Type} (decode : Bytes → Except Fault ε) : List Bytes → List ε × Option Fault
  | [] => ([], none)
  | payload :: rest =>
    let (events, fault) := decodeEvents decode rest
    match decode payload with
    | .ok e => (e :: events, fault)
    | .error f => (events, some f)

namespace EventCall

variable {ε α : Type}

/-- The events and the result that an answer means. -/
def resultOf (c : EventCall ε α) (events : List Bytes) (answer : Except ClientError Bytes) :
    List ε × Except ClientError α :=
  let (values, fault) := decodeEvents c.event events
  let result :=
    match answer, fault with
    | .error e, _ => .error e
    | .ok _, some f => .error (.decode f)
    | .ok payload, none => (c.result payload).mapError .decode
  (values, result)

end EventCall

end Switchboard
