import Switchboard.Client.NetSubscription
/-!
What a task on the bench reports when it finishes, and how answers are shown in it.
-/
namespace Switchboard.Bench

/-- A result of a call: octets as they came, JSON text, or a number. -/
inductive Outcome where
  | octets (b : Bytes)
  | text (s : String)
  | number (n : UInt32)

/-- A result of a call, or its failure. -/
abbrev Result := Except ClientError Outcome

/-- What a finished task reports: a result; a result after events, with or without telling whether a
text ended too early; the end of a sequence; that another task has the sequence; or all items of it. -/
inductive Report where
  | result (r : Result)
  | eventful (events : List Outcome) (r : Result) (tellsCut : Bool)
  | ended
  | busy
  | items (rs : List Result)

/-- How the answer to a request becomes a report, given the events before it. -/
abbrev Reporter := List Bytes → Except ClientError Bytes → Report

/-- The types in which answers are shown. -/
inductive Shape where
  | value
  | uint32
  | unit
  | optionalUint32
  | string
  | bool
  | uint32List
  | processingEvent
  deriving DecidableEq, Repr

/-- The text of a value in a form, from the text of a payload. -/
def recode {α : Type} (form : Form α) (payload : Bytes) : Except Fault String :=
  form.write <$> form.ofPayload payload

/-- Reads a payload as a value of a type, and writes the value again. -/
def Shape.recode : Shape → Bytes → Except Fault String
  | .value => Bench.recode .value
  | .uint32 => Bench.recode .uint32
  | .unit => Bench.recode .unit
  | .optionalUint32 => Bench.recode (.nullable .uint32)
  | .string => Bench.recode .text
  | .bool => Bench.recode .bool
  | .uint32List => Bench.recode (.list .uint32)
  | .processingEvent => Bench.recode Api.ProcessingEvent.form

/-- A payload as a result, decoded if a shape is given. -/
def decoded (shape : Option Shape) (payload : Bytes) : Result :=
  match shape with
  | none => .ok (.octets payload)
  | some s =>
    match s.recode payload with
    | .ok text => .ok (.text text)
    | .error f => .error (.decode f)

/-- Reports a result, decoded if a shape is given. -/
def reportResult (shape : Option Shape) : Reporter := fun _ answer =>
  .result (answer.bind (decoded shape))

/-- Reports the payloads of events before a result. -/
def reportPayloads : Reporter := fun events answer =>
  .eventful (events.map .octets) (answer.map .octets) false

/-- Reports decoded events before a decoded result. -/
def reportShapes (event result : Shape) : Reporter := fun events answer =>
  let call : EventCall String String :=
    { method := "", params := .null, result := result.recode, event := event.recode }
  let (values, r) := call.resultOf events answer
  .eventful (values.map .text) (r.map .text) true

/-- Reports the result of a call of a method. -/
def reportCall {α : Type} (call : MethodCall α) (form : Form α) : Reporter := fun _ answer =>
  .result ((call.resultOf answer).map fun a => .text (form.write a))

/-- Reports the events and the result of a call of a method. -/
def reportEvents {ε α : Type} (call : EventCall ε α) (event : Form ε) (form : Form α) : Reporter :=
  fun events answer =>
    let (values, r) := call.resultOf events answer
    .eventful (values.map fun e => .text (event.write e)) (r.map fun a => .text (form.write a)) false

end Switchboard.Bench
