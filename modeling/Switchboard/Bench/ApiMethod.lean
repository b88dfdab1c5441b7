import Switchboard.Bench.Report
/-!
The engine's methods by name, as tasks of the bench call them: with parameters as JSON text, and with
the value of the answer written as JSON text.
-/
namespace Switchboard.Bench

/-- A method of the engine that the library has types for. -/
inductive ApiMethod where
  | version
  | buildInfo
  | apiReference
  | resolveAppRequest
  | queryCollection
  | waitForCollection
  | suspend
  | resume
  | subscribeCollection
  | subscribe
  | unsubscribe
  | encodeMessage
  | convertAddress
  | sendMessage
  | waitForTransaction
  | processMessage
  deriving DecidableEq, Repr

/-- What a method asks for: a request whose answer is reported, the opening of a subscription, or the
end of one. -/
inductive Errand where
  | request (method : String) (params : Bytes) (limit : Option Nat) (report : Reporter)
  | opening (o : NetSubscription.Opening)
  | ending

namespace Errand

/-- A call whose answer is reported in a form. -/
def ofCall {α : Type} (call : MethodCall α) (form : Form α) : Errand :=
  .request call.method (encodeParams call.params) call.limit (reportCall call form)

/-- A call whose events and answer are reported in forms. -/
def ofEvents {ε α : Type} (call : EventCall ε α) (event : Form ε) (form : Form α) : Errand :=
  .request call.method (encodeParams call.params) call.limit (reportEvents call event form)

end Errand

/-- What a method asks for with parameters given as text. -/
def ApiMethod.errand (m : ApiMethod) (params : Bytes) : Except Fault Errand :=
  open Api in
  match m with
  | .version => return .ofCall Api.version EngineVersion.form
  | .buildInfo => return .ofCall Api.buildInfo BuildInfo.form
  | .apiReference => return .ofCall Api.apiReference ApiReference.form
  | .resolveAppRequest => do
    return .ofCall (Api.resolveAppRequest (← AppReply.form.read params)) .unit
  | .queryCollection => do
    return .ofCall (Api.queryCollection (← QueryParams.form.read params)) QueryResult.form
  | .waitForCollection => do
    return .ofCall (Api.waitForCollection (← WaitForParams.form.read params)) WaitForResult.form
  | .suspend => return .ofCall Api.suspend .unit
  | .resume => return .ofCall Api.resume .unit
  | .subscribeCollection => do
    return .opening (NetSubscription.ofCollection (← SubscribeCollectionParams.form.read params))
  | .subscribe => do return .opening (NetSubscription.ofQuery (← SubscribeParams.form.read params))
  | .unsubscribe => return .ending
  | .encodeMessage => do
    return .ofCall (Api.encodeMessage (← EncodeMessageParams.form.read params)) EncodedMessage.form
  | .convertAddress => do
    return .ofCall (Api.convertAddress (← ConvertAddressParams.form.read params))
      ConvertedAddress.form
  | .sendMessage => do
    return .ofEvents (Api.sendMessage (← SendMessageParams.form.read params)) ProcessingEvent.form
      SentMessage.form
  | .waitForTransaction => do
    return .ofEvents (Api.waitForTransaction (← WaitForTransactionParams.form.read params))
      ProcessingEvent.form ProcessedMessage.form
  | .processMessage => do
    return .ofEvents (Api.processMessage (← ProcessMessageParams.form.read params))
      ProcessingEvent.form ProcessedMessage.form

end Switchboard.Bench
