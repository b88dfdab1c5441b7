import Switchboard.Api.Address
import Switchboard.Api.Identity
import Switchboard.Api.Net
import Switchboard.Api.Processing
import Switchboard.Client.MethodCall
/-!
The engine's methods, each with the types of its parameters and of its answer.
-/
namespace Switchboard.Api

/-- The version of the engine. -/
def version : MethodCall EngineVersion := .plain "client.version" EngineVersion.form

/-- How the engine was built. -/
def buildInfo : MethodCall BuildInfo := .plain "client.build_info" BuildInfo.form

/-- The description of all methods. -/
def apiReference : MethodCall ApiReference := .plain "client.get_api_reference" ApiReference.form

/-- Replies to a request of the engine. -/
def resolveAppRequest (reply : AppReply) : MethodCall Unit :=
  .silent "client.resolve_app_request" (AppReply.form.encode reply)

/-- Queries a collection. -/
def queryCollection (params : QueryParams) : MethodCall QueryResult where
  method := "net.query_collection"
  params := QueryParams.form.encode params
  result := QueryResult.form.ofPayload

/-- How much longer than the engine this side waits for a document, in milliseconds. -/
def waitForGrace : Nat := 5000

/-- Waits for a document. With a time limit of the engine this side has one, too. -/
def waitForCollection (params : WaitForParams) : MethodCall WaitForResult where
  method := "net.wait_for_collection"
  params := WaitForParams.form.encode params
  limit := params.timeout.map fun ms => ms.toNat + waitForGrace
  result := WaitForResult.form.ofPayload

/-- Stops all use of the network, and keeps the subscriptions. -/
def suspend : MethodCall Unit := .silent "net.suspend" .null

/-- Uses the network again. -/
def resume : MethodCall Unit := .silent "net.resume" .null

/-- Ends a subscription in the engine. -/
def unsubscribe (handle : UInt32) : MethodCall Unit :=
  .silent "net.unsubscribe" (SubscriptionHandle.form.encode ⟨handle⟩)

/-- Encodes a message. -/
def encodeMessage (params : EncodeMessageParams) : MethodCall EncodedMessage where
  method := "abi.encode_message"
  params := EncodeMessageParams.form.encode params
  result := EncodedMessage.form.ofPayload

/-- Converts an address. -/
def convertAddress (params : ConvertAddressParams) : MethodCall ConvertedAddress where
  method := "utils.convert_address"
  params := ConvertAddressParams.form.encode params
  result := ConvertedAddress.form.ofPayload

/-- Sends a message. -/
def sendMessage (params : SendMessageParams) : EventCall ProcessingEvent SentMessage where
  method := "processing.send_message"
  params := SendMessageParams.form.encode params
  result := SentMessage.form.ofPayload
  event := ProcessingEvent.form.ofPayload

/-- Waits for what a sent message brings about. -/
def waitForTransaction (params : WaitForTransactionParams) :
    EventCall ProcessingEvent ProcessedMessage where
  method := "processing.wait_for_transaction"
  params := WaitForTransactionParams.form.encode params
  result := ProcessedMessage.form.ofPayload
  event := ProcessingEvent.form.ofPayload

/-- Encodes a message, sends it and waits for what it brings about. -/
def processMessage (params : ProcessMessageParams) :
    EventCall ProcessingEvent ProcessedMessage where
  method := "processing.process_message"
  params := ProcessMessageParams.form.encode params
  result := ProcessedMessage.form.ofPayload
  event := ProcessingEvent.form.ofPayload

end Switchboard.Api
