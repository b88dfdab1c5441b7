import Switchboard.Api.Abi
import Switchboard.Api.EngineError
/-!
Sending messages and waiting for what they bring about, and the events that report the progress.
-/
namespace Switchboard.Api

/-- What an event about a message in a shard block tells. -/
structure BlockEvent where
  shardBlockId : String
  messageId : String
  messageDst : String
  message : String

/-- Progress of a message. Events of any other kind are told by their being other. -/
inductive ProcessingEvent where
  | willFetchFirstBlock (messageId messageDst : String)
  | fetchFirstBlockFailed (error : EngineError) (messageId messageDst : String)
  | willSend (about : BlockEvent)
  | didSend (about : BlockEvent)
  | sendFailed (about : BlockEvent) (error : EngineError)
  | willFetchNextBlock (about : BlockEvent)
  | fetchNextBlockFailed (about : BlockEvent) (error : EngineError)
  | messageExpired (messageId messageDst message : String) (error : EngineError)
  | other

namespace ProcessingEvent

/-- A text that may be left out and then is empty. -/
def textOrEmpty (name : String) : Field String := .defaulted name .text ""

/-- The fields of an event about the first block. -/
def firstBlockFields : Fields (String × String × Unit) :=
  .cons (textOrEmpty "message_id") <| .cons (textOrEmpty "message_dst") .done

/-- The fields of a failure to get the first block. -/
def firstBlockFailedFields : Fields (EngineError × String × String × Unit) :=
  .cons (.required "error" EngineError.form) firstBlockFields

/-- The fields of an event about a message in a shard block, before further ones. -/
def blockFields {α : Type} (rest : Fields α) : Fields (String × String × String × String × α) :=
  .cons (.required "shard_block_id" .text) <| .cons (.required "message_id" .text) <|
    .cons (textOrEmpty "message_dst") <| .cons (.required "message" .text) rest

/-- The field of a failure. -/
def errorFields : Fields (EngineError × Unit) := .cons (.required "error" EngineError.form) .done

/-- The fields of an event about an expired message. -/
def expiredFields : Fields (String × String × String × EngineError × Unit) :=
  .cons (.required "message_id" .text) <| .cons (textOrEmpty "message_dst") <|
    .cons (.required "message" .text) errorFields

/-- Writes an event about a message in a shard block. -/
def writeBlock {α : Type} (name : String) (b : BlockEvent) (rest : Fields α) (a : α) : Doc :=
  Tagged.write name (blockFields rest) (b.shardBlockId, b.messageId, b.messageDst, b.message, a)

/-- Reads an event about a message in a shard block. -/
def readBlock {α : Type} (t : Tagged) (rest : Fields α) : Except Fault (BlockEvent × α) := do
  let (shardBlockId, messageId, messageDst, message, a) ← t.fields (blockFields rest)
  return ({ shardBlockId, messageId, messageDst, message }, a)

/-- Events as variants. -/
def form : Form ProcessingEvent where
  encode
    | .willFetchFirstBlock id dst => Tagged.write "WillFetchFirstBlock" firstBlockFields (id, dst, ())
    | .fetchFirstBlockFailed e id dst =>
      Tagged.write "FetchFirstBlockFailed" firstBlockFailedFields (e, id, dst, ())
    | .willSend b => writeBlock "WillSend" b .done ()
    | .didSend b => writeBlock "DidSend" b .done ()
    | .sendFailed b e => writeBlock "SendFailed" b errorFields (e, ())
    | .willFetchNextBlock b => writeBlock "WillFetchNextBlock" b .done ()
    | .fetchNextBlockFailed b e => writeBlock "FetchNextBlockFailed" b errorFields (e, ())
    | .messageExpired id dst message e =>
      Tagged.write "MessageExpired" expiredFields (id, dst, message, e, ())
    | .other => Tagged.write "Other" .done ()
  decode r d := do
    let t ← Tagged.ofDoc r d
    match t.name with
    | "WillFetchFirstBlock" =>
      let (id, dst, ()) ← t.fields firstBlockFields
      return .willFetchFirstBlock id dst
    | "FetchFirstBlockFailed" =>
      let (e, id, dst, ()) ← t.fields firstBlockFailedFields
      return .fetchFirstBlockFailed e id dst
    | "WillSend" => let (b, ()) ← readBlock t .done; return .willSend b
    | "DidSend" => let (b, ()) ← readBlock t .done; return .didSend b
    | "SendFailed" => let (b, e, ()) ← readBlock t errorFields; return .sendFailed b e
    | "WillFetchNextBlock" => let (b, ()) ← readBlock t .done; return .willFetchNextBlock b
    | "FetchNextBlockFailed" =>
      let (b, e, ()) ← readBlock t errorFields
      return .fetchNextBlockFailed b e
    | "MessageExpired" =>
      let (id, dst, message, e, ()) ← t.fields expiredFields
      return .messageExpired id dst message e
    | _ => t.empty; return .other

end ProcessingEvent

/-- A message to send. -/
structure SendMessageParams where
  message : String
  abi : Option Abi
  sendEvents : Bool

/-- Messages to send as records. -/
def SendMessageParams.form : Form SendMessageParams :=
  .record
    (.cons (.required "message" .text) <| .cons (.optional "abi" Abi.form) <|
      .cons (.required "send_events" .bool) .done)
    (fun (message, abi, sendEvents, ()) => { message, abi, sendEvents })
    fun p => (p.message, p.abi, p.sendEvents, ())

/-- Where a sent message starts from. -/
structure SentMessage where
  shardBlockId : String
  sendingEndpoints : List String

/-- Sent messages as records. -/
def SentMessage.form : Form SentMessage :=
  .record
    (.cons (.required "shard_block_id" .text) <|
      .cons (.defaulted "sending_endpoints" (.list .text) []) .done)
    (fun (shardBlockId, sendingEndpoints, ()) => { shardBlockId, sendingEndpoints })
    fun m => (m.shardBlockId, m.sendingEndpoints, ())

/-- A sent message to wait for. -/
structure WaitForTransactionParams where
  abi : Option Abi
  message : String
  shardBlockId : String
  sendEvents : Bool
  sendingEndpoints : Option (List String)

/-- Waits for sent messages as records. -/
def WaitForTransactionParams.form : Form WaitForTransactionParams :=
  .record
    (.cons (.optional "abi" Abi.form) <| .cons (.required "message" .text) <|
      .cons (.required "shard_block_id" .text) <| .cons (.required "send_events" .bool) <|
      .cons (.optional "sending_endpoints" (.list .text)) .done)
    (fun (abi, message, shardBlockId, sendEvents, sendingEndpoints, ()) =>
      { abi, message, shardBlockId, sendEvents, sendingEndpoints })
    fun p => (p.abi, p.message, p.shardBlockId, p.sendEvents, p.sendingEndpoints, ())

/-- The decoded output of a transaction. -/
structure DecodedOutput where
  outMessages : List (Option Value)
  output : Option Value

/-- Decoded outputs as records. -/
def DecodedOutput.form : Form DecodedOutput :=
  .record
    (.cons (.defaulted "out_messages" (.list (.nullable .value)) []) <|
      .cons (.defaulted "output" (.nullable .value) none) .done)
    (fun (outMessages, output, ()) => { outMessages, output })
    fun o => (o.outMessages, o.output, ())

/-- What a processed message has brought about. -/
structure ProcessedMessage where
  transaction : Value
  outMessages : List String
  decoded : Option DecodedOutput
  fees : Value

/-- Processed messages as records. -/
def ProcessedMessage.form : Form ProcessedMessage :=
  .record
    (.cons (.required "transaction" .value) <|
      .cons (.defaulted "out_messages" (.list .text) []) <|
      .cons (.defaulted "decoded" (.nullable DecodedOutput.form) none) <|
      .cons (.defaulted "fees" .value .null) .done)
    (fun (transaction, outMessages, decoded, fees, ()) => { transaction, outMessages, decoded, fees })
    fun m => (m.transaction, m.outMessages, m.decoded, m.fees, ())

/-- A message to encode, send and wait for. -/
structure ProcessMessageParams where
  encodeParams : EncodeMessageParams
  sendEvents : Bool

/-- Messages to process as records. -/
def ProcessMessageParams.form : Form ProcessMessageParams :=
  .record
    (.cons (.required "message_encode_params" EncodeMessageParams.form) <|
      .cons (.required "send_events" .bool) .done)
    (fun (encodeParams, sendEvents, ()) => { encodeParams, sendEvents })
    fun p => (p.encodeParams, p.sendEvents, ())

end Switchboard.Api
