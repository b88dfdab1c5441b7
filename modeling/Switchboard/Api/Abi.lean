import Switchboard.Form.Choice
/-!
Contract interfaces and messages: how a contract's interface is given to the engine, who signs a
message, and what goes into one.
-/
namespace Switchboard.Api

/-- A contract interface in one of the forms that the engine takes. -/
inductive Abi where
  | contract (value : Value)
  | json (text : String)
  | handle (n : UInt32)
  | serialized (value : Value)

namespace Abi

/-- Reads the value that belongs to the name of a form. -/
def ofKind (r : Reading) (kind : String) (d : Doc) : Except Fault Abi :=
  if kind = "Contract" then .contract <$> Form.value.decode r d
  else if kind = "Json" then .json <$> Form.text.decode r d
  else if kind = "Handle" then .handle <$> Form.uint32.decode r d
  else if kind = "Serialized" then .serialized <$> Form.value.decode r d
  else .error .malformed

/-- Reads an interface from the values under `type` and `value`, or from a list of just these two. In a
list the name of the form is a plain string. -/
def ofDoc (r : Reading) : Doc → Except Fault Abi
  | .record members => do
    let inner ← r.enter
    Fields.checkNames false ["type", "value"] members
    let kind ← orMalformed (← findMember "type" members)
    let value ← orMalformed (← findMember "value" members)
    ofKind inner (← kind.variantName inner) value
  | .list [kind, value] => do
    let inner ← r.enter
    ofKind inner (← Tagged.nameOf kind) value
  | d => d.unfit

/-- The record of a form of interface. -/
def tagged (kind : String) (value : Doc) : Doc := .object [("type", .text kind), ("value", value)]

/-- Interfaces as records of a form's name and a value. -/
def form : Form Abi where
  encode
    | .contract v => tagged "Contract" v.toDoc
    | .json s => tagged "Json" (.text s)
    | .handle n => tagged "Handle" (Form.uint32.encode n)
    | .serialized v => tagged "Serialized" v.toDoc
  decode := ofDoc

end Abi

/-- A pair of keys. -/
structure KeyPair where
  publicKey : String
  secretKey : String

/-- Key pairs as records. -/
def KeyPair.form : Form KeyPair :=
  .record (.cons (.required "public" .text) <| .cons (.required "secret" .text) .done)
    (fun (publicKey, secretKey, ()) => { publicKey, secretKey })
    fun k => (k.publicKey, k.secretKey, ())

/-- How a message gets signed: not at all, elsewhere under a public key, with a key pair, or by a
signing box of the engine. -/
inductive Signer where
  | none
  | external (publicKey : String)
  | keys (keys : KeyPair)
  | signingBox (handle : UInt32)

namespace Signer

/-- The field of a signer with a public key. -/
def externalFields : Fields (String × Unit) := .cons (.required "public_key" .text) .done

/-- The field of a signer with a key pair. -/
def keysFields : Fields (KeyPair × Unit) := .cons (.required "keys" KeyPair.form) .done

/-- The field of a signer that is a signing box. -/
def signingBoxFields : Fields (UInt32 × Unit) := .cons (.required "handle" .uint32) .done

/-- Signers as variants. -/
def form : Form Signer where
  encode
    | .none => Tagged.write "None" .done ()
    | .external k => Tagged.write "External" externalFields (k, ())
    | .keys k => Tagged.write "Keys" keysFields (k, ())
    | .signingBox n => Tagged.write "SigningBox" signingBoxFields (n, ())
  decode r d := do
    let t ← Tagged.ofDoc r d
    match t.name with
    | "None" => t.empty; return .none
    | "External" => let (k, ()) ← t.fields externalFields; return .external k
    | "Keys" => let (k, ()) ← t.fields keysFields; return .keys k
    | "SigningBox" => let (n, ()) ← t.fields signingBoxFields; return .signingBox n
    | _ => throw .malformed

end Signer

/-- The header of a function call. -/
structure FunctionHeader where
  expire : Option UInt32
  time : Option UInt64
  pubkey : Option String

/-- Function headers as records. -/
def FunctionHeader.form : Form FunctionHeader :=
  .record
    (.cons (.optional "expire" .uint32) <| .cons (.optional "time" .uint64) <|
      .cons (.optional "pubkey" .text) .done)
    (fun (expire, time, pubkey, ()) => { expire, time, pubkey })
    fun h => (h.expire, h.time, h.pubkey, ())

/-- A call of a contract's function. -/
structure CallSet where
  functionName : String
  header : Option FunctionHeader
  input : Option Value

/-- Function calls as records. -/
def CallSet.form : Form CallSet :=
  .record
    (.cons (.required "function_name" .text) <| .cons (.optional "header" FunctionHeader.form) <|
      .cons (.optional "input" .value) .done)
    (fun (functionName, header, input, ()) => { functionName, header, input })
    fun c => (c.functionName, c.header, c.input, ())

/-- What a contract is deployed with. -/
structure DeploySet where
  tvc : Option String
  workchainId : Option Int32
  initialData : Option Value
  initialPubkey : Option String

/-- Deployments as records. -/
def DeploySet.form : Form DeploySet :=
  .record
    (.cons (.optional "tvc" .text) <| .cons (.optional "workchain_id" .int32) <|
      .cons (.optional "initial_data" .value) <| .cons (.optional "initial_pubkey" .text) .done)
    (fun (tvc, workchainId, initialData, initialPubkey, ()) =>
      { tvc, workchainId, initialData, initialPubkey })
    fun d => (d.tvc, d.workchainId, d.initialData, d.initialPubkey, ())

/-- What a message is made from. A message that deploys a contract has no address. -/
structure EncodeMessageParams where
  abi : Abi
  address : Option String
  deploySet : Option DeploySet
  callSet : Option CallSet
  signer : Signer
  processingTryIndex : Option UInt8

/-- Parameters of a message as records. -/
def EncodeMessageParams.form : Form EncodeMessageParams :=
  .record
    (.cons (.required "abi" Abi.form) <| .cons (.optional "address" .text) <|
      .cons (.optional "deploy_set" DeploySet.form) <| .cons (.optional "call_set" CallSet.form) <|
      .cons (.required "signer" Signer.form) <|
      .cons (.optional "processing_try_index" .uint8) .done)
    (fun (abi, address, deploySet, callSet, signer, processingTryIndex, ()) =>
      { abi, address, deploySet, callSet, signer, processingTryIndex })
    fun p => (p.abi, p.address, p.deploySet, p.callSet, p.signer, p.processingTryIndex, ())

/-- An encoded message. -/
structure EncodedMessage where
  message : String
  dataToSign : Option String
  address : String
  messageId : String

/-- Encoded messages as records. -/
def EncodedMessage.form : Form EncodedMessage :=
  .record
    (.cons (.required "message" .text) <|
      .cons (.defaulted "data_to_sign" (.nullable .text) none) <|
      .cons (.required "address" .text) <| .cons (.required "message_id" .text) .done)
    (fun (message, dataToSign, address, messageId, ()) =>
      { message, dataToSign, address, messageId })
    fun m => (m.message, m.dataToSign, m.address, m.messageId, ())

end Switchboard.Api
