import Switchboard.Form.Choice
/-!
Settings of a client: the one document that the engine is given when a context is made. A setting that
is left out is not written, and the engine then uses its own default.
-/
namespace Switchboard

namespace Settings

/-- Who talks to the engine. -/
structure Binding where
  library : Option String
  version : Option String
  deriving DecidableEq

/-- Bindings as records. -/
def Binding.form : Form Binding :=
  .strictRecord (.cons (.optional "library" .text) <| .cons (.optional "version" .text) .done)
    (fun (library, version, ()) => { library, version })
    fun b => (b.library, b.version, ())

/-- How queries of the network travel: each by itself, or all over one socket. -/
inductive QueriesProtocol where
  | http
  | webSocket
  deriving DecidableEq, Repr

namespace QueriesProtocol

/-- The name of a protocol. -/
def name : QueriesProtocol → String
  | .http => "HTTP"
  | .webSocket => "WS"

/-- Protocols by name. -/
def form : Form QueriesProtocol := .names name [.http, .webSocket]

end QueriesProtocol

/-- Settings of the network. Times are in milliseconds. -/
structure Network where
  serverAddress : Option String := none
  endpoints : List String := []
  networkRetriesCount : Option Int32 := none
  maxReconnectTimeout : Option UInt32 := none
  reconnectTimeout : Option UInt32 := none
  messageRetriesCount : Option Int32 := none
  messageProcessingTimeout : Option UInt32 := none
  waitForTimeout : Option UInt32 := none
  outOfSyncThreshold : Option UInt32 := none
  sendingEndpointCount : Option UInt8 := none
  latencyDetectionInterval : Option UInt32 := none
  maxLatency : Option UInt32 := none
  queryTimeout : Option UInt32 := none
  queriesProtocol : Option QueriesProtocol := none
  firstRempStatusTimeout : Option UInt32 := none
  nextRempStatusTimeout : Option UInt32 := none
  signatureId : Option Int32 := none
  accessKey : Option String := none
  deriving DecidableEq

/-- Settings of the network as records. -/
def Network.form : Form Network :=
  .strictRecord
    (.cons (.optional "server_address" .text) <| .cons (.several "endpoints" .text) <|
      .cons (.optional "network_retries_count" .int32) <|
      .cons (.optional "max_reconnect_timeout" .uint32) <|
      .cons (.optional "reconnect_timeout" .uint32) <|
      .cons (.optional "message_retries_count" .int32) <|
      .cons (.optional "message_processing_timeout" .uint32) <|
      .cons (.optional "wait_for_timeout" .uint32) <|
      .cons (.optional "out_of_sync_threshold" .uint32) <|
      .cons (.optional "sending_endpoint_count" .uint8) <|
      .cons (.optional "latency_detection_interval" .uint32) <|
      .cons (.optional "max_latency" .uint32) <| .cons (.optional "query_timeout" .uint32) <|
      .cons (.optional "queries_protocol" QueriesProtocol.form) <|
      .cons (.optional "first_remp_status_timeout" .uint32) <|
      .cons (.optional "next_remp_status_timeout" .uint32) <|
      .cons (.optional "signature_id" .int32) <| .cons (.optional "access_key" .text) .done)
    (fun (serverAddress, endpoints, networkRetriesCount, maxReconnectTimeout, reconnectTimeout,
        messageRetriesCount, messageProcessingTimeout, waitForTimeout, outOfSyncThreshold,
        sendingEndpointCount, latencyDetectionInterval, maxLatency, queryTimeout, queriesProtocol,
        firstRempStatusTimeout, nextRempStatusTimeout, signatureId, accessKey, ()) =>
      { serverAddress, endpoints, networkRetriesCount, maxReconnectTimeout, reconnectTimeout,
        messageRetriesCount, messageProcessingTimeout, waitForTimeout, outOfSyncThreshold,
        sendingEndpointCount, latencyDetectionInterval, maxLatency, queryTimeout, queriesProtocol,
        firstRempStatusTimeout, nextRempStatusTimeout, signatureId, accessKey })
    fun n =>
      (n.serverAddress, n.endpoints, n.networkRetriesCount, n.maxReconnectTimeout,
        n.reconnectTimeout, n.messageRetriesCount, n.messageProcessingTimeout, n.waitForTimeout,
        n.outOfSyncThreshold, n.sendingEndpointCount, n.latencyDetectionInterval, n.maxLatency,
        n.queryTimeout, n.queriesProtocol, n.firstRempStatusTimeout, n.nextRempStatusTimeout,
        n.signatureId, n.accessKey, ())

/-- The dictionary that the words of a phrase come from. -/
inductive Dictionary where
  | ton
  | english
  | chineseSimplified
  | chineseTraditional
  | french
  | italian
  | japanese
  | korean
  | spanish
  deriving DecidableEq, Repr

namespace Dictionary

/-- All dictionaries, in the order of their codes. -/
def all : List Dictionary :=
  [.ton, .english, .chineseSimplified, .chineseTraditional, .french, .italian, .japanese, .korean,
    .spanish]

/-- The number by which the engine knows a dictionary. -/
def code : Dictionary → UInt8
  | .ton => 0
  | .english => 1
  | .chineseSimplified => 2
  | .chineseTraditional => 3
  | .french => 4
  | .italian => 5
  | .japanese => 6
  | .korean => 7
  | .spanish => 8

/-- The dictionary with a code. -/
def ofCode? (n : UInt8) : Option Dictionary := all.find? fun d => d.code == n

/-- The message about a code that no dictionary has. -/
def unknownCode (n : UInt8) : String := "unknown mnemonic dictionary " ++ Text.decimal n.toNat

/-- The name of a dictionary. -/
def name : Dictionary → String
  | .ton => "Ton"
  | .english => "English"
  | .chineseSimplified => "ChineseSimplified"
  | .chineseTraditional => "ChineseTraditional"
  | .french => "French"
  | .italian => "Italian"
  | .japanese => "Japanese"
  | .korean => "Korean"
  | .spanish => "Spanish"

/-- Dictionaries by their codes. -/
def form : Form Dictionary := .via .uint8 code ofCode?

end Dictionary

/-- Settings of the cryptography. -/
structure Crypto where
  mnemonicDictionary : Option Dictionary
  mnemonicWordCount : Option UInt8
  hdkeyDerivationPath : Option String
  deriving DecidableEq

/-- Settings of the cryptography as records. -/
def Crypto.form : Form Crypto :=
  .strictRecord
    (.cons (.optional "mnemonic_dictionary" Dictionary.form) <|
      .cons (.optional "mnemonic_word_count" .uint8) <|
      .cons (.optional "hdkey_derivation_path" .text) .done)
    (fun (mnemonicDictionary, mnemonicWordCount, hdkeyDerivationPath, ()) =>
      { mnemonicDictionary, mnemonicWordCount, hdkeyDerivationPath })
    fun c => (c.mnemonicDictionary, c.mnemonicWordCount, c.hdkeyDerivationPath, ())

/-- Settings of contract interfaces. -/
structure Abi where
  workchain : Option Int32
  messageExpirationTimeout : Option UInt32
  messageExpirationTimeoutGrowFactor : Option Single
  deriving DecidableEq

/-- Settings of contract interfaces as records. -/
def Abi.form : Form Abi :=
  .strictRecord
    (.cons (.optional "workchain" .int32) <|
      .cons (.optional "message_expiration_timeout" .uint32) <|
      .cons (.optional "message_expiration_timeout_grow_factor" .single) .done)
    (fun (workchain, messageExpirationTimeout, messageExpirationTimeoutGrowFactor, ()) =>
      { workchain, messageExpirationTimeout, messageExpirationTimeoutGrowFactor })
    fun a =>
      (a.workchain, a.messageExpirationTimeout, a.messageExpirationTimeoutGrowFactor, ())

/-- Settings of the cache of cells: its size in kilobytes. -/
structure Boc where
  cacheMaxSize : Option UInt32
  deriving DecidableEq

/-- Settings of the cache of cells as records. -/
def Boc.form : Form Boc :=
  .strictRecord (.cons (.optional "cache_max_size" .uint32) .done)
    (fun (cacheMaxSize, ()) => { cacheMaxSize })
    fun b => (b.cacheMaxSize, ())

/-- Settings of the verification of proofs. -/
structure Proofs where
  cacheInLocalStorage : Option Bool
  deriving DecidableEq

/-- Settings of the verification of proofs as records. -/
def Proofs.form : Form Proofs :=
  .strictRecord (.cons (.optional "cache_in_local_storage" .bool) .done)
    (fun (cacheInLocalStorage, ()) => { cacheInLocalStorage })
    fun p => (p.cacheInLocalStorage, ())

end Settings

/-- All settings of a client. -/
structure Settings where
  binding : Option Settings.Binding := none
  network : Option Settings.Network := none
  crypto : Option Settings.Crypto := none
  abi : Option Settings.Abi := none
  boc : Option Settings.Boc := none
  proofs : Option Settings.Proofs := none
  localStoragePath : Option String := none
  deriving DecidableEq

namespace Settings

/-- Settings as records. -/
def form : Form Settings :=
  .strictRecord
    (.cons (.optional "binding" Binding.form) <| .cons (.optional "network" Network.form) <|
      .cons (.optional "crypto" Crypto.form) <| .cons (.optional "abi" Abi.form) <|
      .cons (.optional "boc" Boc.form) <| .cons (.optional "proofs" Proofs.form) <|
      .cons (.optional "local_storage_path" .text) .done)
    (fun (binding, network, crypto, abi, boc, proofs, localStoragePath, ()) =>
      { binding, network, crypto, abi, boc, proofs, localStoragePath })
    fun s =>
      (s.binding, s.network, s.crypto, s.abi, s.boc, s.proofs, s.localStoragePath, ())

/-- The endpoints of the network; there are none without settings of the network. -/
def endpoints (s : Settings) : List String :=
  match s.network with
  | some n => n.endpoints
  | none => []

/-- The settings of the network, or those in which everything is left out. -/
def networkOrDefault (s : Settings) : Network := s.network.getD {}

end Settings

end Switchboard
