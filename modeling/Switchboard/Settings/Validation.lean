import Switchboard.Settings.Basic
import Switchboard.Text.Blank
/-!
Checks of settings: the ranges of values outside of which the engine would refuse to make a context.
-/
namespace Switchboard.Settings

/-- The counts of words that a phrase may have. -/
def wordCounts : List UInt8 := [12, 15, 18, 21, 24]

/-- A value that is out of its range, in the settings or in a variable of the environment. -/
inductive InvalidValue where
  | blankEndpoint
  | noSendingEndpoint
  | wordCount (n : UInt8)
  | growFactor (factor : Single)
  | retries (raw : String)
  | waitForTimeout (raw : String)
  deriving DecidableEq

namespace InvalidValue

/-- Where the value stands. -/
def field : InvalidValue → String
  | .blankEndpoint => "network.endpoints"
  | .noSendingEndpoint => "network.sending_endpoint_count"
  | .wordCount _ => "crypto.mnemonic_word_count"
  | .growFactor _ => "abi.message_expiration_timeout_grow_factor"
  | .retries _ => "EVER_NETWORK_RETRIES"
  | .waitForTimeout _ => "EVER_WAIT_FOR_TIMEOUT"

/-- What is wrong with the value. -/
def reason : InvalidValue → String
  | .blankEndpoint => "endpoint cannot be empty"
  | .noSendingEndpoint => "must be at least 1"
  | .wordCount n =>
    Text.decimal n.toNat ++ " is not one of [" ++
      ", ".intercalate (wordCounts.map fun n => Text.decimal n.toNat) ++ "]"
  | .growFactor factor => factor.shown ++ " must be positive"
  | .retries raw => "'" ++ raw ++ "' is not an integer"
  | .waitForTimeout raw => "'" ++ raw ++ "' is not a number of milliseconds"

/-- The whole message. -/
def message (v : InvalidValue) : String :=
  "Invalid value for '" ++ v.field ++ "': " ++ v.reason

end InvalidValue

/-- Checks the settings of the network. -/
def Network.validate (n : Network) : Except InvalidValue Unit := do
  if n.endpoints.any Text.isBlankText then throw .blankEndpoint
  if n.sendingEndpointCount = some 0 then throw .noSendingEndpoint

/-- Checks the settings of the cryptography. -/
def Crypto.validate (c : Crypto) : Except InvalidValue Unit :=
  match c.mnemonicWordCount with
  | some n => if wordCounts.contains n then .ok () else .error (.wordCount n)
  | none => .ok ()

/-- Checks the settings of contract interfaces. -/
def Abi.validate (a : Abi) : Except InvalidValue Unit :=
  match a.messageExpirationTimeoutGrowFactor with
  | some factor => if factor.isPositive then .ok () else .error (.growFactor factor)
  | none => .ok ()

/-- Checks a part of the settings that may be left out. -/
def validatePart {α : Type} (check : α → Except InvalidValue Unit) :
    Option α → Except InvalidValue Unit
  | some a => check a
  | none => .ok ()

/-- Checks settings, part by part. -/
def validate (s : Settings) : Except InvalidValue Unit := do
  validatePart Network.validate s.network
  validatePart Crypto.validate s.crypto
  validatePart Abi.validate s.abi

end Switchboard.Settings
