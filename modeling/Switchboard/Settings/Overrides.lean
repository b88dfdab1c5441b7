import Switchboard.Settings.Validation
import Switchboard.Text.Digits
/-!
Overrides of the settings by variables of the environment. A variable that is not set leaves what it stands
for as it is.
-/
namespace Switchboard.Settings

open Text

/-- The endpoints in a text: what stands between the commas, without blank space around it and without
what is blank. -/
def endpointsOf (raw : String) : List String :=
  (((splitOn ',' raw.toList).map trimChars).filter fun cs => !cs.isEmpty).map String.ofList

/-- The number of retries in a text, an integer of 32 bits with a sign. -/
def retriesOf? (raw : String) : Option Int32 :=
  match readInt? (trimChars raw.toList) with
  | some i => if -2147483648 ≤ i ∧ i ≤ 2147483647 then some (Int32.ofInt i) else none
  | none => none

/-- The number of milliseconds in a text, an integer of 32 bits without a sign. -/
def millisecondsOf? (raw : String) : Option UInt32 :=
  match readNat? (trimChars raw.toList) with
  | some n => if n ≤ 4294967295 then some (UInt32.ofNat n) else none
  | none => none

/-- What variables put in the place of settings. -/
structure Overrides where
  endpoints : Option (List String)
  accessKey : Option String
  networkRetriesCount : Option Int32
  waitForTimeout : Option UInt32
  deriving DecidableEq, Repr

namespace Overrides

/-- Reads a variable if it is set; its text may be wrong. -/
def check {α : Type} (read? : String → Option α) (wrong : String → InvalidValue) :
    Option String → Except InvalidValue (Option α)
  | none => .ok none
  | some raw =>
    match read? raw with
    | some a => .ok (some a)
    | none => .error (wrong raw)

/-- The overrides in variables of the environment. -/
def ofVariables (text? : String → Option String) : Except InvalidValue Overrides := do
  let networkRetriesCount ← check retriesOf? .retries (text? "EVER_NETWORK_RETRIES")
  let waitForTimeout ← check millisecondsOf? .waitForTimeout (text? "EVER_WAIT_FOR_TIMEOUT")
  return {
    endpoints := (text? "EVER_ENDPOINTS").map endpointsOf
    accessKey := text? "EVER_ACCESS_KEY"
    networkRetriesCount
    waitForTimeout }

/-- Whether nothing is overridden. -/
def isEmpty (o : Overrides) : Bool :=
  o.endpoints.isNone && o.accessKey.isNone && o.networkRetriesCount.isNone && o.waitForTimeout.isNone

/-- The settings of the network with the overrides in place. -/
def onNetwork (o : Overrides) (n : Network) : Network :=
  { n with
    endpoints := o.endpoints.getD n.endpoints
    accessKey := o.accessKey <|> n.accessKey
    networkRetriesCount := o.networkRetriesCount <|> n.networkRetriesCount
    waitForTimeout := o.waitForTimeout <|> n.waitForTimeout }

/-- The settings with the overrides in place. Settings of the network are added if something is
overridden. -/
def apply (o : Overrides) (s : Settings) : Settings :=
  if o.isEmpty then s else { s with network := some (o.onNetwork s.networkOrDefault) }

end Overrides

/-- Overrides settings by variables of the environment, and checks the result. -/
def override (text? : String → Option String) (s : Settings) : Except InvalidValue Settings := do
  let overrides ← Overrides.ofVariables text?
  let s := overrides.apply s
  s.validate
  return s

end Switchboard.Settings
