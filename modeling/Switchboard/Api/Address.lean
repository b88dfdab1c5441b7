import Switchboard.Form.Choice
/-!
Conversion of addresses between their formats.
-/
namespace Switchboard.Api

/-- A format of addresses. -/
inductive AddressFormat where
  | accountId
  | hex
  | base64 (url test bounce : Bool)
  deriving DecidableEq, Repr

namespace AddressFormat

/-- The fields of the base64 format. -/
def base64Fields : Fields (Bool × Bool × Bool × Unit) :=
  .cons (.required "url" .bool) <| .cons (.required "test" .bool) <|
    .cons (.required "bounce" .bool) .done

/-- Formats as variants. -/
def form : Form AddressFormat where
  encode
    | .accountId => Tagged.write "AccountId" .done ()
    | .hex => Tagged.write "Hex" .done ()
    | .base64 url test bounce => Tagged.write "Base64" base64Fields (url, test, bounce, ())
  decode r d := do
    let t ← Tagged.ofDoc r d
    match t.name with
    | "AccountId" => t.empty; return .accountId
    | "Hex" => t.empty; return .hex
    | "Base64" => let (url, test, bounce, ()) ← t.fields base64Fields; return .base64 url test bounce
    | _ => throw .malformed

end AddressFormat

/-- An address to convert. -/
structure ConvertAddressParams where
  address : String
  outputFormat : AddressFormat

/-- Conversions as records. -/
def ConvertAddressParams.form : Form ConvertAddressParams :=
  .record
    (.cons (.required "address" .text) <| .cons (.required "output_format" AddressFormat.form) .done)
    (fun (address, outputFormat, ()) => { address, outputFormat })
    fun p => (p.address, p.outputFormat, ())

/-- A converted address. -/
structure ConvertedAddress where
  address : String

/-- Converted addresses as records. -/
def ConvertedAddress.form : Form ConvertedAddress :=
  .record (.cons (.required "address" .text) .done) (fun (address, ()) => { address })
    fun a => (a.address, ())

end Switchboard.Api
