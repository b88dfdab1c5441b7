import Switchboard.Form.Value
/-!
What travels to the engine and back. Parameters are JSON with sorted names, and null is sent as nothing
at all; an empty payload is read as null.
-/
namespace Switchboard

/-- The octets of a request's parameters. -/
def encodeParams : Doc → Bytes
  | .null => []
  | d => Utf8.encode (Json.write d.sorted)

/-- The octets of null. -/
def nullPayload : Bytes := Utf8.encode "null"

/-- The value of a payload. -/
def Form.ofPayload {α : Type} (form : Form α) (payload : Bytes) : Except Fault α :=
  form.read (if payload.isEmpty then nullPayload else payload)

end Switchboard
