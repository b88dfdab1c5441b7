import Switchboard.Client.Error
/-!
The functions that the engine's library must export. They are looked up one after another, and the first
that is missing is the one that is reported.
-/
namespace Switchboard.Library

/-- The name of the engine's library, without what the platform puts around it. -/
def engineName : String := "ton_client"

/-- The functions of the engine, in the order in which they are looked up. -/
def entryPoints : List String :=
  ["tc_create_context", "tc_destroy_context", "tc_request", "tc_read_string", "tc_destroy_string"]

/-- Looks the functions up in a library with the given exports. -/
def bind (library : String) (exports : List String) : Except LoadError Unit :=
  match entryPoints.find? fun symbol => !exports.contains symbol with
  | some symbol => .error (.symbolMissing library symbol)
  | none => .ok ()

end Switchboard.Library
