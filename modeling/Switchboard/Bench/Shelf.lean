import Switchboard.Library.EntryPoints
/-!
Stand-in libraries of the bench: a whole one, one without each function of the engine, and one that is no
library at all.
-/
namespace Switchboard.Bench

/-- All functions of the engine but one. -/
def allBut (missing : String) : List String := Library.entryPoints.filter (· ≠ missing)

/-- The exports of the libraries on the shelf; the one without exports to list cannot be loaded. -/
def shelf : List (String × Option (List String)) :=
  [("ton_client", some Library.entryPoints),
    ("no_create", some (allBut "tc_create_context")),
    ("no_destroy", some (allBut "tc_destroy_context")),
    ("no_request", some (allBut "tc_request")),
    ("no_read", some (allBut "tc_read_string")),
    ("no_free", some (allBut "tc_destroy_string")),
    ("broken", none)]

/-- Loads a library from the shelf. -/
def loadFromShelf (name : String) : Except LoadError Unit :=
  match (shelf.find? fun s => s.1 == name).map Prod.snd with
  | none => .error (.notFound name)
  | some none => .error .unloadable
  | some (some exports) => Library.bind name exports

end Switchboard.Bench
