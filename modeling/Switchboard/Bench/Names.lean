/-!
Things under names.
-/
namespace Switchboard.Bench

/-- Things under names, each name once. -/
abbrev Names (α : Type) := List (String × α)

namespace Names

variable {α : Type}

/-- The thing under a name. -/
def find? (ns : Names α) (name : String) : Option α :=
  (List.find? (fun n => n.1 == name) ns).map Prod.snd

/-- The name of a thing. -/
def nameOf? [DecidableEq α] (ns : Names α) (a : α) : Option String :=
  (List.find? (fun n => n.2 = a) ns).map Prod.fst

/-- The names without one of them. -/
def erase (ns : Names α) (name : String) : Names α := List.filter (fun n => n.1 != name) ns

/-- The names with a thing put under one of them. -/
def put (ns : Names α) (name : String) (a : α) : Names α := ns.erase name ++ [(name, a)]

end Names

end Switchboard.Bench
