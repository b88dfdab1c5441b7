import Switchboard.Files.Path
/-!
Trees of files. A list of names leads from the root of a tree down to a file or a directory, or nowhere; `put`
changes what is at its end and nothing beside it.
-/
namespace Switchboard

/-- A file or a directory. -/
inductive FileTree where
  | file (content : Bytes)
  | directory (entries : List (FileName × FileTree))

namespace FileTree

/-- An empty directory. -/
def empty : FileTree := .directory []

/-- The entry of a directory under a name. -/
def entry? (name : FileName) : FileTree → Option FileTree
  | .file _ => none
  | .directory entries => (entries.find? fun e => e.1 == name).map Prod.snd

/-- The tree with an entry of its root replaced, added or, if nothing is given, removed. A file has no
entries. -/
def setEntry (name : FileName) (new : Option FileTree) : FileTree → FileTree
  | .file content => .file content
  | .directory entries =>
    let others := entries.filter fun e => e.1 != name
    match new with
    | some t => .directory (others ++ [(name, t)])
    | none => .directory others

/-- What the names lead to. -/
def at? : List FileName → FileTree → Option FileTree
  | [], t => some t
  | name :: rest, t => (t.entry? name).bind (at? rest)

/-- How many of the names lead somewhere, one after another. -/
def reach : List FileName → FileTree → Nat
  | [], _ => 0
  | name :: rest, t =>
    match t.entry? name with
    | some inner => reach rest inner + 1
    | none => 0

/-- Puts something in the place that the names lead to, or removes what is there. Directories on the
way are made where there is nothing. -/
def put (new : Option FileTree) : List FileName → FileTree → Option FileTree
  | [], _ => new
  | name :: rest, t => some (t.setEntry name (put new rest ((t.entry? name).getD empty)))

end FileTree

end Switchboard
