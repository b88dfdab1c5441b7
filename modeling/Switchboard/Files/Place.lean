import Switchboard.Files.Tree
/-!
Places in a tree of files. Who is in a directory stays in it when it is removed: such a place is an empty
directory in which nothing can be made, and from which the way up still leads to the directories above it.
-/
namespace Switchboard

/-- Why a file cannot be read. -/
inductive ReadFault where
  | notFound
  | notDirectory
  | isDirectory
  | notText
  | zeroOctet
  | tooLong
  deriving DecidableEq, Repr

/-- A place in a tree: the names that lead to it from the root and, below the last of them, a number of
directories that have been removed. -/
structure Place where
  names : List FileName
  removed : Nat
  deriving DecidableEq, Repr

namespace Place

/-- The root of a tree. -/
def root : Place := ⟨[], 0⟩

/-- What is in a place. -/
def at? (files : FileTree) : Place → Option FileTree
  | ⟨names, 0⟩ => files.at? names
  | ⟨_, _ + 1⟩ => some .empty

/-- The place above a place. The root is above itself. -/
def parent : Place → Place
  | ⟨names, 0⟩ => ⟨names.dropLast, 0⟩
  | ⟨names, n + 1⟩ => ⟨names, n⟩

/-- The place of a name in the directory of a place. -/
def child (name : FileName) : Place → Except ReadFault Place
  | ⟨names, 0⟩ =>
    if FileName.limit < name.length then .error .tooLong else .ok ⟨names ++ [name], 0⟩
  | ⟨_, _ + 1⟩ => .error .notFound

/-- The place to which a segment of a path leads from a directory. What is left out of a path, and a single
dot, stay in the directory; two dots leave it. -/
def next (p : Place) (segment : FileName) : Except ReadFault Place :=
  if segment = [] ∨ segment = [dot] then .ok p
  else if segment = [dot, dot] then .ok p.parent
  else p.child segment

/-- Follows the segments of a path from a place. -/
def follow (files : FileTree) (p : Place) : List FileName → Except ReadFault Place
  | [] => if (p.at? files).isSome then .ok p else .error .notFound
  | segment :: rest =>
    match p.at? files with
    | none => .error .notFound
    | some (.file _) => .error .notDirectory
    | some (.directory _) => do follow files (← p.next segment) rest

/-- Follows segments to a directory. -/
def followInto (files : FileTree) (p : Place) (segments : List FileName) : Except ReadFault Place :=
  p.follow files (segments ++ [[]])

/-- The place after the tree has lost something: names that lead nowhere any more are those of removed
directories. -/
def settle (files : FileTree) (p : Place) : Place :=
  let kept := files.reach p.names
  ⟨p.names.take kept, p.names.length - kept + p.removed⟩

end Place

end Switchboard
