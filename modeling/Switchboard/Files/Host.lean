import Switchboard.Files.Place
/-!
The host of a program: a tree of files, a place in it where the program works, and an environment. A path is
followed from the root or from that place; every name before the last must be that of a directory. A change
that is not possible changes nothing.
-/
namespace Switchboard

/-- What surrounds a program: files, the place where it works, the variables of its environment, and the home
directory that is on record for its user. -/
structure Host where
  files : FileTree
  workingDirectory : Place
  environment : List (String × Bytes)
  userHome : Option Path := none

namespace Host

/-- The place from which a path is followed, if it can be followed at all. -/
def start (h : Host) (p : Path) : Except ReadFault Place :=
  if p.octets.contains 0 then .error .zeroOctet
  else if p.octets.isEmpty then .error .notFound
  else if Path.limit < p.octets.length then .error .tooLong
  else if p.isAbsolute then .ok .root
  else .ok h.workingDirectory

/-- The place that a path leads to. -/
def locate (h : Host) (p : Path) : Except ReadFault Place := do
  (← h.start p).follow h.files p.segments

/-- The place of the directory that a path leads to. -/
def locateDirectory (h : Host) (p : Path) : Except ReadFault Place := do
  (← h.start p).followInto h.files p.segments

/-- Whether a path leads to a file or a directory. -/
def exists? (h : Host) (p : Path) : Bool := (h.locate p).isOk

/-- The content of the file that a path leads to. -/
def read (h : Host) (p : Path) : Except ReadFault Bytes := do
  match (← h.locate p).at? h.files with
  | some (.file content) => return content
  | some (.directory _) => throw .isDirectory
  | none => throw .notFound

/-- The text in the file that a path leads to. -/
def readText (h : Host) (p : Path) : Except ReadFault String := do
  match Utf8.text? (← h.read p) with
  | some s => return s
  | none => throw .notText

/-- The working directory as a path, unless it has been removed. -/
def workingPath? (h : Host) : Option Path :=
  match h.workingDirectory with
  | ⟨names, 0⟩ => some (.ofNames names)
  | ⟨_, _ + 1⟩ => none

/-- The octets of a variable. -/
def octetsOf? (h : Host) (name : String) : Option Bytes :=
  (h.environment.find? fun v => v.1 == name).map Prod.snd

/-- A variable that holds text. -/
def textOf? (h : Host) (name : String) : Option String := (h.octetsOf? name).bind Utf8.text?

/-- A variable that holds a path. -/
def pathOf? (h : Host) (name : String) : Option Path := (h.octetsOf? name).map Path.mk

/-- The home directory: the one in the variable for it, or the one on record. -/
def home? (h : Host) : Option Path :=
  ((h.pathOf? "HOME").filter fun p => !p.octets.isEmpty) <|> h.userHome

/-- Sets a variable, or removes it. -/
def setVariable (h : Host) (name : String) (value : Option Bytes) : Host :=
  let others := h.environment.filter fun v => v.1 != name
  match value with
  | some octets => { h with environment := others ++ [(name, octets)] }
  | none => { h with environment := others }

/-- Puts something in a place, or removes what is there. Nothing can be put in a removed directory. -/
def putAt (h : Host) (new : Option FileTree) : Place → Host
  | ⟨names, 0⟩ => { h with files := (h.files.put new names).getD .empty }
  | ⟨_, _ + 1⟩ => h

/-- Makes a directory in a place where there is nothing. -/
def ensure (h : Host) (place : Place) : Host :=
  if (place.at? h.files).isSome then h else h.putAt (some .empty) place

/-- Makes directories along segments from a place, as far as that is possible. -/
def makeAlong (h : Host) (place : Place) : List FileName → Host
  | [] => h
  | segment :: rest =>
    match place.at? h.files, place.next segment with
    | some (.directory _), .ok next => makeAlong (h.ensure next) next rest
    | _, _ => h

/-- The segments of a path along which directories are made. A name before a single dot at the end has to be
there already. -/
def segmentsToMake (p : Path) : List FileName :=
  if p.lastName? = some [dot] then (p.parent?.map Path.segments).getD [] else p.segments

/-- Makes a directory, and those on the way to it. -/
def makeDirectory (h : Host) (p : Path) : Host :=
  match h.start p with
  | .ok place => h.makeAlong place (segmentsToMake p)
  | .error _ => h

/-- The place in which a path can have a file: its last segment is a name in a directory, and not that of
another directory. -/
def filePlace (h : Host) (p : Path) : Except ReadFault Place := do
  let above ← (← h.start p).followInto h.files p.segments.dropLast
  let place ← above.next (p.segments.getLastD [])
  match place.at? h.files with
  | some (.directory _) => throw .isDirectory
  | _ => return place

/-- Writes a file, and makes the directories on the way to it. -/
def writeFile (h : Host) (p : Path) (content : Bytes) : Host :=
  let h := match p.parent? with
    | some up => h.makeDirectory up
    | none => h
  match h.filePlace p with
  | .ok place => h.putAt (some (.file content)) place
  | .error _ => h

/-- Removes a file, or a directory with all in it. A directory that is named by dots is emptied, but stays. -/
def remove (h : Host) (p : Path) : Host :=
  match h.locate p with
  | .ok place =>
    let h := h.putAt (if p.endsInDots then some .empty else none) place
    { h with workingDirectory := h.workingDirectory.settle h.files }
  | .error _ => h

/-- Makes the directory that a path leads to the working directory. -/
def enter (h : Host) (p : Path) : Host :=
  match h.locateDirectory p with
  | .ok place => { h with workingDirectory := place }
  | .error _ => h

end Host

end Switchboard
