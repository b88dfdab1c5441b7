import Switchboard.Client.Error
import Switchboard.Files.Host
/-!
Where the engine's library is looked for: in directories, one after another, and in each of them under two
file names.
-/
namespace Switchboard.Library

/-- The directories in which libraries are looked for, the first one first. -/
structure Search where
  directories : List Path
  deriving DecidableEq, Repr

namespace Search

/-- The directories of the platform. -/
def platformDirectories : List Path :=
  ["/usr/lib", "/usr/local/lib", "/lib", "/usr/lib64", "/lib64"].map Path.ofText

/-- The directory in the variable for it, the working directory, and those of the platform. -/
def standard (h : Host) : Search :=
  ⟨(h.pathOf? "EVER_CLIENT_LIB_DIR").toList ++ h.workingPath?.toList ++ platformDirectories⟩

/-- The search with one more directory, which comes before all others. -/
def add (s : Search) (directory : Path) : Search := ⟨directory :: s.directories⟩

/-- The names that the file of a library may have. -/
def fileNames (library : String) : List Path :=
  ["lib" ++ library ++ ".so", library ++ ".so"].map Path.ofText

/-- The files that a library may be, the first one first. -/
def candidates (s : Search) (library : String) : List Path :=
  s.directories.flatMap fun directory => (fileNames library).map directory.join

/-- The file of a library: the first candidate that exists. The name may also be a path from the
root. -/
def find? (s : Search) (h : Host) (library : String) : Option Path :=
  if (Path.ofText library).isAbsolute then Option.guard h.exists? (.ofText library)
  else (s.candidates library).find? h.exists?

/-- The file of a library, or that there is none. -/
def find (s : Search) (h : Host) (library : String) : Except LoadError Path :=
  match s.find? h library with
  | some file => .ok file
  | none => .error (.notFound library)

end Search

end Switchboard.Library
