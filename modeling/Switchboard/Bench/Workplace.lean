import Switchboard.Bench.Names
import Switchboard.Settings.Loader
import Switchboard.Library.Search
/-!
A workplace for loaders and library searches: a file tree with one directory of its own, the environment,
and loaders and searches under names.
-/
namespace Switchboard.Bench

/-- A host, and the loaders and searches that work on it. -/
structure Workplace where
  host : Host
  loaders : Names Settings.Loader := []
  searches : Names Library.Search := []

namespace Workplace

/-- Directories that every system has. -/
def systemDirectories : List Path :=
  Library.Search.platformDirectories ++ ["/etc", "/tmp", "/root"].map Path.ofText

/-- A workplace at a directory. The home directory is to be in it, but is not there yet. -/
def start (top : Path) : Workplace :=
  let bare : Host :=
    { files := .empty, workingDirectory := .root,
      environment := [("HOME", (top.join (.ofText "home")).octets)],
      userHome := some (.ofText "/root") }
  let host := (top :: systemDirectories).foldl Host.makeDirectory bare
  { host := (host.writeFile (.ofText "/dev/null") []).enter top }

/-- A command to a workplace. -/
inductive Command where
  | write (path : Path) (content : Bytes)
  | makeDirectory (path : Path)
  | remove (path : Path)
  | enter (path : Path)
  | setVariable (name : String) (value : Option Bytes)
  | loader (name : String) (globalFile : Option Path)
  | loadDirectory (loader : String) (path : Path)
  | loadFile (loader : String) (path : Path)
  | loadPlain (path : Path)
  | globalDirectory
  | search (name : String)
  | cloneSearch (search name : String)
  | addDirectory (search : String) (path : Path)
  | directories (search : String)
  | find (search library : String)
  | openLibrary (search library : String)

/-- A reply to a command. -/
inductive Reply where
  | nothing
  | settings (r : Except SettingsError Settings)
  | directory (r : Except SettingsError Path)
  | path (p : Option Path)
  | paths (ps : List Path)
  | opened (r : Except LoadError Unit)
  | unknownName (name : String)

/-- A step on a workplace. -/
abbrev WorkplaceM := StateM Workplace

/-- Changes the host. -/
def onHost (f : Host → Host) : WorkplaceM Reply := do
  modify fun w => { w with host := f w.host }
  return .nothing

/-- Goes on with the thing under a name, if there is one. -/
def withNamed {α : Type} (names : Workplace → Names α) (name : String) (f : α → WorkplaceM Reply) :
    WorkplaceM Reply := do
  match (names (← get)).find? name with
  | some a => f a
  | none => return .unknownName name

/-- Goes on with the loader under a name. -/
def withLoader (name : String) (f : Settings.Loader → WorkplaceM Reply) : WorkplaceM Reply :=
  withNamed Workplace.loaders name f

/-- Goes on with the search under a name. -/
def withSearch (name : String) (f : Library.Search → WorkplaceM Reply) : WorkplaceM Reply :=
  withNamed Workplace.searches name f

/-- Keeps a loader under a name. -/
def keepLoader (name : String) (l : Settings.Loader) : WorkplaceM Unit :=
  modify fun w => { w with loaders := w.loaders.put name l }

/-- Keeps a search under a name. -/
def keepSearch (name : String) (s : Library.Search) : WorkplaceM Unit :=
  modify fun w => { w with searches := w.searches.put name s }

/-- Obeys a command. No file of a workplace is a library that can be loaded. -/
def obey : Command → WorkplaceM Reply
  | .write path content => onHost (·.writeFile path content)
  | .makeDirectory path => onHost (·.makeDirectory path)
  | .remove path => onHost (·.remove path)
  | .enter path => onHost (·.enter path)
  | .setVariable name value => onHost (·.setVariable name value)
  | .loader name globalFile => do
    keepLoader name ⟨globalFile⟩
    return .nothing
  | .loadDirectory loader path => withLoader loader fun l => do
    let host := (← get).host
    keepLoader loader (l.after host path)
    return .settings (l.load host path)
  | .loadFile loader path => withLoader loader fun _ => do
    return .settings (Settings.loadOverridden (← get).host path)
  | .loadPlain path => do return .settings (Settings.load (← get).host path)
  | .globalDirectory => do return .directory (Settings.globalDirectory (← get).host)
  | .search name => do
    keepSearch name (.standard (← get).host)
    return .nothing
  | .cloneSearch search name => withSearch search fun s => do
    keepSearch name s
    return .nothing
  | .addDirectory search path => withSearch search fun s => do
    keepSearch search (s.add path)
    return .nothing
  | .directories search => withSearch search fun s => return .paths s.directories
  | .find search library => withSearch search fun s => do
    return .path (s.find? (← get).host library)
  | .openLibrary search library => withSearch search fun s => do
    match s.find (← get).host library with
    | .ok _ => return .opened (.error .unloadable)
    | .error e => return .opened (.error e)

end Workplace

end Switchboard.Bench
