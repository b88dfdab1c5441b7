import Switchboard.Settings.Overrides
import Switchboard.Files.Host
import Switchboard.Toml.Reader
/-!
Loading settings from files. A project's file is looked for in a directory and in those above it; the
user's own file counts only where no project has one, and where there is neither the settings are empty.
Variables of the environment override what has been loaded.
-/
namespace Switchboard

/-- Why settings cannot be loaded. -/
inductive SettingsError where
  | notFound (file : Path)
  | unreadable (fault : ReadFault)
  | misspelled (file : Path)
  | invalid (value : Settings.InvalidValue)
  | noHome
  deriving DecidableEq

namespace SettingsError

/-- The error of a file that cannot be read. -/
def ofReadFault (file : Path) : ReadFault → SettingsError
  | .notFound => .notFound file
  | fault => .unreadable fault

/-- The message that a file is not there. -/
def notFoundMessage (file : Path) : String := "Configuration file not found: " ++ file.text

/-- The message that there is no home directory. -/
def noHomeMessage : String := "Home directory not found"

end SettingsError

namespace Settings

/-- The settings that a TOML text writes. -/
def ofToml? (text : String) : Option Settings := do
  match form.decode (.ofLanguage .toml) (← Toml.read? text) with
  | .ok s => some s
  | .error _ => none

/-- Loads the settings in a file, and checks them. -/
def load (h : Host) (file : Path) : Except SettingsError Settings := do
  let text ← (h.readText file).mapError (.ofReadFault file)
  match ofToml? text with
  | none => throw (.misspelled file)
  | some s =>
    s.validate.mapError .invalid
    return s

/-- Loads the settings in a file, and overrides them. -/
def loadOverridden (h : Host) (file : Path) : Except SettingsError Settings := do
  ((← load h file).override h.textOf?).mapError .invalid

/-- The name of a project's file. -/
def projectFile : Path := .ofText "ever.toml"

/-- The file of the project that a directory belongs to: the first one in the directory and those
above it. -/
def projectFile? (h : Host) (start : Path) : Option Path :=
  (start.ancestors.map (·.join projectFile)).find? h.exists?

/-- The directory of the user's own settings. -/
def globalDirectory (h : Host) : Except SettingsError Path :=
  match h.home? with
  | some home => .ok (home.join (.ofText ".ever"))
  | none => .error .noHome

/-- A loader. It has a path for the user's own settings, or finds it when it first needs it and keeps
it. -/
structure Loader where
  globalFile : Option Path := none
  deriving DecidableEq, Repr

namespace Loader

/-- The path of the user's own settings, if there is a home directory. -/
def globalFile? (l : Loader) (h : Host) : Option Path :=
  match l.globalFile, globalDirectory h with
  | some file, _ => some file
  | none, .ok directory => some (directory.join (.ofText "config.toml"))
  | none, .error _ => none

/-- Loads the user's own settings, which are empty if there is no file with them. -/
def loadGlobal (l : Loader) (h : Host) : Except SettingsError Settings :=
  match l.globalFile? h with
  | some file => if h.exists? file then Settings.load h file else .ok {}
  | none => .ok {}

/-- Loads the settings of the project that a directory belongs to, or the user's own, before anything
overrides them. -/
def loadPlain (l : Loader) (h : Host) (start : Path) : Except SettingsError Settings :=
  match projectFile? h start with
  | some file => Settings.load h file
  | none => l.loadGlobal h

/-- Loads the settings for a directory, and overrides them. -/
def load (l : Loader) (h : Host) (start : Path) : Except SettingsError Settings := do
  ((← l.loadPlain h start).override h.textOf?).mapError .invalid

/-- The loader after it has loaded settings for a directory. -/
def after (l : Loader) (h : Host) (start : Path) : Loader :=
  match projectFile? h start with
  | some _ => l
  | none => { l with globalFile := l.globalFile? h }

end Loader

end Settings

end Switchboard
