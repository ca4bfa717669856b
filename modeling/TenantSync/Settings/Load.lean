/-
  TenantSync.Settings.Load
  ────────────────────────
  **WHERE SETTINGS ARE READ.**

  The user's layer is a TOML file.  Its path is given, or found from the
  environment; a file that does not exist is no layer.
-/
import TenantSync.Digest
import TenantSync.Files.Basic
import TenantSync.Settings.Basic
import TenantSync.Toml.Reader

namespace TenantSync.Settings

/-- Why settings could not be had. -/
inductive Error where
  /-- The file could not be read. -/
  | unreadable (path message : String)
  /-- The file is not TOML. -/
  | malformed (path : String)
  /-- A setting is not what it has to be. -/
  | invalid (why : Invalid)
  deriving DecidableEq, Repr

/-- The error in words. -/
def Error.message : Error → String
  | .unreadable path message => s!"IO error: {path}: {message}"
  | .malformed path => s!"Parse error: {path}: not a settings file"
  | .invalid why => s!"Validation error: {why.message}"

/-- The variable of the environment that names the file. -/
def pathVariable : String := "ORGSYNC_SETTINGS"

/-- The path of the file, given the environment. -/
def defaultPath (environment : String → Option String) : Option String :=
  match environment pathVariable with
  | some path => some path
  | none => (environment "HOME").map fun home => Files.join home ".config/orgsync/settings.toml"

/-- The layer of a file's bytes. -/
def layerOf (path : String) (bytes : ByteArray) : Except Error FileLayer :=
  match (String.fromUTF8? bytes).bind Toml.ofText? with
  | some v => .ok ⟨path, Digest.hexOf bytes, .ofValue v⟩
  | none => .error (.malformed path)

variable {m : Type → Type} [Monad m]

/-- The layer of a file, if there is a file. -/
def readLayer (files : Files m) (path : Option String) : m (Except Error (Option FileLayer)) := do
  match path with
  | none => return .ok none
  | some path =>
      if !(← files.present path) then return .ok none
      match ← files.read path with
      | .error fault => return .error (.unreadable path fault.message)
      | .ok bytes => return (layerOf path bytes).map some

/-- The settings with a file and a layer of the command line. -/
def load (files : Files m) (path : Option String) (cli : Option Payload) :
    m (Except Error Settings) := do
  match ← readLayer files path with
  | .error e => return .error e
  | .ok user => return (ofLayers user cli).mapError .invalid

end TenantSync.Settings
