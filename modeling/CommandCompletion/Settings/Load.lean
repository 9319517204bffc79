import CommandCompletion.Files
import CommandCompletion.Settings.Text

/-!
# Loading settings

Settings are loaded from the file that is asked for, which has to exist, or else from the
default file, which need not.
-/

set_option autoImplicit false

namespace CommandCompletion.Settings

variable {m : Type → Type} [Monad m] [FileStore m]

/-- The path of the default file. -/
def defaultPath : m String := do
  match ← FileStore.settingsDirectory with
  | some directory => return Path.join directory "tabgen/config.toml"
  | none => return "tabgen.toml"

/-- The settings in a file. -/
def read (path : String) : ExceptT Failure m Settings := do
  let text ← FileStore.readText path
  MonadExcept.ofExcept ((ofText text).mapError .settings)

/-- Loads the settings from the file that is asked for or from the default file. -/
def load (path : Option String) : ExceptT Failure m Settings := do
  match path with
  | some path =>
    if ← FileStore.pathExists path then read path
    else throw (.settings (.fileNotFound path))
  | none =>
    let path ← defaultPath
    if ← FileStore.pathExists path then read path else return {}

end CommandCompletion.Settings
