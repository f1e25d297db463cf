import SafeCalls.Files.Listing
import SafeCalls.Settings.Yaml

namespace SafeCalls

/-!
# Loading settings

Settings are read from a file, or else are the defaults.
-/

namespace Settings

def load {m : Type → Type} [Monad m] [Files m] :
    Option FilePath → m (Except SettingsError Settings)
  | none => pure (.ok .default)
  | some path => do
      match ← Files.read path with
      | .error e => pure (.error (.file e))
      | .ok text => pure (parse text)

end Settings

end SafeCalls
