import SafeCalls.Files.Listing
import SafeCalls.Settings.Basic
import SafeCalls.Whitelist.Error

namespace SafeCalls

/-!
# Whitelist stores

A store keeps one whitelist in one file, in the text form or in the JSON form. Unless a format is
asked for, the extension of the file decides.
-/

namespace OutputFormat

/-- The extension for JSON may be written in any case, and all other files hold text. -/
def ofPath (path : FilePath) : OutputFormat :=
  match path.extension? with
  | some extension => if extension.toList.map Char.toLower = "json".toList then json else text
  | none => text

end OutputFormat

namespace WhitelistDocument

def render (d : WhitelistDocument) : OutputFormat → String
  | .text => d.renderText
  | .json => d.renderJson

end WhitelistDocument

structure WhitelistStore where
  location : FilePath
  format : OutputFormat

namespace WhitelistStore

variable {m : Type → Type} [Monad m] [Files m]

def ofPath (location : FilePath) (format : Option OutputFormat) : WhitelistStore :=
  ⟨location, format.getD (.ofPath location)⟩

def save (s : WhitelistStore) (d : WhitelistDocument) : m (Except StorageError Unit) := do
  pure ((← Files.save s.location (d.render s.format)).mapError .file)

/-- The text in the file, which has to be there. -/
def readText (location : FilePath) : m (Except StorageError String) := do
  match ← Files.read location with
  | .ok text => pure (.ok text)
  | .error e =>
      pure (.error (if e.isMissing then .missing location.text (some e) else .file e))

/-- The document in a file in the JSON form. -/
def loadDocument (location : FilePath) : m (Except StorageError WhitelistDocument) := do
  match ← readText location with
  | .error e => pure (.error e)
  | .ok text => pure (WhitelistDocument.parseJson text)

def load (s : WhitelistStore) : m (Except StorageError Whitelist) := do
  match s.format with
  | .text => pure ((← readText s.location).map Whitelist.parseText)
  | .json => pure ((← loadDocument s.location).map WhitelistDocument.whitelist)

end WhitelistStore

end SafeCalls
