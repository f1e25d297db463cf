import SafeCalls.Project.Error
import SafeCalls.Settings.Error
import SafeCalls.Whitelist.Error

namespace SafeCalls

/-!
# Errors of a whitelist pass

Whatever can keep a pass from its outcome, and the messages of an error and of its causes, from the
outermost to the innermost.
-/

namespace SettingsError

/-- The message of the error that caused this one. -/
def cause? : SettingsError → Option String
  | file error => some error.message
  | yaml error => some error.message
  | _ => none

def messages (e : SettingsError) : List String := e.message :: e.cause?.toList

end SettingsError

namespace StorageError

def messages (e : StorageError) : List String := e.message :: e.cause?.toList

end StorageError

/-- Why units cannot be extracted. -/
inductive ExtractionError where
  | settings (error : SettingsError)
  | snapshot (error : Json.Error)
  | pipeline (words : String)

namespace ExtractionError

def messages : ExtractionError → List String
  | settings error => ("Configuration error: " ++ error.message) :: error.messages
  | snapshot error =>
      let words := error.wording?.getD "malformed text"
      ["Serialization error: " ++ words, words]
  | pipeline words => ["Pipeline error: " ++ words]

def message (e : ExtractionError) : String := e.messages.headD ""

end ExtractionError

inductive PassError where
  | configuration (error : ProjectError)
  | settings (error : SettingsError)
  | extraction (error : ExtractionError)
  | storage (error : StorageError)
  | file (error : FileError)
  /-- A worker did not finish. -/
  | worker (words : String)

namespace PassError

def messages : PassError → List String
  | configuration error => ["Configuration error: " ++ error.message, error.message]
  | settings error => ("Settings error: " ++ error.message) :: error.messages
  | extraction error => ("Extraction error: " ++ error.message) :: error.messages
  | storage error => ("Storage error: " ++ error.message) :: error.messages
  | file error => ["IO error: " ++ error.message, error.message]
  | worker words => ["Worker task failed: " ++ words]

def message (e : PassError) : String := e.messages.headD ""

/-- Whether the configuration project itself is in error. -/
def isConfiguration : PassError → Bool
  | configuration _ => true
  | _ => false

end PassError

end SafeCalls
