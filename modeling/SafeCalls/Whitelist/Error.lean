import SafeCalls.Files.Error
import SafeCalls.Whitelist.Document

namespace SafeCalls

/-!
# Errors of keeping whitelists

Why a whitelist cannot be written or read back. Some of these errors are caused by another one,
which they then carry.
-/

inductive StorageError where
  /-- The file of a whitelist is not there. -/
  | missing (path : String) (cause : Option FileError)
  | file (error : FileError)
  | json (error : Json.Error)
  | unsupportedVersion (found supported : UInt32)
  | serialization (words : String)
  | inputOutput (words : String) (cause : Option FileError)

namespace StorageError

/-- The word for a kind of error. -/
def kind : StorageError → String
  | missing _ _ => "not_found"
  | file error => if error.isMissing then "not_found" else "io"
  | json _ => "serialization"
  | unsupportedVersion _ _ => "unsupported_version"
  | serialization _ => "serialization"
  | inputOutput _ _ => "io"

def words : StorageError → String
  | missing path _ => "Whitelist not found: " ++ path
  | file error => "I/O error: " ++ error.message
  | json error => "JSON error: " ++ error.wording?.getD "malformed text"
  | unsupportedVersion found supported =>
      "Whitelist document version " ++ toString found.toNat ++ " is not supported (expected " ++
        toString supported.toNat ++ ")"
  | serialization words => words
  | inputOutput words _ => words

def message (e : StorageError) : String := "[" ++ e.kind ++ "] " ++ e.words

/-- The message of the error that caused this one. -/
def cause? : StorageError → Option String
  | missing _ cause => cause.map FileError.message
  | file error => some error.message
  | json error => some (error.wording?.getD "malformed text")
  | unsupportedVersion _ _ => none
  | serialization _ => none
  | inputOutput _ cause => cause.map FileError.message

end StorageError

namespace WhitelistDocument

/-- The document in a JSON form, which has to be of the current version. -/
def parseJson (text : String) : Except StorageError WhitelistDocument :=
  match Json.decode read text with
  | .error e => .error (.json e)
  | .ok d =>
      if d.version = currentVersion then .ok d
      else .error (.unsupportedVersion d.version currentVersion)

end WhitelistDocument

end SafeCalls
