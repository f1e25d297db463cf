import SafeCalls.Files.Error
import SafeCalls.Yaml.Error

namespace SafeCalls

/-!
# Errors of settings

What can be wrong with settings: that they cannot be read, that they are of another version, or
that one of their values is not allowed.
-/

inductive SettingsError where
  | range (field value least greatest hint : String)
  | invalidName (field value hint : String)
  | missingVersion
  | unsupportedVersion (found : UInt32) (supported : List UInt32)
  | file (error : FileError)
  | yaml (error : Yaml.Error)
  | validation (words : String)
  | custom (words : String)

namespace SettingsError

def message : SettingsError → String
  | range field value least greatest hint =>
      "Invalid range for field '" ++ field ++ "': " ++ value ++ " not in " ++ least ++ "..=" ++
        greatest ++ ". " ++ hint
  | invalidName field value hint =>
      "Invalid value for field '" ++ field ++ "': '" ++ value ++ "'. " ++ hint
  | missingVersion =>
      "Missing 'version' field in settings file. " ++
        "Add 'version: 1' to the top of your YAML file."
  | unsupportedVersion found supported =>
      "Unsupported settings version " ++ toString found.toNat ++ ". Supported versions: " ++
        ", ".intercalate (supported.map fun v => toString v.toNat)
  | file error => "IO error: " ++ error.message
  | yaml error => "YAML parsing error: " ++ error.message
  | validation words => "Validation error: " ++ words
  | custom words => words

end SettingsError

end SafeCalls
