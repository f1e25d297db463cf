import SafeCalls.Files.Path

namespace SafeCalls

/-!
# Errors of configuration projects

Why a directory is no configuration project: it has to be there and to hold one project descriptor.
-/

inductive ProjectError where
  | directoryNotFound (directory : FilePath)
  | noDescriptor (directory : FilePath) (extension : String)
  | severalDescriptors (directory : FilePath) (extension : String) (candidates : List FilePath)
  deriving DecidableEq

namespace ProjectError

def message : ProjectError → String
  | directoryNotFound directory => "Configuration directory not found: " ++ directory.text
  | noDescriptor directory extension =>
      "No ." ++ extension ++ " project file found in " ++ directory.text
  | severalDescriptors directory extension candidates =>
      "Multiple ." ++ extension ++ " project files found in " ++ directory.text ++ ": " ++
        ", ".intercalate (candidates.map FilePath.text)

end ProjectError

end SafeCalls
