namespace SafeCalls

/-!
# Errors of the file system

The reasons for which a file operation fails, in the words of the system.
-/

inductive FileError where
  | notFound
  | notDirectory
  | isDirectory
  | alreadyExists
  | nameTooLong
  | tooManyLinks
  /-- A path with a null character in it. -/
  | invalidPath
  /-- The bytes of a file are no UTF-8. -/
  | notText
  | described (isMissing : Bool) (words : String)
  deriving DecidableEq

namespace FileError

def message : FileError → String
  | notFound => "No such file or directory (os error 2)"
  | notDirectory => "Not a directory (os error 20)"
  | isDirectory => "Is a directory (os error 21)"
  | alreadyExists => "File exists (os error 17)"
  | nameTooLong => "File name too long (os error 36)"
  | tooManyLinks => "Too many levels of symbolic links (os error 40)"
  | invalidPath => "file name contained an unexpected NUL byte"
  | notText => "stream did not contain valid UTF-8"
  | described _ words => words

/-- Whether the reason is that something is not there. -/
def isMissing : FileError → Bool
  | notFound => true
  | described isMissing _ => isMissing
  | _ => false

end FileError

end SafeCalls
