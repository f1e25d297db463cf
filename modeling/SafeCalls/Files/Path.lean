import SafeCalls.Text.Split

namespace SafeCalls

/-!
# File paths

A path is kept as it is spelled, because messages show it that way. What counts in it are the names
between slashes.
-/

structure FilePath where
  text : String
  deriving DecidableEq, Repr

namespace FilePath

/-- Everything between slashes, empty parts and dots included. -/
def parts (p : FilePath) : List String := (Text.splitAt '/' p.text.toList).map String.ofList

/-- The names on the way, without empty parts and single dots. -/
def names (p : FilePath) : List String :=
  p.parts.filter fun part => !part.isEmpty && part != "."

def isAbsolute (p : FilePath) : Bool := p.text.toList.head? == some '/'

/-- The name of the file or directory itself, unless the path leads upwards. -/
def fileName? (p : FilePath) : Option String :=
  match p.names.getLast? with
  | some name => if name = ".." then none else some name
  | none => none

/-- What comes after the last dot of a name, unless there is nothing before that dot. -/
def nameExtension? (name : List Char) : Option (List Char) :=
  let extension := (name.reverse.takeWhile (· != '.')).reverse
  if extension.length + 1 < name.length then some extension else none

def extension? (p : FilePath) : Option String :=
  p.fileName?.bind fun name => (nameExtension? name.toList).map String.ofList

/-- A path below this one. -/
def join (p : FilePath) (name : String) : FilePath :=
  if p.text.isEmpty || p.text.toList.getLast? == some '/' then ⟨p.text ++ name⟩
  else ⟨p.text ++ "/" ++ name⟩

/-- A path any number of levels below this one. -/
def descend (p : FilePath) (names : List String) : FilePath := names.foldl join p

end FilePath

end SafeCalls
