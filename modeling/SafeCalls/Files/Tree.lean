import SafeCalls.Files.Error
import SafeCalls.Files.Path

namespace SafeCalls

/-!
# File trees

The files below a working directory, as a value. A directory keeps its entries in the order in which
they are listed, which may be any. Paths lead through symbolic links as the system does it.
-/

inductive FileNode where
  | file (content : ByteArray)
  | directory (entries : List (String × FileNode))
  | link (target : FilePath)

namespace FileNode

/-- The node that names lead to, without following links. -/
def get? : List String → FileNode → Option FileNode
  | [], node => some node
  | name :: rest, directory entries => (entries.lookup name).bind (get? rest)
  | _ :: _, _ => none

/-- Sets or removes one entry. -/
def setEntry (name : String) (node : Option FileNode) :
    List (String × FileNode) → List (String × FileNode)
  | [] => (node.map fun node => (name, node)).toList
  | (other, old) :: rest =>
      if other = name then (node.map fun node => (name, node)).toList ++ rest
      else (other, old) :: setEntry name node rest

/-- Sets or removes what names lead to, below directories that are there. -/
def put (new : Option FileNode) : List String → FileNode → FileNode
  | [], node => new.getD node
  | [name], directory entries => directory (setEntry name new entries)
  | name :: rest, directory entries =>
      match entries.lookup name with
      | some node => directory (setEntry name (some (put new rest node)) entries)
      | none => directory entries
  | _ :: _, node => node

end FileNode

structure FileTree where
  root : FileNode

namespace FileTree

def empty : FileTree := ⟨.directory []⟩

/-- How many links may be followed on one way. -/
def linkLimit : Nat := 40

/-- What is wrong with a path whatever the files are. Only paths below the working directory lead
to files. -/
def pathError? (p : FilePath) : Option FileError :=
  if p.text.isEmpty then some .notFound
  else if p.text.toList.contains '\x00' then some .invalidPath
  else if 4096 ≤ p.text.utf8ByteSize || p.parts.any (255 < ·.utf8ByteSize) then some .nameTooLong
  else if p.isAbsolute then some .notFound
  else none

/-- The place that parts of a path lead to from a directory. Only the last of them may be missing,
and only there a link may be left unfollowed. -/
def locate (t : FileTree) (follows : Bool) (links : Nat) (here : List String) :
    List String → Except FileError (List String)
  | [] => .ok here
  | part :: rest =>
      if part = "" ∨ part = "." then locate t follows links here rest
      else if part = ".." then locate t follows links here.dropLast rest
      else
        let there := here ++ [part]
        match t.root.get? there with
        | none => if rest.isEmpty then .ok there else .error .notFound
        | some (.file _) => if rest.isEmpty then .ok there else .error .notDirectory
        | some (.directory _) => locate t follows links there rest
        | some (.link target) =>
            if rest.isEmpty && !follows then .ok there
            else
              match links with
              | 0 => .error .tooManyLinks
              | links + 1 =>
                  match pathError? target with
                  | some e => .error e
                  | none => locate t follows links here (target.parts ++ rest)
termination_by parts => (links, parts.length)

def place (t : FileTree) (follows : Bool) (p : FilePath) : Except FileError (List String) :=
  match pathError? p with
  | some e => .error e
  | none => t.locate follows linkLimit [] p.parts

def node (t : FileTree) (follows : Bool) (p : FilePath) : Except FileError FileNode := do
  match t.root.get? (← t.place follows p) with
  | some node => .ok node
  | none => .error .notFound

def isDirectory (t : FileTree) (p : FilePath) : Bool :=
  match t.node true p with
  | .ok (.directory _) => true
  | _ => false

def readBytes (t : FileTree) (p : FilePath) : Except FileError ByteArray := do
  match ← t.node true p with
  | .file content => .ok content
  | .directory _ => .error .isDirectory
  | .link _ => .error .notFound

def read (t : FileTree) (p : FilePath) : Except FileError String := do
  match String.fromUTF8? (← t.readBytes p) with
  | some text => .ok text
  | none => .error .notText

/-- The directory of a path that is to be made, and the last name of it. -/
def parent (t : FileTree) (parts : List String) : Except FileError (List String × String) := do
  let here ← t.locate true linkLimit [] (parts.dropLast ++ ["."])
  pure (here, parts.getLast?.getD "")

/-- The parts of a path without the slashes at its end. -/
def withoutSlashes (parts : List String) : List String :=
  (parts.reverse.dropWhile String.isEmpty).reverse

/-- Sets the content of a file, which may be new. -/
def writeBytes (t : FileTree) (p : FilePath) (content : ByteArray) : Except FileError FileTree :=
  match pathError? p with
  | some e => .error e
  | none => do
      let (_, name) ← t.parent (withoutSlashes p.parts)
      if p.parts.getLast? = some "" ∨ name = "." ∨ name = ".." then .error .isDirectory
      else
        let there ← t.locate true linkLimit [] p.parts
        match t.root.get? there with
        | some (.directory _) => .error .isDirectory
        | _ => pure ⟨t.root.put (some (.file content)) there⟩

/-- Makes a directory in one that is there. -/
def makeDirectory (t : FileTree) (parts : List String) : Except FileError FileTree := do
  let (here, name) ← t.parent parts
  if name = ".." ∨ (t.root.get? (here ++ [name])).isSome then .error .alreadyExists
  else pure ⟨t.root.put (some (.directory [])) (here ++ [name])⟩

/-- Makes a directory and those on the way to it, as far as they are not there. The names are given
from the last to the first. -/
def makeDirectories (t : FileTree) : List String → Except FileError FileTree
  | [] => .ok t
  | name :: before =>
      let parts := before.reverse ++ [name]
      let unlessThere (t : FileTree) (e : FileError) : Except FileError FileTree :=
        if t.isDirectory ⟨"/".intercalate parts⟩ then .ok t else .error e
      match t.makeDirectory parts with
      | .ok t => .ok t
      | .error e =>
          if e.isMissing then do
            let t ← makeDirectories t before
            match t.makeDirectory parts with
            | .ok t => .ok t
            | .error e => unlessThere t e
          else unlessThere t e

/-- Sets the content of a file, in a directory that is made if it is not there. -/
def saveBytes (t : FileTree) (p : FilePath) (content : ByteArray) : Except FileError FileTree :=
  match pathError? p with
  | some e => .error e
  | none => do (← t.makeDirectories (p.names.reverse.drop 1)).writeBytes p content

def save (t : FileTree) (p : FilePath) (text : String) : Except FileError FileTree :=
  t.saveBytes p text.toUTF8

end FileTree

end SafeCalls
