import SafeCalls.Extraction.Model
import SafeCalls.Files.Listing

namespace SafeCalls

/-!
# Documents of a project

A document is a snapshot file that is read when its tree or its model is first asked for, and never
again: what has been read once stays, and so does a failure to read it. Until then the document goes
by the path of the file, and afterwards by the path that the snapshot records.
-/

structure DocumentParts where
  /-- The path in the snapshot, if the file held one. -/
  source : Option String
  tree : Option SyntaxTree
  model : Option SemanticModel

namespace DocumentParts

def missing : DocumentParts := ⟨none, none, none⟩

/-- The parts that the content of a file holds. -/
def ofContent : Except FileError String → DocumentParts
  | .error _ => missing
  | .ok text =>
      match UnitSnapshot.parse text with
      | .error _ => missing
      | .ok snapshot => ⟨some snapshot.path, snapshot.tree, snapshot.unit.model⟩

end DocumentParts

structure SnapshotDocument where
  file : FilePath
  parts : Option DocumentParts

namespace SnapshotDocument

def ofFile (file : FilePath) : SnapshotDocument := ⟨file, none⟩

def isLoaded (d : SnapshotDocument) : Bool := d.parts.isSome

def path (d : SnapshotDocument) : String := (d.parts.bind DocumentParts.source).getD d.file.text

/-- The document after the content of its file has been read, which counts the first time only. -/
def fill (d : SnapshotDocument) (content : Except FileError String) : SnapshotDocument :=
  match d.parts with
  | some _ => d
  | none => { d with parts := some (.ofContent content) }

/-- The document with its parts read, for which the file is read only if it has not been. -/
def load {m : Type → Type} [Monad m] [Files m] (d : SnapshotDocument) : m SnapshotDocument :=
  match d.parts with
  | some _ => pure d
  | none => do pure (d.fill (← Files.read d.file))

/-- What the document contributes once it is loaded. -/
def unit (d : SnapshotDocument) : ConfigurationUnit :=
  let parts := d.parts.getD .missing
  ⟨d.path, parts.tree, parts.model⟩

def describe (d : SnapshotDocument) : String :=
  "SnapshotDocument \x7b file: " ++ Text.quoted d.file.text ++ ", path: " ++
    Text.quoted d.path ++ ", loaded: " ++ toString d.isLoaded ++ " \x7d"

end SnapshotDocument

end SafeCalls
