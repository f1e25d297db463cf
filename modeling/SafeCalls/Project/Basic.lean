import SafeCalls.Project.Error
import SafeCalls.Settings.Validation
import SafeCalls.Snapshot.Document
import SafeCalls.Text.Offset

namespace SafeCalls

/-!
# Configuration projects

A configuration project is a directory with exactly one project descriptor and with snapshots of its
units at any depth. Both are found by the ends of their names, among regular files only.
-/

/-- A project with its documents, whatever these are. -/
structure Project (δ : Type) where
  descriptor : FilePath
  /-- The name of the descriptor without its extension. -/
  name : String
  globalProperties : SortedMap String String
  documents : List δ

namespace ProjectSettings

/-- The name of a descriptor without its extension, which may be written in any case. Something has
to be left of the name. The extension is looked for at the offset at which it starts if its spelling
has the same size. -/
def descriptorStem? (p : ProjectSettings) (fileName : String) : Option String :=
  let suffixSize := p.descriptorExtension.utf8ByteSize + 1
  if fileName.utf8ByteSize < suffixSize then none
  else
    match Text.cutAt? (fileName.utf8ByteSize - suffixSize) fileName.toList with
    | some (stem, '.' :: extension) =>
        if !stem.isEmpty && Validation.sameIgnoringCase extension p.descriptorExtension.toList then
          some (String.ofList stem)
        else none
    | _ => none

def isSnapshot (p : ProjectSettings) (fileName : String) : Bool :=
  ('.' :: p.unitExtension.toList).isSuffixOf fileName.toList

/-- The names of the descriptors in a directory, in ascending order. -/
def descriptorNames (p : ProjectSettings) (listing : Listing) : List String :=
  ((listing.entries.filter fun (name, entry) =>
    (p.descriptorStem? name).isSome && entry.isFile).map Prod.fst).mergeSort

def findDescriptor (p : ProjectSettings) (directory : FilePath) (listing : Option Listing) :
    Except ProjectError FilePath :=
  match listing with
  | none => .error (.directoryNotFound directory)
  | some listing =>
      if !listing.isDirectory then .error (.directoryNotFound directory)
      else
        match p.descriptorNames listing with
        | [] => .error (.noDescriptor directory p.descriptorExtension)
        | [name] => .ok (directory.join name)
        | names =>
            .error (.severalDescriptors directory p.descriptorExtension (names.map directory.join))

/-- The names on the way to each snapshot below a directory, in ascending order. What is listed may
be a snapshot itself. -/
def snapshotPlaces (p : ProjectSettings) (directory : FilePath) (listing : Listing) :
    List (List String) :=
  (listing.files.filter fun names =>
    p.isSnapshot (names.getLast?.getD (directory.fileName?.getD directory.text))).mergeSort
      fun a b => !b.lex a fun x y => decide (x < y)

def findSnapshots (p : ProjectSettings) (directory : FilePath) (listing : Option Listing) :
    List FilePath :=
  match listing with
  | none => []
  | some listing => (p.snapshotPlaces directory listing).map directory.descend

def project (p : ProjectSettings) (directory : FilePath) (listing : Option Listing) :
    Except ProjectError (Project SnapshotDocument) := do
  let descriptor ← p.findDescriptor directory listing
  let name := ((descriptor.fileName?).bind p.descriptorStem?).getD ""
  pure ⟨descriptor, name, p.globalProperties,
    (p.findSnapshots directory listing).map SnapshotDocument.ofFile⟩

def load {m : Type → Type} [Monad m] [Files m] (p : ProjectSettings) (directory : FilePath) :
    m (Except ProjectError (Project SnapshotDocument)) := do
  pure (p.project directory (← Files.list? directory))

end ProjectSettings

namespace Project

/-- One line that says which project this is. -/
def describe {δ : Type} (p : Project δ) : String :=
  let properties := p.globalProperties.entries.map fun (name, value) =>
    Text.quoted name ++ ": " ++ Text.quoted value
  "LoadedProject \x7b descriptor: " ++ Text.quoted p.descriptor.text ++ ", name: " ++
    Text.quoted p.name ++ ", global_properties: \x7b" ++ ", ".intercalate properties ++
    "\x7d, documents: " ++ toString p.documents.length ++ " \x7d"

end Project

end SafeCalls
