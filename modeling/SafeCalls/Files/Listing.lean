import SafeCalls.Files.Tree

namespace SafeCalls

/-!
# Listings

What can be seen of a directory without reading any file: names and kinds, at any depth, in the
order in which the system lists them. Links are not followed.
-/

inductive Listing where
  | file
  | link
  | directory (entries : List (String × Listing))
  deriving Repr

namespace Listing

def entries : Listing → List (String × Listing)
  | directory entries => entries
  | _ => []

def isDirectory : Listing → Bool
  | directory _ => true
  | _ => false

def isFile : Listing → Bool
  | file => true
  | _ => false

mutual

/-- The regular files at any depth, by the names on the way to each of them. -/
def files : Listing → List (List String)
  | file => [[]]
  | link => []
  | directory entries => entryFiles entries

def entryFiles : List (String × Listing) → List (List String)
  | [] => []
  | (name, listing) :: more => (files listing).map (name :: ·) ++ entryFiles more

end

end Listing

namespace FileNode

mutual

def listing : FileNode → Listing
  | file _ => .file
  | link _ => .link
  | directory entries => .directory (entryListings entries)

def entryListings : List (String × FileNode) → List (String × Listing)
  | [] => []
  | (name, node) :: more => (name, listing node) :: entryListings more

end

end FileNode

namespace FileTree

/-- The listing of what a path leads to. A link to a directory is listed as that directory. -/
def list? (t : FileTree) (p : FilePath) : Option Listing :=
  match t.node false p, t.node true p with
  | .ok (.link _), .ok (.directory entries) => some (FileNode.directory entries).listing
  | .ok node, _ => some node.listing
  | .error _, _ => none

end FileTree

/-- A place where files are kept. -/
class Files (m : Type → Type) where
  read : FilePath → m (Except FileError String)
  /-- Sets the text of a file, in a directory that is made if it is not there. -/
  save : FilePath → String → m (Except FileError Unit)
  /-- The listing of what a path leads to, if it leads anywhere. -/
  list? : FilePath → m (Option Listing)

instance : Files (StateM FileTree) where
  read p := do pure ((← get).read p)
  save p text := do
    match (← get).save p text with
    | .ok t =>
        set t
        pure (.ok ())
    | .error e => pure (.error e)
  list? p := do pure ((← get).list? p)

end SafeCalls
