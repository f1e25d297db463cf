import SafeCalls.CommandLine.Basic
import Std.Time.DateTime.Timestamp

namespace SafeCalls

/-!
# The program

Commands on the files of the machine and with its clock.
-/

namespace Disk

/-- The number of an error, which may be negated in 32 bits. -/
def errorNumber : IO.Error → UInt32
  | .alreadyExists _ n _ => n
  | .otherError n _ => n
  | .resourceBusy n _ => n
  | .resourceVanished n _ => n
  | .unsupportedOperation n _ => n
  | .hardwareFault n _ => n
  | .unsatisfiedConstraints n _ => n
  | .illegalOperation n _ => n
  | .protocolError n _ => n
  | .timeExpired n _ => n
  | .interrupted _ n _ => n
  | .noFileOrDirectory _ n _ => n
  | .invalidArgument _ n _ => n
  | .permissionDenied _ n _ => n
  | .resourceExhausted _ n _ => n
  | .inappropriateType _ n _ => n
  | .noSuchThing _ n _ => n
  | .unexpectedEof => 0
  | .userError _ => 0

def fileError (e : IO.Error) : FileError :=
  let n := (errorNumber e).toNat
  match if 2 * n < UInt32.size then n else UInt32.size - n with
  | 2 => .notFound
  | 17 => .alreadyExists
  | 20 => .notDirectory
  | 21 => .isDirectory
  | 36 => .nameTooLong
  | 40 => .tooManyLinks
  | _ => .described false e.toString

/-- What an action comes to. The empty path leads nowhere. -/
def attempt {α : Type} (p : FilePath) (action : IO.FS.DirEntry → IO (Except FileError α)) :
    IO (Except FileError α) := do
  if p.text.isEmpty then pure (.error .notFound)
  else if p.text.toList.contains '\x00' then pure (.error .invalidPath)
  else
    try action ⟨← IO.currentDir, p.text⟩
    catch e => pure (.error (fileError e))

def read (p : FilePath) : IO (Except FileError String) :=
  attempt p fun entry => do
    match String.fromUTF8? (← IO.FS.readBinFile entry.path) with
    | some text => pure (.ok text)
    | none => pure (.error .notText)

def save (p : FilePath) (text : String) : IO (Except FileError Unit) :=
  attempt p fun entry => do
    match entry.path.parent with
    | some parent => IO.FS.createDirAll parent
    | none => pure ()
    IO.FS.writeFile entry.path text
    pure (.ok ())

/-- The listing of an entry of a directory. What cannot be listed is listed as empty. -/
partial def listing (entry : IO.FS.DirEntry) : IO Listing := do
  match (← entry.path.symlinkMetadata).type with
  | .file => pure .file
  | .dir => do
      let entries ← try entry.path.readDir catch _ => pure #[]
      let listings ← entries.toList.mapM fun entry => do pure (entry.fileName, ← listing entry)
      pure (.directory listings)
  | _ => pure .link

def list? (p : FilePath) : IO (Option Listing) := do
  let result ← attempt p fun entry => do
    let seen ← listing entry
    match seen with
    | .link =>
        if ← entry.path.isDir then
          let entries ← entry.path.readDir
          let listings ← entries.toList.mapM fun entry => do pure (entry.fileName, ← listing entry)
          pure (.ok (.directory listings))
        else pure (.ok seen)
    | _ => pure (.ok seen)
  pure result.toOption

/-- The time of day in universal time. -/
def now : IO Time.Timestamp := do
  let elapsed := (← Std.Time.Timestamp.now).val
  pure (.ofUnix elapsed.second.val elapsed.nano.val.toNat)

end Disk

instance : Files IO := ⟨Disk.read, Disk.save, Disk.list?⟩

end SafeCalls

/-- Runs the command that the arguments spell. -/
def main (arguments : List String) : IO UInt32 := do
  let outcome ← SafeCalls.runArguments SafeCalls.Disk.now arguments
  IO.print outcome.output
  IO.eprint outcome.errors
  pure outcome.exitCode.toUInt32
