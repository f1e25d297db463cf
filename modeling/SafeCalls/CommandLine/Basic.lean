import SafeCalls.CommandLine.Arguments
import SafeCalls.Pass.Basic
import SafeCalls.Settings.Loading
import SafeCalls.Whitelist.Store

namespace SafeCalls

/-!
# Commands

What a command does, what it prints and how it exits. A failure is reported by what was attempted
and by its causes, from the outermost to the innermost.
-/

/-- What a command leaves to be seen, apart from files. -/
structure CommandOutcome where
  exitCode : UInt8
  output : String
  errors : String

namespace CommandOutcome

def success (output : String) : CommandOutcome := ⟨0, output, ""⟩

/-- The outcome of a cancelled command, which prints nothing. -/
def cancelled : CommandOutcome := ⟨130, "", ""⟩

/-- The outcome of arguments that are no command. -/
def misuse : CommandOutcome :=
  ⟨2, "", "Usage: hotpath-whitelist generate --config-dir DIR [--settings FILE] [--output FILE] " ++
    "[--format text|json] [--sequential]\n       hotpath-whitelist show-config [--settings FILE]\n"⟩

/-- A cause with its later lines as far to the right as the first. -/
def indented (first later : String) (cause : String) : String :=
  first ++ ("\n" ++ later).intercalate
    ((Text.splitAt '\n' cause.toList).map String.ofList)

/-- The causes of a failure, with numbers if there are several. -/
def causes : List String → List String
  | [] => []
  | [cause] => [indented "    " "    " cause]
  | several => several.zipIdx.map fun (cause, i) =>
      let number := toString i
      let padding := String.ofList (List.replicate (5 - number.length) ' ')
      indented (padding ++ number ++ ": ") "       " cause

/-- A failure of what was attempted. -/
def failure (attempt : String) (messages : List String) : CommandOutcome :=
  let caused := "Caused by:" :: causes messages
  ⟨1, "", "Error: " ++ attempt ++
    (if messages.isEmpty then "" else "\n\n" ++ "\n".intercalate caused) ++ "\n"⟩

end CommandOutcome

namespace Command

variable {m : Type → Type} [Monad m] [Files m]

open CommandOutcome

/-- Goes on with the settings, unless they cannot be loaded. -/
def withSettings (path : Option FilePath) (go : Settings → m CommandOutcome) :
    m CommandOutcome := do
  match ← Settings.load path with
  | .ok s => go s
  | .error e =>
      pure (failure ("failed to load settings from " ++ (path.map FilePath.text).getD "")
        e.messages)

/-- Writes or prints a whitelist. -/
def deliver (options : GenerateOptions) (s : Settings) (d : WhitelistDocument) :
    m CommandOutcome := do
  match options.output with
  | none => pure (success (d.render (options.format.getD s.output)))
  | some path =>
      match ← (WhitelistStore.ofPath path options.format).save d with
      | .ok _ => pure (success "")
      | .error e => pure (failure ("failed to write " ++ path.text) e.messages)

def runGenerate (now : m Time.Timestamp) (options : GenerateOptions) (s : Settings) :
    m CommandOutcome := do
  let s := if options.isSequential then { s with parallel := .sequential } else s
  match ← s.runPass options.directory .never with
  | .error e => pure (failure ("whitelist pass failed for " ++ options.directory.text) e.messages)
  | .ok .cancelled => pure cancelled
  | .ok (.completed generated) => deliver options s (generated.document (← now))

def run (now : m Time.Timestamp) : Command → m CommandOutcome
  | .generate options => withSettings options.settings (runGenerate now options)
  | .showConfig path => withSettings path fun s => pure (success s.render)
  | .help page => pure (success page.render)

end Command

def runArguments {m : Type → Type} [Monad m] [Files m] (now : m Time.Timestamp)
    (arguments : List String) : m CommandOutcome :=
  match Command.parse? arguments with
  | some command => command.run now
  | none => pure .misuse

end SafeCalls
