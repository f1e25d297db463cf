import SafeCalls.CommandLine.Help
import SafeCalls.Settings.Basic

namespace SafeCalls

/-!
# Command line arguments

The command that arguments spell, with its options. A request for help wins over options that are
missing, and over all that comes after it.
-/

structure GenerateOptions where
  directory : FilePath
  settings : Option FilePath
  output : Option FilePath
  format : Option OutputFormat
  isSequential : Bool

inductive Command where
  | generate (options : GenerateOptions)
  | showConfig (settings : Option FilePath)
  | help (page : HelpPage)

namespace Command

def format? (given : GivenOptions) : Option (Option OutputFormat) :=
  match given.lookup CommandOption.format.name with
  | none => some none
  | some "text" => some (some .text)
  | some "json" => some (some .json)
  | some _ => none

def ofGenerate? (given : GivenOptions) : Option Command := do
  let format ← format? given
  if given.has .help then pure (.help .generate)
  else do
    let directory ← given.path? .configDir
    pure (.generate ⟨directory, given.path? .settings, given.path? .output, format,
      given.has .sequential⟩)

def ofShowConfig (given : GivenOptions) : Command :=
  if given.has .help then .help .showConfig else .showConfig (given.path? .settings)

/-- The command that arguments spell. -/
def parse? : List String → Option Command
  | "generate" :: words =>
      (GivenOptions.parse? [.configDir, .settings, .output, .format, .sequential, .help] []
        words).bind ofGenerate?
  | "show-config" :: words => (GivenOptions.parse? [.settings, .help] [] words).map ofShowConfig
  | "help" :: topics => (HelpPage.ofTopics? topics).map .help
  | words => do
      let given ← GivenOptions.parse? [.help] [] words
      if given.has .help then pure (.help .overview) else none

end Command

end SafeCalls
