import SafeCalls.CommandLine.Options

namespace SafeCalls

/-!
# Help

Pages of help: what a command is for, how it is spelled, and tables of the words it takes.
-/

structure HelpPage where
  summary : String
  usage : String
  /-- Tables with a title, of words and what they mean. -/
  tables : List (String × List (String × String))

/-- An option as a table shows it: the letter, the name and the value. -/
def CommandOption.spelling (o : CommandOption) : String :=
  (match o.letter with
    | some letter => String.ofList ['-', letter, ',', ' ']
    | none => "    ") ++
  "--" ++ o.name ++
  (match o.value with
    | some value => " <" ++ value ++ ">"
    | none => "")

namespace HelpPage

/-- The rows of a table, their second columns one below the other. -/
def rows (table : List (String × String)) : List String :=
  let width := (table.map fun row => row.1.length).foldl max 0
  table.map fun (word, meaning) =>
    "  " ++ word ++ String.ofList (List.replicate (width - word.length) ' ') ++ "  " ++ meaning

def render (page : HelpPage) : String :=
  let tables := page.tables.map fun (title, table) =>
    "\n" ++ title ++ ":\n" ++ String.join ((rows table).map (· ++ "\n"))
  page.summary ++ "\n\nUsage: " ++ page.usage ++ "\n" ++ String.join tables

def optionTable (options : List CommandOption) : String × List (String × String) :=
  ("Options", options.map fun o => (o.spelling, o.summary))

def generate : HelpPage :=
  ⟨"Extract the whitelist", "hotpath-whitelist generate [OPTIONS] --config-dir <CONFIG_DIR>",
    [optionTable [.configDir, .settings, .output, .format, .sequential, .help]]⟩

def showConfig : HelpPage :=
  ⟨"Print the effective settings as YAML", "hotpath-whitelist show-config [OPTIONS]",
    [optionTable [.settings, .help]]⟩

def help : HelpPage :=
  ⟨"Print this message or the help of the given subcommand(s)",
    "hotpath-whitelist help [COMMAND]...",
    [("Arguments", [("[COMMAND]...", "Print help for the subcommand(s)")])]⟩

def overview : HelpPage :=
  ⟨"Extract the hot-path allocation whitelist from a configuration project",
    "hotpath-whitelist <COMMAND>",
    [("Commands", [("generate", generate.summary), ("show-config", showConfig.summary),
      ("help", help.summary)]), optionTable [.help]]⟩

/-- The page on the command with a name. -/
def ofTopics? : List String → Option HelpPage
  | [] => some overview
  | ["generate"] => some generate
  | ["show-config"] => some showConfig
  | ["help"] => some help
  | _ => none

end HelpPage

end SafeCalls
