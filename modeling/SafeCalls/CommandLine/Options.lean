import SafeCalls.Files.Path

namespace SafeCalls

/-!
# Command line options

An option is given by its long name or by a letter, its value follows it as a word of its own or in
the same word, and no option is given twice.
-/

/-- An option of a command. -/
structure CommandOption where
  name : String
  letter : Option Char
  /-- What the value is called, for an option that has one. -/
  value : Option String
  summary : String
  deriving DecidableEq

namespace CommandOption

def configDir : CommandOption :=
  ⟨"config-dir", some 'c', some "CONFIG_DIR", "Configuration project directory"⟩

def settings : CommandOption :=
  ⟨"settings", some 's', some "SETTINGS", "Settings file (YAML v1)"⟩

def output : CommandOption :=
  ⟨"output", some 'o', some "OUTPUT", "Write to this file instead of stdout"⟩

def format : CommandOption :=
  ⟨"format", some 'f', some "FORMAT",
    "Output format (default: settings, or the output file extension) [possible values: text, json]"⟩

def sequential : CommandOption := ⟨"sequential", none, none, "Extract on a single thread"⟩

/-- Asks for help. Words after it are not read. -/
def help : CommandOption := ⟨"help", some 'h', none, "Print help"⟩

end CommandOption

/-- The options of a command line, by name and with their values. -/
abbrev GivenOptions := List (String × String)

namespace GivenOptions

/-- Whether a word can be the value of the option before it. -/
def isValue (word : String) : Bool := word.toList.head? != some '-' || word == "-"

/-- Adds an option, which must not be there. -/
def add? (given : GivenOptions) (name value : String) : Option GivenOptions :=
  if (given.lookup name).isSome then none else some ((name, value) :: given)

/-- Adds an option with a value, which must not be empty. -/
def addValue? (given : GivenOptions) (name value : String) : Option GivenOptions :=
  if value.isEmpty then none else given.add? name value

/-- The option that a word names, and the value in the same word. The only letter without a value
asks for help, and what follows it does not matter. -/
def named? (options : List CommandOption) (word : List Char) :
    Option (CommandOption × Option (List Char)) :=
  match word with
  | '-' :: '-' :: rest => do
      let name := String.ofList (rest.takeWhile (· != '='))
      let option ← options.find? (·.name == name)
      pure (option, if rest.contains '=' then some ((rest.dropWhile (· != '=')).drop 1) else none)
  | '-' :: letter :: rest => do
      let option ← options.find? (·.letter == some letter)
      match option.value, rest with
      | none, _ => pure (option, none)
      | some _, [] => pure (option, none)
      | some _, '=' :: value => pure (option, some value)
      | some _, value => pure (option, some value)
  | _ => none

/-- The options that words give, unless the words are no options. -/
def parse? (options : List CommandOption) : GivenOptions → List String → Option GivenOptions
  | given, [] => some given
  | given, word :: rest =>
      if word = "--" then (if rest.isEmpty then some given else none)
      else
        match named? options word.toList with
        | none => none
        | some (option, value) =>
            match option.value, value with
            | none, none =>
                if option = .help then given.add? option.name ""
                else do parse? options (← given.add? option.name "") rest
            | none, some _ => none
            | some _, some value => do
                parse? options (← given.addValue? option.name (String.ofList value)) rest
            | some _, none =>
                match rest with
                | next :: rest =>
                    if isValue next then do
                      parse? options (← given.addValue? option.name next) rest
                    else none
                | [] => none

def has (given : GivenOptions) (option : CommandOption) : Bool := (given.lookup option.name).isSome

def path? (given : GivenOptions) (option : CommandOption) : Option FilePath :=
  (given.lookup option.name).map FilePath.mk

end GivenOptions

end SafeCalls
