import SafeCalls.Settings.Basic
import SafeCalls.Settings.Error
import SafeCalls.Text.Split

namespace SafeCalls

/-!
# Validation of settings

Names are written in ASCII. An identifier is a letter or underscore followed by letters, digits and
underscores, a qualified name consists of identifiers between dots, and an extension of words
between dots, in which dashes are allowed too and a digit may come first.
-/

/-- The first failure of two checks one after the other. -/
abbrev Validated := Except SettingsError Unit

namespace Validation

def isNameStart (c : Char) : Bool := c.isAlpha || c == '_'

def isNamePart (c : Char) : Bool := c.isAlphanum || c == '_'

def isExtensionPart (c : Char) : Bool := c.isAlphanum || c == '_' || c == '-'

def isIdentifier : List Char → Bool
  | [] => false
  | c :: rest => isNameStart c && rest.all isNamePart

def isExtensionWord (cs : List Char) : Bool := !cs.isEmpty && cs.all isExtensionPart

def isQualifiedName (cs : List Char) : Bool := (Text.splitAt '.' cs).all isIdentifier

def isExtension (cs : List Char) : Bool := (Text.splitAt '.' cs).all isExtensionWord

def checkIdentifier (field value : String) : Validated :=
  if isIdentifier value.toList then .ok ()
  else .error (.invalidName field value "Expected a simple identifier such as 'MakeSafe'")

def checkQualifiedName (field value : String) : Validated :=
  if isQualifiedName value.toList then .ok ()
  else
    .error (.invalidName field value
      "Expected a dotted type name such as 'Acme.Support.MakeSafeAttribute'")

def checkExtension (field value : String) : Validated :=
  if isExtension value.toList then .ok ()
  else
    .error (.invalidName field value
      "Expected an extension without a leading dot, e.g. 'csproj' or 'unit.json'")

/-- Whether two texts are the same but for the case of ASCII letters. -/
def sameIgnoringCase (a b : List Char) : Bool := a.map Char.toLower == b.map Char.toLower

def maxWorkers : UInt64 := 256

end Validation

open Validation

namespace Conventions

def validate (c : Conventions) : Validated := do
  checkIdentifier "conventions.entry_point" c.entryPoint
  checkQualifiedName "conventions.trust_all_marker" c.trustAllMarker
  checkQualifiedName "conventions.configuration_base_type" c.configurationBaseType

end Conventions

namespace ProjectSettings

/-- The two extensions have to be told apart whatever the case of their letters. -/
def checkDistinct (p : ProjectSettings) : Validated :=
  if sameIgnoringCase p.descriptorExtension.toList p.unitExtension.toList then
    .error (.validation
      ("project.descriptor_extension and project.unit_extension are both '" ++
        p.unitExtension ++ "'"))
  else .ok ()

def validate (p : ProjectSettings) : Validated := do
  checkExtension "project.descriptor_extension" p.descriptorExtension
  checkExtension "project.unit_extension" p.unitExtension
  p.checkDistinct
  p.globalProperties.keys.forM (checkIdentifier "project.global_properties")

end ProjectSettings

namespace ParallelSettings

def validate (p : ParallelSettings) : Validated :=
  if maxWorkers < p.workers then
    .error (.range "parallel.num_workers" (toString p.workers.toNat) "0"
      (toString maxWorkers.toNat) "Use 0 to size the pool from the CPU count")
  else .ok ()

end ParallelSettings

namespace Settings

/-- The first failure of the sections in their order. -/
def validate (s : Settings) : Validated := do
  s.conventions.validate
  s.project.validate
  s.parallel.validate

end Settings

namespace OutputFormat

/-- The format that a word stands for, whatever its case. -/
def ofWord (word : String) : Except SettingsError OutputFormat :=
  let lower := String.ofList (word.toList.map Char.toLower)
  if lower = "text" ∨ lower = "txt" then .ok .text
  else if lower = "json" then .ok .json
  else .error (.custom ("Unknown output format '" ++ lower ++ "'. Valid formats: text, json"))

end OutputFormat

end SafeCalls
