import SafeCalls.Settings.Error
import SafeCalls.Settings.File
import SafeCalls.Settings.Validation
import SafeCalls.Yaml.Decode
import SafeCalls.Yaml.Writer

namespace SafeCalls

/-!
# Settings in YAML

Settings are kept in a YAML file of the current version. Whatever a file leaves out has its
default, and a file is only accepted with allowed values.
-/

open Yaml (Located Value)

namespace Conventions

def ofYaml (l : Located) : Except Yaml.Error Conventions := do
  let slots ← l.slots layout
  slots.fill Conventions.mk
    |>.part (slots.defaulted "entry_point" default.entryPoint Located.text)
    |>.part (slots.defaulted "trust_all_marker" default.trustAllMarker Located.text)
    |>.part (slots.defaulted "configuration_base_type" default.configurationBaseType Located.text)
    |>.result

def toYaml (c : Conventions) : Value :=
  .record [("entry_point", .text c.entryPoint), ("trust_all_marker", .text c.trustAllMarker),
    ("configuration_base_type", .text c.configurationBaseType)]

end Conventions

namespace ProjectSettings

def ofYaml (l : Located) : Except Yaml.Error ProjectSettings := do
  let slots ← l.slots layout
  slots.fill ProjectSettings.mk
    |>.part (slots.defaulted "descriptor_extension" default.descriptorExtension Located.text)
    |>.part (slots.defaulted "unit_extension" default.unitExtension Located.text)
    |>.part (slots.defaulted "global_properties" default.globalProperties Located.textMap)
    |>.result

def toYaml (p : ProjectSettings) : Value :=
  .record [("descriptor_extension", .text p.descriptorExtension),
    ("unit_extension", .text p.unitExtension),
    ("global_properties", .map p.globalProperties.entries)]

end ProjectSettings

namespace ParallelSettings

def ofYaml (l : Located) : Except Yaml.Error ParallelSettings := do
  let slots ← l.slots layout
  slots.fill ParallelSettings.mk
    |>.part (slots.defaulted "enabled" default.isEnabled Located.boolean)
    |>.part (slots.defaulted "num_workers" default.workers Located.count)
    |>.result

def toYaml (p : ParallelSettings) : Value :=
  .record [("enabled", .word (if p.isEnabled then "true" else "false")),
    ("num_workers", .word (toString p.workers.toNat))]

end ParallelSettings

namespace OutputFormat

def ofYaml (l : Located) : Except Yaml.Error OutputFormat := do
  let slots ← l.slots layout
  slots.fill id
    |>.part (slots.defaulted "format" text (Located.named names))
    |>.result

def toYaml (format : OutputFormat) : Value := .record [("format", .text format.name)]

end OutputFormat

namespace SettingsFile

def ofYaml (l : Located) : Except Yaml.Error SettingsFile := do
  let slots ← l.slots layout
  slots.fill SettingsFile.mk
    |>.part (slots.defaulted "version" none (Located.optional Located.word))
    |>.part (slots.defaulted "conventions" none (Located.optional Conventions.ofYaml))
    |>.part (slots.defaulted "project" none (Located.optional ProjectSettings.ofYaml))
    |>.part (slots.defaulted "parallel" none (Located.optional ParallelSettings.ofYaml))
    |>.part (slots.defaulted "output" none (Located.optional OutputFormat.ofYaml))
    |>.result

/-- The version of the form that is read and written here. -/
def currentVersion : UInt32 := 1

/-- The settings of a file, before their values are checked. -/
def settings (f : SettingsFile) : Except SettingsError Settings :=
  match f.version with
  | none => .error .missingVersion
  | some version =>
      if version = currentVersion then
        .ok ⟨f.conventions.getD .default, f.project.getD .default, f.parallel.getD .default,
          f.output.getD .text⟩
      else .error (.unsupportedVersion version [currentVersion])

end SettingsFile

namespace Settings

/-- The settings that a text spells. -/
def parse (text : String) : Except SettingsError Settings := do
  let file ← (Yaml.decode SettingsFile.ofYaml text).mapError .yaml
  let settings ← file.settings
  settings.validate
  pure settings

/-- The text of settings, with every value. -/
def render (s : Settings) : String :=
  Value.document [("version", .word (toString SettingsFile.currentVersion.toNat)),
    ("conventions", s.conventions.toYaml), ("project", s.project.toYaml),
    ("parallel", s.parallel.toYaml), ("output", s.output.toYaml)]

end Settings

end SafeCalls
