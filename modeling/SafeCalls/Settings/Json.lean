import SafeCalls.Json.Choice
import SafeCalls.Settings.File
import SafeCalls.Symbol.Table

namespace SafeCalls

/-!
# Settings in JSON

All fields of a section have defaults, and a section has no members but its fields. A settings file
consists of a version and sections, all of them optional.
-/

open Json (Manner Error Reading)

namespace Conventions

def toJson (c : Conventions) : Json :=
  .object [("entry_point", .text c.entryPoint), ("trust_all_marker", .text c.trustAllMarker),
    ("configuration_base_type", .text c.configurationBaseType)]

def read (room : Nat) (manner : Manner) (reading : Reading) : Except Error Conventions :=
  match room with
  | 0 => .error (layout.overflow reading)
  | _ + 1 => do
      let slots ← layout.slots manner reading
      slots.fill Conventions.mk
        |>.part (slots.defaulted "entry_point" default.entryPoint Reading.string)
        |>.part (slots.defaulted "trust_all_marker" default.trustAllMarker Reading.string)
        |>.part (slots.defaulted "configuration_base_type" default.configurationBaseType
          Reading.string)
        |>.result

end Conventions

namespace ProjectSettings

def propertiesToJson (properties : SortedMap String String) : Json :=
  .object (properties.entries.map fun (name, value) => (name, .text value))

def toJson (p : ProjectSettings) : Json :=
  .object [("descriptor_extension", .text p.descriptorExtension),
    ("unit_extension", .text p.unitExtension),
    ("global_properties", propertiesToJson p.globalProperties)]

def readProperties (room : Nat) (reading : Reading) : Except Error (SortedMap String String) :=
  reading.map (fun name => name.token.decode) (fun _ => Reading.string) room

def read (room : Nat) (manner : Manner) (reading : Reading) : Except Error ProjectSettings :=
  match room with
  | 0 => .error (layout.overflow reading)
  | room + 1 => do
      let slots ← layout.slots manner reading
      slots.fill ProjectSettings.mk
        |>.part (slots.defaulted "descriptor_extension" default.descriptorExtension
          Reading.string)
        |>.part (slots.defaulted "unit_extension" default.unitExtension Reading.string)
        |>.part (slots.defaulted "global_properties" default.globalProperties
          (readProperties room))
        |>.result

end ProjectSettings

namespace ParallelSettings

def toJson (p : ParallelSettings) : Json :=
  .object [("enabled", .bool p.isEnabled), ("num_workers", .number p.workers.toNat)]

def read (room : Nat) (manner : Manner) (reading : Reading) : Except Error ParallelSettings :=
  match room with
  | 0 => .error (layout.overflow reading)
  | _ + 1 => do
      let slots ← layout.slots manner reading
      slots.fill ParallelSettings.mk
        |>.part (slots.defaulted "enabled" default.isEnabled Reading.boolean)
        |>.part (slots.defaulted "num_workers" default.workers Reading.count)
        |>.result

end ParallelSettings

namespace OutputFormat

def toJson (format : OutputFormat) : Json := .object [("format", .text format.name)]

def read (room : Nat) (manner : Manner) (reading : Reading) : Except Error OutputFormat :=
  match room with
  | 0 => .error (layout.overflow reading)
  | room + 1 => do
      let slots ← layout.slots manner reading
      slots.fill id
        |>.part (slots.defaulted "format" text fun reading => reading.named names room manner)
        |>.result

end OutputFormat

namespace Settings

def toJson (s : Settings) : Json :=
  .object [("conventions", s.conventions.toJson), ("project", s.project.toJson),
    ("parallel", s.parallel.toJson), ("output", s.output.toJson)]

end Settings

namespace SettingsFile

/-- The member for a section, if the section is there. -/
def memberIfAny {α : Type} (name : String) (write : α → Json) : Option α → List (String × Json)
  | none => []
  | some value => [(name, write value)]

def toJson (f : SettingsFile) : Json :=
  .object (("version", Json.optional (fun v => .number v.toNat) f.version) ::
    (memberIfAny "conventions" Conventions.toJson f.conventions ++
      memberIfAny "project" ProjectSettings.toJson f.project ++
      memberIfAny "parallel" ParallelSettings.toJson f.parallel ++
      memberIfAny "output" OutputFormat.toJson f.output))

def read (room : Nat) (manner : Manner) (reading : Reading) : Except Error SettingsFile :=
  match room with
  | 0 => .error (layout.overflow reading)
  | room + 1 => do
      let slots ← layout.slots manner reading
      slots.fill SettingsFile.mk
        |>.part (slots.optional "version" Reading.word)
        |>.part (slots.optional "conventions" (Conventions.read room manner))
        |>.part (slots.optional "project" (ProjectSettings.read room manner))
        |>.part (slots.optional "parallel" (ParallelSettings.read room manner))
        |>.part (slots.optional "output" (OutputFormat.read room manner))
        |>.result

end SettingsFile

end SafeCalls
