import SafeCalls.Record
import SafeCalls.Settings.Basic

namespace SafeCalls

/-!
# Settings files

A settings file consists of a version and of sections, all of them optional. In every format its
records have these fields and no others.
-/

namespace Conventions

def layout : Layout :=
  ⟨"RegistrationConventions", ["entry_point", "trust_all_marker", "configuration_base_type"], true⟩

end Conventions

namespace ProjectSettings

def layout : Layout :=
  ⟨"ProjectSettings", ["descriptor_extension", "unit_extension", "global_properties"], true⟩

end ProjectSettings

namespace ParallelSettings

def layout : Layout := ⟨"ParallelSettings", ["enabled", "num_workers"], true⟩

end ParallelSettings

namespace OutputFormat

/-- The formats by the words for them. -/
def names : Names OutputFormat := [("text", text), ("json", json)]

/-- The fields of the section that holds nothing but the format. -/
def layout : Layout := ⟨"OutputSettings", ["format"], true⟩

end OutputFormat

/-- The contents of a settings file: what is not there is left to the defaults. -/
structure SettingsFile where
  version : Option UInt32
  conventions : Option Conventions
  project : Option ProjectSettings
  parallel : Option ParallelSettings
  output : Option OutputFormat

namespace SettingsFile

def layout : Layout :=
  ⟨"SettingsFileV1", ["version", "conventions", "project", "parallel", "output"], true⟩

end SettingsFile

end SafeCalls
