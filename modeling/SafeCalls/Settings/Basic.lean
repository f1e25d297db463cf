import SafeCalls.Sorted.Map

namespace SafeCalls

/-!
# Settings

What one pass over a configuration project goes by, in four sections, each with defaults.
-/

/-- The names that are looked for in configuration code. -/
structure Conventions where
  /-- The simple name of the method that registers a member. -/
  entryPoint : String
  /-- The attribute class that marks methods whose calls are all trusted. -/
  trustAllMarker : String
  /-- The type that every configuration class derives from. -/
  configurationBaseType : String
  deriving DecidableEq

/-- How the configuration project is found. Extensions are given without their first dot. -/
structure ProjectSettings where
  descriptorExtension : String
  unitExtension : String
  /-- The build properties that the project is loaded with. -/
  globalProperties : SortedMap String String
  deriving DecidableEq

structure ParallelSettings where
  isEnabled : Bool
  /-- The number of workers, or zero for as many as the machine has processors. -/
  workers : UInt64
  deriving DecidableEq

inductive OutputFormat where
  /-- One key a line. -/
  | text
  | json
  deriving DecidableEq, Repr

structure Settings where
  conventions : Conventions
  project : ProjectSettings
  parallel : ParallelSettings
  output : OutputFormat
  deriving DecidableEq

namespace Conventions

def default : Conventions where
  entryPoint := "MakeSafe"
  trustAllMarker := "HotPathAllocationAnalyzer.Support.MakeSafeAttribute"
  configurationBaseType := "HotPathAllocationAnalyzer.Support.AllocationConfiguration"

end Conventions

namespace ProjectSettings

def default : ProjectSettings where
  descriptorExtension := "csproj"
  unitExtension := "unit.json"
  globalProperties :=
    SortedMap.empty.insert "IsRunningHotPathAllocationAnalyzerConfiguration" "true"

end ProjectSettings

namespace ParallelSettings

def default : ParallelSettings := ⟨true, 0⟩

def sequential : ParallelSettings := ⟨false, 0⟩

/-- The number of workers that is asked for, unless it is left to the machine. -/
def fixedWorkers? (p : ParallelSettings) : Option UInt64 :=
  if p.workers = 0 then none else some p.workers

/-- The size of the pool of workers, if there is one and its size is not left to the machine. -/
def poolSize? (p : ParallelSettings) : Option UInt64 :=
  if p.isEnabled then p.fixedWorkers? else none

end ParallelSettings

namespace OutputFormat

def name : OutputFormat → String
  | text => "text"
  | json => "json"

end OutputFormat

namespace Settings

def default : Settings := ⟨.default, .default, .default, .text⟩

end Settings

end SafeCalls
