import SafeCalls.Extraction.Setup
import SafeCalls.Pass.Error
import SafeCalls.Project.Basic
import SafeCalls.Whitelist.Document

namespace SafeCalls

/-!
# Whitelist passes

A pass loads a project, resolves all of its documents and extracts the whitelist of the units. It
can be cancelled at any time, and then nothing comes of it. While the documents are resolved, the
pass waits for whatever comes first: all of them, or the signal to cancel.
-/

/-- What a pass that is not cancelled comes to. -/
structure GeneratedWhitelist where
  project : String
  descriptor : FilePath
  whitelist : Whitelist
  /-- The number of documents. -/
  units : Nat
  /-- The number of documents without a tree or without a model. -/
  skipped : Nat

inductive PassOutcome where
  | completed (generated : GeneratedWhitelist)
  | cancelled

/-- What a pass sees of the signal to cancel. -/
structure PassSignal where
  /-- Whether it has been given before anything else. -/
  isEarly : Bool
  /-- Whether it comes before all documents are resolved. -/
  isInterrupting : Bool
  /-- What the extraction sees of it. -/
  token : Token

namespace PassSignal

def never : PassSignal := ⟨false, false, .never⟩

def early : PassSignal := ⟨true, true, .always⟩

end PassSignal

namespace GeneratedWhitelist

def document (g : GeneratedWhitelist) (now : Time.Timestamp) : WhitelistDocument :=
  .ofWhitelist g.project now g.whitelist

end GeneratedWhitelist

namespace Project

/-- What the units of a project come to. -/
def outcome {δ : Type} (p : Project δ) (x : Extractor) (units : List ConfigurationUnit)
    (token : Token) : PassOutcome :=
  match x.extract units token with
  | .error _ => .cancelled
  | .ok whitelist =>
      .completed ⟨p.name, p.descriptor, whitelist, units.length,
        (units.filter fun unit => !unit.hasParts).length⟩

end Project

/-- A pass over the project that is loaded, whose documents are resolved one by one. -/
def runPass {m : Type → Type} [Monad m] {δ : Type} (x : Extractor)
    (load : m (Except ProjectError (Project δ))) (resolve : δ → m ConfigurationUnit)
    (signal : PassSignal) : m (Except PassError PassOutcome) := do
  if signal.isEarly then pure (.ok .cancelled)
  else
    match ← load with
    | .error e => pure (.error (.configuration e))
    | .ok project =>
        if signal.isInterrupting then pure (.ok .cancelled)
        else do
          let units ← project.documents.mapM resolve
          pure (.ok (project.outcome x units signal.token))

namespace Settings

def runPass {m : Type → Type} [Monad m] [Files m] (s : Settings) (directory : FilePath)
    (signal : PassSignal) : m (Except PassError PassOutcome) :=
  SafeCalls.runPass s.extractor (s.project.load directory)
    (fun document => do pure (← document.load).unit) signal

end Settings

end SafeCalls
