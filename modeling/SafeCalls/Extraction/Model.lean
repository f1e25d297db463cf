import SafeCalls.Extraction.Token
import SafeCalls.Snapshot.Basic
import SafeCalls.Text.Quoted

namespace SafeCalls

/-!
# Semantic models and configuration units

A semantic model says which symbol an expression refers to and which symbol a declaration
declares. A configuration unit is one source document, with its tree and its model as far as they
are there. Whoever consults a model tells how many lookups that took.
-/

structure SemanticModel where
  symbolAt : NodeId → Option Symbol
  declaredAt : NodeId → Option Symbol

namespace SymbolTable

def model (t : SymbolTable) : SemanticModel := ⟨t.bindings.get?, t.declarations.get?⟩

end SymbolTable

/-- What came of consulting a model, and by how many lookups. -/
structure Consulted (α : Type) where
  answer : α
  lookups : Nat

namespace Watched

/-- Consults a model in the course of a run. -/
def consult {α : Type} (consulted : Consulted α) : Watched α := do
  advance consulted.lookups
  pure consulted.answer

end Watched

structure ConfigurationUnit where
  path : String
  tree : Option SyntaxTree
  model : Option SemanticModel

namespace ConfigurationUnit

/-- Tree and model, if both are there. -/
def parts? (u : ConfigurationUnit) : Option (SyntaxTree × SemanticModel) :=
  match u.tree, u.model with
  | some tree, some model => some (tree, model)
  | _, _ => none

def hasParts (u : ConfigurationUnit) : Bool := u.parts?.isSome

/-- One line that says which document this is and what of it is there. -/
def describe (u : ConfigurationUnit) : String :=
  "ConfigurationUnit \x7b path: " ++ Text.quoted u.path ++
    ", has_tree: " ++ toString u.tree.isSome ++
    ", has_model: " ++ toString u.model.isSome ++ " \x7d"

end ConfigurationUnit

namespace UnitSnapshot

def unit (s : UnitSnapshot) : ConfigurationUnit := ⟨s.path, s.tree, s.model.map SymbolTable.model⟩

end UnitSnapshot

end SafeCalls
