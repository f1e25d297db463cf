import SafeCalls.Extraction.Model
import SafeCalls.Source.Node

namespace SafeCalls

/-!
# Configuration classes

A classifier decides at every node of a tree whether a configuration class is declared there. It
may fail at a node; that node is then passed by like one that it rejects. The usual classifier
accepts the classes whose base types include a given one.
-/

inductive ClassificationError where
  | unresolved (node : NodeId)
  | unexpectedSymbol (node : NodeId) (found : SymbolKind)
  deriving DecidableEq

namespace ClassificationError

def message : ClassificationError → String
  | unresolved node => "declaration " ++ toString node.toNat ++ " has no resolved symbol"
  | unexpectedSymbol node found =>
      "declaration " ++ toString node.toNat ++ " resolved to a " ++ found.name ++
        ", expected a type"

end ClassificationError

abbrev Classification := Except ClassificationError (Option ClassDeclaration)

structure Classifier where
  name : String
  classify : SemanticModel → SyntaxNode → Consulted Classification

namespace Classifier

/-- What the symbol that a class declares says about the class. -/
def judge (baseType : String) (c : ClassDeclaration) : Option Symbol → Classification
  | none => .error (.unresolved c.id)
  | some (.type t) => .ok (if t.derivesFrom baseType then some c else none)
  | some other => .error (.unexpectedSymbol c.id other.kind)

/-- Accepts the classes that have the given type anywhere among their base types. -/
def derivedFrom (baseType : String) : Classifier where
  name := "base_type"
  classify model node :=
    match node with
    | .declaration (.classType c) => ⟨judge baseType c (model.declaredAt c.id), 1⟩
    | _ => ⟨.ok none, 0⟩

end Classifier

namespace SyntaxNode

open Watched

/-- One step of the search: the token is polled before the classifier is asked. -/
def locateStep (model : SemanticModel) (classifier : Classifier) (token : Token)
    (state : List ClassDeclaration × Moment) (node : SyntaxNode) :
    (List ClassDeclaration × Moment) × Except Cancelled Unit :=
  let (found, moment) := state
  match (do poll; consult (classifier.classify model node) : Watched Classification).runFrom
      token moment with
  | (.error e, moment) => ((found, moment), .error e)
  | (.ok (.ok (some c)), moment) => ((c :: found, moment), .ok ())
  | (.ok _, moment) => ((found, moment), .ok ())

/-- The classes at or below a node that the classifier accepts, in the order of the walk. -/
def configurationClasses (root : SyntaxNode) (model : SemanticModel) (classifier : Classifier) :
    Watched (List ClassDeclaration) := fun token => do
  match root.walk (locateStep model classifier token) ([], ← get) with
  | ((_, moment), .error e) => do set moment; throw e
  | ((found, moment), .ok ()) => do set moment; pure found.reverse

end SyntaxNode

end SafeCalls
