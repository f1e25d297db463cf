import SafeCalls.Extraction.Classifier
import SafeCalls.Extraction.Registration
import SafeCalls.Whitelist.Basic

namespace SafeCalls

/-!
# Extraction of a whitelist

The whitelist of a list of units holds every key that some method of a configuration class in one
of the units registers. The units are gone through one after another, or each is a task of its own
and the sets of keys are merged pairwise in any order. Cancellation is an outcome of its own: there
is no whitelist of a part of the units.
-/

structure Extractor where
  classifier : Classifier
  interpreter : Interpreter
  isParallel : Bool

/-- The order in which the results of tasks are merged. -/
inductive Reduction (α : Type) where
  | identity
  | leaf (value : α)
  | merge (left right : Reduction α)

namespace Reduction

variable {α β : Type}

def map (f : α → β) : Reduction α → Reduction β
  | identity => identity
  | leaf value => leaf (f value)
  | merge left right => merge (left.map f) (right.map f)

def leaves : Reduction α → List α
  | identity => []
  | leaf value => [value]
  | merge left right => left.leaves ++ right.leaves

/-- Halves a list again and again, at most as often as `depth` says. -/
def halved : Nat → List α → Reduction α
  | _, [] => identity
  | _, [value] => leaf value
  | 0, value :: more => merge (leaf value) (halved 0 more)
  | depth + 1, values =>
      merge (halved depth (values.take (values.length / 2)))
        (halved depth (values.drop (values.length / 2)))

def balanced (values : List α) : Reduction α := halved values.length values

end Reduction

/-- Both sets of keys, by adding the smaller one to the larger one. -/
def Whitelist.merge (a b : Whitelist) : Whitelist :=
  if a.size < b.size then b.union a else a.union b

namespace Reduction

/-- The merged keys of all tasks, unless one of them was cancelled. -/
def collect : Reduction (Except Cancelled Whitelist) → Except Cancelled Whitelist
  | identity => .ok SortedSet.empty
  | leaf result => result
  | merge left right => do
      let a ← left.collect
      let b ← right.collect
      pure (Whitelist.merge a b)

end Reduction

namespace Extractor

open Watched

/-- The keys that the methods register, with a poll before each method. -/
def methodKeys (x : Extractor) (model : SemanticModel) :
    List MethodDeclaration → Watched (List CanonicalKey)
  | [] => pure []
  | m :: more => do
      poll
      let keys ← x.interpreter.keys model m
      let others ← methodKeys x model more
      pure (keys ++ others)

/-- The keys that one unit contributes: none if its tree or its model is missing. -/
def unitKeys (x : Extractor) (unit : ConfigurationUnit) : Watched Whitelist := do
  poll
  match unit.parts? with
  | none => pure SortedSet.empty
  | some (tree, model) => do
      let classes ← tree.node.configurationClasses model x.classifier
      let keys ← x.methodKeys model (classes.flatMap ClassDeclaration.methods)
      pure (SortedSet.ofList keys)

def sequential (x : Extractor) : Aggregator → List ConfigurationUnit → Watched Whitelist
  | total, [] => pure total.finish
  | total, unit :: more => do
      let keys ← x.unitKeys unit
      sequential x (total.union keys.toList) more

/-- Every unit by itself, with its own view of the token. -/
def parallel (x : Extractor) (plan : Reduction (ConfigurationUnit × Token)) :
    Except Cancelled Whitelist :=
  (plan.map fun (unit, token) => (x.unitKeys unit).outcome token).collect

def extract (x : Extractor) (units : List ConfigurationUnit) (token : Token) :
    Except Cancelled Whitelist :=
  if x.isParallel then x.parallel (Reduction.balanced (units.map fun unit => (unit, token)))
  else (x.sequential .empty units).outcome token

end Extractor

end SafeCalls
