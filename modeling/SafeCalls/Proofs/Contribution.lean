import SafeCalls.Extraction.Extractor
import SafeCalls.Proofs.Walk
import SafeCalls.Proofs.Watched

namespace SafeCalls

/-!
# What a unit contributes

The value that each stage of an extraction gives when nothing cuts it off: the classes found in a
tree, the keys that a method registers, the keys of a unit. None of them depends on the token or
on the moment at which the stage starts.
-/

open Watched

namespace Classifier

/-- The class that is accepted at a node. Where the classifier fails none is. -/
def accepted? (classifier : Classifier) (model : SemanticModel) (node : SyntaxNode) :
    Option ClassDeclaration :=
  match (classifier.classify model node).answer with
  | .ok found => found
  | .error _ => none

theorem accepted?_eq_some_iff {classifier : Classifier} {model : SemanticModel} {node : SyntaxNode}
    {c : ClassDeclaration} : classifier.accepted? model node = some c ↔
      (classifier.classify model node).answer = .ok (some c) := by
  unfold accepted?
  cases (classifier.classify model node).answer with
  | ok found => simp
  | error e => simp

end Classifier

namespace SyntaxNode

variable (model : SemanticModel) (classifier : Classifier)

/-- The search for configuration classes, as a loop over a list of nodes. -/
def search (found : List ClassDeclaration) : List SyntaxNode → Watched (List ClassDeclaration)
  | [] => pure found.reverse
  | node :: more => do
      poll
      let answer ← consult (classifier.classify model node)
      match answer with
      | .ok (some c) => search (c :: found) more
      | _ => search found more

theorem gives_search (found : List ClassDeclaration) (nodes : List SyntaxNode) :
    (search model classifier found nodes).Gives
      (found.reverse ++ nodes.filterMap (classifier.accepted? model)) := by
  induction nodes generalizing found with
  | nil => simpa [search] using gives_pure found.reverse
  | cons node more ih =>
      rw [search]
      refine .poll_bind ((gives_consult _).bind ?_)
      rw [List.filterMap_cons, Classifier.accepted?]
      split
      · next c h =>
          simpa [h] using ih (c :: found)
      · next h =>
          rcases h' : (classifier.classify model node).answer with e | _ | c
          · simpa [h'] using ih found
          · simpa [h'] using ih found
          · exact absurd h' (h c)

theorem runFrom_search (token : Token) (found : List ClassDeclaration) (moment : Moment)
    (nodes : List SyntaxNode) :
    (search model classifier found nodes).runFrom token moment =
      match visitAll (locateStep model classifier token) (found, moment) nodes with
      | ((_, moment), .error e) => (.error e, moment)
      | ((found, moment), .ok ()) => (.ok found.reverse, moment) := by
  induction nodes generalizing found moment with
  | nil => rfl
  | cons node more ih =>
      rw [search, visitAll, locateStep]
      simp only [runFrom_bind, runFrom_poll]
      cases token.isFired moment with
      | true => rfl
      | false =>
          simp only [Bool.false_eq_true, ↓reduceIte, runFrom_consult]
          rcases (classifier.classify model node).answer with e | _ | c
          · exact ih found _
          · exact ih found _
          · exact ih (c :: found) _

theorem runFrom_configurationClasses (root : SyntaxNode) (token : Token) (moment : Moment) :
    (root.configurationClasses model classifier).runFrom token moment =
      (search model classifier [] root.preorder).runFrom token moment := by
  rw [runFrom_search, ← walk_eq_visitAll]
  change ((match root.walk (locateStep model classifier token) ([], moment) with
    | ((_, moment), .error e) => do set moment; throw e
    | ((found, moment), .ok ()) => do set moment; pure found.reverse) :
      ExceptT Cancelled (StateM Moment) (List ClassDeclaration)) moment = _
  rcases root.walk (locateStep model classifier token) ([], moment) with ⟨⟨_, _⟩, _ | _⟩ <;> rfl

def acceptedClasses (root : SyntaxNode) : List ClassDeclaration :=
  root.preorder.filterMap (classifier.accepted? model)

theorem gives_configurationClasses (root : SyntaxNode) :
    (root.configurationClasses model classifier).Gives (root.acceptedClasses model classifier) := by
  intro start
  obtain ⟨c, hc, hcourse⟩ := gives_search model classifier [] root.preorder start
  refine ⟨c, hc, fun token => ?_⟩
  rw [runFrom_configurationClasses]
  exact hcourse token

theorem mem_acceptedClasses {root : SyntaxNode} {c : ClassDeclaration} :
    c ∈ root.acceptedClasses model classifier ↔ ∃ node, root.Reaches node ∧
      (classifier.classify model node).answer = .ok (some c) := by
  simp only [acceptedClasses, List.mem_filterMap, mem_preorder, Classifier.accepted?_eq_some_iff]

end SyntaxNode

namespace Interpreter

theorem gives_collect (key? : Invocation → Consulted (Option CanonicalKey))
    (calls : List Invocation) :
    (collect key? calls).Gives (calls.flatMap fun call => (key? call).answer.toList) := by
  induction calls with
  | nil => exact gives_pure []
  | cons call more ih =>
      rw [collect]
      refine .poll_bind ((gives_consult _).bind (ih.bind ?_))
      exact gives_pure _

/-- All keys that a method registers, with repeats, when nothing cuts the reading of it off. -/
def registeredKeys (i : Interpreter) (model : SemanticModel) (m : MethodDeclaration) :
    List CanonicalKey :=
  match m.body with
  | none => []
  | some body =>
      let explicit := body.invocations.flatMap fun call => (i.explicitKey? model call).answer.toList
      match (i.trust model m).answer with
      | .explicitOnly => explicit
      | .trustAllCalls =>
          explicit ++ body.invocations.flatMap fun call => (trustedKey? model call).answer.toList

theorem gives_keys (i : Interpreter) (model : SemanticModel) (m : MethodDeclaration) :
    (i.keys model m).Gives (i.registeredKeys model m) := by
  rw [keys, registeredKeys]
  cases m.body with
  | none => exact gives_pure []
  | some body =>
      refine (gives_collect _ body.invocations).bind ((gives_consult _).bind ?_)
      cases (i.trust model m).answer with
      | explicitOnly => exact gives_pure _
      | trustAllCalls => exact (gives_collect _ body.invocations).bind (gives_pure _)

end Interpreter

namespace Extractor

theorem gives_methodKeys (x : Extractor) (model : SemanticModel) (ms : List MethodDeclaration) :
    (x.methodKeys model ms).Gives (ms.flatMap (x.interpreter.registeredKeys model)) := by
  induction ms with
  | nil => exact gives_pure []
  | cons m more ih =>
      rw [methodKeys]
      refine .poll_bind ((x.interpreter.gives_keys model m).bind (ih.bind ?_))
      exact gives_pure _

/-- The keys that a unit contributes when nothing cuts its extraction off. -/
def contribution (x : Extractor) (unit : ConfigurationUnit) : Whitelist :=
  match unit.parts? with
  | none => SortedSet.empty
  | some (tree, model) =>
      let classes := tree.node.acceptedClasses model x.classifier
      SortedSet.ofList
        ((classes.flatMap ClassDeclaration.methods).flatMap (x.interpreter.registeredKeys model))

theorem gives_unitKeys (x : Extractor) (unit : ConfigurationUnit) :
    (x.unitKeys unit).Gives (x.contribution unit) := by
  rw [unitKeys, contribution]
  refine .poll_bind ?_
  cases unit.parts? with
  | none => exact gives_pure _
  | some parts =>
      obtain ⟨tree, model⟩ := parts
      refine (SyntaxNode.gives_configurationClasses model x.classifier tree.node).bind ?_
      exact (x.gives_methodKeys model _).bind (gives_pure _)

/-- The union of what the units contribute. -/
def whitelist (x : Extractor) (units : List ConfigurationUnit) : Whitelist :=
  SortedSet.ofList (units.flatMap fun unit => (x.contribution unit).toList)

theorem mem_whitelist {x : Extractor} {units : List ConfigurationUnit} {k : CanonicalKey} :
    k ∈ x.whitelist units ↔ ∃ unit ∈ units, k ∈ x.contribution unit := by
  simp only [whitelist, SortedSet.mem_ofList, List.mem_flatMap, SortedSet.mem_toList]

theorem gives_sequential_from (x : Extractor) (total : Aggregator)
    (units : List ConfigurationUnit) :
    (x.sequential total units).Gives (total.keys.union (x.whitelist units)) := by
  induction units generalizing total with
  | nil =>
      have hunion : total.keys.union (x.whitelist []) = total.finish :=
        SortedSet.eq_of_mem_iff fun k => by simp [mem_whitelist, Aggregator.finish]
      rw [hunion]
      exact gives_pure _
  | cons unit more ih =>
      have hunion : total.keys.union (x.whitelist (unit :: more)) =
          (total.union (x.contribution unit).toList).keys.union (x.whitelist more) :=
        SortedSet.eq_of_mem_iff fun k => by
          simp [mem_whitelist, Aggregator.union, SortedSet.mem_toList, or_assoc]
      rw [hunion]
      exact (x.gives_unitKeys unit).bind (ih _)

theorem gives_sequential (x : Extractor) (units : List ConfigurationUnit) :
    (x.sequential .empty units).Gives (x.whitelist units) := by
  have hunion : Aggregator.empty.keys.union (x.whitelist units) = x.whitelist units :=
    SortedSet.eq_of_mem_iff fun k => by simp [Aggregator.empty]
  have hgives := x.gives_sequential_from .empty units
  rwa [hunion] at hgives

end Extractor

end SafeCalls
