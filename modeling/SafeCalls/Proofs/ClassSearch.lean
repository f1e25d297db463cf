import SafeCalls.Proofs.Footprint
import SafeCalls.Proofs.Information

namespace SafeCalls

/-!
# The search for configuration classes

The search asks the classifier at every node, in the order of the walk. What comes of one node
never keeps it from another: a class that is rejected, or at which the classifier fails, is passed
by and nothing else, and what is nested in it is looked at all the same. Only a poll that sees the
token fired ends the search early, and then nothing is found at all.
-/

open Watched

namespace Classifier

/-- Whether a node is passed by: the classifier rejects it, or it fails there. -/
def PassesBy (classifier : Classifier) (model : SemanticModel) (node : SyntaxNode) : Prop :=
  (classifier.classify model node).answer = .ok none ∨
    ∃ e, (classifier.classify model node).answer = .error e

/-- Whether two classifiers differ in nothing but that one may fail where the other rejects. -/
def AgreesBesideFailures (classifier other : Classifier) (model : SemanticModel) : Prop :=
  ∀ node, (classifier.classify model node).answer = (other.classify model node).answer ∨
    classifier.PassesBy model node ∧ other.PassesBy model node

variable {classifier other : Classifier} {model : SemanticModel} {node : SyntaxNode}

theorem PassesBy.accepted?_eq (h : classifier.PassesBy model node) :
    classifier.accepted? model node = none := by
  rw [accepted?]
  obtain h | ⟨e, h⟩ := h
  · rw [h]
  · rw [h]

theorem AgreesBesideFailures.accepted?_eq (h : classifier.AgreesBesideFailures other model) :
    classifier.accepted? model = other.accepted? model := by
  funext node
  obtain hsame | ⟨hpasses, hother⟩ := h node
  · rw [accepted?, accepted?, hsame]
  · rw [hpasses.accepted?_eq, hother.accepted?_eq]

end Classifier

namespace SyntaxNode

variable (model : SemanticModel) (classifier : Classifier)

/-- The visits of a search that nothing cuts off, each with the moment of the poll there. Between
two polls lie the lookups of the classifier at the first of the two nodes. -/
def visitsFrom : Moment → List SyntaxNode → List (SyntaxNode × Moment)
  | _, [] => []
  | moment, node :: more =>
      (node, moment) :: visitsFrom
        ⟨moment.polls + 1, moment.lookups + (classifier.classify model node).lookups⟩ more

theorem map_visitsFrom (start : Moment) (nodes : List SyntaxNode) :
    (visitsFrom model classifier start nodes).map Prod.fst = nodes := by
  induction nodes generalizing start with
  | nil => rfl
  | cons node more ih => rw [visitsFrom, List.map_cons, ih]

/-- A search is cancelled at the first visit whose poll sees the token fired. -/
theorem runFrom_search_fst (token : Token) (found : List ClassDeclaration) (start : Moment)
    (nodes : List SyntaxNode) :
    ((search model classifier found nodes).runFrom token start).1 =
      if (visitsFrom model classifier start nodes).any fun visit => token.isFired visit.2 then
        .error .cancelled
      else .ok (found.reverse ++ nodes.filterMap (classifier.accepted? model)) := by
  induction nodes generalizing found start with
  | nil =>
      rw [search, visitsFrom, List.any_nil, if_neg Bool.false_ne_true, List.filterMap_nil,
        List.append_nil]
      rfl
  | cons node more ih =>
      rw [search, visitsFrom, List.any_cons, runFrom_bind, runFrom_poll]
      cases token.isFired start with
      | true => rfl
      | false =>
          rw [List.filterMap_cons, Classifier.accepted?]
          simp only [Bool.false_eq_true, ↓reduceIte, Bool.false_or, runFrom_bind, runFrom_consult]
          rcases (classifier.classify model node).answer with e | _ | c
          · exact ih found _
          · exact ih found _
          · simpa using ih (c :: found) _

/-- The visits of a search from a node on. -/
def visits (root : SyntaxNode) (start : Moment) : List (SyntaxNode × Moment) :=
  visitsFrom model classifier start root.preorder

theorem runFrom_configurationClasses_fst (root : SyntaxNode) (token : Token) (start : Moment) :
    ((root.configurationClasses model classifier).runFrom token start).1 =
      if (root.visits model classifier start).any fun visit => token.isFired visit.2 then
        .error .cancelled
      else .ok (root.acceptedClasses model classifier) := by
  rw [runFrom_configurationClasses, runFrom_search_fst]
  rfl

/-- The class that a node declares, if it declares one. -/
def class? : SyntaxNode → Option ClassDeclaration
  | declaration (.classType c) => some c
  | _ => none

/-- The classes that are declared at or below a node, in the order of the walk. -/
def declaredClasses (root : SyntaxNode) : List ClassDeclaration := root.preorder.filterMap class?

theorem class?_eq_some {node : SyntaxNode} {c : ClassDeclaration} (h : node.class? = some c) :
    node = .declaration (.classType c) := by
  unfold class? at h
  split at h
  · rw [Option.some.inj h]
  · cases h

theorem mem_declaredClasses {root : SyntaxNode} {c : ClassDeclaration} :
    c ∈ root.declaredClasses ↔ root.Reaches (.declaration (.classType c)) := by
  rw [declaredClasses, List.mem_filterMap, ← mem_preorder]
  constructor
  · rintro ⟨node, hnode, hc⟩
    rwa [class?_eq_some hc] at hnode
  · exact fun h => ⟨_, h, rfl⟩

theorem accepted?_derivedFrom (baseType : String) (node : SyntaxNode) :
    (Classifier.derivedFrom baseType).accepted? model node =
      node.class?.filter fun c => model.derives baseType c.id := by
  cases node with
  | declaration d =>
      cases d with
      | classType c =>
          rw [accepted?_classType, class?, Option.filter_some]
      | namespaceScope scope => rfl
      | method m => rfl
      | member m => rfl
  | unit u => rfl
  | block b => rfl
  | statement s => rfl
  | expression e => rfl

theorem acceptedClasses_derivedFrom (baseType : String) (root : SyntaxNode) :
    root.acceptedClasses model (.derivedFrom baseType) =
      root.declaredClasses.filter fun c => model.derives baseType c.id := by
  rw [acceptedClasses, declaredClasses, List.filter_filterMap]
  exact congrArg (root.preorder.filterMap ·) (funext (accepted?_derivedFrom model baseType))

end SyntaxNode

theorem SemanticModel.derives_iff {model : SemanticModel} {baseType : String} {id : NodeId} :
    model.derives baseType id = true ↔
      ∃ t, model.declaredAt id = some (.type t) ∧ baseType ∈ t.baseTypes := by
  rw [derives]
  split
  · next t hdeclared => simp [hdeclared, TypeSymbol.derivesFrom]
  · next hother =>
      refine ⟨fun h => absurd h Bool.false_ne_true, ?_⟩
      rintro ⟨t, hdeclared, -⟩
      exact (hother t hdeclared).elim

namespace SyntaxNode

/-- Unless it is cancelled, a search finds the classes that the classifier accepts at the nodes of
the pre-order list, one for each such node and in the order of the list, and it makes no difference
whether the classifier fails at a node or rejects it. It is cancelled exactly if the token is seen
fired at a node of the list. With the usual classifier the classes are those declared at any depth
whose symbol is a type with the base type anywhere among its base types. -/
theorem search_finds_accepted_classes (root : SyntaxNode) (model : SemanticModel)
    (start : Moment) :
    (∀ node : SyntaxNode, node.preorder = node :: node.children.flatMap preorder) ∧
    (∀ classifier : Classifier,
      ((root.configurationClasses model classifier).runFrom .never start).1 =
        .ok (root.preorder.filterMap (classifier.accepted? model)) ∧
      (∀ other : Classifier, classifier.AgreesBesideFailures other model →
        ((root.configurationClasses model other).runFrom .never start).1 =
          ((root.configurationClasses model classifier).runFrom .never start).1) ∧
      (root.visits model classifier start).map Prod.fst = root.preorder ∧
      ∀ token : Token, ((root.configurationClasses model classifier).runFrom token start).1 =
        if (root.visits model classifier start).any fun visit => token.isFired visit.2 then
          .error .cancelled
        else .ok (root.preorder.filterMap (classifier.accepted? model))) ∧
    ∀ baseType : String, ∃ classes : List ClassDeclaration,
      ((root.configurationClasses model (.derivedFrom baseType)).runFrom .never start).1 =
        .ok classes ∧
      classes = root.declaredClasses.filter (fun c => model.derives baseType c.id) ∧
      ∀ c, c ∈ classes ↔ root.Reaches (.declaration (.classType c)) ∧
        ∃ t, model.declaredAt c.id = some (.type t) ∧ baseType ∈ t.baseTypes := by
  have hnever (classifier : Classifier) :
      ((root.configurationClasses model classifier).runFrom .never start).1 =
        .ok (root.acceptedClasses model classifier) :=
    (gives_configurationClasses model classifier root).runFrom_never start
  refine ⟨preorder_eq, fun classifier => ⟨hnever classifier, fun other hagrees => ?_,
    map_visitsFrom model classifier start _, fun token => ?_⟩, fun baseType => ?_⟩
  · rw [hnever, hnever, acceptedClasses, acceptedClasses, hagrees.accepted?_eq]
  · exact runFrom_configurationClasses_fst model classifier root token start
  · refine ⟨_, hnever _, acceptedClasses_derivedFrom model baseType root, fun c => ?_⟩
    rw [acceptedClasses_derivedFrom, List.mem_filter, mem_declaredClasses,
      SemanticModel.derives_iff]

/-- Classes in a configuration class, in one whose symbol is missing and in one that is none; where
the symbol is missing the classifier fails, and it might as well reject. -/
theorem search_finds_nested_classes :
    let nested (id inner : NodeId) : Declaration :=
      .classType ⟨id, "C", [], [.classType ⟨inner, "Config", [], [], .zero⟩], .zero⟩
    let root : SyntaxNode := .unit ⟨0, [.namespaceScope ⟨1, "N", [nested 2 3, nested 4 5,
      nested 6 7]⟩]⟩
    let model : SemanticModel := ⟨fun _ => none, fun id =>
      if id = 4 then none
      else some (.type ⟨"T", if id = 6 then [] else ["Other", "Base"], []⟩)⟩
    let strict : Classifier := .derivedFrom "Base"
    let lenient : Classifier := ⟨"lenient", fun model node =>
      ⟨.ok (strict.accepted? model node), (strict.classify model node).lookups⟩⟩
    strict.AgreesBesideFailures lenient model ∧
      (∃ classes, ((root.configurationClasses model lenient).runFrom .never .start).1 =
        .ok classes ∧ classes.map ClassDeclaration.id = [2, 3, 5, 7]) ∧
      ((root.configurationClasses model strict).runFrom (.atLookup 3) .start).1 =
        .error .cancelled := by
  intro nested root model strict lenient
  have hagrees : strict.AgreesBesideFailures lenient model := fun node => by
    rcases hanswer : (strict.classify model node).answer with e | found
    · refine .inr ⟨.inr ⟨e, hanswer⟩, .inl ?_⟩
      exact congrArg Except.ok (by rw [Classifier.accepted?, hanswer])
    · refine .inl (Eq.symm ?_)
      exact congrArg Except.ok (by rw [Classifier.accepted?, hanswer])
  obtain ⟨-, hsearch, hderived⟩ := search_finds_accepted_classes root model .start
  obtain ⟨-, hother, -, htoken⟩ := hsearch strict
  obtain ⟨classes, hclasses, hfilter, -⟩ := hderived "Base"
  have hpreorder (id inner : NodeId) : (declaration (nested id inner)).preorder =
      [.declaration (nested id inner),
        .declaration (.classType ⟨inner, "Config", [], [], .zero⟩)] := by
    simp [nested, preorder_eq, children, Declaration.children]
  have hroot : root.preorder = root :: .declaration (.namespaceScope ⟨1, "N", [nested 2 3,
      nested 4 5, nested 6 7]⟩) :: [nested 2 3, nested 4 5, nested 6 7].flatMap
        fun d => (declaration d).preorder := by
    simp [root, preorder_eq, children, Declaration.children]
  refine ⟨hagrees, ⟨classes, (hother lenient hagrees).trans hclasses, ?_⟩, ?_⟩
  · rw [hfilter, declaredClasses, hroot]
    simp only [List.flatMap_cons, hpreorder]
    decide
  · rw [htoken, visits, hroot]
    simp only [List.flatMap_cons, hpreorder]
    exact if_pos (by decide)

end SyntaxNode

end SafeCalls
