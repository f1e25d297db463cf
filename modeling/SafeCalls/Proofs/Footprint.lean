import SafeCalls.Proofs.Contribution

namespace SafeCalls

/-!
# Footprints

The footprint of a unit is what an extraction looks at: how scopes, classes and methods are nested,
which classes are accepted, and of a method of such a class whether it is marked and which symbols
its call statements refer to. The contribution of a unit is a function of its footprint, and much of
a source tree can be written otherwise without any trace in the footprint.
-/

/-- What a call statement refers to. -/
structure CallFootprint where
  id : NodeId
  invoked : Option Symbol
  argumentCount : Nat
  /-- What the body of the only argument refers to, if it is a lambda that is an expression. -/
  target : Option (Option Symbol)

structure MethodFootprint where
  isMarked : Bool
  calls : List CallFootprint

inductive DeclarationFootprint where
  | scope (id : NodeId) (members : List DeclarationFootprint)
  | type (id : NodeId) (isAccepted : Bool) (members : List DeclarationFootprint)
  /-- The calls are seen in accepted classes only. -/
  | method (id : NodeId) (body : Option MethodFootprint)

namespace Invocation

def footprint (model : SemanticModel) (call : Invocation) : CallFootprint where
  id := call.id
  invoked := model.symbolAt call.id
  argumentCount := call.arguments.length
  target := call.lambdaBody?.map fun body => model.symbolAt body.id

end Invocation

namespace MethodDeclaration

/-- The statements of the body itself. -/
def statements (m : MethodDeclaration) : List Statement := (m.body.map Block.statements).getD []

def isMarked (i : Interpreter) (model : SemanticModel) (m : MethodDeclaration) : Bool :=
  (model.declaredAt m.id).any fun symbol => symbol.attributes.any i.isMarker

/-- Where nothing is called the marker does not matter. -/
def footprint? (i : Interpreter) (model : SemanticModel) (m : MethodDeclaration) :
    Option MethodFootprint :=
  match (m.statements.filterMap Statement.invocation?).map (Invocation.footprint model) with
  | [] => none
  | calls => some ⟨m.isMarked i model, calls⟩

end MethodDeclaration

namespace SemanticModel

/-- Whether a declaration declares a type with the given one among its base types. -/
def derives (model : SemanticModel) (baseType : String) (id : NodeId) : Bool :=
  match model.declaredAt id with
  | some (.type t) => t.derivesFrom baseType
  | _ => false

end SemanticModel

section

variable (baseType : String) (i : Interpreter) (model : SemanticModel)

mutual

def Declaration.footprint? (isAccepted : Bool) : Declaration → Option DeclarationFootprint
  | .namespaceScope ⟨id, _, members⟩ => some (.scope id (footprints false members))
  | .classType ⟨id, _, _, members, _⟩ =>
      let derives := model.derives baseType id
      some (.type id derives (footprints derives members))
  | .method m => some (.method m.id (if isAccepted then m.footprint? i model else none))
  | .member _ => none

/-- The footprints of the declarations of a scope, which may be an accepted class. -/
def footprints (isAccepted : Bool) : List Declaration → List DeclarationFootprint
  | [] => []
  | d :: more => (d.footprint? isAccepted).toList ++ footprints isAccepted more

end

end

namespace ConfigurationUnit

def footprint? (baseType : String) (i : Interpreter) (unit : ConfigurationUnit) :
    Option (List DeclarationFootprint) :=
  unit.parts?.map fun (tree, model) => footprints baseType i model false tree.root.members

end ConfigurationUnit

namespace CallFootprint

def explicitKey? (entryPoint : String) (c : CallFootprint) : Option CanonicalKey :=
  if c.invoked.map Symbol.name = some entryPoint then c.target.join.bind Symbol.canonicalKey?
  else none

def trustedKey? (c : CallFootprint) : Option CanonicalKey := c.invoked.bind Symbol.canonicalKey?

end CallFootprint

namespace MethodFootprint

def keys (entryPoint : String) (m : MethodFootprint) : List CanonicalKey :=
  m.calls.flatMap (fun c => (c.explicitKey? entryPoint).toList) ++
    if m.isMarked then m.calls.flatMap (fun c => c.trustedKey?.toList) else []

end MethodFootprint

mutual

/-- The keys that are registered somewhere inside. -/
def DeclarationFootprint.keys (entryPoint : String) : DeclarationFootprint → List CanonicalKey
  | .scope _ members => footprintKeys entryPoint members
  | .type _ _ members => footprintKeys entryPoint members
  | .method _ body => (body.map (MethodFootprint.keys entryPoint)).getD []

def footprintKeys (entryPoint : String) : List DeclarationFootprint → List CanonicalKey
  | [] => []
  | f :: more => f.keys entryPoint ++ footprintKeys entryPoint more

end

/-! The keys of a method are those of its footprint. -/

section Methods

variable {i : Interpreter} {model : SemanticModel}

theorem explicitKey?_footprint (call : Invocation) :
    (i.explicitKey? model call).answer = (call.footprint model).explicitKey? i.entryPoint := by
  rw [Interpreter.explicitKey?, Interpreter.target?, CallFootprint.explicitKey?,
    Invocation.footprint]
  cases model.symbolAt call.id with
  | none => rfl
  | some invoked =>
      by_cases hname : invoked.name = i.entryPoint
      · cases call.lambdaBody? with
        | none => simp [hname]
        | some body => simp [hname, Interpreter.keyAt?]
      · simp [hname]

theorem trust_eq (m : MethodDeclaration) : (i.trust model m).answer =
    if m.isMarked i model then .trustAllCalls else .explicitOnly := rfl

/-- A method that calls nothing has no keys, marked or not. -/
theorem keys_footprint? (entryPoint : String) (m : MethodDeclaration) :
    ((m.footprint? i model).map (MethodFootprint.keys entryPoint)).getD [] =
      (MethodFootprint.mk (m.isMarked i model)
        ((m.statements.filterMap Statement.invocation?).map (Invocation.footprint model))).keys
          entryPoint := by
  rw [MethodDeclaration.footprint?]
  cases (m.statements.filterMap Statement.invocation?).map (Invocation.footprint model) with
  | nil => cases hmarked : m.isMarked i model <;> rfl
  | cons call more => rfl

theorem registeredKeys_eq (m : MethodDeclaration) : i.registeredKeys model m =
    ((m.footprint? i model).map (MethodFootprint.keys i.entryPoint)).getD [] := by
  rw [keys_footprint?, Interpreter.registeredKeys, MethodDeclaration.statements, trust_eq]
  cases m.body with
  | none => cases m.isMarked i model <;> rfl
  | some body =>
      have hexplicit : body.invocations.flatMap
          (fun call => (i.explicitKey? model call).answer.toList) =
            (body.invocations.map (Invocation.footprint model)).flatMap
              fun c => (c.explicitKey? i.entryPoint).toList := by
        rw [List.flatMap_map]
        simp only [explicitKey?_footprint]
      have htrusted : body.invocations.flatMap
          (fun call => (Interpreter.trustedKey? model call).answer.toList) =
            (body.invocations.map (Invocation.footprint model)).flatMap
              fun c => c.trustedKey?.toList := by
        rw [List.flatMap_map]
        rfl
      cases hmarked : m.isMarked i model with
      | false => exact hexplicit.trans (List.append_nil _).symm
      | true => exact congrArg₂ (· ++ ·) hexplicit htrusted

end Methods

namespace SyntaxNode

/-- Blocks, statements and expressions, in which nothing is declared. -/
def IsCode : SyntaxNode → Prop
  | block _ | statement _ | expression _ => True
  | unit _ | declaration _ => False

theorem IsCode.child {node child : SyntaxNode} (h : node.IsCode) (hchild : child ∈ node.children) :
    child.IsCode := by
  cases mem_children_iff.1 hchild <;> trivial

variable (baseType : String) (model : SemanticModel)

/-- The classes that are accepted at or below the nodes on a stack. -/
def acceptedAmong (stack : List SyntaxNode) : List ClassDeclaration :=
  (listed stack).filterMap ((Classifier.derivedFrom baseType).accepted? model)

theorem accepted?_eq_none_of_isCode {node : SyntaxNode} (h : node.IsCode) :
    (Classifier.derivedFrom baseType).accepted? model node = none := by
  cases node with
  | unit u => cases h
  | declaration d => cases h
  | block b => rfl
  | statement s => rfl
  | expression e => rfl

theorem acceptedAmong_eq_nil {stack : List SyntaxNode} (h : ∀ node ∈ stack, node.IsCode) :
    acceptedAmong baseType model stack = [] := by
  induction stack using stack_induction with
  | nil => simp [acceptedAmong]
  | cons node stack ih =>
      have hnode : node.IsCode := h node List.mem_cons_self
      rw [acceptedAmong, listed_cons, List.filterMap_cons,
        accepted?_eq_none_of_isCode baseType model hnode]
      refine ih fun other hother => ?_
      rcases List.mem_append.1 hother with hchild | hstack
      · exact hnode.child hchild
      · exact h other (List.mem_cons_of_mem node hstack)

theorem acceptedAmong_cons (node : SyntaxNode) (stack : List SyntaxNode) :
    acceptedAmong baseType model (node :: stack) =
      ((Classifier.derivedFrom baseType).accepted? model node).toList ++
        (acceptedAmong baseType model node.children ++ acceptedAmong baseType model stack) := by
  rw [acceptedAmong, listed_cons, listed_append, List.filterMap_cons, List.filterMap_append]
  cases (Classifier.derivedFrom baseType).accepted? model node <;> rfl

theorem accepted?_classType (c : ClassDeclaration) :
    (Classifier.derivedFrom baseType).accepted? model (.declaration (.classType c)) =
      if model.derives baseType c.id then some c else none := by
  rcases hdeclared : model.declaredAt c.id with _ | symbol
  · simp [Classifier.accepted?, Classifier.derivedFrom, SemanticModel.derives, hdeclared,
      Classifier.judge]
  · cases symbol <;>
      simp [Classifier.accepted?, Classifier.derivedFrom, SemanticModel.derives, hdeclared,
        Classifier.judge]

theorem acceptedAmong_append (xs ys : List SyntaxNode) :
    acceptedAmong baseType model (xs ++ ys) =
      acceptedAmong baseType model xs ++ acceptedAmong baseType model ys := by
  rw [acceptedAmong, listed_append, List.filterMap_append]
  rfl

theorem acceptedAmong_singleton (node : SyntaxNode) : acceptedAmong baseType model [node] =
    ((Classifier.derivedFrom baseType).accepted? model node).toList ++
      acceptedAmong baseType model node.children := by
  have hnil : acceptedAmong baseType model [] = [] := acceptedAmong_eq_nil baseType model (by simp)
  rw [acceptedAmong_cons, hnil, List.append_nil]

theorem acceptedAmong_scope (scope : NamespaceDeclaration) :
    acceptedAmong baseType model [.declaration (.namespaceScope scope)] =
      acceptedAmong baseType model (scope.members.map .declaration) :=
  acceptedAmong_singleton baseType model _

theorem acceptedAmong_classType (c : ClassDeclaration) :
    acceptedAmong baseType model [.declaration (.classType c)] =
      (if model.derives baseType c.id then [c] else []) ++
        acceptedAmong baseType model (c.members.map .declaration) := by
  rw [acceptedAmong_singleton, accepted?_classType]
  split <;> rfl

theorem acceptedAmong_method (m : MethodDeclaration) :
    acceptedAmong baseType model [.declaration (.method m)] = [] := by
  rw [acceptedAmong_singleton]
  refine acceptedAmong_eq_nil baseType model fun node hnode => ?_
  cases mem_children_iff.1 hnode <;> trivial

theorem acceptedAmong_member (m : MemberDeclaration) :
    acceptedAmong baseType model [.declaration (.member m)] = [] := by
  rw [acceptedAmong_singleton]
  refine acceptedAmong_eq_nil baseType model fun node hnode => ?_
  cases mem_children_iff.1 hnode <;> trivial

end SyntaxNode

/-! The keys of a footprint are those of the methods of the accepted classes. -/

section Declarations

variable (baseType : String) (i : Interpreter) (model : SemanticModel)

/-- A key is registered by a method of one of the classes. -/
def RegistersAmong (classes : List ClassDeclaration) (k : CanonicalKey) : Prop :=
  ∃ c ∈ classes, ∃ m ∈ c.methods, k ∈ i.registeredKeys model m

theorem registersAmong_append {cs ds : List ClassDeclaration} {k : CanonicalKey} :
    RegistersAmong i model (cs ++ ds) k ↔
      RegistersAmong i model cs k ∨ RegistersAmong i model ds k := by
  simp only [RegistersAmong, List.mem_append, or_and_right, exists_or]

theorem not_registersAmong_nil (k : CanonicalKey) : ¬ RegistersAmong i model [] k := by
  rintro ⟨c, hc, -⟩
  cases hc

theorem mem_footprintKeys_append {entryPoint : String} {fs gs : List DeclarationFootprint}
    {k : CanonicalKey} : k ∈ footprintKeys entryPoint (fs ++ gs) ↔
      k ∈ footprintKeys entryPoint fs ∨ k ∈ footprintKeys entryPoint gs := by
  induction fs with
  | nil => simp [footprintKeys]
  | cons f more ih => simp only [List.cons_append, footprintKeys, List.mem_append, ih, or_assoc]

/-- Registered by a method that stands among the declarations itself. -/
def RegistersDirectly (ds : List Declaration) (k : CanonicalKey) : Prop :=
  ∃ m, .method m ∈ ds ∧ k ∈ i.registeredKeys model m

theorem registersAmong_singleton {c : ClassDeclaration} {k : CanonicalKey} :
    RegistersAmong i model [c] k ↔ RegistersDirectly i model c.members k := by
  simp only [RegistersAmong, RegistersDirectly, List.mem_singleton, exists_eq_left,
    ClassDeclaration.methods, List.mem_filterMap]
  constructor
  · rintro ⟨m, ⟨d, hd, hm⟩, hk⟩
    cases d with
    | method n =>
        obtain rfl : n = m := Option.some.inj hm
        exact ⟨n, hd, hk⟩
    | namespaceScope scope => cases hm
    | classType type => cases hm
    | member member => cases hm
  · rintro ⟨m, hm, hk⟩
    exact ⟨m, ⟨_, hm, rfl⟩, hk⟩

theorem registersDirectly_cons {d : Declaration} {more : List Declaration} {k : CanonicalKey} :
    RegistersDirectly i model (d :: more) k ↔
      (∃ m, d = .method m ∧ k ∈ i.registeredKeys model m) ∨ RegistersDirectly i model more k := by
  simp only [RegistersDirectly, List.mem_cons, or_and_right, exists_or, eq_comm]

theorem not_registersDirectly_nil (k : CanonicalKey) : ¬ RegistersDirectly i model [] k := by
  rintro ⟨m, hm, -⟩
  cases hm

mutual

theorem mem_keys_footprint? (isAccepted : Bool) (k : CanonicalKey) : ∀ d : Declaration,
    k ∈ footprintKeys i.entryPoint (d.footprint? baseType i model isAccepted).toList ↔
      (isAccepted = true ∧ ∃ m, d = .method m ∧ k ∈ i.registeredKeys model m) ∨
        RegistersAmong i model (SyntaxNode.acceptedAmong baseType model [.declaration d]) k
  | .namespaceScope ⟨id, name, members⟩ => by
      have hmembers := mem_keys_footprints false k members
      rw [SyntaxNode.acceptedAmong_scope]
      simpa [Declaration.footprint?, footprintKeys, DeclarationFootprint.keys] using hmembers
  | .classType ⟨id, name, baseList, members, span⟩ => by
      -- The methods of the class itself count if it is accepted, and those below it anyway.
      have hmembers := mem_keys_footprints (model.derives baseType id) k members
      rw [SyntaxNode.acceptedAmong_classType, registersAmong_append]
      cases hderives : model.derives baseType id with
      | false =>
          rw [hderives] at hmembers
          simpa [Declaration.footprint?, footprintKeys, DeclarationFootprint.keys, hderives,
            not_registersAmong_nil] using hmembers
      | true =>
          rw [hderives] at hmembers
          simpa [Declaration.footprint?, footprintKeys, DeclarationFootprint.keys, hderives,
            registersAmong_singleton] using hmembers
  | .method m => by
      rw [SyntaxNode.acceptedAmong_method]
      cases isAccepted with
      | false =>
          simp [Declaration.footprint?, footprintKeys, DeclarationFootprint.keys,
            not_registersAmong_nil]
      | true =>
          simp [Declaration.footprint?, footprintKeys, DeclarationFootprint.keys,
            not_registersAmong_nil, registeredKeys_eq]
  | .member m => by
      rw [SyntaxNode.acceptedAmong_member]
      simp [Declaration.footprint?, footprintKeys, not_registersAmong_nil]

theorem mem_keys_footprints (isAccepted : Bool) (k : CanonicalKey) : ∀ ds : List Declaration,
    k ∈ footprintKeys i.entryPoint (footprints baseType i model isAccepted ds) ↔
      (isAccepted = true ∧ RegistersDirectly i model ds k) ∨
        RegistersAmong i model (SyntaxNode.acceptedAmong baseType model (ds.map .declaration)) k
  | [] => by
      rw [List.map_nil, SyntaxNode.acceptedAmong_eq_nil baseType model (by simp)]
      simp [footprints, footprintKeys, not_registersAmong_nil, not_registersDirectly_nil]
  | d :: more => by
      have hd := mem_keys_footprint? isAccepted k d
      have hmore := mem_keys_footprints isAccepted k more
      have haccepted : SyntaxNode.acceptedAmong baseType model ((d :: more).map .declaration) =
          SyntaxNode.acceptedAmong baseType model [.declaration d] ++
            SyntaxNode.acceptedAmong baseType model (more.map .declaration) :=
        SyntaxNode.acceptedAmong_append baseType model [.declaration d] _
      rw [footprints, mem_footprintKeys_append, hd, hmore, haccepted, registersAmong_append,
        registersDirectly_cons, and_or_left]
      exact or_or_or_comm

end

end Declarations

/-! What can be written otherwise without a trace. -/

/-- The two lists call the same in the same order. Any other statement may come, go or change, and
so may everything about a call but its id, the number of its arguments, and the id of the expression
that a lambda as its only argument consists of. -/
inductive SameCalls : List Statement → List Statement → Prop
  | nil : SameCalls [] []
  | left {s : Statement} {ss ts : List Statement} (hs : s.invocation? = none)
      (h : SameCalls ss ts) : SameCalls (s :: ss) ts
  | right {t : Statement} {ss ts : List Statement} (ht : t.invocation? = none)
      (h : SameCalls ss ts) : SameCalls ss (t :: ts)
  | call {id id' : NodeId} {call call' : Invocation} {ss ts : List Statement}
      (hid : call.id = call'.id) (hcount : call.arguments.length = call'.arguments.length)
      (hbody : call.lambdaBody?.map Expression.id = call'.lambdaBody?.map Expression.id)
      (h : SameCalls ss ts) :
      SameCalls (.expression id (.invocation call) :: ss)
        (.expression id' (.invocation call') :: ts)

/-- The two lists have scopes, classes and methods with the same ids nested in the same way, and the
methods call the same. Other members may come, go or change, and names, attributes, base types,
bodies after an arrow and spans may be any. -/
inductive SameOutline : List Declaration → List Declaration → Prop
  | nil : SameOutline [] []
  | left {m : MemberDeclaration} {ds es : List Declaration} (h : SameOutline ds es) :
      SameOutline (.member m :: ds) es
  | right {m : MemberDeclaration} {ds es : List Declaration} (h : SameOutline ds es) :
      SameOutline ds (.member m :: es)
  | scope {s t : NamespaceDeclaration} {ds es : List Declaration} (hid : s.id = t.id)
      (hmembers : SameOutline s.members t.members) (h : SameOutline ds es) :
      SameOutline (.namespaceScope s :: ds) (.namespaceScope t :: es)
  | type {c d : ClassDeclaration} {ds es : List Declaration} (hid : c.id = d.id)
      (hmembers : SameOutline c.members d.members) (h : SameOutline ds es) :
      SameOutline (.classType c :: ds) (.classType d :: es)
  | method {m n : MethodDeclaration} {ds es : List Declaration} (hid : m.id = n.id)
      (hcalls : SameCalls m.statements n.statements) (h : SameOutline ds es) :
      SameOutline (.method m :: ds) (.method n :: es)

theorem SameCalls.footprints_eq {ss ts : List Statement} (h : SameCalls ss ts)
    (model : SemanticModel) :
    (ss.filterMap Statement.invocation?).map (Invocation.footprint model) =
      (ts.filterMap Statement.invocation?).map (Invocation.footprint model) := by
  induction h with
  | nil => rfl
  | left hs h ih => rw [List.filterMap_cons, hs, ih]
  | right ht h ih => rw [List.filterMap_cons, ht, ih]
  | @call id id' call call' ss ts hid hcount hbody h ih =>
      have htarget := congrArg (Option.map model.symbolAt) hbody
      rw [Option.map_map, Option.map_map] at htarget
      have hcall : call.footprint model = call'.footprint model := by
        rw [Invocation.footprint, Invocation.footprint, hid, hcount]
        exact congrArg (CallFootprint.mk _ _ _) htarget
      exact congrArg₂ List.cons hcall ih

theorem footprint?_eq_of_sameCalls {m n : MethodDeclaration} (hid : m.id = n.id)
    (hcalls : SameCalls m.statements n.statements) (i : Interpreter) (model : SemanticModel) :
    m.footprint? i model = n.footprint? i model := by
  have hmarked : m.isMarked i model = n.isMarked i model := by
    rw [MethodDeclaration.isMarked, MethodDeclaration.isMarked, hid]
  rw [MethodDeclaration.footprint?, MethodDeclaration.footprint?, hcalls.footprints_eq, hmarked]

theorem SameOutline.footprints_eq {ds es : List Declaration} (h : SameOutline ds es)
    (baseType : String) (i : Interpreter) (model : SemanticModel) (isAccepted : Bool) :
    footprints baseType i model isAccepted ds = footprints baseType i model isAccepted es := by
  induction h generalizing isAccepted with
  | nil => rfl
  | left h ih => exact ih isAccepted
  | right h ih => exact ih isAccepted
  | @scope s t ds es hid hmembers h ihmembers ih =>
      cases s
      cases t
      cases hid
      simp only [footprints, Declaration.footprint?, ihmembers, ih]
  | @type c d ds es hid hmembers h ihmembers ih =>
      cases c
      cases d
      cases hid
      simp only [footprints, Declaration.footprint?, ihmembers, ih]
  | @method m n ds es hid hcalls h ih =>
      simp only [footprints, Declaration.footprint?, hid, ih,
        footprint?_eq_of_sameCalls hid hcalls i model]

namespace Extractor

variable {x : Extractor} {baseType : String}

theorem mem_contribution_iff_footprint (hclassifier : x.classifier = .derivedFrom baseType)
    {unit : ConfigurationUnit} {k : CanonicalKey} : k ∈ x.contribution unit ↔
      ∃ fs, unit.footprint? baseType x.interpreter = some fs ∧
        k ∈ footprintKeys x.interpreter.entryPoint fs := by
  rw [contribution, ConfigurationUnit.footprint?]
  cases unit.parts? with
  | none => simp
  | some parts =>
      obtain ⟨tree, model⟩ := parts
      have hroot : tree.node.acceptedClasses model (.derivedFrom baseType) =
          SyntaxNode.acceptedAmong baseType model (tree.root.members.map .declaration) :=
        SyntaxNode.acceptedAmong_singleton baseType model (.unit tree.root)
      have hkeys := mem_keys_footprints baseType x.interpreter model false k tree.root.members
      simp only [Bool.false_eq_true, false_and, false_or] at hkeys
      simp only [Option.map_some, Option.some.injEq, exists_eq_left', hkeys, hclassifier, hroot,
        SortedSet.mem_ofList, List.mem_flatMap, RegistersAmong]
      constructor
      · rintro ⟨m, ⟨c, hc, hm⟩, hk⟩
        exact ⟨c, hc, m, hm, hk⟩
      · rintro ⟨c, hc, m, hm, hk⟩
        exact ⟨m, ⟨c, hc, hm⟩, hk⟩

theorem contribution_eq_of_footprint_eq (hclassifier : x.classifier = .derivedFrom baseType)
    {u v : ConfigurationUnit}
    (h : u.footprint? baseType x.interpreter = v.footprint? baseType x.interpreter) :
    x.contribution u = x.contribution v := by
  apply SortedSet.eq_of_mem_iff
  intro k
  rw [mem_contribution_iff_footprint hclassifier, mem_contribution_iff_footprint hclassifier, h]

/-- Units with one footprint contribute the same keys, whatever else is different in their trees and
models, unless they are cut off. Trees of one outline have one footprint under every model. -/
theorem contribution_depends_on_footprint (baseType : String) (i : Interpreter)
    (isParallel : Bool) :
    let x : Extractor := ⟨.derivedFrom baseType, i, isParallel⟩
    (∀ u v : ConfigurationUnit, u.footprint? baseType i = v.footprint? baseType i →
      ∃ w, ∀ unit, unit = u ∨ unit = v → (x.unitKeys unit).outcome .never = .ok w ∧
        ∀ token, (x.unitKeys unit).outcome token = .error .cancelled ∨
          (x.unitKeys unit).outcome token = .ok w) ∧
    ∀ (path path' : String) (t t' : SyntaxTree) (model : SemanticModel),
      SameOutline t.root.members t'.root.members →
        ConfigurationUnit.footprint? baseType i ⟨path, some t, some model⟩ =
          ConfigurationUnit.footprint? baseType i ⟨path', some t', some model⟩ := by
  intro x
  constructor
  · intro u v hfootprint
    have hsame : x.contribution u = x.contribution v :=
      contribution_eq_of_footprint_eq (x := x) rfl hfootprint
    refine ⟨x.contribution u, fun unit hunit => ?_⟩
    have hunit' : x.contribution unit = x.contribution u := by
      rcases hunit with rfl | rfl
      · rfl
      · exact hsame.symm
    have hgives := x.gives_unitKeys unit
    rw [hunit'] at hgives
    exact ⟨hgives.outcome_never, hgives.outcome_eq⟩
  · intro path path' t t' model houtline
    exact congrArg some (houtline.footprints_eq baseType i model false)

/-- A registration, and the same one spelled as an anonymous function with a name for its argument,
in a method beside a field and with a branch before it that calls the same. -/
theorem respelled_registration_contributes_same :
    let call : Invocation := ⟨3, .identifier 4 "MakeSafe",
      [⟨5, none, .lambda ⟨6, .simple, ["x"], .expression (.identifier 7 "Compute")⟩⟩]⟩
    let respelled : Invocation := ⟨3, .memberAccess 8 (.identifier 9 "this") "MakeSafe",
      [⟨10, some "target", .lambda ⟨11, .parenthesized, [], .expression (.literal 7 "")⟩⟩]⟩
    let t : SyntaxTree := ⟨"A.cs", 0, [.classType ⟨1, "A", ["Base"],
      [.method ⟨2, "M", [], some ⟨12, [.expression 13 (.invocation call)]⟩, none, .zero⟩], .zero⟩]⟩
    let t' : SyntaxTree := ⟨"B.cs", 9, [.classType ⟨1, "B", [],
      [.member ⟨14, "field", some (.invocation call), none⟩,
        .method ⟨2, "N", ["MakeSafe"], some ⟨15,
          [.branch 16 (.identifier 17 "debug") (.expression 18 (.invocation call)) none,
            .expression 19 (.invocation respelled)]⟩, none, .zero⟩], .zero⟩]⟩
    let model : SemanticModel := SymbolTable.model
      ⟨.ofList [(3, .method ⟨"Base", "MakeSafe", [], [], [], false, none, none, []⟩),
          (7, .method ⟨"Foo", "Compute", [], [], [], false, none, none, []⟩)],
        .ofList [(1, .type ⟨"A", ["Base"], []⟩)]⟩
    let i : Interpreter := ⟨"MakeSafe", fun _ => false⟩
    let x : Extractor := ⟨.derivedFrom "Base", i, true⟩
    SameOutline t.root.members t'.root.members ∧
      footprintKeys "MakeSafe" (footprints "Base" i model false t.root.members) =
        [⟨"Foo.Compute()"⟩] ∧
      (x.unitKeys ⟨"A.cs", some t, some model⟩).outcome .never =
        (x.unitKeys ⟨"B.cs", some t', some model⟩).outcome .never := by
  intro call respelled t t' model i x
  have houtline : SameOutline t.root.members t'.root.members :=
    .type rfl (.right (.method rfl (.right rfl (.call rfl rfl rfl .nil)) .nil)) .nil
  have hdepends := contribution_depends_on_footprint "Base" i true
  obtain ⟨w, hw⟩ := hdepends.1 ⟨"A.cs", some t, some model⟩ ⟨"B.cs", some t', some model⟩
    (hdepends.2 "A.cs" "B.cs" t t' model houtline)
  refine ⟨houtline, by decide, ?_⟩
  rw [(hw _ (.inl rfl)).1, (hw _ (.inr rfl)).1]

end Extractor

end SafeCalls
