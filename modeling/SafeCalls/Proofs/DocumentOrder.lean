import SafeCalls.Proofs.RecordParts
import SafeCalls.Proofs.RecursiveWalk
import SafeCalls.Proofs.SourceForm

namespace SafeCalls

/-!
# The walk in document order

Whoever reads the text of a tree from its start to its end meets the ids of its nodes in the order
of the walk. The fields of a construct are written in the order in which its children are visited,
so each object with an id stands in the text where its node stands in the walk. Arguments have ids
as well, but they are no nodes: only the expression of an argument is visited.
-/

namespace Json

/-- The number of a member that is an id. -/
def Member.id? (member : Member) : Option Nat :=
  match member.isNamed "id", member.value with
  | true, .number ⟨.ok (.natural n), _⟩ => some n
  | _, _ => none

namespace Reading

mutual

/-- The ids in a text, in its order, each with the object that it is the id of. An object that is
an argument is not counted, but everything inside is. -/
def identified (isArgument : Bool) : Reading → List (Nat × Reading)
  | .list items _ => identifiedItems isArgument items
  | .object members ending =>
      identifiedMembers (if isArgument then none else some (.object members ending)) members
  | _ => []

def identifiedItems (isArgument : Bool) : List Reading → List (Nat × Reading)
  | [] => []
  | item :: more => identified isArgument item ++ identifiedItems isArgument more

def identifiedMembers (owner : Option Reading) : List Member → List (Nat × Reading)
  | [] => []
  | ⟨name, value⟩ :: more =>
      (do some (← (Member.mk name value).id?, ← owner)).toList ++
        (identified ((Member.mk name value).isNamed "arguments") value ++
          identifiedMembers owner more)

end

/-- The ids in a text, in its order, except those of arguments. -/
def ids (reading : Reading) : List Nat := (reading.identified false).map Prod.fst

end Reading

open Reading

variable {owner : Option Reading} {isArgument : Bool} {more : List (String × Json)}

theorem isNamed_ofString (name : String) (value : Reading) (s : String) :
    (Member.mk (Name.ofString name) value).isNamed s = (name == s) := rfl

@[simp] theorem identifiedMembers_nil : identifiedMembers owner (readingMembers []) = [] := by
  rw [readingMembers, identifiedMembers]

theorem identifiedMembers_id (id : NodeId) :
    identifiedMembers owner (readingMembers (("id", Json.ofId id) :: more)) =
      owner.toList.map (id.toNat, ·) ++ identifiedMembers owner (readingMembers more) := by
  rw [readingMembers, identifiedMembers]
  cases owner <;> rfl

theorem identifiedMembers_cons {name : String} (h : name ≠ "id") (value : Json) :
    identifiedMembers owner (readingMembers ((name, value) :: more)) =
      identified (name == "arguments") value.reading ++
        identifiedMembers owner (readingMembers more) := by
  have hid : (Member.mk (Name.ofString name) value.reading).id? = none := by
    rw [Member.id?, isNamed_ofString, beq_false_of_ne h]
  rw [readingMembers, identifiedMembers, hid]
  rfl

@[simp] theorem identified_null : identified isArgument Json.null.reading = [] := by
  simp [reading, identified]

@[simp] theorem identified_text (s : String) :
    identified isArgument (Json.text s).reading = [] := by
  simp [reading, identified]

@[simp] theorem identified_number (n : Nat) :
    identified isArgument (Json.number n).reading = [] := by
  simp [reading, identified]

@[simp] theorem identified_nil : identified isArgument (Json.list []).reading = [] := by
  simp [reading, readingItems, identified, identifiedItems]

@[simp] theorem identified_cons (item : Json) (items : List Json) :
    identified isArgument (Json.list (item :: items)).reading =
      identified isArgument item.reading ++ identified isArgument (Json.list items).reading := by
  simp [reading, readingItems, identified, identifiedItems]

theorem identified_object (members : List (String × Json)) :
    identified false (Json.object members).reading =
      identifiedMembers (some (Json.object members).reading) (readingMembers members) := by
  rw [reading, identified]
  rfl

theorem identified_argument (members : List (String × Json)) :
    identified true (Json.object members).reading =
      identifiedMembers none (readingMembers members) := by
  rw [reading, identified]
  rfl

@[simp] theorem identified_texts (values : List String) :
    identified isArgument (Json.texts values).reading = [] := by
  rw [texts]
  induction values with
  | nil => exact identified_nil
  | cons value more ih => rw [List.map_cons, identified_cons, identified_text, ih, List.nil_append]

end Json

open Json (identified_object identified_argument identified_cons identified_text
  identifiedMembers_id identifiedMembers_cons)
open Json.Reading (identified identifiedMembers)

namespace SyntaxNode

/-- The object that stands for a node in the text of a tree. -/
def toJson : SyntaxNode → Json
  | unit u => u.toJson
  | declaration d => d.toJson
  | block b => b.toJson
  | statement s => s.toJson
  | expression e => e.toJson

/-- The id of a node with the object that stands for the node. -/
def entry (node : SyntaxNode) : Nat × Json.Reading := (node.id.toNat, node.toJson.reading)

/-- The entries of a node and of everything below it, in the order of the walk. -/
def entries (node : SyntaxNode) : List (Nat × Json.Reading) := node.preorder.map entry

theorem entries_eq (node : SyntaxNode) :
    node.entries = node.entry :: node.children.flatMap entries := by
  rw [entries, preorder_eq, List.map_cons, List.map_flatMap]
  rfl

section Fields

variable (node : SyntaxNode) {fields : List (String × Json)}

/-- What is written after the id of a node has to give the entries of its children. -/
theorem identifiedMembers_eq_entries
    (hfields : ∀ owner,
      identifiedMembers owner (Json.readingMembers fields) = node.children.flatMap entries) :
    identifiedMembers (some node.toJson.reading)
      (Json.readingMembers (("id", Json.ofId node.id) :: fields)) = node.entries := by
  rw [identifiedMembers_id, hfields, entries_eq]
  rfl

theorem identified_of_untagged
    (h : node.toJson = .object (("id", Json.ofId node.id) :: fields))
    (hfields : ∀ owner,
      identifiedMembers owner (Json.readingMembers fields) = node.children.flatMap entries) :
    identified false node.toJson.reading = node.entries := by
  rw [← identifiedMembers_eq_entries node hfields, h, identified_object]

theorem identified_of_tagged {kind : String}
    (h : node.toJson = .object (("kind", .text kind) :: ("id", Json.ofId node.id) :: fields))
    (hfields : ∀ owner,
      identifiedMembers owner (Json.readingMembers fields) = node.children.flatMap entries) :
    identified false node.toJson.reading = node.entries := by
  have hkind : "kind" ≠ "id" := by decide
  rw [← identifiedMembers_eq_entries node hfields, h, identified_object,
    identifiedMembers_cons hkind, identified_text, List.nil_append]

end Fields

end SyntaxNode

open SyntaxNode (entries identified_of_tagged identified_of_untagged)

mutual

/-- The objects with an id inside an expression stand for the nodes of its walk. -/
theorem Expression.identified_toJson : ∀ e : Expression,
    identified false e.toJson.reading = entries (.expression e)
  | .invocation ⟨id, target, arguments⟩ => by
      refine identified_of_tagged (.expression (.invocation ⟨id, target, arguments⟩)) rfl
        fun owner => ?_
      simp [identifiedMembers_cons, target.identified_toJson,
        identified_argumentsToJson arguments, SyntaxNode.children, Expression.children]
  -- Forms, names and texts are written without ids.
  | .lambda ⟨id, form, parameters, body⟩ => by
      have hform : identified false form.toJson.reading = [] := by
        cases form <;> exact identified_text _
      refine identified_of_tagged (.expression (.lambda ⟨id, form, parameters, body⟩)) rfl
        fun owner => ?_
      simp [identifiedMembers_cons, hform, body.identified_toJson, SyntaxNode.children,
        Expression.children]
  | .memberAccess id target name => by
      refine identified_of_tagged (.expression (.memberAccess id target name)) rfl fun owner => ?_
      simp [identifiedMembers_cons, target.identified_toJson, SyntaxNode.children,
        Expression.children]
  | .elementAccess id target arguments => by
      refine identified_of_tagged (.expression (.elementAccess id target arguments)) rfl
        fun owner => ?_
      simp [identifiedMembers_cons, target.identified_toJson,
        identified_argumentsToJson arguments, SyntaxNode.children, Expression.children]
  | .identifier id name => by
      refine identified_of_tagged (.expression (.identifier id name)) rfl fun owner => ?_
      simp [identifiedMembers_cons, SyntaxNode.children, Expression.children]
  | .parenthesized id inner => by
      refine identified_of_tagged (.expression (.parenthesized id inner)) rfl fun owner => ?_
      simp [identifiedMembers_cons, inner.identified_toJson, SyntaxNode.children,
        Expression.children]
  | .objectCreation id typeName arguments => by
      refine identified_of_tagged (.expression (.objectCreation id typeName arguments)) rfl
        fun owner => ?_
      simp [identifiedMembers_cons, identified_argumentsToJson arguments, SyntaxNode.children,
        Expression.children]
  | .literal id text => by
      refine identified_of_tagged (.expression (.literal id text)) rfl fun owner => ?_
      simp [identifiedMembers_cons, SyntaxNode.children, Expression.children]
  | .other id label es => by
      refine identified_of_tagged (.expression (.other id label es)) rfl fun owner => ?_
      simp [identifiedMembers_cons, identified_expressionsToJson es, SyntaxNode.children,
        Expression.children]

theorem identified_expressionsToJson : ∀ es : List Expression,
    identified false (Json.list (expressionsToJson es)).reading =
      (es.map SyntaxNode.expression).flatMap entries
  | [] => by simp [expressionsToJson]
  | e :: more => by
      rw [expressionsToJson, identified_cons, e.identified_toJson,
        identified_expressionsToJson more, List.map_cons, List.flatMap_cons]

theorem identified_expressionToJson? : ∀ e : Option Expression,
    identified false (expressionToJson? e).reading =
      (e.toList.map SyntaxNode.expression).flatMap entries
  | none => by simp [expressionToJson?]
  | some e => by simp [expressionToJson?, e.identified_toJson]

/-- An argument is no node, but its expression is one. -/
theorem Argument.identified_toJson : ∀ a : Argument,
    identified true a.toJson.reading = entries a.node
  | ⟨id, name, expression⟩ => by
      have hname : identified false (Json.optional Json.text name).reading = [] := by
        cases name <;> simp [Json.optional]
      rw [Argument.toJson, identified_argument, identifiedMembers_id]
      simp [identifiedMembers_cons, hname, expression.identified_toJson, Argument.node]

theorem identified_argumentsToJson : ∀ as : List Argument,
    identified true (Json.list (argumentsToJson as)).reading =
      (as.map Argument.node).flatMap entries
  | [] => by simp [argumentsToJson]
  | a :: more => by
      rw [argumentsToJson, identified_cons, a.identified_toJson, identified_argumentsToJson more,
        List.map_cons, List.flatMap_cons]

theorem LambdaBody.identified_toJson : ∀ b : LambdaBody,
    identified false b.toJson.reading = entries b.node
  | .expression body => by
      rw [LambdaBody.toJson, identified_object]
      simp [identifiedMembers_cons, body.identified_toJson, LambdaBody.node]
  | .block body => by
      rw [LambdaBody.toJson, identified_object]
      simp [identifiedMembers_cons, body.identified_members, LambdaBody.node]

theorem Block.identified_members : ∀ b : Block,
    identified false (Json.object b.members).reading = entries (.block b)
  | ⟨id, statements⟩ => by
      refine identified_of_untagged (.block ⟨id, statements⟩) rfl fun owner => ?_
      simp [identifiedMembers_cons, identified_statementsToJson statements, SyntaxNode.children]

theorem Statement.identified_toJson : ∀ s : Statement,
    identified false s.toJson.reading = entries (.statement s)
  | .expression id e => by
      refine identified_of_tagged (.statement (.expression id e)) rfl fun owner => ?_
      simp [identifiedMembers_cons, e.identified_toJson, SyntaxNode.children, Statement.children]
  | .block ⟨id, statements⟩ => by
      refine identified_of_tagged (.statement (.block ⟨id, statements⟩)) rfl fun owner => ?_
      simp [identifiedMembers_cons, identified_statementsToJson statements, SyntaxNode.children,
        Statement.children]
  | .branch id condition whenTrue whenFalse => by
      refine identified_of_tagged (.statement (.branch id condition whenTrue whenFalse)) rfl
        fun owner => ?_
      simp [identifiedMembers_cons, condition.identified_toJson, whenTrue.identified_toJson,
        identified_statementToJson? whenFalse, SyntaxNode.children, Statement.children]
  | .loop id kind header body => by
      have hkind : identified false kind.toJson.reading = [] := by
        cases kind <;> exact identified_text _
      refine identified_of_tagged (.statement (.loop id kind header body)) rfl fun owner => ?_
      simp [identifiedMembers_cons, hkind, identified_expressionsToJson header,
        body.identified_toJson, SyntaxNode.children, Statement.children]
  | .localDeclaration id name initializer => by
      refine identified_of_tagged (.statement (.localDeclaration id name initializer)) rfl
        fun owner => ?_
      simp [identifiedMembers_cons, identified_expressionToJson? initializer, SyntaxNode.children,
        Statement.children]
  | .result id value => by
      refine identified_of_tagged (.statement (.result id value)) rfl fun owner => ?_
      simp [identifiedMembers_cons, identified_expressionToJson? value, SyntaxNode.children,
        Statement.children]
  | .other id label expressions statements => by
      refine identified_of_tagged (.statement (.other id label expressions statements)) rfl
        fun owner => ?_
      simp [identifiedMembers_cons, identified_expressionsToJson expressions,
        identified_statementsToJson statements, SyntaxNode.children, Statement.children]

theorem identified_statementsToJson : ∀ ss : List Statement,
    identified false (Json.list (statementsToJson ss)).reading =
      (ss.map SyntaxNode.statement).flatMap entries
  | [] => by simp [statementsToJson]
  | s :: more => by
      rw [statementsToJson, identified_cons, s.identified_toJson,
        identified_statementsToJson more, List.map_cons, List.flatMap_cons]

theorem identified_statementToJson? : ∀ s : Option Statement,
    identified false (statementToJson? s).reading =
      (s.toList.map SyntaxNode.statement).flatMap entries
  | none => by simp [statementToJson?]
  | some s => by simp [statementToJson?, s.identified_toJson]

end

theorem identified_blockToJson? (b : Option Block) :
    identified false (Json.optional Block.toJson b).reading =
      (b.toList.map SyntaxNode.block).flatMap entries := by
  cases b with
  | none => simp [Json.optional]
  | some b => simp [Json.optional, Block.toJson, b.identified_members]

theorem Span.identified_toJson (s : Span) : identified false s.toJson.reading = [] := by
  rw [Span.toJson, identified_object]
  simp [identifiedMembers_cons]

mutual

theorem Declaration.identified_toJson : ∀ d : Declaration,
    identified false d.toJson.reading = entries (.declaration d)
  | .namespaceScope ⟨id, name, members⟩ => by
      refine identified_of_tagged (.declaration (.namespaceScope ⟨id, name, members⟩)) rfl
        fun owner => ?_
      simp [identifiedMembers_cons, identified_declarationsToJson members, SyntaxNode.children,
        Declaration.children]
  | .classType ⟨id, name, baseList, members, span⟩ => by
      refine identified_of_tagged (.declaration (.classType ⟨id, name, baseList, members, span⟩))
        rfl fun owner => ?_
      simp [identifiedMembers_cons, identified_declarationsToJson members, span.identified_toJson,
        SyntaxNode.children, Declaration.children]
  | .method ⟨id, name, attributeList, body, expressionBody, span⟩ => by
      refine identified_of_tagged
        (.declaration (.method ⟨id, name, attributeList, body, expressionBody, span⟩)) rfl
        fun owner => ?_
      simp [identifiedMembers_cons, identified_blockToJson? body,
        identified_expressionToJson? expressionBody, span.identified_toJson, SyntaxNode.children,
        Declaration.children]
  | .member ⟨id, name, initializer, body⟩ => by
      refine identified_of_tagged (.declaration (.member ⟨id, name, initializer, body⟩)) rfl
        fun owner => ?_
      simp [identifiedMembers_cons, identified_expressionToJson? initializer,
        identified_blockToJson? body, SyntaxNode.children, Declaration.children]

theorem identified_declarationsToJson : ∀ ds : List Declaration,
    identified false (Json.list (declarationsToJson ds)).reading =
      (ds.map SyntaxNode.declaration).flatMap entries
  | [] => by simp [declarationsToJson]
  | d :: more => by
      rw [declarationsToJson, identified_cons, d.identified_toJson,
        identified_declarationsToJson more, List.map_cons, List.flatMap_cons]

end

theorem CompilationUnit.identified_toJson (u : CompilationUnit) :
    identified false u.toJson.reading = entries (.unit u) := by
  refine identified_of_untagged (.unit u) rfl fun owner => ?_
  simp [identifiedMembers_cons, identified_declarationsToJson u.members, SyntaxNode.children]

theorem SyntaxTree.identified_toJson (t : SyntaxTree) :
    identified false t.toJson.reading = t.node.entries := by
  rw [SyntaxTree.toJson, identified_object]
  simp [identifiedMembers_cons, t.root.identified_toJson, node]

namespace SyntaxNode

variable {σ ε : Type} {visit : σ → SyntaxNode → σ × Except ε Unit} {state : σ}

theorem mem_flatMap_preorder_children {node inner : SyntaxNode} :
    inner ∈ node.children.flatMap preorder ↔ Relation.TransGen Holds node inner := by
  simp only [Relation.TransGen.head'_iff, List.mem_flatMap, mem_children_iff, mem_preorder, Reaches]

/-- Whatever a node contains comes directly after the node. -/
theorem exists_eq_append_of_listed_eq {stack before after : List SyntaxNode} {node : SyntaxNode}
    (h : listed stack = before ++ node :: after) :
    ∃ rest, after = node.children.flatMap preorder ++ rest := by
  induction stack using stack_induction generalizing before with
  | nil =>
      rw [listed_nil] at h
      exact absurd h (by simp)
  | cons root stack ih =>
      rw [listed_cons] at h
      cases before with
      | nil =>
          obtain ⟨rfl, hafter⟩ := List.cons.inj h
          rw [listed_append, listed_eq_flatMap root.children] at hafter
          exact ⟨listed stack, hafter.symm⟩
      | cons first before => exact ih (List.cons.inj h).2

theorem length_listed (stack : List SyntaxNode) : (listed stack).length = totalSize stack := by
  induction stack using stack_induction with
  | nil => rw [listed_nil, totalSize, List.length_nil]
  | cons node stack ih =>
      rw [listed_cons, List.length_cons, ih, totalSize_append, totalSize, size_eq]
      omega

theorem Calls.eq_all {nodes called : List SyntaxNode} {result : Except ε Unit}
    (h : Calls visit state nodes called result)
    (hvisit : ∀ state node, (visit state node).2 = .ok ()) : called = nodes ∧ result = .ok () := by
  cases h with
  | all hpasses => exact ⟨rfl, rfl⟩
  | upTo hsplit hpasses hfails =>
      rw [hvisit] at hfails
      cases hfails

theorem walk_recording (hvisit : ∀ state node, (visit state node).2 = .ok ())
    (root : SyntaxNode) : root.walk (recording visit) (state, []) =
      ((stateAfter visit state root.preorder, root.preorder), .ok ()) := by
  obtain ⟨called, hcalls, -, hrecord⟩ := exists_calls_visitAll visit state root.preorder
  obtain ⟨rfl, hresult⟩ := hcalls.eq_all hvisit
  rw [walk_eq_visitAll, hrecord, hresult, List.nil_append]

/-- As long as the visitor never fails, it is shown the nodes in the order in which the text of the
tree has their ids, and each object with an id is shown once: the list of the nodes is as long as
there are nodes, holds what is written somewhere in the tree and nothing else, and has every node
directly in front of all that the node contains. -/
theorem walk_in_document_order (t : SyntaxTree) (visit : σ → SyntaxNode → σ × Except ε Unit)
    (hvisit : ∀ state node, (visit state node).2 = .ok ()) (state : σ) :
    ∃ visited text,
      t.node.walk (recording visit) (state, []) =
        ((stateAfter visit state visited, visited), .ok ()) ∧
      Json.readText t.toJson.pretty = ⟨text, none⟩ ∧
      visited.map (fun node => node.id.toNat) = text.ids ∧
      visited.map entry = text.identified false ∧
      (∀ node, node ∈ visited ↔ t.node.Reaches node) ∧
      visited.length = t.node.size ∧
      ∀ before node after, visited = before ++ node :: after →
        ∃ inside rest, after = inside ++ rest ∧
          ∀ inner, inner ∈ inside ↔ Relation.TransGen Holds node inner := by
  have hentries := t.identified_toJson
  refine ⟨t.node.preorder, t.toJson.reading, walk_recording hvisit t.node,
    Json.readText_pretty t.inRange_toJson, ?_, hentries.symm, fun node => mem_preorder, ?_, ?_⟩
  · rw [Json.Reading.ids, hentries, entries, List.map_map]
    rfl
  · rw [preorder_eq_listed, length_listed, totalSize, totalSize, Nat.add_zero]
  · intro before node after hsplit
    rw [preorder_eq_listed] at hsplit
    obtain ⟨rest, hafter⟩ := exists_eq_append_of_listed_eq hsplit
    exact ⟨_, rest, hafter, fun inner => mem_flatMap_preorder_children⟩

/-- A call in the body of a method, with a lambda and a literal for its arguments 8 and 12. -/
theorem walk_in_document_order_of_call :
    let call : Expression := .invocation ⟨6, .identifier 7 "Sum",
      [⟨8, none, .lambda ⟨9, .simple, ["x"], .block ⟨10, [.block ⟨11, []⟩]⟩⟩⟩,
        ⟨12, some "seed", .literal 13 "0"⟩]⟩
    let t : SyntaxTree := ⟨"Sum.cs", ⟨1, [.classType ⟨2, "C", [],
      [.method ⟨3, "M", [], some ⟨4, [.expression 5 call]⟩, none, .zero⟩,
        .member ⟨14, "P", some (.identifier 15 "x"), none⟩], .zero⟩]⟩⟩
    let count (calls : Nat) (_ : SyntaxNode) : Nat × Except Unit Unit := (calls + 1, .ok ())
    (∀ calls node, (count calls node).2 = .ok ()) ∧
      ∃ visited,
        t.node.walk (recording count) (0, []) = ((stateAfter count 0 visited, visited), .ok ()) ∧
        visited.map (fun node => node.id.toNat) = [1, 2, 3, 4, 5, 6, 7, 9, 10, 11, 13, 14, 15] := by
  intro call t count
  have hcount : ∀ calls node, (count calls node).2 = .ok () := fun calls node => rfl
  obtain ⟨visited, text, hwalk, htext, hids, -⟩ := walk_in_document_order t count hcount 0
  have hread := Json.readText_pretty t.inRange_toJson
  have hlist : t.toJson.reading.ids = [1, 2, 3, 4, 5, 6, 7, 9, 10, 11, 13, 14, 15] := by decide
  obtain rfl : t.toJson.reading = text := (Json.Document.mk.inj (hread.symm.trans htext)).1
  rw [hlist] at hids
  exact ⟨hcount, visited, hwalk, hids⟩

end SyntaxNode

end SafeCalls
