import Mathlib.Logic.Relation
import SafeCalls.Source.Node

namespace SafeCalls

/-!
# The order of a walk

The walk with a stack visits the nodes of the pre-order list one after another, and the list
holds exactly what is written somewhere below the root. What a node directly holds is told
construct by construct, without the list of its children.
-/

namespace SyntaxNode

/-- What is written directly inside a node: one rule for each place of each construct. -/
inductive Holds : SyntaxNode → SyntaxNode → Prop
  | unitMember {u : CompilationUnit} {d : Declaration} (h : d ∈ u.members) :
      Holds (.unit u) (.declaration d)
  | scopeMember {scope : NamespaceDeclaration} {d : Declaration} (h : d ∈ scope.members) :
      Holds (.declaration (.namespaceScope scope)) (.declaration d)
  | typeMember {type : ClassDeclaration} {d : Declaration} (h : d ∈ type.members) :
      Holds (.declaration (.classType type)) (.declaration d)
  | methodBody {m : MethodDeclaration} {b : Block} (h : m.body = some b) :
      Holds (.declaration (.method m)) (.block b)
  | methodExpression {m : MethodDeclaration} {e : Expression} (h : m.expressionBody = some e) :
      Holds (.declaration (.method m)) (.expression e)
  | memberInitializer {m : MemberDeclaration} {e : Expression} (h : m.initializer = some e) :
      Holds (.declaration (.member m)) (.expression e)
  | memberBody {m : MemberDeclaration} {b : Block} (h : m.body = some b) :
      Holds (.declaration (.member m)) (.block b)
  | blockStatement {b : Block} {s : Statement} (h : s ∈ b.statements) :
      Holds (.block b) (.statement s)
  | wholeExpression {id : NodeId} {e : Expression} :
      Holds (.statement (.expression id e)) (.expression e)
  | innerStatement {b : Block} {s : Statement} (h : s ∈ b.statements) :
      Holds (.statement (.block b)) (.statement s)
  | condition {id : NodeId} {c : Expression} {t : Statement} {f : Option Statement} :
      Holds (.statement (.branch id c t f)) (.expression c)
  | whenTrue {id : NodeId} {c : Expression} {t : Statement} {f : Option Statement} :
      Holds (.statement (.branch id c t f)) (.statement t)
  | whenFalse {id : NodeId} {c : Expression} {t f : Statement} :
      Holds (.statement (.branch id c t (some f))) (.statement f)
  | loopHeader {id : NodeId} {kind : LoopKind} {header : List Expression} {body : Statement}
      {e : Expression} (h : e ∈ header) :
      Holds (.statement (.loop id kind header body)) (.expression e)
  | loopBody {id : NodeId} {kind : LoopKind} {header : List Expression} {body : Statement} :
      Holds (.statement (.loop id kind header body)) (.statement body)
  | initializer {id : NodeId} {name : String} {e : Expression} :
      Holds (.statement (.localDeclaration id name (some e))) (.expression e)
  | resultValue {id : NodeId} {e : Expression} :
      Holds (.statement (.result id (some e))) (.expression e)
  | otherExpression {id : NodeId} {label : String} {es : List Expression} {ss : List Statement}
      {e : Expression} (h : e ∈ es) : Holds (.statement (.other id label es ss)) (.expression e)
  | otherStatement {id : NodeId} {label : String} {es : List Expression} {ss : List Statement}
      {s : Statement} (h : s ∈ ss) : Holds (.statement (.other id label es ss)) (.statement s)
  | callTarget {call : Invocation} :
      Holds (.expression (.invocation call)) (.expression call.target)
  | callArgument {call : Invocation} {a : Argument} (h : a ∈ call.arguments) :
      Holds (.expression (.invocation call)) (.expression a.expression)
  | lambdaExpression {f : Lambda} {e : Expression} (h : f.body = .expression e) :
      Holds (.expression (.lambda f)) (.expression e)
  | lambdaBlock {f : Lambda} {b : Block} (h : f.body = .block b) :
      Holds (.expression (.lambda f)) (.block b)
  | memberTarget {id : NodeId} {target : Expression} {name : String} :
      Holds (.expression (.memberAccess id target name)) (.expression target)
  | elementTarget {id : NodeId} {target : Expression} {as : List Argument} :
      Holds (.expression (.elementAccess id target as)) (.expression target)
  | elementArgument {id : NodeId} {target : Expression} {as : List Argument} {a : Argument}
      (h : a ∈ as) : Holds (.expression (.elementAccess id target as)) (.expression a.expression)
  | inner {id : NodeId} {e : Expression} :
      Holds (.expression (.parenthesized id e)) (.expression e)
  | creationArgument {id : NodeId} {typeName : String} {as : List Argument} {a : Argument}
      (h : a ∈ as) : Holds (.expression (.objectCreation id typeName as)) (.expression a.expression)
  | otherChild {id : NodeId} {label : String} {es : List Expression} {e : Expression}
      (h : e ∈ es) : Holds (.expression (.other id label es)) (.expression e)

theorem Holds.mem_children {node child : SyntaxNode} (h : node.Holds child) :
    child ∈ node.children := by
  cases h with
  | unitMember h | scopeMember h | typeMember h => exact List.mem_map_of_mem h
  | blockStatement h | innerStatement h => exact List.mem_map_of_mem h
  | methodBody h | methodExpression h | memberInitializer h | memberBody h =>
      simp [children, Declaration.children, h]
  | loopHeader h | otherExpression h =>
      exact List.mem_append_left _ (List.mem_map_of_mem h)
  | otherStatement h => exact List.mem_append_right _ (List.mem_map_of_mem h)
  | callArgument h | elementArgument h =>
      exact List.mem_cons_of_mem _ (List.mem_map_of_mem (f := Argument.node) h)
  | creationArgument h => exact List.mem_map_of_mem (f := Argument.node) h
  | otherChild h => exact List.mem_map_of_mem h
  | lambdaExpression h | lambdaBlock h =>
      simp [children, Expression.children, LambdaBody.node, h]
  | _ => simp [children, Statement.children, Expression.children]

theorem holds_of_mem_declaration {d : Declaration} {child : SyntaxNode}
    (h : child ∈ d.children) : Holds (.declaration d) child := by
  cases d with
  | namespaceScope scope =>
      obtain ⟨d, hd, rfl⟩ := List.mem_map.1 h
      exact .scopeMember hd
  | classType type =>
      obtain ⟨d, hd, rfl⟩ := List.mem_map.1 h
      exact .typeMember hd
  | method m =>
      rcases List.mem_append.1 h with h | h
      · obtain ⟨b, hb, rfl⟩ := List.mem_map.1 h
        exact .methodBody (Option.mem_toList.1 hb)
      · obtain ⟨e, he, rfl⟩ := List.mem_map.1 h
        exact .methodExpression (Option.mem_toList.1 he)
  | member m =>
      rcases List.mem_append.1 h with h | h
      · obtain ⟨e, he, rfl⟩ := List.mem_map.1 h
        exact .memberInitializer (Option.mem_toList.1 he)
      · obtain ⟨b, hb, rfl⟩ := List.mem_map.1 h
        exact .memberBody (Option.mem_toList.1 hb)

theorem holds_of_mem_statement {s : Statement} {child : SyntaxNode}
    (h : child ∈ s.children) : Holds (.statement s) child := by
  cases s with
  | expression id e =>
      obtain rfl := List.mem_singleton.1 h
      exact .wholeExpression
  | block b =>
      obtain ⟨s, hs, rfl⟩ := List.mem_map.1 h
      exact .innerStatement hs
  | branch id c t f =>
      rcases List.mem_cons.1 h with rfl | h
      · exact .condition
      rcases List.mem_cons.1 h with rfl | h
      · exact .whenTrue
      · obtain ⟨s, hs, rfl⟩ := List.mem_map.1 h
        obtain rfl := Option.mem_toList.1 hs
        exact .whenFalse
  | loop id kind header body =>
      rcases List.mem_append.1 h with h | h
      · obtain ⟨e, he, rfl⟩ := List.mem_map.1 h
        exact .loopHeader he
      · obtain rfl := List.mem_singleton.1 h
        exact .loopBody
  | localDeclaration id name value =>
      obtain ⟨e, he, rfl⟩ := List.mem_map.1 h
      obtain rfl := Option.mem_toList.1 he
      exact .initializer
  | result id value =>
      obtain ⟨e, he, rfl⟩ := List.mem_map.1 h
      obtain rfl := Option.mem_toList.1 he
      exact .resultValue
  | other id label es ss =>
      rcases List.mem_append.1 h with h | h
      · obtain ⟨e, he, rfl⟩ := List.mem_map.1 h
        exact .otherExpression he
      · obtain ⟨s, hs, rfl⟩ := List.mem_map.1 h
        exact .otherStatement hs

theorem holds_of_mem_expression {e : Expression} {child : SyntaxNode}
    (h : child ∈ e.children) : Holds (.expression e) child := by
  cases e with
  | invocation call =>
      rcases List.mem_cons.1 h with rfl | h
      · exact .callTarget
      · obtain ⟨a, ha, rfl⟩ := List.mem_map.1 h
        exact .callArgument ha
  | lambda f =>
      obtain rfl := List.mem_singleton.1 h
      cases hbody : f.body with
      | expression e => exact .lambdaExpression hbody
      | block b => exact .lambdaBlock hbody
  | memberAccess id target name =>
      obtain rfl := List.mem_singleton.1 h
      exact .memberTarget
  | elementAccess id target as =>
      rcases List.mem_cons.1 h with rfl | h
      · exact .elementTarget
      · obtain ⟨a, ha, rfl⟩ := List.mem_map.1 h
        exact .elementArgument ha
  | identifier id name => exact absurd h List.not_mem_nil
  | parenthesized id inner =>
      obtain rfl := List.mem_singleton.1 h
      exact .inner
  | objectCreation id typeName as =>
      obtain ⟨a, ha, rfl⟩ := List.mem_map.1 h
      exact .creationArgument ha
  | literal id text => exact absurd h List.not_mem_nil
  | other id label es =>
      obtain ⟨e, he, rfl⟩ := List.mem_map.1 h
      exact .otherChild he

theorem mem_children_iff {node child : SyntaxNode} :
    child ∈ node.children ↔ node.Holds child := by
  refine ⟨fun h => ?_, Holds.mem_children⟩
  cases node with
  | unit u =>
      obtain ⟨d, hd, rfl⟩ := List.mem_map.1 h
      exact .unitMember hd
  | declaration d => exact holds_of_mem_declaration h
  | block b =>
      obtain ⟨s, hs, rfl⟩ := List.mem_map.1 h
      exact .blockStatement hs
  | statement s => exact holds_of_mem_statement h
  | expression e => exact holds_of_mem_expression h

/-- What is written somewhere below a node, and the node itself. -/
def Reaches : SyntaxNode → SyntaxNode → Prop := Relation.ReflTransGen Holds

theorem reaches_iff {root node : SyntaxNode} :
    root.Reaches node ↔ node = root ∨ ∃ child ∈ root.children, child.Reaches node := by
  rw [Reaches, Relation.ReflTransGen.cases_head_iff]
  simp only [mem_children_iff, eq_comm]

/-! The stack shrinks in size with every visit, which gives induction on what is left to do. -/

theorem stack_induction {motive : List SyntaxNode → Prop} (nil : motive [])
    (cons : ∀ node stack, motive (node.children ++ stack) → motive (node :: stack))
    (stack : List SyntaxNode) : motive stack := by
  cases stack with
  | nil => exact nil
  | cons node stack => exact cons node stack (stack_induction nil cons (node.children ++ stack))
termination_by totalSize stack
decreasing_by
  rw [totalSize_append, totalSize, size_eq]
  omega

variable {σ ε : Type}

theorem walkStack_nil (visit : σ → SyntaxNode → σ × Except ε Unit) (state : σ) :
    walkStack visit state [] = (state, .ok ()) := by
  rw [walkStack]

theorem walkStack_cons (visit : σ → SyntaxNode → σ × Except ε Unit) (state : σ)
    (node : SyntaxNode) (stack : List SyntaxNode) :
    walkStack visit state (node :: stack) =
      match visit state node with
      | (state, .error e) => (state, .error e)
      | (state, .ok ()) => walkStack visit state (node.children ++ stack) := by
  rcases h : visit state node with ⟨state', _ | _⟩ <;> simp only [walkStack, h]

/-- Visits the nodes of a list and nothing below them, until the visitor fails. -/
def visitAll (visit : σ → SyntaxNode → σ × Except ε Unit) (state : σ) :
    List SyntaxNode → σ × Except ε Unit
  | [] => (state, .ok ())
  | node :: more =>
      match visit state node with
      | (state, .error e) => (state, .error e)
      | (state, .ok ()) => visitAll visit state more

/-- A visitor that only takes notes of the nodes it is shown. -/
def record (seen : List SyntaxNode) (node : SyntaxNode) : List SyntaxNode × Except Unit Unit :=
  (node :: seen, .ok ())

/-- The nodes on a stack and everything below them, in the order in which they are visited. -/
def listed (stack : List SyntaxNode) : List SyntaxNode := (walkStack record [] stack).1.reverse

theorem walkStack_record (seen stack : List SyntaxNode) :
    walkStack record seen stack = ((listed stack).reverse ++ seen, .ok ()) := by
  induction stack using stack_induction generalizing seen with
  | nil => simp [listed, walkStack_nil]
  | cons node stack ih =>
      have hseen := ih (node :: seen)
      have hnil := ih [node]
      rw [walkStack_cons, listed, walkStack_cons]
      simp [record, hseen, hnil]

@[simp] theorem listed_nil : listed [] = [] := by
  simp [listed, walkStack_nil]

theorem listed_cons (node : SyntaxNode) (stack : List SyntaxNode) :
    listed (node :: stack) = node :: listed (node.children ++ stack) := by
  rw [listed, walkStack_cons]
  simp [record, walkStack_record]

@[simp] theorem listed_append (xs ys : List SyntaxNode) :
    listed (xs ++ ys) = listed xs ++ listed ys := by
  induction xs using stack_induction with
  | nil => simp
  | cons node stack ih =>
      rw [List.append_assoc] at ih
      rw [List.cons_append, listed_cons, ih, listed_cons, List.cons_append]

theorem preorder_eq_listed (root : SyntaxNode) : root.preorder = listed [root] := rfl

theorem listed_eq_flatMap (stack : List SyntaxNode) : listed stack = stack.flatMap preorder := by
  induction stack with
  | nil => simp
  | cons node stack ih =>
      rw [← List.singleton_append, listed_append, ih, List.flatMap_append]
      simp [preorder_eq_listed]

theorem preorder_eq (root : SyntaxNode) :
    root.preorder = root :: root.children.flatMap preorder := by
  rw [preorder_eq_listed, listed_cons, List.append_nil, listed_eq_flatMap]

/-- Whatever the visitor does, the walk shows it the nodes of the list one after another. -/
theorem walkStack_eq_visitAll (visit : σ → SyntaxNode → σ × Except ε Unit) (state : σ)
    (stack : List SyntaxNode) :
    walkStack visit state stack = visitAll visit state (listed stack) := by
  induction stack using stack_induction generalizing state with
  | nil => rw [walkStack_nil, listed_nil, visitAll]
  | cons node stack ih =>
      rw [walkStack_cons, listed_cons, visitAll]
      rcases visit state node with ⟨next, _ | _⟩
      · rfl
      · exact ih next

theorem walk_eq_visitAll (root : SyntaxNode) (visit : σ → SyntaxNode → σ × Except ε Unit)
    (state : σ) : root.walk visit state = visitAll visit state root.preorder :=
  walkStack_eq_visitAll visit state [root]

theorem mem_listed {node : SyntaxNode} (stack : List SyntaxNode) :
    node ∈ listed stack ↔ ∃ root ∈ stack, root.Reaches node := by
  induction stack using stack_induction with
  | nil => simp
  | cons root stack ih =>
      -- The children of the root take its place on the stack.
      rw [listed_cons, List.mem_cons, ih]
      simp only [List.mem_append, List.mem_cons, or_and_right, exists_or, exists_eq_left,
        @reaches_iff root, or_assoc]

/-- The walk visits exactly what is written somewhere below its root. -/
theorem mem_preorder {root node : SyntaxNode} : node ∈ root.preorder ↔ root.Reaches node := by
  rw [preorder_eq_listed, mem_listed]
  simp

end SyntaxNode

end SafeCalls
