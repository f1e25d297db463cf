import SafeCalls.Source.Tree

namespace SafeCalls

/-!
# Nodes of a source tree

One view of all kinds of nodes, with the children of a node in the order of the source, and the
walk over a node and everything below it. The walk keeps the nodes that are still to be visited on
a stack; a visitor may carry a state and may stop the walk.
-/

inductive SyntaxNode where
  | unit (unit : CompilationUnit)
  | declaration (declaration : Declaration)
  | block (block : Block)
  | statement (statement : Statement)
  | expression (expression : Expression)

namespace LambdaBody

def node : LambdaBody → SyntaxNode
  | expression body => .expression body
  | block body => .block body

end LambdaBody

namespace Argument

def node (a : Argument) : SyntaxNode := .expression a.expression

end Argument

namespace Expression

def children : Expression → List SyntaxNode
  | invocation call => .expression call.target :: call.arguments.map Argument.node
  | lambda function => [function.body.node]
  | memberAccess _ target _ => [.expression target]
  | elementAccess _ target arguments => .expression target :: arguments.map Argument.node
  | identifier _ _ => []
  | parenthesized _ inner => [.expression inner]
  | objectCreation _ _ arguments => arguments.map Argument.node
  | literal _ _ => []
  | other _ _ children => children.map .expression

end Expression

namespace Statement

def children : Statement → List SyntaxNode
  | expression _ e => [.expression e]
  | block b => b.statements.map .statement
  | branch _ condition whenTrue whenFalse =>
      .expression condition :: .statement whenTrue :: whenFalse.toList.map .statement
  | loop _ _ header body => header.map .expression ++ [.statement body]
  | localDeclaration _ _ initializer => initializer.toList.map .expression
  | result _ value => value.toList.map .expression
  | other _ _ expressions statements =>
      expressions.map .expression ++ statements.map .statement

end Statement

namespace Declaration

def children : Declaration → List SyntaxNode
  | namespaceScope scope => scope.members.map .declaration
  | classType type => type.members.map .declaration
  | method m => m.body.toList.map .block ++ m.expressionBody.toList.map .expression
  | member m => m.initializer.toList.map .expression ++ m.body.toList.map .block

end Declaration

mutual

/-- How many nodes there are in an expression, itself included. -/
def Expression.size : Expression → Nat
  | .invocation ⟨_, target, arguments⟩ => target.size + argumentsSize arguments + 1
  | .lambda ⟨_, _, _, body⟩ => body.size + 1
  | .memberAccess _ target _ => target.size + 1
  | .elementAccess _ target arguments => target.size + argumentsSize arguments + 1
  | .identifier _ _ => 1
  | .parenthesized _ inner => inner.size + 1
  | .objectCreation _ _ arguments => argumentsSize arguments + 1
  | .literal _ _ => 1
  | .other _ _ children => expressionsSize children + 1

def expressionsSize : List Expression → Nat
  | [] => 0
  | e :: more => e.size + expressionsSize more

def expressionSize? : Option Expression → Nat
  | none => 0
  | some e => e.size

def Argument.size : Argument → Nat
  | ⟨_, _, expression⟩ => expression.size

def argumentsSize : List Argument → Nat
  | [] => 0
  | a :: more => a.size + argumentsSize more

def LambdaBody.size : LambdaBody → Nat
  | .expression body => body.size
  | .block body => body.size

def Block.size : Block → Nat
  | ⟨_, statements⟩ => statementsSize statements + 1

def Statement.size : Statement → Nat
  | .expression _ expression => expression.size + 1
  | .block block => block.size
  | .branch _ condition whenTrue whenFalse =>
      condition.size + whenTrue.size + statementSize? whenFalse + 1
  | .loop _ _ header body => expressionsSize header + body.size + 1
  | .localDeclaration _ _ initializer => expressionSize? initializer + 1
  | .result _ value => expressionSize? value + 1
  | .other _ _ expressions statements =>
      expressionsSize expressions + statementsSize statements + 1

def statementsSize : List Statement → Nat
  | [] => 0
  | s :: more => s.size + statementsSize more

def statementSize? : Option Statement → Nat
  | none => 0
  | some s => s.size

end

def blockSize? : Option Block → Nat
  | none => 0
  | some b => b.size

mutual

/-- How many nodes there are in a declaration, itself included. -/
def Declaration.size : Declaration → Nat
  | .namespaceScope ⟨_, _, members⟩ => declarationsSize members + 1
  | .classType ⟨_, _, _, members, _⟩ => declarationsSize members + 1
  | .method ⟨_, _, _, body, expressionBody, _⟩ =>
      blockSize? body + expressionSize? expressionBody + 1
  | .member ⟨_, _, initializer, body⟩ => expressionSize? initializer + blockSize? body + 1

def declarationsSize : List Declaration → Nat
  | [] => 0
  | d :: more => d.size + declarationsSize more

end

namespace SyntaxNode

def id : SyntaxNode → NodeId
  | unit u => u.id
  | declaration d => d.id
  | block b => b.id
  | statement s => s.id
  | expression e => e.id

/-- The nodes directly below a node, in the order of the source. -/
def children : SyntaxNode → List SyntaxNode
  | unit u => u.members.map .declaration
  | declaration d => d.children
  | block b => b.statements.map .statement
  | statement s => s.children
  | expression e => e.children

def size : SyntaxNode → Nat
  | unit u => declarationsSize u.members + 1
  | declaration d => d.size
  | block b => b.size
  | statement s => s.size
  | expression e => e.size

/-- How many nodes there are below all nodes of a list. -/
def totalSize : List SyntaxNode → Nat
  | [] => 0
  | node :: more => node.size + totalSize more

@[simp] theorem totalSize_append (xs ys : List SyntaxNode) :
    totalSize (xs ++ ys) = totalSize xs + totalSize ys := by
  induction xs with
  | nil => simp [totalSize]
  | cons x xs ih => simp [totalSize, ih, Nat.add_assoc]

@[simp] theorem totalSize_expressions (es : List Expression) :
    totalSize (es.map .expression) = expressionsSize es := by
  induction es with
  | nil => rfl
  | cons e es ih => simp [totalSize, expressionsSize, ih, size]

@[simp] theorem totalSize_statements (ss : List Statement) :
    totalSize (ss.map .statement) = statementsSize ss := by
  induction ss with
  | nil => rfl
  | cons s ss ih => simp [totalSize, statementsSize, ih, size]

@[simp] theorem totalSize_declarations (ds : List Declaration) :
    totalSize (ds.map .declaration) = declarationsSize ds := by
  induction ds with
  | nil => rfl
  | cons d ds ih => simp [totalSize, declarationsSize, ih, size]

@[simp] theorem totalSize_arguments (as : List Argument) :
    totalSize (as.map Argument.node) = argumentsSize as := by
  induction as with
  | nil => rfl
  | cons a as ih =>
      cases a
      simp [totalSize, argumentsSize, Argument.node, Argument.size, ih, size]

@[simp] theorem expressionsSize_toList (e : Option Expression) :
    expressionsSize e.toList = expressionSize? e := by
  cases e <;> simp [expressionsSize, expressionSize?]

@[simp] theorem statementsSize_toList (s : Option Statement) :
    statementsSize s.toList = statementSize? s := by
  cases s <;> simp [statementsSize, statementSize?]

@[simp] theorem totalSize_block? (b : Option Block) :
    totalSize (b.toList.map .block) = blockSize? b := by
  cases b <;> simp [totalSize, blockSize?, size]

theorem size_expression (e : Expression) : e.size = totalSize e.children + 1 := by
  cases e with
  | invocation call =>
      cases call
      simp [Expression.size, Expression.children, totalSize, size]
  | lambda function =>
      obtain ⟨_, _, _, body⟩ := function
      cases body <;>
        simp [Expression.size, Expression.children, totalSize, LambdaBody.size, LambdaBody.node,
          size]
  | _ => simp [Expression.size, Expression.children, totalSize, size]

theorem size_block (b : Block) : b.size = statementsSize b.statements + 1 := by
  cases b
  simp [Block.size]

theorem size_statement (s : Statement) : s.size = totalSize s.children + 1 := by
  cases s with
  | block b => simp [Statement.size, Statement.children, size_block]
  | _ =>
      simp [Statement.size, Statement.children, totalSize, size]
      try omega

theorem size_declaration (d : Declaration) : d.size = totalSize d.children + 1 := by
  cases d with
  | namespaceScope scope =>
      cases scope
      simp [Declaration.size, Declaration.children]
  | classType type =>
      cases type
      simp [Declaration.size, Declaration.children]
  | method m =>
      cases m
      simp [Declaration.size, Declaration.children]
  | member m =>
      cases m
      simp [Declaration.size, Declaration.children]

/-- A node has one node more than its children together. -/
theorem size_eq (node : SyntaxNode) : node.size = totalSize node.children + 1 := by
  cases node with
  | unit u => simp [size, children]
  | declaration d => exact size_declaration d
  | block b => simp [size, children, size_block]
  | statement s => exact size_statement s
  | expression e => exact size_expression e

variable {σ ε : Type}

/-- Visits the nodes on the stack and everything below them, every node before its children and
the children in order, until the visitor fails. The state is that after the last visit. -/
def walkStack (visit : σ → SyntaxNode → σ × Except ε Unit) (state : σ) :
    List SyntaxNode → σ × Except ε Unit
  | [] => (state, .ok ())
  | node :: stack =>
      match visit state node with
      | (state, .error e) => (state, .error e)
      | (state, .ok ()) => walkStack visit state (node.children ++ stack)
termination_by stack => totalSize stack
decreasing_by
  rw [totalSize_append, totalSize, size_eq]
  omega

/-- Visits a node and everything below it. -/
def walk (root : SyntaxNode) (visit : σ → SyntaxNode → σ × Except ε Unit) (state : σ) :
    σ × Except ε Unit :=
  walkStack visit state [root]

/-- All nodes from a node on, every node before its children. -/
def preorder (root : SyntaxNode) : List SyntaxNode :=
  (root.walk (fun seen node => (node :: seen, (.ok () : Except Unit Unit))) []).1.reverse

end SyntaxNode

namespace SyntaxTree

def node (t : SyntaxTree) : SyntaxNode := .unit t.root

end SyntaxTree

end SafeCalls
