namespace SafeCalls

/-!
# Source trees

The declarations, statements and expressions of one source document. Constructs that nothing here
asks about are kept as `other`, together with the statements and expressions that they contain.
Every node has an id, by which a semantic model knows it.
-/

abbrev NodeId := UInt32

/-- The first and the last position of a piece of source text. -/
structure Span where
  startLine : UInt32
  startColumn : UInt32
  endLine : UInt32
  endColumn : UInt32
  deriving DecidableEq

namespace Span

def zero : Span := ⟨0, 0, 0, 0⟩

def describe (s : Span) : String :=
  toString s.startLine ++ ":" ++ toString s.startColumn ++ "-" ++
    toString s.endLine ++ ":" ++ toString s.endColumn

end Span

inductive LoopKind where
  | whileLoop
  | doLoop
  | forLoop
  | foreachLoop
  deriving DecidableEq, Repr

/-- How an anonymous function is spelled. -/
inductive LambdaForm where
  /-- One bare parameter and an arrow. -/
  | simple
  /-- Parameters in parentheses and an arrow. -/
  | parenthesized
  /-- The keyword for anonymous functions and a block. -/
  | anonymousMethod
  deriving DecidableEq, Repr

mutual

inductive Expression where
  | invocation (call : Invocation)
  | lambda (function : Lambda)
  | memberAccess (id : NodeId) (target : Expression) (name : String)
  | elementAccess (id : NodeId) (target : Expression) (arguments : List Argument)
  | identifier (id : NodeId) (name : String)
  | parenthesized (id : NodeId) (inner : Expression)
  | objectCreation (id : NodeId) (typeName : String) (arguments : List Argument)
  | literal (id : NodeId) (text : String)
  | other (id : NodeId) (label : String) (children : List Expression)

structure Invocation where
  id : NodeId
  target : Expression
  arguments : List Argument

structure Lambda where
  id : NodeId
  form : LambdaForm
  parameters : List String
  body : LambdaBody

structure Argument where
  id : NodeId
  /-- The parameter that is named in front of the argument. -/
  name : Option String
  expression : Expression

inductive LambdaBody where
  | expression (body : Expression)
  | block (body : Block)

structure Block where
  id : NodeId
  statements : List Statement

inductive Statement where
  | expression (id : NodeId) (expression : Expression)
  | block (block : Block)
  | branch (id : NodeId) (condition : Expression) (whenTrue : Statement)
      (whenFalse : Option Statement)
  | loop (id : NodeId) (kind : LoopKind) (header : List Expression) (body : Statement)
  | localDeclaration (id : NodeId) (name : String) (initializer : Option Expression)
  | result (id : NodeId) (value : Option Expression)
  | other (id : NodeId) (label : String) (expressions : List Expression)
      (statements : List Statement)

end

structure MethodDeclaration where
  id : NodeId
  name : String
  /-- Attribute names as they are written; the resolved attributes belong to the symbol. -/
  attributeList : List String
  body : Option Block
  /-- The body of a method that is written as one expression after an arrow. -/
  expressionBody : Option Expression
  span : Span

/-- A field, a property, an event or a constructor. -/
structure MemberDeclaration where
  id : NodeId
  name : String
  initializer : Option Expression
  body : Option Block

mutual

inductive Declaration where
  | namespaceScope (scope : NamespaceDeclaration)
  | classType (type : ClassDeclaration)
  | method (method : MethodDeclaration)
  | member (member : MemberDeclaration)

structure NamespaceDeclaration where
  id : NodeId
  name : String
  members : List Declaration

structure ClassDeclaration where
  id : NodeId
  name : String
  /-- The base types as they are written. -/
  baseList : List String
  members : List Declaration
  span : Span

end

structure CompilationUnit where
  id : NodeId
  members : List Declaration

structure SyntaxTree where
  path : String
  root : CompilationUnit

namespace Expression

def id : Expression → NodeId
  | invocation call => call.id
  | lambda function => function.id
  | memberAccess id _ _ => id
  | elementAccess id _ _ => id
  | identifier id _ => id
  | parenthesized id _ => id
  | objectCreation id _ _ => id
  | literal id _ => id
  | other id _ _ => id

end Expression

namespace Lambda

/-- The body of a lambda that consists of an expression. -/
def bodyExpression? (f : Lambda) : Option Expression :=
  match f.body with
  | .expression body => some body
  | .block _ => none

end Lambda

namespace Statement

def id : Statement → NodeId
  | expression id _ => id
  | block b => b.id
  | branch id _ _ _ => id
  | loop id _ _ _ => id
  | localDeclaration id _ _ => id
  | result id _ => id
  | other id _ _ _ => id

/-- The invocation of a statement that consists of an invocation. -/
def invocation? : Statement → Option Invocation
  | expression _ (.invocation call) => some call
  | _ => none

end Statement

namespace Block

/-- The invocations that are whole statements of the block itself. -/
def invocations (b : Block) : List Invocation := b.statements.filterMap Statement.invocation?

end Block

namespace Declaration

def id : Declaration → NodeId
  | namespaceScope d => d.id
  | classType d => d.id
  | method d => d.id
  | member d => d.id

def method? : Declaration → Option MethodDeclaration
  | method d => some d
  | _ => none

end Declaration

namespace ClassDeclaration

/-- The methods of the class itself, without those of nested classes. -/
def methods (c : ClassDeclaration) : List MethodDeclaration :=
  c.members.filterMap Declaration.method?

end ClassDeclaration

end SafeCalls
