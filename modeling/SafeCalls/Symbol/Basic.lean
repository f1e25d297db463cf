namespace SafeCalls

/-!
# Resolved symbols

What a semantic model binds syntax to. A method or property as seen at a use site points back at
its declaration: a constructed generic through `genericDefinition`, a reduced extension call
through `reducedFrom`. Following these links ends at the declaration.
-/

/-- How a parameter is passed. -/
inductive RefKind where
  | byValue
  | byRef
  | byOut
  | byIn
  deriving DecidableEq, Repr

namespace RefKind

/-- The keyword, with the blank after it, that stands before the type in a signature. -/
def keyword : RefKind → String
  | byValue => ""
  | byRef => "ref "
  | byOut => "out "
  | byIn => "in "

end RefKind

inductive SymbolKind where
  | method
  | property
  | type
  | field
  | event
  | localVariable
  | parameter
  | namespaceName
  deriving DecidableEq, Repr

namespace SymbolKind

def name : SymbolKind → String
  | method => "method"
  | property => "property"
  | type => "type"
  | field => "field"
  | event => "event"
  | localVariable => "local"
  | parameter => "parameter"
  | namespaceName => "namespace"

end SymbolKind

structure Parameter where
  name : String
  /-- The type as it is declared, with its namespace. -/
  typeName : String
  refKind : RefKind
  deriving DecidableEq

structure Attribute where
  /-- The attribute class, with its namespace if it was resolved. -/
  className : String
  arguments : List String
  deriving DecidableEq

structure MethodSymbol where
  containingType : String
  name : String
  typeParameters : List String
  parameters : List Parameter
  /-- The type arguments at the use site. -/
  typeArguments : List String
  isStatic : Bool
  genericDefinition : Option MethodSymbol
  reducedFrom : Option MethodSymbol
  attributes : List Attribute

structure PropertySymbol where
  containingType : String
  name : String
  /-- The parameters of an indexer. -/
  parameters : List Parameter
  isIndexer : Bool
  isStatic : Bool
  genericDefinition : Option PropertySymbol
  attributes : List Attribute

structure TypeSymbol where
  fullName : String
  /-- The chain of base types, the nearest first. -/
  baseTypes : List String
  attributes : List Attribute
  deriving DecidableEq

/-- A field or an event. -/
structure MemberSymbol where
  containingType : String
  name : String
  typeName : String
  deriving DecidableEq

/-- A local variable, a parameter or a namespace. -/
structure ValueSymbol where
  name : String
  typeName : Option String
  deriving DecidableEq

inductive Symbol where
  | method (symbol : MethodSymbol)
  | property (symbol : PropertySymbol)
  | type (symbol : TypeSymbol)
  | field (symbol : MemberSymbol)
  | event (symbol : MemberSymbol)
  | localVariable (symbol : ValueSymbol)
  | parameter (symbol : ValueSymbol)
  | namespaceName (symbol : ValueSymbol)

/-- How many angle brackets are open after a character, if `depth` are open before it. A closing
bracket without an opening one closes nothing. -/
def angleDepth (depth : Nat) (c : Char) : Nat :=
  if c = '<' then depth + 1 else if c = '>' then depth - 1 else depth

/-- What follows the last dot outside angle brackets, if there is such a dot. -/
def afterLastDot? : Nat → List Char → Option (List Char)
  | _, [] => none
  | depth, c :: rest =>
      match afterLastDot? (angleDepth depth c) rest with
      | some name => some name
      | none => if depth = 0 ∧ c = '.' then some rest else none

/-- The last segment of a qualified name; dots inside type arguments separate nothing. -/
def simpleName (qualified : String) : String :=
  String.ofList ((afterLastDot? 0 qualified.toList).getD qualified.toList)

namespace Attribute

def simpleName (a : Attribute) : String := SafeCalls.simpleName a.className

end Attribute

namespace MethodSymbol

/-- The declaration that a use resolves to. A reduced call is first undone. -/
def definition : MethodSymbol → MethodSymbol
  | ⟨_, _, _, _, _, _, _, some unreduced, _⟩ => unreduced.definition
  | ⟨_, _, _, _, _, _, some generic, none, _⟩ => generic.definition
  | declared@⟨_, _, _, _, _, _, none, none, _⟩ => declared
termination_by structural symbol => symbol

end MethodSymbol

namespace PropertySymbol

/-- The declaration that a use resolves to. -/
def definition : PropertySymbol → PropertySymbol
  | ⟨_, _, _, _, _, some generic, _⟩ => generic.definition
  | declared@⟨_, _, _, _, _, none, _⟩ => declared
termination_by structural symbol => symbol

end PropertySymbol

namespace TypeSymbol

def simpleName (t : TypeSymbol) : String := SafeCalls.simpleName t.fullName

def derivesFrom (t : TypeSymbol) (base : String) : Bool := t.baseTypes.contains base

end TypeSymbol

namespace Symbol

def kind : Symbol → SymbolKind
  | method _ => .method
  | property _ => .property
  | type _ => .type
  | field _ => .field
  | event _ => .event
  | localVariable _ => .localVariable
  | parameter _ => .parameter
  | namespaceName _ => .namespaceName

/-- The name without the type or namespace that contains it. -/
def name : Symbol → String
  | method s => s.name
  | property s => s.name
  | type s => s.simpleName
  | field s => s.name
  | event s => s.name
  | localVariable s => s.name
  | parameter s => s.name
  | namespaceName s => s.name

/-- The attributes on the declaration; only methods, properties and types have any. -/
def attributes : Symbol → List Attribute
  | method s => s.attributes
  | property s => s.attributes
  | type s => s.attributes
  | _ => []

end Symbol

end SafeCalls
