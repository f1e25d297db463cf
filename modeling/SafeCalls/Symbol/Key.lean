import SafeCalls.Sorted.Order
import SafeCalls.Symbol.Basic

namespace SafeCalls

/-!
# Canonical keys

A method or property is identified by its declaration and never by a use of it: by the type that
contains it, by its name and, for a method, by its type parameters and the types of its
parameters. An indexer has no name of its own and is identified by its parameters. The canonical
key spells this identity in one line of text.
-/

/-- What a parameter contributes to the identity of a method or indexer. -/
structure ParameterType where
  refKind : RefKind
  typeName : String
  deriving DecidableEq

inductive MemberIdentity where
  | method (name : String) (typeParameters : List String) (parameters : List ParameterType)
  | property (name : String)
  | indexer (parameters : List ParameterType)
  deriving DecidableEq

structure SymbolIdentity where
  containingType : String
  member : MemberIdentity
  deriving DecidableEq

/-- The spelling of the identity of a method or property. -/
structure CanonicalKey where
  text : String
  deriving DecidableEq

instance : KeyOrder CanonicalKey where
  lt a b := a.text < b.text
  decidableLT a b := inferInstanceAs (Decidable (a.text < b.text))
  irrefl a := KeyOrder.irrefl a.text
  trans h h' := KeyOrder.trans (κ := String) h h'
  connex {a b} h h' := by
    cases a
    cases b
    exact congrArg CanonicalKey.mk (KeyOrder.connex h h')

namespace Parameter

def type (p : Parameter) : ParameterType := ⟨p.refKind, p.typeName⟩

end Parameter

namespace ParameterType

def spelled (p : ParameterType) : String := p.refKind.keyword ++ p.typeName

end ParameterType

/-- Parts one after another, separated by a comma and a blank. -/
def commaSeparated (parts : List String) : String := ", ".intercalate parts

namespace MemberIdentity

def spelled : MemberIdentity → String
  | method name typeParameters parameters =>
      name ++
        (if typeParameters.isEmpty then "" else "<" ++ commaSeparated typeParameters ++ ">") ++
        "(" ++ commaSeparated (parameters.map ParameterType.spelled) ++ ")"
  | property name => name
  | indexer parameters => "this[" ++ commaSeparated (parameters.map ParameterType.spelled) ++ "]"

end MemberIdentity

namespace SymbolIdentity

def canonicalKey (i : SymbolIdentity) : CanonicalKey :=
  ⟨i.containingType ++ "." ++ i.member.spelled⟩

end SymbolIdentity

namespace MethodSymbol

def identity (m : MethodSymbol) : SymbolIdentity :=
  let d := m.definition
  ⟨d.containingType, .method d.name d.typeParameters (d.parameters.map Parameter.type)⟩

end MethodSymbol

namespace PropertySymbol

def identity (p : PropertySymbol) : SymbolIdentity :=
  let d := p.definition
  ⟨d.containingType,
    if d.isIndexer then .indexer (d.parameters.map Parameter.type) else .property d.name⟩

end PropertySymbol

namespace Symbol

/-- Only methods and properties have an identity. -/
def identity? : Symbol → Option SymbolIdentity
  | method m => some m.identity
  | property p => some p.identity
  | _ => none

def canonicalKey? (symbol : Symbol) : Option CanonicalKey :=
  symbol.identity?.map SymbolIdentity.canonicalKey

end Symbol

end SafeCalls
