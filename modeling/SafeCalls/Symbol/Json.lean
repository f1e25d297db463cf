import SafeCalls.Json.Choice
import SafeCalls.Symbol.Basic

namespace SafeCalls

/-!
# Symbols in JSON

A symbol is a tagged union; the methods and properties that it links to are plain records. What is
written has every field. When a symbol is read, all lists are optional, and so are the flags, the
links and the way a parameter is passed.
-/

open Json (Manner Error TaggedUnion)

namespace RefKind

def names : Names RefKind :=
  [("none", byValue), ("ref", byRef), ("out", byOut), ("in", byIn)]

def toJson : RefKind → Json
  | byValue => .text "none"
  | byRef => .text "ref"
  | byOut => .text "out"
  | byIn => .text "in"

def read (room : Nat) (manner : Manner) (reading : Json.Reading) : Except Error RefKind :=
  reading.named names room manner

end RefKind

namespace SymbolKind

def names : Names SymbolKind :=
  [("method", method), ("property", property), ("type", type), ("field", field), ("event", event),
    ("local", localVariable), ("parameter", parameter), ("namespace", namespaceName)]

def toJson (kind : SymbolKind) : Json := .text kind.name

def read (room : Nat) (manner : Manner) (reading : Json.Reading) : Except Error SymbolKind :=
  reading.named names room manner

end SymbolKind

namespace Parameter

def layout : Layout := ⟨"ParameterSymbol", ["name", "type_name", "ref_kind"], false⟩

def toJson (p : Parameter) : Json :=
  .object [("name", .text p.name), ("type_name", .text p.typeName), ("ref_kind", p.refKind.toJson)]

def read (room : Nat) (manner : Manner) (reading : Json.Reading) : Except Error Parameter :=
  match room with
  | 0 => .error (layout.overflow reading)
  | room + 1 => do
      let slots ← layout.slots manner reading
      slots.fill Parameter.mk
        |>.part (slots.required "name" Json.Reading.string)
        |>.part (slots.required "type_name" Json.Reading.string)
        |>.part (slots.defaulted "ref_kind" .byValue (RefKind.read room manner))
        |>.result

end Parameter

namespace Attribute

def layout : Layout := ⟨"AttributeData", ["attribute_class", "arguments"], false⟩

def toJson (a : Attribute) : Json :=
  .object [("attribute_class", .text a.className), ("arguments", Json.texts a.arguments)]

def read (room : Nat) (manner : Manner) (reading : Json.Reading) : Except Error Attribute :=
  match room with
  | 0 => .error (layout.overflow reading)
  | room + 1 => do
      let slots ← layout.slots manner reading
      slots.fill Attribute.mk
        |>.part (slots.required "attribute_class" Json.Reading.string)
        |>.part (slots.defaulted "arguments" [] (Json.Reading.strings room))
        |>.result

end Attribute

namespace MethodSymbol

def layout : Layout :=
  ⟨"MethodSymbol", ["containing_type", "name", "type_parameters", "parameters", "type_arguments",
    "is_static", "original_definition", "reduced_from", "attributes"], false⟩

mutual

def members : MethodSymbol → List (String × Json)
  | ⟨containingType, name, typeParameters, parameters, typeArguments, isStatic, generic, reduced,
      attributes⟩ =>
      [("containing_type", .text containingType), ("name", .text name),
        ("type_parameters", Json.texts typeParameters),
        ("parameters", .list (parameters.map Parameter.toJson)),
        ("type_arguments", Json.texts typeArguments), ("is_static", .bool isStatic),
        ("original_definition", linkToJson generic), ("reduced_from", linkToJson reduced),
        ("attributes", .list (attributes.map Attribute.toJson))]

def linkToJson : Option MethodSymbol → Json
  | none => .null
  | some symbol => .object (members symbol)

end

def toJson (m : MethodSymbol) : Json := .object m.members

def read (room : Nat) (manner : Manner) (reading : Json.Reading) : Except Error MethodSymbol :=
  match room with
  | 0 => .error (layout.overflow reading)
  | room + 1 => do
      let slots ← layout.slots manner reading
      slots.fill MethodSymbol.mk
        |>.part (slots.required "containing_type" Json.Reading.string)
        |>.part (slots.required "name" Json.Reading.string)
        |>.part (slots.defaulted "type_parameters" [] (Json.Reading.strings room))
        |>.part (slots.defaulted "parameters" []
          (Json.Reading.listOf (fun room => Parameter.read room manner) room))
        |>.part (slots.defaulted "type_arguments" [] (Json.Reading.strings room))
        |>.part (slots.defaulted "is_static" false Json.Reading.boolean)
        |>.part (slots.optional "original_definition" (read room manner))
        |>.part (slots.optional "reduced_from" (read room manner))
        |>.part (slots.defaulted "attributes" []
          (Json.Reading.listOf (fun room => Attribute.read room manner) room))
        |>.result

end MethodSymbol

namespace PropertySymbol

def layout : Layout :=
  ⟨"PropertySymbol", ["containing_type", "name", "parameters", "is_indexer", "is_static",
    "original_definition", "attributes"], false⟩

mutual

def members : PropertySymbol → List (String × Json)
  | ⟨containingType, name, parameters, isIndexer, isStatic, generic, attributes⟩ =>
      [("containing_type", .text containingType), ("name", .text name),
        ("parameters", .list (parameters.map Parameter.toJson)), ("is_indexer", .bool isIndexer),
        ("is_static", .bool isStatic), ("original_definition", linkToJson generic),
        ("attributes", .list (attributes.map Attribute.toJson))]

def linkToJson : Option PropertySymbol → Json
  | none => .null
  | some symbol => .object (members symbol)

end

def toJson (p : PropertySymbol) : Json := .object p.members

def read (room : Nat) (manner : Manner) (reading : Json.Reading) : Except Error PropertySymbol :=
  match room with
  | 0 => .error (layout.overflow reading)
  | room + 1 => do
      let slots ← layout.slots manner reading
      slots.fill PropertySymbol.mk
        |>.part (slots.required "containing_type" Json.Reading.string)
        |>.part (slots.required "name" Json.Reading.string)
        |>.part (slots.defaulted "parameters" []
          (Json.Reading.listOf (fun room => Parameter.read room manner) room))
        |>.part (slots.defaulted "is_indexer" false Json.Reading.boolean)
        |>.part (slots.defaulted "is_static" false Json.Reading.boolean)
        |>.part (slots.optional "original_definition" (read room manner))
        |>.part (slots.defaulted "attributes" []
          (Json.Reading.listOf (fun room => Attribute.read room manner) room))
        |>.result

end PropertySymbol

namespace TypeSymbol

def layout : Layout := ⟨"TypeSymbol", ["full_name", "base_types", "attributes"], false⟩

def members (t : TypeSymbol) : List (String × Json) :=
  [("full_name", .text t.fullName), ("base_types", Json.texts t.baseTypes),
    ("attributes", .list (t.attributes.map Attribute.toJson))]

def read (room : Nat) (manner : Manner) (reading : Json.Reading) : Except Error TypeSymbol :=
  match room with
  | 0 => .error (layout.overflow reading)
  | room + 1 => do
      let slots ← layout.slots manner reading
      slots.fill TypeSymbol.mk
        |>.part (slots.required "full_name" Json.Reading.string)
        |>.part (slots.defaulted "base_types" [] (Json.Reading.strings room))
        |>.part (slots.defaulted "attributes" []
          (Json.Reading.listOf (fun room => Attribute.read room manner) room))
        |>.result

end TypeSymbol

namespace MemberSymbol

def layout : Layout := ⟨"MemberSymbol", ["containing_type", "name", "type_name"], false⟩

def members (m : MemberSymbol) : List (String × Json) :=
  [("containing_type", .text m.containingType), ("name", .text m.name),
    ("type_name", .text m.typeName)]

def read (room : Nat) (manner : Manner) (reading : Json.Reading) : Except Error MemberSymbol :=
  match room with
  | 0 => .error (layout.overflow reading)
  | _ + 1 => do
      let slots ← layout.slots manner reading
      slots.fill MemberSymbol.mk
        |>.part (slots.required "containing_type" Json.Reading.string)
        |>.part (slots.required "name" Json.Reading.string)
        |>.part (slots.defaulted "type_name" "" Json.Reading.string)
        |>.result

end MemberSymbol

namespace ValueSymbol

def layout : Layout := ⟨"ValueSymbol", ["name", "type_name"], false⟩

def members (v : ValueSymbol) : List (String × Json) :=
  [("name", .text v.name), ("type_name", Json.optional .text v.typeName)]

def read (room : Nat) (manner : Manner) (reading : Json.Reading) : Except Error ValueSymbol :=
  match room with
  | 0 => .error (layout.overflow reading)
  | _ + 1 => do
      let slots ← layout.slots manner reading
      slots.fill ValueSymbol.mk
        |>.part (slots.required "name" Json.Reading.string)
        |>.part (slots.optional "type_name" Json.Reading.string)
        |>.result

end ValueSymbol

namespace Symbol

def union : TaggedUnion SymbolKind := ⟨"Symbol", SymbolKind.names⟩

def members : Symbol → List (String × Json)
  | method s => s.members
  | property s => s.members
  | type s => s.members
  | field s => s.members
  | event s => s.members
  | localVariable s => s.members
  | parameter s => s.members
  | namespaceName s => s.members

def toJson (symbol : Symbol) : Json :=
  .object (("kind", symbol.kind.toJson) :: symbol.members)

/-- The symbol of the given kind with the given fields. -/
def readAs (room : Nat) (fields : Json.Reading) : SymbolKind → Except Error Symbol
  | .method => (MethodSymbol.read room .loaded fields).map method
  | .property => (PropertySymbol.read room .loaded fields).map property
  | .type => (TypeSymbol.read room .loaded fields).map type
  | .field => (MemberSymbol.read room .loaded fields).map field
  | .event => (MemberSymbol.read room .loaded fields).map event
  | .localVariable => (ValueSymbol.read room .loaded fields).map localVariable
  | .parameter => (ValueSymbol.read room .loaded fields).map parameter
  | .namespaceName => (ValueSymbol.read room .loaded fields).map namespaceName

def read (room : Nat) (manner : Manner) (reading : Json.Reading) : Except Error Symbol :=
  match room with
  | 0 => .error (union.overflow reading)
  | inside + 1 => do
      let (kind, fields) ← union.split manner inside reading
      readAs room fields kind

end Symbol

end SafeCalls
