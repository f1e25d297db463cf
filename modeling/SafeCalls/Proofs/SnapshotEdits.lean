import Mathlib.Logic.Relation
import SafeCalls.Proofs.RecordParts
import SafeCalls.Snapshot.Basic

namespace SafeCalls

/-!
# Spellings of a snapshot

A front-end is free in how it spells an object of a snapshot that stands for a record or a tagged
union: in the order of the members, in leaving out what has its default, and in adding members that
nobody asks for. An edit is one such change of one object, at whatever depth.

The forms are the types of the parts of a snapshot, and for each of them the fields are listed with
their defaults and with the forms of their values. A field without a form has a plain value, which
is not edited.
-/

open Json (Error Manner Member ObjectEnd ListEnd Reading TaggedUnion)

/-- What is meant where a field is left out. -/
inductive Default where
  | null
  | emptyList
  | emptyMap
  | emptyText
  | no
  | byValue
  | zeroSpan
  deriving DecidableEq

inductive Form where
  | snapshot
  | syntaxTree
  | compilationUnit
  | declaration
  | statement
  | expression
  | argument
  | lambdaBody
  | block
  | span
  | symbolTable
  | symbolMap
  | symbol
  | methodSymbol
  | propertySymbol
  | parameter
  | attributeData
  | list (item : Form)
  deriving DecidableEq

structure Field where
  name : String
  default? : Option Default
  form? : Option Form
  deriving DecidableEq

/-- Whether a value, read in the given way, is one that may as well be left out. -/
def Default.IsSpelledBy (room : Nat) (manner : Manner) (value : Reading) : Default → Prop
  | null => value = .null
  | emptyList => value = .list [] .closed
  | emptyMap => value = .object [] .closed
  | emptyText => ∃ token : Json.Token String, value = .text token ∧ token.value = .ok ""
  | no => value = .bool false
  | byValue => RefKind.read room manner value = .ok .byValue
  | zeroSpan => Span.read room manner value = .ok .zero

namespace Field

def plain (name : String) : Field := ⟨name, none, none⟩

def plainOr (name : String) (default : Default) : Field := ⟨name, some default, none⟩

def part (name : String) (form : Form) : Field := ⟨name, none, some form⟩

def partOr (name : String) (default : Default) (form : Form) : Field :=
  ⟨name, some default, some form⟩

end Field

open SafeCalls.Field

def MethodSymbol.fields : List Field :=
  [plain "containing_type", plain "name", plainOr "type_parameters" .emptyList,
    partOr "parameters" .emptyList (.list .parameter), plainOr "type_arguments" .emptyList,
    plainOr "is_static" .no, partOr "original_definition" .null .methodSymbol,
    partOr "reduced_from" .null .methodSymbol, partOr "attributes" .emptyList (.list .attributeData)]

def PropertySymbol.fields : List Field :=
  [plain "containing_type", plain "name", partOr "parameters" .emptyList (.list .parameter),
    plainOr "is_indexer" .no, plainOr "is_static" .no,
    partOr "original_definition" .null .propertySymbol,
    partOr "attributes" .emptyList (.list .attributeData)]

def Block.fields : List Field :=
  [plain "id", partOr "statements" .emptyList (.list .statement)]

/-- The fields of a record. -/
def Form.fields? : Form → Option (List Field)
  | snapshot => some [plain "path", partOr "tree" .null .syntaxTree, partOr "model" .null .symbolTable]
  | syntaxTree => some [plain "path", part "root" .compilationUnit]
  | compilationUnit => some [plain "id", partOr "members" .emptyList (.list .declaration)]
  | argument => some [plain "id", plainOr "name" .null, part "expression" .expression]
  | block => some Block.fields
  | span => some [plain "start_line", plain "start_col", plain "end_line", plain "end_col"]
  | symbolTable =>
      some [partOr "bindings" .emptyMap .symbolMap, partOr "declarations" .emptyMap .symbolMap]
  | methodSymbol => some MethodSymbol.fields
  | propertySymbol => some PropertySymbol.fields
  | parameter => some [plain "name", plain "type_name", plainOr "ref_kind" .byValue]
  | attributeData => some [plain "attribute_class", plainOr "arguments" .emptyList]
  | declaration => none
  | statement => none
  | expression => none
  | lambdaBody => none
  | symbolMap => none
  | symbol => none
  | list _ => none

def DeclarationKind.fields : DeclarationKind → List Field
  | namespaceScope =>
      [plain "id", plain "name", partOr "members" .emptyList (.list .declaration)]
  | classType =>
      [plain "id", plain "name", plainOr "base_list" .emptyList,
        partOr "members" .emptyList (.list .declaration), partOr "span" .zeroSpan .span]
  | method =>
      [plain "id", plain "name", plainOr "attribute_list" .emptyList, partOr "body" .null .block,
        partOr "expression_body" .null .expression, partOr "span" .zeroSpan .span]
  | member =>
      [plain "id", plain "name", partOr "initializer" .null .expression,
        partOr "body" .null .block]

def StatementKind.fields : StatementKind → List Field
  | expression => [plain "id", part "expression" .expression]
  | block => Block.fields
  | branch =>
      [plain "id", part "condition" .expression, part "then_branch" .statement,
        partOr "else_branch" .null .statement]
  | loop =>
      [plain "id", plain "loop_kind", partOr "header" .emptyList (.list .expression),
        part "body" .statement]
  | localDeclaration => [plain "id", plain "name", partOr "initializer" .null .expression]
  | result => [plain "id", partOr "value" .null .expression]
  | other =>
      [plain "id", plainOr "label" .emptyText, partOr "expressions" .emptyList (.list .expression),
        partOr "statements" .emptyList (.list .statement)]

def ExpressionKind.fields : ExpressionKind → List Field
  | invocation =>
      [plain "id", part "target" .expression, partOr "arguments" .emptyList (.list .argument)]
  | lambda =>
      [plain "id", plain "form", plainOr "parameters" .emptyList, part "body" .lambdaBody]
  | memberAccess => [plain "id", part "target" .expression, plain "name"]
  | elementAccess =>
      [plain "id", part "target" .expression, partOr "arguments" .emptyList (.list .argument)]
  | identifier => [plain "id", plain "name"]
  | parenthesized => [plain "id", part "inner" .expression]
  | objectCreation =>
      [plain "id", plain "type_name", partOr "arguments" .emptyList (.list .argument)]
  | literal => [plain "id", plain "text"]
  | other =>
      [plain "id", plainOr "label" .emptyText, partOr "children" .emptyList (.list .expression)]

def SymbolKind.fields : SymbolKind → List Field
  | method => MethodSymbol.fields
  | property => PropertySymbol.fields
  | type =>
      [plain "full_name", plainOr "base_types" .emptyList,
        partOr "attributes" .emptyList (.list .attributeData)]
  | field => [plain "containing_type", plain "name", plainOr "type_name" .emptyText]
  | event => [plain "containing_type", plain "name", plainOr "type_name" .emptyText]
  | localVariable => [plain "name", plainOr "type_name" .null]
  | parameter => [plain "name", plainOr "type_name" .null]
  | namespaceName => [plain "name", plainOr "type_name" .null]

/-- The fields of the alternative of a tagged union that a tag names. -/
inductive Form.Alternative (manner : Manner) (tag : Reading) : Form → List Field → Prop
  | declaration (kind : DeclarationKind) (h : Declaration.union.kind manner tag = .ok kind) :
      Alternative manner tag .declaration kind.fields
  | statement (kind : StatementKind) (h : Statement.union.kind manner tag = .ok kind) :
      Alternative manner tag .statement kind.fields
  | expression (kind : ExpressionKind) (h : Expression.union.kind manner tag = .ok kind) :
      Alternative manner tag .expression kind.fields
  | symbol (kind : SymbolKind) (h : Symbol.union.kind manner tag = .ok kind) :
      Alternative manner tag .symbol kind.fields

/-- The fields of the record or the alternative that an object stands for, and how their values are
read. The kind of an alternative is a field like the others. -/
inductive Form.Describes (form : Form) (manner : Manner) (members : List Member) :
    Manner → List Field → Prop
  | record {fields : List Field} (h : form.fields? = some fields) :
      Describes form manner members manner fields
  | alternative {fields : List Field} {tag : Member} (hmem : tag ∈ members)
      (htag : tag.isNamed "kind") (h : form.Alternative manner tag.value fields) :
      Describes form manner members .loaded (plain "kind" :: fields)

/-- The same for a list that has the fields, or the kind and the fields, in their order. -/
inductive Form.DescribesItems (form : Form) (manner : Manner) (items : List Reading) :
    Manner → List Field → Prop
  | record {fields : List Field} (h : form.fields? = some fields) :
      DescribesItems form manner items manner fields
  | alternative {fields : List Field} {tag : Reading} (hhead : items.head? = some tag)
      (h : form.Alternative manner tag fields) :
      DescribesItems form manner items .loaded (plain "kind" :: fields)

/-- A value that a text spells on its own, and that can be read in full where so many lists and
objects may still be opened. -/
structure Json.Reading.IsReadable (room : Nat) (value : Reading) : Prop where
  spelled : ∃ text, Json.readText text = ⟨value, none⟩
  loadingFault? : value.loadingFault? room = none

/-- One object is spelled in another way, in a value of the given form that is read in the given
way. -/
inductive Edit : Form → Manner → Nat → Reading → Reading → Prop
  | reorder {form manner room inner fields ending} {members members' : List Member}
      (h : form.Describes manner members inner fields) (hperm : members.Perm members') :
      Edit form manner (room + 1) (.object members ending) (.object members' ending)
  | drop {form manner room inner fields ending} {before after : List Member} {member : Member}
      {field : Field} {default : Default}
      (h : form.Describes manner (before ++ member :: after) inner fields) (hfield : field ∈ fields)
      (hname : member.isNamed field.name) (hdefault : field.default? = some default)
      (hvalue : default.IsSpelledBy room inner member.value) :
      Edit form manner (room + 1) (.object (before ++ member :: after) ending)
        (.object (before ++ after) ending)
  | add {form manner room inner fields ending} {before after : List Member} {member : Member}
      {name : String} (h : form.Describes manner (before ++ after) inner fields)
      (hname : member.isNamed name) (hnew : ∀ field ∈ fields, field.name ≠ name)
      (hvalue : member.value.IsReadable room) :
      Edit form manner (room + 1) (.object (before ++ after) ending)
        (.object (before ++ member :: after) ending)
  | field {form manner room inner fields ending} {before after : List Member} {name : Json.Name}
      {value value' : Reading} {field : Field} {part : Form}
      (h : form.Describes manner (before ++ ⟨name, value⟩ :: after) inner fields)
      (hfield : field ∈ fields) (hname : Member.isNamed field.name ⟨name, value⟩)
      (hpart : field.form? = some part) (hedit : Edit part inner room value value') :
      Edit form manner (room + 1) (.object (before ++ ⟨name, value⟩ :: after) ending)
        (.object (before ++ ⟨name, value'⟩ :: after) ending)
  | item {form manner room inner fields ending} {before after : List Reading}
      {value value' : Reading} {field : Field} {part : Form}
      (h : form.DescribesItems manner (before ++ value :: after) inner fields)
      (hfield : fields[before.length]? = some field) (hpart : field.form? = some part)
      (hedit : Edit part inner room value value') :
      Edit form manner (room + 1) (.list (before ++ value :: after) ending)
        (.list (before ++ value' :: after) ending)
  | listItem {form manner room ending} {before after : List Reading} {value value' : Reading}
      (hedit : Edit form manner room value value') :
      Edit (.list form) manner (room + 1) (.list (before ++ value :: after) ending)
        (.list (before ++ value' :: after) ending)
  | lambdaExpression {manner room ending name} {value value' : Reading}
      (hname : Member.isNamed "expression" ⟨name, value⟩)
      (hedit : Edit .expression manner room value value') :
      Edit .lambdaBody manner (room + 1) (.object [⟨name, value⟩] ending)
        (.object [⟨name, value'⟩] ending)
  | lambdaBlock {manner room ending name} {value value' : Reading}
      (hname : Member.isNamed "block" ⟨name, value⟩)
      (hedit : Edit .block manner room value value') :
      Edit .lambdaBody manner (room + 1) (.object [⟨name, value⟩] ending)
        (.object [⟨name, value'⟩] ending)
  | mapValue {manner room ending name} {before after : List Member} {value value' : Reading}
      (hedit : Edit .symbol manner room value value') :
      Edit .symbolMap manner (room + 1) (.object (before ++ ⟨name, value⟩ :: after) ending)
        (.object (before ++ ⟨name, value'⟩ :: after) ending)

/-- The text spells what another text spells after any number of edits. -/
def UnitSnapshot.Respells (text text' : String) : Prop :=
  (Json.readText text').trailing = none ∧
    Relation.ReflTransGen (Edit .snapshot .direct Json.nestingLimit)
      (Json.readText text).content (Json.readText text').content

end SafeCalls
