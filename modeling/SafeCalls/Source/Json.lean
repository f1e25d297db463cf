import SafeCalls.Json.Choice
import SafeCalls.Source.Tree

namespace SafeCalls

/-!
# Source trees in JSON

Declarations, statements and expressions are tagged unions, and the body of a lambda is a plain
choice. What is written has every field. When a tree is read, lists, labels, spans and everything
that is optional in the source may be left out.
-/

open Json (Manner Error TaggedUnion Reading)

namespace Span

def layout : Layout := ⟨"Span", ["start_line", "start_col", "end_line", "end_col"], false⟩

def toJson (s : Span) : Json :=
  .object [("start_line", .number s.startLine.toNat), ("start_col", .number s.startColumn.toNat),
    ("end_line", .number s.endLine.toNat), ("end_col", .number s.endColumn.toNat)]

def read (room : Nat) (manner : Manner) (reading : Reading) : Except Error Span :=
  match room with
  | 0 => .error (layout.overflow reading)
  | _ + 1 => do
      let slots ← layout.slots manner reading
      slots.fill Span.mk
        |>.part (slots.required "start_line" Reading.word)
        |>.part (slots.required "start_col" Reading.word)
        |>.part (slots.required "end_line" Reading.word)
        |>.part (slots.required "end_col" Reading.word)
        |>.result

end Span

namespace LoopKind

def names : Names LoopKind :=
  [("while", whileLoop), ("do", doLoop), ("for", forLoop), ("foreach", foreachLoop)]

def toJson : LoopKind → Json
  | whileLoop => .text "while"
  | doLoop => .text "do"
  | forLoop => .text "for"
  | foreachLoop => .text "foreach"

def read (room : Nat) (manner : Manner) (reading : Reading) : Except Error LoopKind :=
  reading.named names room manner

end LoopKind

namespace LambdaForm

def names : Names LambdaForm :=
  [("simple", simple), ("parenthesized", parenthesized), ("anonymous_method", anonymousMethod)]

def toJson : LambdaForm → Json
  | simple => .text "simple"
  | parenthesized => .text "parenthesized"
  | anonymousMethod => .text "anonymous_method"

def read (room : Nat) (manner : Manner) (reading : Reading) : Except Error LambdaForm :=
  reading.named names room manner

end LambdaForm

inductive ExpressionKind where
  | invocation
  | lambda
  | memberAccess
  | elementAccess
  | identifier
  | parenthesized
  | objectCreation
  | literal
  | other
  deriving DecidableEq, Repr

namespace ExpressionKind

def names : Names ExpressionKind :=
  [("invocation", invocation), ("lambda", lambda), ("member_access", memberAccess),
    ("element_access", elementAccess), ("identifier", identifier),
    ("parenthesized", parenthesized), ("object_creation", objectCreation), ("literal", literal),
    ("other", other)]

def layout : ExpressionKind → Layout
  | invocation => ⟨"InvocationExpr", ["id", "target", "arguments"], false⟩
  | lambda => ⟨"LambdaExpr", ["id", "form", "parameters", "body"], false⟩
  | memberAccess => ⟨"MemberAccessExpr", ["id", "target", "name"], false⟩
  | elementAccess => ⟨"ElementAccessExpr", ["id", "target", "arguments"], false⟩
  | identifier => ⟨"IdentifierExpr", ["id", "name"], false⟩
  | parenthesized => ⟨"ParenthesizedExpr", ["id", "inner"], false⟩
  | objectCreation => ⟨"ObjectCreationExpr", ["id", "type_name", "arguments"], false⟩
  | literal => ⟨"LiteralExpr", ["id", "text"], false⟩
  | other => ⟨"OtherExpr", ["id", "label", "children"], false⟩

end ExpressionKind

inductive StatementKind where
  | expression
  | block
  | branch
  | loop
  | localDeclaration
  | result
  | other
  deriving DecidableEq, Repr

/-- The fields of a block, as a statement and elsewhere. -/
def Block.layout : Layout := ⟨"Block", ["id", "statements"], false⟩

namespace StatementKind

def names : Names StatementKind :=
  [("expression", expression), ("block", block), ("if", branch), ("loop", loop),
    ("local_declaration", localDeclaration), ("return", result), ("other", other)]

def layout : StatementKind → Layout
  | expression => ⟨"ExpressionStatement", ["id", "expression"], false⟩
  | block => Block.layout
  | branch => ⟨"IfStatement", ["id", "condition", "then_branch", "else_branch"], false⟩
  | loop => ⟨"LoopStatement", ["id", "loop_kind", "header", "body"], false⟩
  | localDeclaration => ⟨"LocalDeclaration", ["id", "name", "initializer"], false⟩
  | result => ⟨"ReturnStatement", ["id", "value"], false⟩
  | other => ⟨"OtherStatement", ["id", "label", "expressions", "statements"], false⟩

end StatementKind

inductive DeclarationKind where
  | namespaceScope
  | classType
  | method
  | member
  deriving DecidableEq, Repr

namespace DeclarationKind

def names : Names DeclarationKind :=
  [("namespace", namespaceScope), ("class", classType), ("method", method), ("member", member)]

def layout : DeclarationKind → Layout
  | namespaceScope => ⟨"NamespaceDecl", ["id", "name", "members"], false⟩
  | classType => ⟨"ClassDecl", ["id", "name", "base_list", "members", "span"], false⟩
  | method =>
      ⟨"MethodDecl", ["id", "name", "attribute_list", "body", "expression_body", "span"], false⟩
  | member => ⟨"MemberDecl", ["id", "name", "initializer", "body"], false⟩

end DeclarationKind

namespace Json

def ofId (id : NodeId) : Json := .number id.toNat

end Json

mutual

def Expression.toJson : Expression → Json
  | .invocation ⟨id, target, arguments⟩ =>
      .object [("kind", .text "invocation"), ("id", Json.ofId id), ("target", target.toJson),
        ("arguments", .list (argumentsToJson arguments))]
  | .lambda ⟨id, form, parameters, body⟩ =>
      .object [("kind", .text "lambda"), ("id", Json.ofId id), ("form", form.toJson),
        ("parameters", Json.texts parameters), ("body", body.toJson)]
  | .memberAccess id target name =>
      .object [("kind", .text "member_access"), ("id", Json.ofId id), ("target", target.toJson),
        ("name", .text name)]
  | .elementAccess id target arguments =>
      .object [("kind", .text "element_access"), ("id", Json.ofId id), ("target", target.toJson),
        ("arguments", .list (argumentsToJson arguments))]
  | .identifier id name =>
      .object [("kind", .text "identifier"), ("id", Json.ofId id), ("name", .text name)]
  | .parenthesized id inner =>
      .object [("kind", .text "parenthesized"), ("id", Json.ofId id), ("inner", inner.toJson)]
  | .objectCreation id typeName arguments =>
      .object [("kind", .text "object_creation"), ("id", Json.ofId id),
        ("type_name", .text typeName), ("arguments", .list (argumentsToJson arguments))]
  | .literal id text =>
      .object [("kind", .text "literal"), ("id", Json.ofId id), ("text", .text text)]
  | .other id label children =>
      .object [("kind", .text "other"), ("id", Json.ofId id), ("label", .text label),
        ("children", .list (expressionsToJson children))]

def expressionsToJson : List Expression → List Json
  | [] => []
  | e :: more => e.toJson :: expressionsToJson more

def expressionToJson? : Option Expression → Json
  | none => .null
  | some e => e.toJson

def Argument.toJson : Argument → Json
  | ⟨id, name, expression⟩ =>
      .object [("id", Json.ofId id), ("name", Json.optional .text name),
        ("expression", expression.toJson)]

def argumentsToJson : List Argument → List Json
  | [] => []
  | a :: more => a.toJson :: argumentsToJson more

def LambdaBody.toJson : LambdaBody → Json
  | .expression body => .object [("expression", body.toJson)]
  | .block body => .object [("block", .object body.members)]

def Block.members : Block → List (String × Json)
  | ⟨id, statements⟩ =>
      [("id", Json.ofId id), ("statements", .list (statementsToJson statements))]

def Statement.toJson : Statement → Json
  | .expression id expression =>
      .object [("kind", .text "expression"), ("id", Json.ofId id),
        ("expression", expression.toJson)]
  | .block block => .object (("kind", .text "block") :: block.members)
  | .branch id condition whenTrue whenFalse =>
      .object [("kind", .text "if"), ("id", Json.ofId id), ("condition", condition.toJson),
        ("then_branch", whenTrue.toJson), ("else_branch", statementToJson? whenFalse)]
  | .loop id kind header body =>
      .object [("kind", .text "loop"), ("id", Json.ofId id), ("loop_kind", kind.toJson),
        ("header", .list (expressionsToJson header)), ("body", body.toJson)]
  | .localDeclaration id name initializer =>
      .object [("kind", .text "local_declaration"), ("id", Json.ofId id), ("name", .text name),
        ("initializer", expressionToJson? initializer)]
  | .result id value =>
      .object [("kind", .text "return"), ("id", Json.ofId id), ("value", expressionToJson? value)]
  | .other id label expressions statements =>
      .object [("kind", .text "other"), ("id", Json.ofId id), ("label", .text label),
        ("expressions", .list (expressionsToJson expressions)),
        ("statements", .list (statementsToJson statements))]

def statementsToJson : List Statement → List Json
  | [] => []
  | s :: more => s.toJson :: statementsToJson more

def statementToJson? : Option Statement → Json
  | none => .null
  | some s => s.toJson

end

def Block.toJson (b : Block) : Json := .object b.members

mutual

def Declaration.toJson : Declaration → Json
  | .namespaceScope ⟨id, name, members⟩ =>
      .object [("kind", .text "namespace"), ("id", Json.ofId id), ("name", .text name),
        ("members", .list (declarationsToJson members))]
  | .classType ⟨id, name, baseList, members, span⟩ =>
      .object [("kind", .text "class"), ("id", Json.ofId id), ("name", .text name),
        ("base_list", Json.texts baseList), ("members", .list (declarationsToJson members)),
        ("span", span.toJson)]
  | .method ⟨id, name, attributeList, body, expressionBody, span⟩ =>
      .object [("kind", .text "method"), ("id", Json.ofId id), ("name", .text name),
        ("attribute_list", Json.texts attributeList), ("body", Json.optional Block.toJson body),
        ("expression_body", expressionToJson? expressionBody), ("span", span.toJson)]
  | .member ⟨id, name, initializer, body⟩ =>
      .object [("kind", .text "member"), ("id", Json.ofId id), ("name", .text name),
        ("initializer", expressionToJson? initializer), ("body", Json.optional Block.toJson body)]

def declarationsToJson : List Declaration → List Json
  | [] => []
  | d :: more => d.toJson :: declarationsToJson more

end

namespace Expression

def union : TaggedUnion ExpressionKind := ⟨"Expression", ExpressionKind.names⟩

end Expression

namespace Statement

def union : TaggedUnion StatementKind := ⟨"Statement", StatementKind.names⟩

end Statement

namespace Declaration

def union : TaggedUnion DeclarationKind := ⟨"Declaration", DeclarationKind.names⟩

end Declaration

namespace Argument

def layout : Layout := ⟨"Argument", ["id", "name", "expression"], false⟩

end Argument

/-- Which of the two bodies a lambda has. -/
inductive LambdaBodyKind where
  | expression
  | block
  deriving DecidableEq, Repr

namespace LambdaBodyKind

def names : Names LambdaBodyKind := [("expression", expression), ("block", block)]

end LambdaBodyKind

/-- The error of a choice that names an alternative without the value that belongs to it. -/
def Json.bare : Error := .refused (.wrongType .bareAlternative "newtype variant")

mutual

def Expression.read : Nat → Manner → Reading → Except Error Expression
  | 0, _, reading => .error (Expression.union.overflow reading)
  | room + 1, manner, reading => do
      let (kind, fields) ← Expression.union.split manner room reading
      let slots ← kind.layout.slots .loaded fields
      match kind with
      | .invocation =>
          slots.fill (fun id target arguments => Expression.invocation ⟨id, target, arguments⟩)
            |>.part (slots.required "id" Reading.word)
            |>.part (slots.required "target" (Expression.read room .loaded))
            |>.part (slots.defaulted "arguments" [] (readArguments room .loaded))
            |>.result
      | .lambda =>
          slots.fill (fun id form parameters body =>
              Expression.lambda ⟨id, form, parameters, body⟩)
            |>.part (slots.required "id" Reading.word)
            |>.part (slots.required "form" (LambdaForm.read room .loaded))
            |>.part (slots.defaulted "parameters" [] (Reading.strings room))
            |>.part (slots.required "body" (LambdaBody.read room .loaded))
            |>.result
      | .memberAccess =>
          slots.fill Expression.memberAccess
            |>.part (slots.required "id" Reading.word)
            |>.part (slots.required "target" (Expression.read room .loaded))
            |>.part (slots.required "name" Reading.string)
            |>.result
      | .elementAccess =>
          slots.fill Expression.elementAccess
            |>.part (slots.required "id" Reading.word)
            |>.part (slots.required "target" (Expression.read room .loaded))
            |>.part (slots.defaulted "arguments" [] (readArguments room .loaded))
            |>.result
      | .identifier =>
          slots.fill Expression.identifier
            |>.part (slots.required "id" Reading.word)
            |>.part (slots.required "name" Reading.string)
            |>.result
      | .parenthesized =>
          slots.fill Expression.parenthesized
            |>.part (slots.required "id" Reading.word)
            |>.part (slots.required "inner" (Expression.read room .loaded))
            |>.result
      | .objectCreation =>
          slots.fill Expression.objectCreation
            |>.part (slots.required "id" Reading.word)
            |>.part (slots.required "type_name" Reading.string)
            |>.part (slots.defaulted "arguments" [] (readArguments room .loaded))
            |>.result
      | .literal =>
          slots.fill Expression.literal
            |>.part (slots.required "id" Reading.word)
            |>.part (slots.required "text" Reading.string)
            |>.result
      | .other =>
          slots.fill Expression.other
            |>.part (slots.required "id" Reading.word)
            |>.part (slots.defaulted "label" "" Reading.string)
            |>.part (slots.defaulted "children" [] (readExpressions room .loaded))
            |>.result

def readExpressions : Nat → Manner → Reading → Except Error (List Expression)
  | 0, _, reading => .error (reading.overflow "a sequence")
  | room + 1, manner, reading => reading.items (Expression.read room manner)

def Argument.read : Nat → Manner → Reading → Except Error Argument
  | 0, _, reading => .error (Argument.layout.overflow reading)
  | room + 1, manner, reading => do
      let slots ← Argument.layout.slots manner reading
      slots.fill Argument.mk
        |>.part (slots.required "id" Reading.word)
        |>.part (slots.optional "name" Reading.string)
        |>.part (slots.required "expression" (Expression.read room manner))
        |>.result

def readArguments : Nat → Manner → Reading → Except Error (List Argument)
  | 0, _, reading => .error (reading.overflow "a sequence")
  | room + 1, manner, reading => reading.items (Argument.read room manner)

def LambdaBody.read : Nat → Manner → Reading → Except Error LambdaBody
  | 0, manner, reading => reading.choice LambdaBodyKind.names (fun _ _ => .error Json.bare) 0 manner
  | room + 1, manner, reading =>
      reading.choice LambdaBodyKind.names (fun kind payload =>
        match payload, kind with
        | none, _ => .error Json.bare
        | some body, .expression => (Expression.read room manner body).map LambdaBody.expression
        | some body, .block => (Block.read room manner body).map LambdaBody.block)
        (room + 1) manner

def Block.read : Nat → Manner → Reading → Except Error Block
  | 0, _, reading => .error (Block.layout.overflow reading)
  | room + 1, manner, reading => do
      let slots ← Block.layout.slots manner reading
      slots.fill Block.mk
        |>.part (slots.required "id" Reading.word)
        |>.part (slots.defaulted "statements" [] (readStatements room manner))
        |>.result

def Statement.read : Nat → Manner → Reading → Except Error Statement
  | 0, _, reading => .error (Statement.union.overflow reading)
  | room + 1, manner, reading => do
      let (kind, fields) ← Statement.union.split manner room reading
      let slots ← kind.layout.slots .loaded fields
      match kind with
      | .expression =>
          slots.fill Statement.expression
            |>.part (slots.required "id" Reading.word)
            |>.part (slots.required "expression" (Expression.read room .loaded))
            |>.result
      | .block =>
          slots.fill (fun id statements => Statement.block ⟨id, statements⟩)
            |>.part (slots.required "id" Reading.word)
            |>.part (slots.defaulted "statements" [] (readStatements room .loaded))
            |>.result
      | .branch =>
          slots.fill Statement.branch
            |>.part (slots.required "id" Reading.word)
            |>.part (slots.required "condition" (Expression.read room .loaded))
            |>.part (slots.required "then_branch" (Statement.read room .loaded))
            |>.part (slots.optional "else_branch" (Statement.read room .loaded))
            |>.result
      | .loop =>
          slots.fill Statement.loop
            |>.part (slots.required "id" Reading.word)
            |>.part (slots.required "loop_kind" (LoopKind.read room .loaded))
            |>.part (slots.defaulted "header" [] (readExpressions room .loaded))
            |>.part (slots.required "body" (Statement.read room .loaded))
            |>.result
      | .localDeclaration =>
          slots.fill Statement.localDeclaration
            |>.part (slots.required "id" Reading.word)
            |>.part (slots.required "name" Reading.string)
            |>.part (slots.optional "initializer" (Expression.read room .loaded))
            |>.result
      | .result =>
          slots.fill Statement.result
            |>.part (slots.required "id" Reading.word)
            |>.part (slots.optional "value" (Expression.read room .loaded))
            |>.result
      | .other =>
          slots.fill Statement.other
            |>.part (slots.required "id" Reading.word)
            |>.part (slots.defaulted "label" "" Reading.string)
            |>.part (slots.defaulted "expressions" [] (readExpressions room .loaded))
            |>.part (slots.defaulted "statements" [] (readStatements room .loaded))
            |>.result

def readStatements : Nat → Manner → Reading → Except Error (List Statement)
  | 0, _, reading => .error (reading.overflow "a sequence")
  | room + 1, manner, reading => reading.items (Statement.read room manner)

end

mutual

def Declaration.read : Nat → Manner → Reading → Except Error Declaration
  | 0, _, reading => .error (Declaration.union.overflow reading)
  | room + 1, manner, reading => do
      let (kind, fields) ← Declaration.union.split manner room reading
      let slots ← kind.layout.slots .loaded fields
      match kind with
      | .namespaceScope =>
          slots.fill (fun id name members => Declaration.namespaceScope ⟨id, name, members⟩)
            |>.part (slots.required "id" Reading.word)
            |>.part (slots.required "name" Reading.string)
            |>.part (slots.defaulted "members" [] (readDeclarations room .loaded))
            |>.result
      | .classType =>
          slots.fill (fun id name baseList members span =>
              Declaration.classType ⟨id, name, baseList, members, span⟩)
            |>.part (slots.required "id" Reading.word)
            |>.part (slots.required "name" Reading.string)
            |>.part (slots.defaulted "base_list" [] (Reading.strings room))
            |>.part (slots.defaulted "members" [] (readDeclarations room .loaded))
            |>.part (slots.defaulted "span" Span.zero (Span.read room .loaded))
            |>.result
      | .method =>
          slots.fill (fun id name attributeList body expressionBody span =>
              Declaration.method ⟨id, name, attributeList, body, expressionBody, span⟩)
            |>.part (slots.required "id" Reading.word)
            |>.part (slots.required "name" Reading.string)
            |>.part (slots.defaulted "attribute_list" [] (Reading.strings room))
            |>.part (slots.optional "body" (Block.read room .loaded))
            |>.part (slots.optional "expression_body" (Expression.read room .loaded))
            |>.part (slots.defaulted "span" Span.zero (Span.read room .loaded))
            |>.result
      | .member =>
          slots.fill (fun id name initializer body =>
              Declaration.member ⟨id, name, initializer, body⟩)
            |>.part (slots.required "id" Reading.word)
            |>.part (slots.required "name" Reading.string)
            |>.part (slots.optional "initializer" (Expression.read room .loaded))
            |>.part (slots.optional "body" (Block.read room .loaded))
            |>.result

def readDeclarations : Nat → Manner → Reading → Except Error (List Declaration)
  | 0, _, reading => .error (reading.overflow "a sequence")
  | room + 1, manner, reading => reading.items (Declaration.read room manner)

end

namespace CompilationUnit

def layout : Layout := ⟨"CompilationUnit", ["id", "members"], false⟩

def toJson (u : CompilationUnit) : Json :=
  .object [("id", Json.ofId u.id), ("members", .list (declarationsToJson u.members))]

def read (room : Nat) (manner : Manner) (reading : Reading) : Except Error CompilationUnit :=
  match room with
  | 0 => .error (layout.overflow reading)
  | room + 1 => do
      let slots ← layout.slots manner reading
      slots.fill CompilationUnit.mk
        |>.part (slots.required "id" Reading.word)
        |>.part (slots.defaulted "members" [] (readDeclarations room manner))
        |>.result

end CompilationUnit

namespace SyntaxTree

def layout : Layout := ⟨"SyntaxTree", ["path", "root"], false⟩

def toJson (t : SyntaxTree) : Json :=
  .object [("path", .text t.path), ("root", t.root.toJson)]

def read (room : Nat) (manner : Manner) (reading : Reading) : Except Error SyntaxTree :=
  match room with
  | 0 => .error (layout.overflow reading)
  | room + 1 => do
      let slots ← layout.slots manner reading
      slots.fill SyntaxTree.mk
        |>.part (slots.required "path" Reading.string)
        |>.part (slots.required "root" (CompilationUnit.read room manner))
        |>.result

end SyntaxTree

end SafeCalls
