import SafeCalls.Proofs.JsonRecord
import SafeCalls.Proofs.JsonText
import SafeCalls.Source.Json

namespace SafeCalls

/-!
# Reading back source trees

Every tree that is written is read back, wherever the room is enough for its nesting. Expressions,
arguments, lambda bodies, blocks and statements contain one another, so the induction is on the room
and takes all of them along.
-/

open Json (Manner nestingMembers nesting_object nesting_list exists_room_of_object word_reading
  string_reading strings_reading named_reading items_reading choice_reading
  ItemsInRange MembersInRange inRange_optional)

theorem Span.read_toJson (s : Span) {room : Nat} (manner : Manner)
    (hroom : s.toJson.nesting ≤ room) : Span.read room manner s.toJson.reading = .ok s := by
  rw [Span.toJson] at hroom ⊢
  obtain ⟨room, rfl, hmembers⟩ := exists_room_of_object hroom
  rw [Span.read]
  refine Layout.slots_bind _ manner rfl (by decide) hmembers fun slots h => ?_
  have hstartLine := h.required "start_line" rfl fun _ => word_reading s.startLine
  have hstartColumn := h.required "start_col" rfl fun _ => word_reading s.startColumn
  have hendLine := h.required "end_line" rfl fun _ => word_reading s.endLine
  have hendColumn := h.required "end_col" rfl fun _ => word_reading s.endColumn
  rw [h.fill, hstartLine, hstartColumn, hendLine, hendColumn]
  rfl

theorem LoopKind.read_toJson (kind : LoopKind) (room : Nat) (manner : Manner) :
    LoopKind.read room manner kind.toJson.reading = .ok kind := by
  cases kind <;> exact named_reading rfl room manner

theorem LambdaForm.read_toJson (form : LambdaForm) (room : Nat) (manner : Manner) :
    LambdaForm.read room manner form.toJson.reading = .ok form := by
  cases form <;> exact named_reading rfl room manner

theorem expressionsToJson_eq_map (es : List Expression) :
    expressionsToJson es = es.map Expression.toJson := by
  induction es with
  | nil => rfl
  | cons e es ih => rw [expressionsToJson, ih, List.map_cons]

theorem argumentsToJson_eq_map (as : List Argument) :
    argumentsToJson as = as.map Argument.toJson := by
  induction as with
  | nil => rfl
  | cons a as ih => rw [argumentsToJson, ih, List.map_cons]

theorem statementsToJson_eq_map (ss : List Statement) :
    statementsToJson ss = ss.map Statement.toJson := by
  induction ss with
  | nil => rfl
  | cons s ss ih => rw [statementsToJson, ih, List.map_cons]

theorem expressionToJson?_eq_optional (e : Option Expression) :
    expressionToJson? e = Json.optional Expression.toJson e := by
  cases e <;> rfl

theorem statementToJson?_eq_optional (s : Option Statement) :
    statementToJson? s = Json.optional Statement.toJson s := by
  cases s <;> rfl

theorem Expression.toJson_ne_null (e : Expression) : e.toJson ≠ .null := by
  cases e with
  | invocation call =>
      cases call
      simp [Expression.toJson]
  | lambda function =>
      cases function
      simp [Expression.toJson]
  | _ => simp [Expression.toJson]

theorem Statement.toJson_ne_null (s : Statement) : s.toJson ≠ .null := by
  cases s <;> simp [Statement.toJson]

theorem ExpressionKind.nodup_fields (kind : ExpressionKind) :
    ("kind" :: kind.layout.fields).Nodup := by
  cases kind <;> decide

theorem StatementKind.nodup_fields (kind : StatementKind) :
    ("kind" :: kind.layout.fields).Nodup := by
  cases kind <;> decide

@[simp] theorem inRange_ofId (id : NodeId) : (Json.ofId id).InRange :=
  Json.toNat_le_maxNatural id

theorem Span.inRange_toJson (s : Span) : s.toJson.InRange := by
  simp [Span.toJson, Json.toNat_le_maxNatural]

mutual

/-- The only numbers in a tree are ids and positions. -/
theorem Expression.inRange_toJson : ∀ e : Expression, e.toJson.InRange
  | .invocation ⟨id, target, arguments⟩ => by
      simp [Expression.toJson, target.inRange_toJson, inRange_argumentsToJson arguments]
  | .lambda ⟨id, form, parameters, body⟩ => by
      have hform : form.toJson.InRange := by cases form <;> simp [LambdaForm.toJson]
      simp [Expression.toJson, hform, body.inRange_toJson]
  | .memberAccess id target name => by simp [Expression.toJson, target.inRange_toJson]
  | .elementAccess id target arguments => by
      simp [Expression.toJson, target.inRange_toJson, inRange_argumentsToJson arguments]
  | .identifier id name => by simp [Expression.toJson]
  | .parenthesized id inner => by simp [Expression.toJson, inner.inRange_toJson]
  | .objectCreation id typeName arguments => by
      simp [Expression.toJson, inRange_argumentsToJson arguments]
  | .literal id text => by simp [Expression.toJson]
  | .other id label children => by
      simp [Expression.toJson, inRange_expressionsToJson children]

theorem inRange_expressionsToJson : ∀ es : List Expression,
    ItemsInRange (expressionsToJson es)
  | [] => by simp [expressionsToJson]
  | e :: more => by
      simp [expressionsToJson, e.inRange_toJson, inRange_expressionsToJson more]

theorem inRange_expressionToJson? : ∀ e : Option Expression, (expressionToJson? e).InRange
  | none => by simp [expressionToJson?]
  | some e => by simp [expressionToJson?, e.inRange_toJson]

theorem Argument.inRange_toJson : ∀ a : Argument, a.toJson.InRange
  | ⟨id, name, expression⟩ => by
      have hname : (Json.optional Json.text name).InRange := inRange_optional name (by simp)
      simp [Argument.toJson, hname, expression.inRange_toJson]

theorem inRange_argumentsToJson : ∀ as : List Argument,
    ItemsInRange (argumentsToJson as)
  | [] => by simp [argumentsToJson]
  | a :: more => by
      simp [argumentsToJson, a.inRange_toJson, inRange_argumentsToJson more]

theorem LambdaBody.inRange_toJson : ∀ b : LambdaBody, b.toJson.InRange
  | .expression body => by simp [LambdaBody.toJson, body.inRange_toJson]
  | .block body => by simp [LambdaBody.toJson, body.inRange_members]

theorem Block.inRange_members : ∀ b : Block, MembersInRange b.members
  | ⟨id, statements⟩ => by simp [Block.members, inRange_statementsToJson statements]

theorem Statement.inRange_toJson : ∀ s : Statement, s.toJson.InRange
  | .expression id expression => by simp [Statement.toJson, expression.inRange_toJson]
  | .block block => by simp [Statement.toJson, block.inRange_members]
  | .branch id condition whenTrue whenFalse => by
      simp [Statement.toJson, condition.inRange_toJson, whenTrue.inRange_toJson,
        inRange_statementToJson? whenFalse]
  | .loop id kind header body => by
      have hkind : kind.toJson.InRange := by cases kind <;> simp [LoopKind.toJson]
      simp [Statement.toJson, hkind, inRange_expressionsToJson header,
        body.inRange_toJson]
  | .localDeclaration id name initializer => by
      simp [Statement.toJson, inRange_expressionToJson? initializer]
  | .result id value => by simp [Statement.toJson, inRange_expressionToJson? value]
  | .other id label expressions statements => by
      simp [Statement.toJson, inRange_expressionsToJson expressions,
        inRange_statementsToJson statements]

theorem inRange_statementsToJson : ∀ ss : List Statement,
    ItemsInRange (statementsToJson ss)
  | [] => by simp [statementsToJson]
  | s :: more => by
      simp [statementsToJson, s.inRange_toJson, inRange_statementsToJson more]

theorem inRange_statementToJson? : ∀ s : Option Statement, (statementToJson? s).InRange
  | none => by simp [statementToJson?]
  | some s => by simp [statementToJson?, s.inRange_toJson]

end

/-- What is written of the parts of methods is read back within the given room. -/
structure ReadsCode (room : Nat) : Prop where
  expression : ∀ (e : Expression) (manner : Manner), e.toJson.nesting ≤ room →
    Expression.read room manner e.toJson.reading = .ok e
  expressions : ∀ (es : List Expression) (manner : Manner),
    (Json.list (expressionsToJson es)).nesting ≤ room →
    readExpressions room manner (Json.list (expressionsToJson es)).reading = .ok es
  argument : ∀ (a : Argument) (manner : Manner), a.toJson.nesting ≤ room →
    Argument.read room manner a.toJson.reading = .ok a
  arguments : ∀ (as : List Argument) (manner : Manner),
    (Json.list (argumentsToJson as)).nesting ≤ room →
    readArguments room manner (Json.list (argumentsToJson as)).reading = .ok as
  lambdaBody : ∀ (b : LambdaBody) (manner : Manner), b.toJson.nesting ≤ room →
    LambdaBody.read room manner b.toJson.reading = .ok b
  block : ∀ (b : Block) (manner : Manner), b.toJson.nesting ≤ room →
    Block.read room manner b.toJson.reading = .ok b
  statement : ∀ (s : Statement) (manner : Manner), s.toJson.nesting ≤ room →
    Statement.read room manner s.toJson.reading = .ok s
  statements : ∀ (ss : List Statement) (manner : Manner),
    (Json.list (statementsToJson ss)).nesting ≤ room →
    readStatements room manner (Json.list (statementsToJson ss)).reading = .ok ss

namespace ReadsCode

variable {room : Nat}

theorem expression_succ (ih : ReadsCode room) (e : Expression) (manner : Manner)
    (hroom : e.toJson.nesting ≤ room + 1) :
    Expression.read (room + 1) manner e.toJson.reading = .ok e := by
  have hkinds := ExpressionKind.nodup_fields
  rw [Expression.read]
  -- What is written of the fields is loaded from inside the object, so it needs one room less.
  cases e with
  | invocation call =>
      obtain ⟨id, target, arguments⟩ := call
      rw [Expression.toJson] at hroom ⊢
      refine Expression.union.fields_bind manner hkinds .invocation rfl rfl hroom rfl
        fun slots h => ?_
      have hid := h.required "id" rfl fun _ => word_reading id
      have htarget := h.required "target" rfl (ih.expression target .loaded)
      have harguments := h.defaulted "arguments" rfl [] (ih.arguments arguments .loaded)
      simp only [h.fill, hid, htarget, harguments]
      rfl
  | lambda function =>
      obtain ⟨id, form, parameters, body⟩ := function
      rw [Expression.toJson] at hroom ⊢
      refine Expression.union.fields_bind manner hkinds .lambda rfl rfl hroom rfl
        fun slots h => ?_
      have hid := h.required "id" rfl fun _ => word_reading id
      have hform := h.required "form" rfl fun _ => form.read_toJson room .loaded
      have hparameters := h.defaulted "parameters" rfl [] (strings_reading parameters)
      have hbody := h.required "body" rfl (ih.lambdaBody body .loaded)
      simp only [h.fill, hid, hform, hparameters, hbody]
      rfl
  | memberAccess id target name =>
      rw [Expression.toJson] at hroom ⊢
      refine Expression.union.fields_bind manner hkinds .memberAccess rfl rfl hroom rfl
        fun slots h => ?_
      have hid := h.required "id" rfl fun _ => word_reading id
      have htarget := h.required "target" rfl (ih.expression target .loaded)
      have hname := h.required "name" rfl fun _ => string_reading name
      simp only [h.fill, hid, htarget, hname]
      rfl
  | elementAccess id target arguments =>
      rw [Expression.toJson] at hroom ⊢
      refine Expression.union.fields_bind manner hkinds .elementAccess rfl rfl hroom rfl
        fun slots h => ?_
      have hid := h.required "id" rfl fun _ => word_reading id
      have htarget := h.required "target" rfl (ih.expression target .loaded)
      have harguments := h.defaulted "arguments" rfl [] (ih.arguments arguments .loaded)
      simp only [h.fill, hid, htarget, harguments]
      rfl
  | identifier id name =>
      rw [Expression.toJson] at hroom ⊢
      refine Expression.union.fields_bind manner hkinds .identifier rfl rfl hroom rfl
        fun slots h => ?_
      have hid := h.required "id" rfl fun _ => word_reading id
      have hname := h.required "name" rfl fun _ => string_reading name
      simp only [h.fill, hid, hname]
      rfl
  | parenthesized id inner =>
      rw [Expression.toJson] at hroom ⊢
      refine Expression.union.fields_bind manner hkinds .parenthesized rfl rfl hroom rfl
        fun slots h => ?_
      have hid := h.required "id" rfl fun _ => word_reading id
      have hinner := h.required "inner" rfl (ih.expression inner .loaded)
      simp only [h.fill, hid, hinner]
      rfl
  | objectCreation id typeName arguments =>
      rw [Expression.toJson] at hroom ⊢
      refine Expression.union.fields_bind manner hkinds .objectCreation rfl rfl hroom rfl
        fun slots h => ?_
      have hid := h.required "id" rfl fun _ => word_reading id
      have htypeName := h.required "type_name" rfl fun _ => string_reading typeName
      have harguments := h.defaulted "arguments" rfl [] (ih.arguments arguments .loaded)
      simp only [h.fill, hid, htypeName, harguments]
      rfl
  | literal id text =>
      rw [Expression.toJson] at hroom ⊢
      refine Expression.union.fields_bind manner hkinds .literal rfl rfl hroom rfl
        fun slots h => ?_
      have hid := h.required "id" rfl fun _ => word_reading id
      have htext := h.required "text" rfl fun _ => string_reading text
      simp only [h.fill, hid, htext]
      rfl
  | other id label children =>
      rw [Expression.toJson] at hroom ⊢
      refine Expression.union.fields_bind manner hkinds .other rfl rfl hroom rfl
        fun slots h => ?_
      have hid := h.required "id" rfl fun _ => word_reading id
      have hlabel := h.defaulted "label" rfl "" fun _ =>
        string_reading label
      have hchildren := h.defaulted "children" rfl [] (ih.expressions children .loaded)
      simp only [h.fill, hid, hlabel, hchildren]
      rfl

theorem statement_succ (ih : ReadsCode room) (s : Statement) (manner : Manner)
    (hroom : s.toJson.nesting ≤ room + 1) :
    Statement.read (room + 1) manner s.toJson.reading = .ok s := by
  have hkinds := StatementKind.nodup_fields
  rw [Statement.read]
  cases s with
  | expression id expression =>
      rw [Statement.toJson] at hroom ⊢
      refine Statement.union.fields_bind manner hkinds .expression rfl rfl hroom rfl
        fun slots h => ?_
      have hid := h.required "id" rfl fun _ => word_reading id
      have hexpression := h.required "expression" rfl (ih.expression expression .loaded)
      simp only [h.fill, hid, hexpression]
      rfl
  -- Here the kind is written among the fields of the block itself.
  | block block =>
      obtain ⟨id, statements⟩ := block
      rw [Statement.toJson, Block.members] at hroom ⊢
      refine Statement.union.fields_bind manner hkinds .block rfl rfl hroom rfl
        fun slots h => ?_
      have hid := h.required "id" rfl fun _ => word_reading id
      have hstatements := h.defaulted "statements" rfl []
        (ih.statements statements .loaded)
      simp only [h.fill, hid, hstatements]
      rfl
  | branch id condition whenTrue whenFalse =>
      rw [Statement.toJson, statementToJson?_eq_optional] at hroom ⊢
      refine Statement.union.fields_bind manner hkinds .branch rfl rfl hroom rfl
        fun slots h => ?_
      have hid := h.required "id" rfl fun _ => word_reading id
      have hcondition := h.required "condition" rfl (ih.expression condition .loaded)
      have hwhenTrue := h.required "then_branch" rfl (ih.statement whenTrue .loaded)
      have hwhenFalse := h.optional "else_branch" rfl Statement.toJson_ne_null fun a =>
        ih.statement a .loaded
      simp only [h.fill, hid, hcondition, hwhenTrue, hwhenFalse]
      rfl
  | loop id kind header body =>
      rw [Statement.toJson] at hroom ⊢
      refine Statement.union.fields_bind manner hkinds .loop rfl rfl hroom rfl
        fun slots h => ?_
      have hid := h.required "id" rfl fun _ => word_reading id
      have hkind := h.required "loop_kind" rfl fun _ => kind.read_toJson room .loaded
      have hheader := h.defaulted "header" rfl [] (ih.expressions header .loaded)
      have hbody := h.required "body" rfl (ih.statement body .loaded)
      simp only [h.fill, hid, hkind, hheader, hbody]
      rfl
  | localDeclaration id name initializer =>
      rw [Statement.toJson, expressionToJson?_eq_optional] at hroom ⊢
      refine Statement.union.fields_bind manner hkinds .localDeclaration rfl rfl hroom rfl
        fun slots h => ?_
      have hid := h.required "id" rfl fun _ => word_reading id
      have hname := h.required "name" rfl fun _ => string_reading name
      have hinitializer := h.optional "initializer" rfl Expression.toJson_ne_null
        fun a => ih.expression a .loaded
      simp only [h.fill, hid, hname, hinitializer]
      rfl
  | result id value =>
      rw [Statement.toJson, expressionToJson?_eq_optional] at hroom ⊢
      refine Statement.union.fields_bind manner hkinds .result rfl rfl hroom rfl
        fun slots h => ?_
      have hid := h.required "id" rfl fun _ => word_reading id
      have hvalue := h.optional "value" rfl Expression.toJson_ne_null fun a =>
        ih.expression a .loaded
      simp only [h.fill, hid, hvalue]
      rfl
  | other id label expressions statements =>
      rw [Statement.toJson] at hroom ⊢
      refine Statement.union.fields_bind manner hkinds .other rfl rfl hroom rfl
        fun slots h => ?_
      have hid := h.required "id" rfl fun _ => word_reading id
      have hlabel := h.defaulted "label" rfl "" fun _ =>
        string_reading label
      have hexpressions := h.defaulted "expressions" rfl []
        (ih.expressions expressions .loaded)
      have hstatements := h.defaulted "statements" rfl []
        (ih.statements statements .loaded)
      simp only [h.fill, hid, hlabel, hexpressions, hstatements]
      rfl

theorem argument_succ (ih : ReadsCode room) (a : Argument) (manner : Manner)
    (hroom : a.toJson.nesting ≤ room + 1) :
    Argument.read (room + 1) manner a.toJson.reading = .ok a := by
  obtain ⟨id, name, expression⟩ := a
  rw [Argument.toJson] at hroom ⊢
  rw [Argument.read]
  refine Layout.slots_bind _ manner rfl (by decide) (Nat.le_of_succ_le_succ hroom) fun slots h => ?_
  have hid := h.required "id" rfl fun _ => word_reading id
  have hname := h.optional "name" rfl (by simp) fun s _ => string_reading s
  have hexpression := h.required "expression" rfl (ih.expression expression manner)
  rw [h.fill, hid, hname, hexpression]
  rfl

theorem block_succ (ih : ReadsCode room) (b : Block) (manner : Manner)
    (hroom : b.toJson.nesting ≤ room + 1) :
    Block.read (room + 1) manner b.toJson.reading = .ok b := by
  obtain ⟨id, statements⟩ := b
  rw [Block.toJson, Block.members] at hroom ⊢
  rw [Block.read]
  refine Layout.slots_bind _ manner rfl (by decide) (Nat.le_of_succ_le_succ hroom) fun slots h => ?_
  have hid := h.required "id" rfl fun _ => word_reading id
  have hstatements := h.defaulted "statements" rfl [] (ih.statements statements manner)
  rw [h.fill, hid, hstatements]
  rfl

theorem lambdaBody_succ (ih : ReadsCode room) (b : LambdaBody) (manner : Manner)
    (hroom : b.toJson.nesting ≤ room + 1) :
    LambdaBody.read (room + 1) manner b.toJson.reading = .ok b := by
  cases b with
  | expression body =>
      rw [LambdaBody.toJson] at hroom ⊢
      have hinside : body.toJson.nesting ≤ room := by
        simpa [nesting_object, nestingMembers] using hroom
      rw [LambdaBody.read]
      exact choice_reading LambdaBodyKind.expression rfl _ room manner _
        (congrArg (Except.map LambdaBody.expression) (ih.expression body manner hinside))
  | block body =>
      rw [LambdaBody.toJson, ← Block.toJson] at hroom ⊢
      have hinside : body.toJson.nesting ≤ room := by
        simpa [nesting_object, nestingMembers] using hroom
      rw [LambdaBody.read]
      exact choice_reading LambdaBodyKind.block rfl _ room manner _
        (congrArg (Except.map LambdaBody.block) (ih.block body manner hinside))

theorem succ (ih : ReadsCode room) : ReadsCode (room + 1) where
  expression := ih.expression_succ
  expressions es manner hroom := by
    rw [expressionsToJson_eq_map] at hroom ⊢
    exact items_reading es hroom fun e => ih.expression e manner
  argument := ih.argument_succ
  arguments as manner hroom := by
    rw [argumentsToJson_eq_map] at hroom ⊢
    exact items_reading as hroom fun a => ih.argument a manner
  lambdaBody := ih.lambdaBody_succ
  block := ih.block_succ
  statement := ih.statement_succ
  statements ss manner hroom := by
    rw [statementsToJson_eq_map] at hroom ⊢
    exact items_reading ss hroom fun s => ih.statement s manner

end ReadsCode

/-- Whatever is written of the parts of methods is an object or a list, so it needs some room. -/
theorem readsCode_zero : ReadsCode 0 where
  expression e manner h := by
    have : 0 < e.toJson.nesting := by
      unfold Expression.toJson
      split <;> simp [nesting_object]
    omega
  expressions es manner h := by simp [nesting_list] at h
  argument a manner h := by cases a; simp [Argument.toJson, nesting_object] at h
  arguments as manner h := by simp [nesting_list] at h
  lambdaBody b manner h := by cases b <;> simp [LambdaBody.toJson, nesting_object] at h
  block b manner h := by simp [Block.toJson, nesting_object] at h
  statement s manner h := by cases s <;> simp [Statement.toJson, nesting_object] at h
  statements ss manner h := by simp [nesting_list] at h

theorem readsCode (room : Nat) : ReadsCode room := by
  induction room with
  | zero => exact readsCode_zero
  | succ room ih => exact ih.succ

theorem DeclarationKind.nodup_fields (kind : DeclarationKind) :
    ("kind" :: kind.layout.fields).Nodup := by
  cases kind <;> decide

theorem declarationsToJson_eq_map (ds : List Declaration) :
    declarationsToJson ds = ds.map Declaration.toJson := by
  induction ds with
  | nil => rfl
  | cons d ds ih => rw [declarationsToJson, ih, List.map_cons]

theorem Block.inRange_toJson (b : Block) : b.toJson.InRange := b.inRange_members

theorem Block.toJson_ne_null (b : Block) : b.toJson ≠ .null := by simp [Block.toJson]

mutual

theorem Declaration.inRange_toJson : ∀ d : Declaration, d.toJson.InRange
  | .namespaceScope ⟨id, name, members⟩ => by
      simp [Declaration.toJson, inRange_declarationsToJson members]
  | .classType ⟨id, name, baseList, members, span⟩ => by
      simp [Declaration.toJson, inRange_declarationsToJson members, span.inRange_toJson]
  | .method ⟨id, name, attributeList, body, expressionBody, span⟩ => by
      have hbody := inRange_optional body Block.inRange_toJson
      simp [Declaration.toJson, hbody, inRange_expressionToJson? expressionBody,
        span.inRange_toJson]
  | .member ⟨id, name, initializer, body⟩ => by
      have hbody := inRange_optional body Block.inRange_toJson
      simp [Declaration.toJson, hbody, inRange_expressionToJson? initializer]

theorem inRange_declarationsToJson : ∀ ds : List Declaration, ItemsInRange (declarationsToJson ds)
  | [] => by simp [declarationsToJson]
  | d :: more => by
      simp [declarationsToJson, d.inRange_toJson, inRange_declarationsToJson more]

end

/-- Declarations contain one another through their lists, which take one room more. -/
structure ReadsDeclarations (room : Nat) : Prop where
  declaration : ∀ (d : Declaration) (manner : Manner), d.toJson.nesting ≤ room →
    Declaration.read room manner d.toJson.reading = .ok d
  declarations : ∀ (ds : List Declaration) (manner : Manner),
    (Json.list (declarationsToJson ds)).nesting ≤ room →
    readDeclarations room manner (Json.list (declarationsToJson ds)).reading = .ok ds

namespace ReadsDeclarations

variable {room : Nat}

theorem declaration_succ (ih : ReadsDeclarations room) (d : Declaration) (manner : Manner)
    (hroom : d.toJson.nesting ≤ room + 1) :
    Declaration.read (room + 1) manner d.toJson.reading = .ok d := by
  have hkinds := DeclarationKind.nodup_fields
  have hcode := readsCode room
  rw [Declaration.read]
  cases d with
  | namespaceScope scope =>
      obtain ⟨id, name, members⟩ := scope
      rw [Declaration.toJson] at hroom ⊢
      refine Declaration.union.fields_bind manner hkinds .namespaceScope rfl rfl hroom rfl
        fun slots h => ?_
      have hid := h.required "id" rfl fun _ => word_reading id
      have hname := h.required "name" rfl fun _ => string_reading name
      have hmembers := h.defaulted "members" rfl [] (ih.declarations members .loaded)
      simp only [h.fill, hid, hname, hmembers]
      rfl
  | classType type =>
      obtain ⟨id, name, baseList, members, span⟩ := type
      rw [Declaration.toJson] at hroom ⊢
      refine Declaration.union.fields_bind manner hkinds .classType rfl rfl hroom rfl
        fun slots h => ?_
      have hid := h.required "id" rfl fun _ => word_reading id
      have hname := h.required "name" rfl fun _ => string_reading name
      have hbaseList := h.defaulted "base_list" rfl [] (strings_reading baseList)
      have hmembers := h.defaulted "members" rfl [] (ih.declarations members .loaded)
      have hspan := h.defaulted "span" rfl Span.zero (span.read_toJson .loaded)
      simp only [h.fill, hid, hname, hbaseList, hmembers, hspan]
      rfl
  | method m =>
      obtain ⟨id, name, attributeList, body, expressionBody, span⟩ := m
      rw [Declaration.toJson, expressionToJson?_eq_optional] at hroom ⊢
      refine Declaration.union.fields_bind manner hkinds .method rfl rfl hroom rfl
        fun slots h => ?_
      have hid := h.required "id" rfl fun _ => word_reading id
      have hname := h.required "name" rfl fun _ => string_reading name
      have hattributeList := h.defaulted "attribute_list" rfl []
        (strings_reading attributeList)
      have hbody := h.optional "body" rfl Block.toJson_ne_null
        fun b => hcode.block b .loaded
      have hexpressionBody := h.optional "expression_body" rfl
        Expression.toJson_ne_null fun e => hcode.expression e .loaded
      have hspan := h.defaulted "span" rfl Span.zero (span.read_toJson .loaded)
      simp only [h.fill, hid, hname, hattributeList, hbody, hexpressionBody, hspan]
      rfl
  | member m =>
      obtain ⟨id, name, initializer, body⟩ := m
      rw [Declaration.toJson, expressionToJson?_eq_optional] at hroom ⊢
      refine Declaration.union.fields_bind manner hkinds .member rfl rfl hroom rfl
        fun slots h => ?_
      have hid := h.required "id" rfl fun _ => word_reading id
      have hname := h.required "name" rfl fun _ => string_reading name
      have hinitializer := h.optional "initializer" rfl Expression.toJson_ne_null
        fun e => hcode.expression e .loaded
      have hbody := h.optional "body" rfl Block.toJson_ne_null
        fun b => hcode.block b .loaded
      simp only [h.fill, hid, hname, hinitializer, hbody]
      rfl

theorem succ (ih : ReadsDeclarations room) : ReadsDeclarations (room + 1) where
  declaration := ih.declaration_succ
  declarations ds manner hroom := by
    rw [declarationsToJson_eq_map] at hroom ⊢
    exact items_reading ds hroom fun d => ih.declaration d manner

end ReadsDeclarations

theorem readsDeclarations (room : Nat) : ReadsDeclarations room := by
  induction room with
  | zero =>
      refine ⟨fun d manner h => ?_, fun ds manner h => by simp [nesting_list] at h⟩
      have : 0 < d.toJson.nesting := by
        unfold Declaration.toJson
        split <;> simp [nesting_object]
      omega
  | succ room ih => exact ih.succ

theorem SyntaxTree.inRange_toJson (t : SyntaxTree) : t.toJson.InRange := by
  simp [SyntaxTree.toJson, CompilationUnit.toJson, inRange_declarationsToJson t.root.members]

theorem SyntaxTree.toJson_ne_null (t : SyntaxTree) : t.toJson ≠ .null := by
  simp [SyntaxTree.toJson]

theorem CompilationUnit.read_toJson (u : CompilationUnit) {room : Nat} (manner : Manner)
    (hroom : u.toJson.nesting ≤ room) :
    CompilationUnit.read room manner u.toJson.reading = .ok u := by
  rw [CompilationUnit.toJson] at hroom ⊢
  obtain ⟨room, rfl, hmembers⟩ := exists_room_of_object hroom
  rw [CompilationUnit.read]
  refine Layout.slots_bind _ manner rfl (by decide) hmembers fun slots h => ?_
  have hid := h.required "id" rfl fun _ => word_reading u.id
  have hmembers := h.defaulted "members" rfl []
    ((readsDeclarations room).declarations u.members manner)
  rw [h.fill, hid, hmembers]
  rfl

theorem SyntaxTree.read_toJson (t : SyntaxTree) {room : Nat} (manner : Manner)
    (hroom : t.toJson.nesting ≤ room) : SyntaxTree.read room manner t.toJson.reading = .ok t := by
  rw [SyntaxTree.toJson] at hroom ⊢
  obtain ⟨room, rfl, hmembers⟩ := exists_room_of_object hroom
  rw [SyntaxTree.read]
  refine Layout.slots_bind _ manner rfl (by decide) hmembers fun slots h => ?_
  have hpath := h.required "path" rfl fun _ => string_reading t.path
  have hroot := h.required "root" rfl (t.root.read_toJson manner)
  rw [h.fill, hpath, hroot]
  rfl

end SafeCalls
