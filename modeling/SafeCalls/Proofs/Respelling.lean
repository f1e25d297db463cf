import SafeCalls.Proofs.RecordEdits
import SafeCalls.Proofs.SnapshotForm

namespace SafeCalls

/-!
# Respelled snapshots

A snapshot does not depend on how a front-end spells its objects. Each record and each alternative
of a tagged union is gone through once, field by field, to see that it makes the same of its fields
after an edit; that an edit at any depth leaves the whole alone is an induction on the edit.
-/

open Json (Error Manner Member ObjectEnd ListEnd Reading TaggedUnion)

namespace Form

/-- What a part of a snapshot is read as. -/
def Meaning : Form → Type
  | snapshot => UnitSnapshot
  | syntaxTree => SyntaxTree
  | compilationUnit => CompilationUnit
  | declaration => Declaration
  | statement => Statement
  | expression => Expression
  | argument => Argument
  | lambdaBody => LambdaBody
  | block => Block
  | span => Span
  | symbolTable => SymbolTable
  | symbolMap => SortedMap NodeId Symbol
  | symbol => Symbol
  | methodSymbol => MethodSymbol
  | propertySymbol => PropertySymbol
  | parameter => Parameter
  | attributeData => Attribute
  | list item => List item.Meaning

def read : (form : Form) → Nat → Manner → Reading → Except Error form.Meaning
  | snapshot => UnitSnapshot.read
  | syntaxTree => SyntaxTree.read
  | compilationUnit => CompilationUnit.read
  | declaration => Declaration.read
  | statement => Statement.read
  | expression => Expression.read
  | argument => Argument.read
  | lambdaBody => LambdaBody.read
  | block => Block.read
  | span => Span.read
  | symbolTable => SymbolTable.read
  | symbolMap => fun room manner => SymbolTable.readMap manner room
  | symbol => Symbol.read
  | methodSymbol => MethodSymbol.read
  | propertySymbol => PropertySymbol.read
  | parameter => Parameter.read
  | attributeData => Attribute.read
  | list item => fun room manner => Reading.listOf (fun room => item.read room manner) room

end Form

/-! ### Lists of the tree -/

theorem readArguments_eq (room : Nat) (manner : Manner) :
    readArguments room manner = Reading.listOf (fun room => Argument.read room manner) room := by
  cases room <;> rfl

theorem readExpressions_eq (room : Nat) (manner : Manner) :
    readExpressions room manner = Reading.listOf (fun room => Expression.read room manner) room := by
  cases room <;> rfl

theorem readStatements_eq (room : Nat) (manner : Manner) :
    readStatements room manner = Reading.listOf (fun room => Statement.read room manner) room := by
  cases room <;> rfl

theorem readDeclarations_eq (room : Nat) (manner : Manner) :
    readDeclarations room manner = Reading.listOf (fun room => Declaration.read room manner) room := by
  cases room <;> rfl

/-! ### Parts that are edited -/

/-- A part is spelled in another way, and read as the same. -/
structure Respelled (room : Nat) (manner : Manner) (form : Form) (value value' : Reading) : Prop where
  edit : Edit form manner room value value'
  keeps : Keeps (form.read room manner value) (form.read room manner value')

section

variable {room : Nat} {manner : Manner} {form : Form} {value value' : Reading}

theorem Edit.ne_null (h : Edit form manner room value value') : value ≠ .null ∧ value' ≠ .null := by
  cases h <;> simp

namespace Json.Reading

theorem loadingFault?_list {items : List Reading} {ending : ListEnd} :
    (list items ending).loadingFault? (room + 1) = none ↔
      (∀ item ∈ items, item.loadingFault? room = none) ∧ ending.fault? = none := by
  rw [loadingFault?, Option.or_eq_none_iff, List.findSome?_eq_none_iff]

theorem loadingFault?_object {members : List Member} {ending : ObjectEnd} :
    (object members ending).loadingFault? (room + 1) = none ↔
      (∀ m ∈ members, m.name.token.fault? = none ∧ m.value.loadingFault? room = none) ∧
        ending.fault? = none := by
  simp [loadingFault?, List.findSome?_eq_none_iff]

end Json.Reading

theorem Json.Member.fault?_of_isNamed {name : String} {member : Member} (h : member.isNamed name) :
    member.name.token.fault? = none := by
  rw [Json.Token.fault?, isNamed_iff.1 h]

/-- What can be read in full can still be read in full after an edit. -/
theorem Edit.loadingFault? (h : Edit form manner room value value') :
    value.loadingFault? room = none → value'.loadingFault? room = none := by
  induction h with
  | reorder _ hperm =>
      simp only [Reading.loadingFault?_object, hperm.mem_iff]
      exact id
  | drop =>
      simp only [Reading.loadingFault?_object, List.forall_mem_append, List.forall_mem_cons]
      tauto
  | add _ hname _ hvalue =>
      have hname := Member.fault?_of_isNamed hname
      have hvalue := hvalue.loadingFault?
      simp only [Reading.loadingFault?_object, List.forall_mem_append, List.forall_mem_cons]
      tauto
  | field _ _ _ _ _ ih =>
      simp only [Reading.loadingFault?_object, List.forall_mem_append, List.forall_mem_cons]
      tauto
  | item _ _ _ _ ih =>
      simp only [Reading.loadingFault?_list, List.forall_mem_append, List.forall_mem_cons]
      tauto
  | listItem _ ih =>
      simp only [Reading.loadingFault?_list, List.forall_mem_append, List.forall_mem_cons]
      tauto
  | lambdaExpression _ _ ih =>
      simp only [Reading.loadingFault?_object, List.forall_mem_cons]
      tauto
  | lambdaBlock _ _ ih =>
      simp only [Reading.loadingFault?_object, List.forall_mem_cons]
      tauto
  | mapValue _ ih =>
      simp only [Reading.loadingFault?_object, List.forall_mem_append, List.forall_mem_cons]
      tauto

theorem Respelled.optional (h : Respelled room manner form value value') :
    Keeps (value.optional (form.read room manner)) (value'.optional (form.read room manner)) := by
  obtain ⟨hne, hne'⟩ := h.edit.ne_null
  intro o ho
  obtain ⟨rfl, -⟩ | ⟨-, a, ha, rfl⟩ := Reading.optional_eq_ok.1 ho
  · exact absurd rfl hne
  · exact Reading.optional_eq_ok.2 (.inr ⟨hne', a, h.keeps a ha, rfl⟩)

end

/-! ### What is left out -/

namespace Default

variable {room : Nat} {manner : Manner} {value : Reading} {α : Type}

theorem eq_of_null (h : null.IsSpelledBy room manner value) {decode : Reading → Except Error α}
    {o : Option α} (ho : value.optional decode = .ok o) : none = o := by
  obtain rfl : value = .null := h
  exact Except.ok.inj ho

theorem eq_of_emptyList (h : emptyList.IsSpelledBy room manner value)
    {decode : Nat → Reading → Except Error α} {as : List α}
    (has : value.listOf decode room = .ok as) : [] = as := by
  obtain rfl : value = .list [] .closed := h
  obtain ⟨_, _, _, rfl, ⟨⟩, -, ⟨⟩⟩ := Reading.listOf_eq_ok.1 has
  rfl

theorem eq_of_emptyMap (h : emptyMap.IsSpelledBy room manner value) {m : SortedMap NodeId Symbol}
    (hm : SymbolTable.readMap manner room value = .ok m) : SortedMap.empty = m := by
  obtain rfl : value = .object [] .closed := h
  obtain ⟨_, _, _, _, rfl, ⟨⟩, -, hread, rfl⟩ := Reading.map_eq_ok.1 hm
  cases Reading.entries_eq_ok.1 hread
  rfl

theorem eq_of_emptyText (h : emptyText.IsSpelledBy room manner value) {s : String}
    (hs : value.string = .ok s) : "" = s := by
  obtain ⟨token, rfl, htoken⟩ := h
  obtain ⟨_, ⟨⟩, hs⟩ := Reading.string_eq_ok.1 hs
  exact Except.ok.inj (htoken.symm.trans hs)

theorem eq_of_no (h : no.IsSpelledBy room manner value) {b : Bool}
    (hb : value.boolean = .ok b) : false = b := by
  obtain rfl : value = .bool false := h
  exact Except.ok.inj hb

theorem eq_of_byValue (h : byValue.IsSpelledBy room manner value) {kind : RefKind}
    (hk : RefKind.read room manner value = .ok kind) : RefKind.byValue = kind :=
  Except.ok.inj (Eq.trans (Eq.symm h) hk)

theorem eq_of_zeroSpan (h : zeroSpan.IsSpelledBy room manner value) {span : Span}
    (hs : Span.read room manner value = .ok span) : Span.zero = span :=
  Except.ok.inj (Eq.trans (Eq.symm h) hs)

end Default

/-! ### Sorts of fields -/

namespace Slots.Fills

variable {room : Nat} {manner : Manner} {fields : List Field} {slots slots' : Slots Error Reading}
  {β : Type} {name : String}

theorem child (form : Form) {make make' : Placed Error (form.Meaning → β)}
    (h : Fills (Respelled room manner) room manner fields slots slots' make make')
    (hmem : Field.part name form ∈ fields := by decide) :
    Fills (Respelled room manner) room manner fields slots slots'
      (make.part (slots.required name (form.read room manner)))
      (make'.part (slots'.required name (form.read room manner))) :=
  h.inner hmem fun _ _ h => h.keeps

theorem optional (form : Form) {make make' : Placed Error (Option form.Meaning → β)}
    (h : Fills (Respelled room manner) room manner fields slots slots' make make')
    (hmem : Field.partOr name .null form ∈ fields := by decide) :
    Fills (Respelled room manner) room manner fields slots slots'
      (make.part (slots.optional name (form.read room manner)))
      (make'.part (slots'.optional name (form.read room manner))) :=
  h.innerOr hmem (fun _ _ h h' => Default.eq_of_null h h') fun _ _ h => h.optional

theorem list (form : Form) {make make' : Placed Error (List form.Meaning → β)}
    (h : Fills (Respelled room manner) room manner fields slots slots' make make')
    (hmem : Field.partOr name .emptyList (.list form) ∈ fields := by decide) :
    Fills (Respelled room manner) room manner fields slots slots'
      (make.part (slots.defaulted name []
        (Reading.listOf (fun room => form.read room manner) room)))
      (make'.part (slots'.defaulted name []
        (Reading.listOf (fun room => form.read room manner) room))) :=
  h.innerOr hmem (fun _ _ h h' => Default.eq_of_emptyList h h') fun _ _ h => h.keeps

theorem texts {make make' : Placed Error (List String → β)}
    (h : Fills (Respelled room manner) room manner fields slots slots' make make')
    (hmem : Field.plainOr name .emptyList ∈ fields := by decide) :
    Fills (Respelled room manner) room manner fields slots slots'
      (make.part (slots.defaulted name [] (Reading.strings room)))
      (make'.part (slots'.defaulted name [] (Reading.strings room))) :=
  h.plainOr hmem fun _ _ h h' => Default.eq_of_emptyList h h'

theorem flag {make make' : Placed Error (Bool → β)}
    (h : Fills (Respelled room manner) room manner fields slots slots' make make')
    (hmem : Field.plainOr name .no ∈ fields := by decide) :
    Fills (Respelled room manner) room manner fields slots slots'
      (make.part (slots.defaulted name false Reading.boolean))
      (make'.part (slots'.defaulted name false Reading.boolean)) :=
  h.plainOr hmem fun _ _ h h' => Default.eq_of_no h h'

theorem label {make make' : Placed Error (String → β)}
    (h : Fills (Respelled room manner) room manner fields slots slots' make make')
    (hmem : Field.plainOr name .emptyText ∈ fields := by decide) :
    Fills (Respelled room manner) room manner fields slots slots'
      (make.part (slots.defaulted name "" Reading.string))
      (make'.part (slots'.defaulted name "" Reading.string)) :=
  h.plainOr hmem fun _ _ h h' => Default.eq_of_emptyText h h'

theorem symbols {make make' : Placed Error (SortedMap NodeId Symbol → β)}
    (h : Fills (Respelled room manner) room manner fields slots slots' make make')
    (hmem : Field.partOr name .emptyMap .symbolMap ∈ fields := by decide) :
    Fills (Respelled room manner) room manner fields slots slots'
      (make.part (slots.defaulted name SortedMap.empty (SymbolTable.readMap manner room)))
      (make'.part (slots'.defaulted name SortedMap.empty (SymbolTable.readMap manner room))) :=
  h.innerOr hmem (fun _ _ h h' => Default.eq_of_emptyMap h h') fun _ _ h => h.keeps

theorem plainOptional {α : Type} {decode : Reading → Except Error α}
    {make make' : Placed Error (Option α → β)}
    (h : Fills (Respelled room manner) room manner fields slots slots' make make')
    (hmem : Field.plainOr name .null ∈ fields := by decide) :
    Fills (Respelled room manner) room manner fields slots slots'
      (make.part (slots.optional name decode)) (make'.part (slots'.optional name decode)) :=
  h.plainOr hmem fun _ _ h h' => Default.eq_of_null h h'

theorem span {make make' : Placed Error (Span → β)}
    (h : Fills (Respelled room manner) room manner fields slots slots' make make')
    (hmem : Field.partOr name .zeroSpan .span ∈ fields := by decide) :
    Fills (Respelled room manner) room manner fields slots slots'
      (make.part (slots.defaulted name Span.zero (Span.read room manner)))
      (make'.part (slots'.defaulted name Span.zero (Span.read room manner))) :=
  h.innerOr hmem (fun _ _ h h' => Default.eq_of_zeroSpan h h') fun _ _ h => h.keeps

end Slots.Fills

/-! ### Records and unions -/

theorem Form.exists_makes {form : Form} {fields : List Field} (hfields : form.fields? = some fields)
    (room : Nat) (manner : Manner) :
    ∃ (layout : Layout) (make : Slots Error Reading → Except Error form.Meaning),
      layout.Makes (Respelled room manner) room manner fields make ∧
        ∀ reading, form.read (room + 1) manner reading = layout.slots manner reading >>= make := by
  cases form <;> cases hfields
  -- Each record is made of its fields in turn, so edits are followed field by field.
  case snapshot =>
    refine ⟨UnitSnapshot.layout, _, ⟨by decide, rfl, fun h => ?_⟩, fun _ => rfl⟩
    exact Slots.Fills.start h _ |>.plain |>.optional .syntaxTree |>.optional .symbolTable |>.result
  case syntaxTree =>
    refine ⟨SyntaxTree.layout, _, ⟨by decide, rfl, fun h => ?_⟩, fun _ => rfl⟩
    exact Slots.Fills.start h _ |>.plain |>.child .compilationUnit |>.result
  case compilationUnit =>
    refine ⟨CompilationUnit.layout, _, ⟨by decide, rfl, fun h => ?_⟩, fun _ => rfl⟩
    rw [readDeclarations_eq]
    exact Slots.Fills.start h _ |>.plain |>.list .declaration |>.result
  case argument =>
    refine ⟨Argument.layout, _, ⟨by decide, rfl, fun h => ?_⟩, fun _ => rfl⟩
    exact Slots.Fills.start h _ |>.plain |>.plainOptional |>.child .expression |>.result
  case block =>
    refine ⟨Block.layout, _, ⟨by decide, rfl, fun h => ?_⟩, fun _ => rfl⟩
    rw [readStatements_eq]
    exact Slots.Fills.start h _ |>.plain |>.list .statement |>.result
  case span =>
    refine ⟨Span.layout, _, ⟨by decide, rfl, fun h => ?_⟩, fun _ => rfl⟩
    exact Slots.Fills.start h _ |>.plain |>.plain |>.plain |>.plain |>.result
  case symbolTable =>
    refine ⟨SymbolTable.layout, _, ⟨by decide, rfl, fun h => ?_⟩, fun _ => rfl⟩
    exact Slots.Fills.start h _ |>.symbols |>.symbols |>.result
  case methodSymbol =>
    refine ⟨MethodSymbol.layout, _, ⟨by decide, rfl, fun h => ?_⟩, fun _ => rfl⟩
    exact Slots.Fills.start h _ |>.plain |>.plain |>.texts |>.list .parameter |>.texts |>.flag
      |>.optional .methodSymbol |>.optional .methodSymbol |>.list .attributeData |>.result
  case propertySymbol =>
    refine ⟨PropertySymbol.layout, _, ⟨by decide, rfl, fun h => ?_⟩, fun _ => rfl⟩
    exact Slots.Fills.start h _ |>.plain |>.plain |>.list .parameter |>.flag |>.flag
      |>.optional .propertySymbol |>.list .attributeData |>.result
  case parameter =>
    refine ⟨Parameter.layout, _, ⟨by decide, rfl, fun h => ?_⟩, fun _ => rfl⟩
    exact Slots.Fills.start h _ |>.plain |>.plain
      |>.plainOr (by decide) (fun _ _ h h' => Default.eq_of_byValue h h') |>.result
  case attributeData =>
    refine ⟨Attribute.layout, _, ⟨by decide, rfl, fun h => ?_⟩, fun _ => rfl⟩
    exact Slots.Fills.start h _ |>.plain |>.texts |>.result

theorem ExpressionKind.offers (room : Nat) (kind : ExpressionKind) :
    Expression.union.Offers (Respelled room .loaded) room kind kind.fields
      (Expression.read (room + 1)) := by
  cases kind <;> refine ⟨_, _, _, ⟨by decide, rfl, fun h => ?_⟩, fun _ => rfl, fun _ _ => rfl⟩
  case invocation =>
    rw [readArguments_eq]
    exact Slots.Fills.start h _ |>.plain |>.child .expression |>.list .argument |>.result
  case lambda =>
    exact Slots.Fills.start h _ |>.plain |>.plain |>.texts |>.child .lambdaBody |>.result
  case memberAccess => exact Slots.Fills.start h _ |>.plain |>.child .expression |>.plain |>.result
  case elementAccess =>
    rw [readArguments_eq]
    exact Slots.Fills.start h _ |>.plain |>.child .expression |>.list .argument |>.result
  case identifier => exact Slots.Fills.start h _ |>.plain |>.plain |>.result
  case parenthesized => exact Slots.Fills.start h _ |>.plain |>.child .expression |>.result
  case objectCreation =>
    rw [readArguments_eq]
    exact Slots.Fills.start h _ |>.plain |>.plain |>.list .argument |>.result
  case literal => exact Slots.Fills.start h _ |>.plain |>.plain |>.result
  case other =>
    rw [readExpressions_eq]
    exact Slots.Fills.start h _ |>.plain |>.label |>.list .expression |>.result

theorem StatementKind.offers (room : Nat) (kind : StatementKind) :
    Statement.union.Offers (Respelled room .loaded) room kind kind.fields
      (Statement.read (room + 1)) := by
  cases kind <;> refine ⟨_, _, _, ⟨by decide, rfl, fun h => ?_⟩, fun _ => rfl, fun _ _ => rfl⟩
  case expression => exact Slots.Fills.start h _ |>.plain |>.child .expression |>.result
  case block =>
    rw [readStatements_eq]
    exact Slots.Fills.start h _ |>.plain |>.list .statement |>.result
  case branch =>
    exact Slots.Fills.start h _ |>.plain |>.child .expression |>.child .statement
      |>.optional .statement |>.result
  case loop =>
    rw [readExpressions_eq]
    exact Slots.Fills.start h _ |>.plain |>.plain |>.list .expression |>.child .statement |>.result
  case localDeclaration =>
    exact Slots.Fills.start h _ |>.plain |>.plain |>.optional .expression |>.result
  case result => exact Slots.Fills.start h _ |>.plain |>.optional .expression |>.result
  case other =>
    rw [readExpressions_eq, readStatements_eq]
    exact Slots.Fills.start h _ |>.plain |>.label |>.list .expression |>.list .statement |>.result

theorem DeclarationKind.offers (room : Nat) (kind : DeclarationKind) :
    Declaration.union.Offers (Respelled room .loaded) room kind kind.fields
      (Declaration.read (room + 1)) := by
  cases kind <;> refine ⟨_, _, _, ⟨by decide, rfl, fun h => ?_⟩, fun _ => rfl, fun _ _ => rfl⟩
  case namespaceScope =>
    rw [readDeclarations_eq]
    exact Slots.Fills.start h _ |>.plain |>.plain |>.list .declaration |>.result
  case classType =>
    rw [readDeclarations_eq]
    exact Slots.Fills.start h _ |>.plain |>.plain |>.texts |>.list .declaration |>.span |>.result
  case method =>
    exact Slots.Fills.start h _ |>.plain |>.plain |>.texts |>.optional .block
      |>.optional .expression |>.span |>.result
  case member =>
    exact Slots.Fills.start h _ |>.plain |>.plain |>.optional .expression |>.optional .block
      |>.result

/-- A symbol is made from the record of its kind. -/
theorem SymbolKind.offers_of_makes {room : Nat} {kind : SymbolKind} {layout : Layout} {α : Type}
    {make : Slots Error Reading → Except Error α} {f : α → Symbol}
    (hmake : layout.Makes (Respelled room .loaded) room .loaded kind.fields make)
    (hread : ∀ reading, Symbol.readAs (room + 1) reading kind =
      (layout.slots .loaded reading >>= make).map f) :
    Symbol.union.Offers (Respelled room .loaded) room kind kind.fields (Symbol.read (room + 1)) := by
  refine ⟨_, layout, fun slots => (make slots).map f, ?_, fun reading => ?_, fun _ _ => rfl⟩
  · exact ⟨hmake.names, hmake.isLenient, fun h => (hmake.keeps h).map f⟩
  · change Symbol.readAs (room + 1) reading kind = _
    rw [hread]
    cases layout.slots .loaded reading <;> rfl

theorem SymbolKind.offers (room : Nat) (kind : SymbolKind) :
    Symbol.union.Offers (Respelled room .loaded) room kind kind.fields (Symbol.read (room + 1)) := by
  cases kind
  case method =>
    obtain ⟨layout, make, hmake, hread⟩ := @Form.exists_makes .methodSymbol _ rfl room .loaded
    exact offers_of_makes hmake fun reading => congrArg (Except.map Symbol.method) (hread reading)
  case property =>
    obtain ⟨layout, make, hmake, hread⟩ :=
      @Form.exists_makes .propertySymbol _ rfl room .loaded
    exact offers_of_makes hmake fun reading => congrArg (Except.map Symbol.property) (hread reading)
  case type =>
    refine offers_of_makes ⟨by decide, rfl, fun h => ?_⟩ fun _ => rfl
    exact Slots.Fills.start h _ |>.plain |>.texts |>.list .attributeData |>.result
  case field =>
    refine offers_of_makes ⟨by decide, rfl, fun h => ?_⟩ fun _ => rfl
    exact Slots.Fills.start h _ |>.plain |>.plain |>.label |>.result
  case event =>
    refine offers_of_makes ⟨by decide, rfl, fun h => ?_⟩ fun _ => rfl
    exact Slots.Fills.start h _ |>.plain |>.plain |>.label |>.result
  all_goals
    refine offers_of_makes ⟨by decide, rfl, fun h => ?_⟩ fun _ => rfl
    exact Slots.Fills.start h _ |>.plain |>.plainOptional |>.result

/-! ### Edits at any depth -/

theorem Form.nodup_fields {form : Form} {fields : List Field} (h : form.fields? = some fields) :
    (fields.map Field.name).Nodup := by
  cases form <;> cases h <;> decide

theorem Form.Alternative.nodup_fields {form : Form} {manner : Manner} {tag : Reading}
    {fields : List Field} (h : form.Alternative manner tag fields) :
    ("kind" :: fields.map Field.name).Nodup := by
  cases h with
  | _ kind => cases kind <;> decide

theorem Form.Alternative.offers {form : Form} {manner : Manner} {tag : Reading}
    {fields : List Field} (h : form.Alternative manner tag fields) (room : Nat) :
    ∃ (κ : Type) (union : TaggedUnion κ) (kind : κ), union.kind manner tag = .ok kind ∧
      union.Offers (Respelled room .loaded) room kind fields (form.read (room + 1)) := by
  cases h with
  | declaration kind hkind => exact ⟨_, _, kind, hkind, kind.offers room⟩
  | statement kind hkind => exact ⟨_, _, kind, hkind, kind.offers room⟩
  | expression kind hkind => exact ⟨_, _, kind, hkind, kind.offers room⟩
  | symbol kind hkind => exact ⟨_, _, kind, hkind, kind.offers room⟩

section

variable {form : Form} {manner inner : Manner} {fields : List Field} {room : Nat}

theorem Form.Describes.nodup_names {members : List Member}
    (h : form.Describes manner members inner fields) : (fields.map Field.name).Nodup := by
  cases h with
  | record hfields => exact Form.nodup_fields hfields
  | alternative _ _ halternative => exact halternative.nodup_fields

theorem Form.Describes.keeps {members members' : List Member} {ending : ObjectEnd}
    (h : form.Describes manner members inner fields)
    (hmembers : MembersFollow (Respelled room inner) room inner fields members members') :
    Keeps (form.read (room + 1) manner (.object members ending))
      (form.read (room + 1) manner (.object members' ending)) := by
  cases h with
  | record hfields =>
      obtain ⟨layout, make, hmake, hread⟩ := Form.exists_makes hfields room manner
      rw [hread, hread]
      exact hmake.keeps_object hmembers
  | alternative hmem htag halternative =>
      obtain ⟨κ, union, kind, hkind, hoffers⟩ := halternative.offers room
      exact hoffers.keeps_object halternative.nodup_fields hmem htag hkind hmembers

theorem Form.DescribesItems.keeps {before after : List Reading} {value value' : Reading}
    {ending : ListEnd} {field : Field} {part : Form}
    (h : form.DescribesItems manner (before ++ value :: after) inner fields)
    (hfield : fields[before.length]? = some field) (hpart : field.form? = some part)
    (hvalue : Respelled room inner part value value') :
    Keeps (form.read (room + 1) manner (.list (before ++ value :: after) ending))
      (form.read (room + 1) manner (.list (before ++ value' :: after) ending)) := by
  cases h with
  | record hfields =>
      obtain ⟨layout, make, hmake, hread⟩ := Form.exists_makes hfields room manner
      rw [hread, hread]
      exact hmake.keeps_list (Form.nodup_fields hfields) hfield hpart hvalue
  | alternative htag halternative =>
      obtain ⟨κ, union, kind, hkind, hoffers⟩ := halternative.offers room
      exact hoffers.keeps_list halternative.nodup_fields htag hkind hfield hpart hvalue
        hvalue.edit.loadingFault?

end

section

variable {α κ : Type} {decode : Reading → Except Error α} {value value' : Reading}

theorem Keeps.entries (h : Keeps (decode value) (decode value')) {key : Json.Name → Except Error κ}
    {name : Json.Name} (before after : List Member) :
    Keeps (Reading.entries key decode (before ++ ⟨name, value⟩ :: after))
      (Reading.entries key decode (before ++ ⟨name, value'⟩ :: after)) := by
  induction before with
  | nil =>
      simp only [List.nil_append, Reading.entries]
      exact (Keeps.refl _).bind fun _ => h.bind fun _ => Keeps.refl _
  | cons first before ih =>
      simp only [List.cons_append, Reading.entries]
      exact (Keeps.refl _).bind fun _ => (Keeps.refl _).bind fun _ => ih.bind fun _ => Keeps.refl _

theorem Keeps.items (h : Keeps (decode value) (decode value')) (before after : List Reading)
    (ending : ListEnd) :
    Keeps ((Reading.list (before ++ value :: after) ending).items decode)
      ((Reading.list (before ++ value' :: after) ending).items decode) := by
  intro as has
  obtain ⟨_, _, ⟨⟩, hend, hall⟩ := Reading.items_eq_ok.1 has
  have hmap := h.mapM before after as (mapM_eq_ok.2 hall)
  exact Reading.items_eq_ok.2 ⟨_, ending, rfl, hend, mapM_eq_ok.1 hmap⟩

theorem Keeps.choice {names : Names κ} {decode : κ → Option Reading → Except Error α} {kind : κ}
    {spelled : String} {name : Json.Name} {ending : ObjectEnd} {room : Nat} {manner : Manner}
    (hname : Member.isNamed spelled ⟨name, value⟩) (hkind : Json.named names spelled = .ok kind)
    (h : Keeps (decode kind (some value)) (decode kind (some value'))) :
    Keeps ((Reading.object [⟨name, value⟩] ending).choice names decode room manner)
      ((Reading.object [⟨name, value'⟩] ending).choice names decode room manner) := by
  intro a ha
  obtain ⟨_, _, _, ⟨⟩, -⟩ | ⟨only, _, found, kind', ⟨⟩, hfound, hkind', hdecode, hroom⟩ :=
    Reading.choice_eq_ok.1 ha
  obtain rfl : spelled = found := by
    rw [Json.Token.decode, Member.isNamed_iff.1 hname] at hfound
    exact Except.ok.inj hfound
  obtain rfl : kind = kind' := Except.ok.inj (hkind.symm.trans hkind')
  exact Reading.choice_eq_ok.2 (.inr ⟨_, ending, spelled, kind, rfl, hfound, hkind, h a hdecode, hroom⟩)

end

/-- One edit, however deep, leaves alone what is read. -/
theorem Edit.keeps {form : Form} {manner : Manner} {room : Nat} {value value' : Reading}
    (h : Edit form manner room value value') :
    Keeps (form.read room manner value) (form.read room manner value') := by
  induction h with
  | reorder hdescribes hperm => exact hdescribes.keeps (.reorder hperm)
  | drop hdescribes hfield hname hdefault hvalue =>
      exact hdescribes.keeps (.drop hdescribes.nodup_names hfield hname hdefault hvalue)
  | add hdescribes hname hnew hvalue => exact hdescribes.keeps (.add hname hnew hvalue)
  | field hdescribes hfield hname hpart hedit ih =>
      exact hdescribes.keeps (.edit hdescribes.nodup_names hfield hname hpart ⟨hedit, ih⟩
        hedit.loadingFault?)
  | item hdescribes hfield hpart hedit ih => exact hdescribes.keeps hfield hpart ⟨hedit, ih⟩
  | listItem _ ih => exact Keeps.items ih _ _ _
  | lambdaExpression hname _ ih => exact Keeps.choice hname rfl (ih.map LambdaBody.expression)
  | lambdaBlock hname _ ih => exact Keeps.choice hname rfl (ih.map LambdaBody.block)
  | mapValue _ ih => exact (Keeps.entries ih _ _).bind fun _ => Keeps.refl _

namespace UnitSnapshot

theorem parse_of_respells {text text' : String} (h : Respells text text')
    {s : UnitSnapshot} (hs : parse text = .ok s) : parse text' = .ok s := by
  obtain ⟨htrailing, hedits⟩ := h
  obtain ⟨hread, -⟩ := Json.decode_eq_ok.1 hs
  refine Json.decode_eq_ok.2 ⟨?_, htrailing⟩
  clear htrailing
  generalize (Json.readText text').content = content' at hedits ⊢
  induction hedits with
  | refl => exact hread
  | tail _ hedit ih => exact hedit.keeps s ih

/-- A file with one namespace, which could not be bound. -/
def unbound : UnitSnapshot :=
  ⟨"A.cs", some ⟨"A.cs", ⟨0, [.namespaceScope ⟨1, "N", []⟩]⟩⟩, none⟩

/-- What the file has, with its namespace spelled in the given way. -/
def unboundAround (scope : Json) : List (String × Json) :=
  [("path", .text "A.cs"), ("tree", .object [("path", .text "A.cs"),
    ("root", .object [("id", .number 0), ("members", .list [scope])])])]

/-- The same file without what has its default, with the kind at the end and with a member that
nobody asks for. -/
def unboundTersely : Json :=
  .object (("version", .number 7) ::
    unboundAround (.object [("id", .number 1), ("name", .text "N"), ("kind", .text "namespace")]))

theorem edit_unboundAround {scope scope' : Json} (first : String × Json)
    (h : Edit .declaration .direct 123 scope.reading scope'.reading) :
    Edit .snapshot .direct 127 (Json.object (first :: unboundAround scope)).reading
      (Json.object (first :: unboundAround scope')).reading := by
  refine @Edit.field _ _ 126 _ _ _ [_, _] [] _ _ _ (.partOr "tree" .null .syntaxTree) _ (.record rfl)
    (by decide) rfl rfl ?_
  refine @Edit.field _ _ 125 _ _ _ [_] [] _ _ _ (.part "root" .compilationUnit) _ (.record rfl)
    (by decide) rfl rfl ?_
  refine @Edit.field _ _ 124 _ _ _ [_] [] _ _ _ (.partOr "members" .emptyList (.list .declaration)) _
    (.record rfl) (by decide) rfl rfl ?_
  exact @Edit.listItem _ _ _ _ [] [] _ _ h

theorem respells_unboundTersely : Respells unbound.render unboundTersely.pretty := by
  let full := Json.object
    [("kind", .text "namespace"), ("id", .number 1), ("name", .text "N"), ("members", .list [])]
  let brief := Json.object [("kind", .text "namespace"), ("id", .number 1), ("name", .text "N")]
  let turned := Json.object [("id", .number 1), ("name", .text "N"), ("kind", .text "namespace")]
  have hmodel : Edit .snapshot .direct 127 unbound.toJson.reading
      (Json.object (unboundAround full)).reading :=
    @Edit.drop _ _ 126 _ _ _ [_, _] [] _ (.partOr "model" .null .symbolTable) _
      (.record rfl) (by decide) rfl rfl rfl
  have hversion : Edit .snapshot .direct 127 (Json.object (unboundAround full)).reading
      (Json.object (("version", .number 7) :: unboundAround full)).reading := by
    have hvalue : (Json.number 7).reading.IsReadable 126 :=
      ⟨⟨_, Json.readText_pretty (by simp [Json.maxNatural])⟩, rfl⟩
    exact @Edit.add _ _ 126 _ _ _ [] _ _ "version" (.record rfl) rfl (by decide) hvalue
  have hmembers : Edit .declaration .direct 123 full.reading brief.reading :=
    @Edit.drop _ _ 122 _ _ _ [_, _, _] [] _ (.partOr "members" .emptyList (.list .declaration)) _
      (.alternative List.mem_cons_self rfl (.declaration .namespaceScope rfl)) (by decide) rfl rfl rfl
  have hkind : Edit .declaration .direct 123 brief.reading turned.reading :=
    .reorder (.alternative List.mem_cons_self rfl (.declaration .namespaceScope rfl))
      (@List.perm_append_comm _ [_] [_, _])
  have hread : Json.readText unbound.render = ⟨unbound.toJson.reading, none⟩ :=
    Json.readText_pretty (inRange_of_writes unbound.writes_toJson)
  have hread' : Json.readText unboundTersely.pretty = ⟨unboundTersely.reading, none⟩ :=
    Json.readText_pretty (by simp [unboundTersely, unboundAround, Json.maxNatural])
  rw [Respells, hread, hread']
  refine ⟨rfl, .head hmodel (.head hversion (.head (edit_unboundAround _ hmembers) (.single ?_)))⟩
  exact edit_unboundAround _ hkind

theorem parse_unboundTersely :
    Respells unbound.render unboundTersely.pretty ∧ parse unbound.render = .ok unbound ∧
      parse unboundTersely.pretty = .ok unbound := by
  have hparse : parse unbound.render = .ok unbound :=
    parse_of_writes unbound.writes_toJson (by decide)
  exact ⟨respells_unboundTersely, hparse, parse_of_respells respells_unboundTersely hparse⟩

end UnitSnapshot

end SafeCalls
