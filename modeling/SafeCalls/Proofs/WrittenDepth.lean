import SafeCalls.Proofs.RecordParts
import SafeCalls.Proofs.SnapshotForm

namespace SafeCalls

/-!
# How deep a snapshot is written

A field that a text leaves out is written all the same, and an empty list, an empty map or a span
opens a level where the text had none. One level is all that this can add: what is read from a text
is written at most one level deeper than the text nests, and at most one level deeper than there was
room for reading it.
-/

open Json (Error Manner Member Reading TaggedUnion nestingMembers nesting_object nesting_list
  nestingItems_le_iff nestingMembers_le_iff nesting_texts_le)

/-! ### The depth of a reading -/

namespace Json.Reading

mutual

/-- How many lists and objects of a text stand inside one another. -/
def nesting : Reading → Nat
  | .list items _ => itemsNesting items + 1
  | .object members _ => membersNesting members + 1
  | _ => 0

def itemsNesting : List Reading → Nat
  | [] => 0
  | item :: more => max (nesting item) (itemsNesting more)

def membersNesting : List Member → Nat
  | [] => 0
  | ⟨_, value⟩ :: more => max (nesting value) (membersNesting more)

end

theorem itemsNesting_le_iff {items : List Reading} {n : Nat} :
    itemsNesting items ≤ n ↔ ∀ item ∈ items, item.nesting ≤ n := by
  induction items with
  | nil => simp [itemsNesting]
  | cons item more ih => rw [itemsNesting, List.forall_mem_cons, ← ih, Nat.max_le]

theorem membersNesting_cons (m : Member) (more : List Member) :
    membersNesting (m :: more) = max m.value.nesting (membersNesting more) := by
  cases m
  rfl

theorem membersNesting_le_iff {members : List Member} {n : Nat} :
    membersNesting members ≤ n ↔ ∀ m ∈ members, m.value.nesting ≤ n := by
  induction members with
  | nil => simp [membersNesting]
  | cons m more ih => rw [membersNesting_cons, List.forall_mem_cons, ← ih, Nat.max_le]

end Json.Reading

namespace Json

mutual

theorem nesting_reading : ∀ v : Json, v.reading.nesting = v.nesting
  | .null => rfl
  | .bool _ => rfl
  | .number _ => rfl
  | .text _ => rfl
  | .list items => congrArg (· + 1) (itemsNesting_readingItems items)
  | .object members => congrArg (· + 1) (membersNesting_readingMembers members)

theorem itemsNesting_readingItems : ∀ items : List Json,
    Reading.itemsNesting (readingItems items) = nestingItems items
  | [] => rfl
  | item :: more => by
      rw [readingItems, Reading.itemsNesting, nestingItems, nesting_reading item,
        itemsNesting_readingItems more]

theorem membersNesting_readingMembers : ∀ members : List (String × Json),
    Reading.membersNesting (readingMembers members) = nestingMembers members
  | [] => rfl
  | (_, value) :: more => by
      rw [readingMembers, Reading.membersNesting, nestingMembers, nesting_reading value,
        membersNesting_readingMembers more]

end

end Json

/-! ### Decoders that add one level at most -/

/-- What is decoded from a reading is written at most one level deeper than the reading nests, and
at most one level deeper than the room. -/
def AddsOneLevel {α : Type} (room : Nat) (write : α → Json) (decode : Reading → Except Error α) :
    Prop :=
  ∀ r a, decode r = .ok a → (write a).nesting ≤ min room r.nesting + 1

namespace AddsOneLevel

variable {α : Type} {room : Nat} {write : α → Json} {decode : Reading → Except Error α}

theorem of_nesting_le_one (h : ∀ a, (write a).nesting ≤ 1) (decode : Reading → Except Error α) :
    AddsOneLevel room write decode :=
  fun _ a _ => Nat.le_trans (h a) (Nat.le_add_left 1 _)

theorem strings (room : Nat) : AddsOneLevel room Json.texts (Reading.strings room) :=
  of_nesting_le_one nesting_texts_le _

theorem nestingItems_le (h : AddsOneLevel room write decode) {readings : List Reading} {as : List α}
    (hitems : List.Forall₂ (fun r a => decode r = .ok a) readings as) :
    Json.nestingItems (as.map write) ≤ min room (Reading.itemsNesting readings) + 1 := by
  induction hitems with
  | nil => exact Nat.zero_le _
  | cons hitem _ ih =>
      have hfirst := h _ _ hitem
      rw [List.map_cons, Json.nestingItems, Reading.itemsNesting]
      omega

theorem items (h : AddsOneLevel room write decode) :
    AddsOneLevel (room + 1) (fun as => Json.list (as.map write)) (Reading.items decode) := by
  intro r as hread
  obtain ⟨readings, ending, rfl, -, hitems⟩ := Reading.items_eq_ok.1 hread
  have hnesting := h.nestingItems_le hitems
  rw [nesting_list, Reading.nesting]
  omega

theorem listOf {decode : Nat → Reading → Except Error α}
    (h : ∀ room, AddsOneLevel room write (decode room)) (room : Nat) :
    AddsOneLevel room (fun as => Json.list (as.map write)) (Reading.listOf decode room) := by
  cases room with
  | zero => intro _ _ hread; cases hread
  | succ room => exact (h room).items

theorem nesting_entry_le (h : AddsOneLevel room write decode) {κ : Type}
    {key : Json.Name → Except Error κ} {members : List Member} {entries : List (κ × α)}
    (hentries : List.Forall₂ (fun m e => key m.name = .ok e.1 ∧ decode m.value = .ok e.2)
      members entries) :
    ∀ e ∈ entries, (write e.2).nesting ≤ min room (Reading.membersNesting members) + 1 := by
  induction hentries with
  | nil => simp
  | cons hentry _ ih =>
      have hfirst := h _ _ hentry.2
      rw [List.forall_mem_cons, Reading.membersNesting_cons]
      refine ⟨by omega, fun e he => ?_⟩
      have hmore := ih e he
      omega

end AddsOneLevel

/-! ### Records -/

/-- The values that are given to fields nest so deep at most. -/
def Slots.Within (slots : Slots Error Reading) (n : Nat) : Prop :=
  ∀ field place value, slots.slot field = .filled place value → value.nesting ≤ n

namespace Slots.Within

variable {slots : Slots Error Reading} {n room : Nat} {field : String} {α : Type}
  {write : α → Json} {decode : Reading → Except Error α} {a : α}

theorem required (h : slots.Within n) (hread : slots.required field decode = .ok a)
    (hdecode : AddsOneLevel room write decode) : (write a).nesting ≤ min room n + 1 := by
  obtain ⟨place, value, hslot, hvalue⟩ := Slots.required_eq_ok.1 hread
  have hdeep := h field place value hslot
  have hwrite := hdecode value a hvalue
  omega

theorem defaulted {default : α} (h : slots.Within n)
    (hread : slots.defaulted field default decode = .ok a)
    (hdecode : AddsOneLevel room write decode) (hdefault : (write default).nesting ≤ 1) :
    (write a).nesting ≤ min room n + 1 := by
  obtain ⟨place, value, hslot, hvalue⟩ | ⟨-, rfl⟩ := Slots.defaulted_eq_ok.1 hread
  · have hdeep := h field place value hslot
    have hwrite := hdecode value a hvalue
    omega
  · exact Nat.le_trans hdefault (Nat.le_add_left 1 _)

theorem optional {o : Option α} (h : slots.Within n) (hread : slots.optional field decode = .ok o)
    (hdecode : AddsOneLevel room write decode) :
    (Json.optional write o).nesting ≤ min room n + 1 := by
  refine h.defaulted hread (fun r o hread => ?_) (Nat.zero_le _)
  obtain ⟨-, rfl⟩ | ⟨-, a, ha, rfl⟩ := Reading.optional_eq_ok.1 hread
  · exact Nat.zero_le _
  · exact hdecode r a ha

end Slots.Within

theorem Json.Member.nesting_of_find? {field : String} {members : List Member} {place : Nat}
    {value : Reading} (h : Member.find? field members = some (place, value)) :
    value.nesting ≤ Reading.membersNesting members := by
  induction members generalizing place with
  | nil => cases h
  | cons m more ih =>
      rw [Reading.membersNesting_cons]
      rw [Member.find?] at h
      split at h
      · obtain ⟨-, rfl⟩ := Prod.mk.inj (Option.some.inj h)
        exact Nat.le_max_left _ _
      · obtain ⟨⟨place, v'⟩, hfind, heq⟩ := Option.map_eq_some_iff.1 h
        obtain ⟨-, rfl⟩ := Prod.mk.inj heq
        exact Nat.le_trans (ih hfind) (Nat.le_max_right _ _)

/-- A record takes one level for itself. -/
theorem Layout.exists_within {layout : Layout} {manner : Manner} {reading : Reading}
    {slots : Slots Error Reading} (h : layout.slots manner reading = .ok slots) :
    ∃ n, reading.nesting = n + 1 ∧ slots.Within n := by
  cases reading with
  | object members ending =>
      obtain rfl := Except.ok.inj h
      refine ⟨_, rfl, fun field place value hslot => ?_⟩
      simp only [ofObject] at hslot
      split at hslot
      · next hfind =>
          obtain ⟨-, rfl⟩ := Slot.filled.inj hslot
          exact Member.nesting_of_find? hfind
      · cases hslot
  | list items ending =>
      obtain rfl := Except.ok.inj h
      refine ⟨_, rfl, fun field place value hslot => ?_⟩
      simp only [ofList] at hslot
      split at hslot
      · next hitem =>
          obtain ⟨-, rfl⟩ := Slot.filled.inj hslot
          exact Reading.itemsNesting_le_iff.1 (Nat.le_refl _) _ (List.mem_of_getElem? hitem)
      · cases hslot
  | _ => cases h

/-- What a record makes of its fields is written at most two levels deeper than they nest: one is
the record, and one may be missing in the text. -/
theorem Layout.nesting_le_of_slots {α : Type} {layout : Layout} {manner : Manner} {room : Nat}
    {reading : Reading} {make : Slots Error Reading → Except Error α} {a : α} {v : Json}
    (h : layout.slots manner reading >>= make = .ok a)
    (hmake : ∀ slots n, slots.Within n → make slots = .ok a → v.nesting ≤ min room n + 2) :
    v.nesting ≤ min (room + 1) reading.nesting + 1 := by
  obtain ⟨slots, hslots, hparts⟩ := bind_eq_ok.1 h
  obtain ⟨n, hn, hwithin⟩ := exists_within hslots
  have hv := hmake slots n hwithin hparts
  omega

theorem Json.TaggedUnion.nesting_split_le {κ : Type} {union : TaggedUnion κ} {manner : Manner}
    {room : Nat} {reading fields : Reading} {k : κ}
    (h : union.split manner room reading = .ok (k, fields)) : fields.nesting ≤ reading.nesting := by
  obtain ⟨members, ending, others, rfl, rfl, hsplit⟩ | ⟨items, ending, rest, rfl, rfl, hsplit⟩ :=
    split_eq_ok.1 h
  · obtain ⟨-, -, rfl, -⟩ := splitMembers_eq_ok.1 hsplit
    refine Nat.succ_le_succ (Reading.membersNesting_le_iff.2 fun m hm => ?_)
    exact Reading.membersNesting_le_iff.1 (Nat.le_refl _) m (List.mem_filter.1 hm).1
  · obtain ⟨-, tag, rfl, -⟩ := splitItems_eq_ok.1 hsplit
    exact Nat.succ_le_succ (Nat.le_max_right _ _)

/-! ### Symbols -/

theorem Parameter.addsOneLevel (room : Nat) (manner : Manner) :
    AddsOneLevel room Parameter.toJson (Parameter.read room manner) := by
  apply AddsOneLevel.of_nesting_le_one
  intro p
  cases h : p.refKind <;>
    simp [Parameter.toJson, RefKind.toJson, h, nesting_object, nestingMembers]

theorem Attribute.addsOneLevel (room : Nat) (manner : Manner) :
    AddsOneLevel room Attribute.toJson (Attribute.read room manner) := by
  intro r a hread
  cases room with
  | zero => cases hread
  | succ room =>
      refine Layout.nesting_le_of_slots hread fun slots n h hparts => ?_
      simp only [Placed.result_eq_ok, Placed.part_eq_ok, Slots.fill_eq_ok] at hparts
      obtain ⟨_, arguments, ⟨_, _, ⟨-, rfl⟩, -, rfl⟩, harguments, rfl⟩ := hparts
      have harguments := h.defaulted harguments (.strings room) (by decide)
      simp only [toJson, nesting_object, nestingMembers, Json.nesting]
      omega

theorem parameters_addOneLevel (room : Nat) (manner : Manner) :
    AddsOneLevel room (fun ps => Json.list (ps.map Parameter.toJson))
      (Reading.listOf (fun room => Parameter.read room manner) room) :=
  .listOf (fun room => Parameter.addsOneLevel room manner) room

theorem attributes_addOneLevel (room : Nat) (manner : Manner) :
    AddsOneLevel room (fun as => Json.list (as.map Attribute.toJson))
      (Reading.listOf (fun room => Attribute.read room manner) room) :=
  .listOf (fun room => Attribute.addsOneLevel room manner) room

theorem MethodSymbol.addsOneLevel (room : Nat) (manner : Manner) :
    AddsOneLevel room MethodSymbol.toJson (MethodSymbol.read room manner) := by
  induction room with
  | zero =>
      intro r a hread
      cases hread
  | succ room ih =>
      intro r m hread
      refine Layout.nesting_le_of_slots hread fun slots n h hparts => ?_
      simp only [Placed.result_eq_ok, Placed.part_eq_ok, Slots.fill_eq_ok] at hparts
      obtain ⟨_, attributes, ⟨_, reduced, ⟨_, generic, ⟨_, _, ⟨_, typeArguments, ⟨_, parameters,
        ⟨_, typeParameters, ⟨_, _, ⟨_, _, ⟨-, rfl⟩, -, rfl⟩, -, rfl⟩, htypeParameters, rfl⟩,
        hparameters, rfl⟩, htypeArguments, rfl⟩, -, rfl⟩, hgeneric, rfl⟩, hreduced, rfl⟩,
        hattributes, rfl⟩ := hparts
      have htypeParameters := h.defaulted htypeParameters (.strings room) (by decide)
      have hparameters := h.defaulted hparameters (parameters_addOneLevel room manner) (by decide)
      have htypeArguments := h.defaulted htypeArguments (.strings room) (by decide)
      have hgeneric := h.optional hgeneric ih
      have hreduced := h.optional hreduced ih
      have hattributes := h.defaulted hattributes (attributes_addOneLevel room manner) (by decide)
      simp only [toJson, members, linkToJson_eq_optional, nesting_object, nestingMembers,
        Json.nesting] at hparameters hattributes ⊢
      omega

theorem PropertySymbol.addsOneLevel (room : Nat) (manner : Manner) :
    AddsOneLevel room PropertySymbol.toJson (PropertySymbol.read room manner) := by
  induction room with
  | zero =>
      intro r a hread
      cases hread
  | succ room ih =>
      intro r p hread
      refine Layout.nesting_le_of_slots hread fun slots n h hparts => ?_
      simp only [Placed.result_eq_ok, Placed.part_eq_ok, Slots.fill_eq_ok] at hparts
      obtain ⟨_, attributes, ⟨_, generic, ⟨_, _, ⟨_, _, ⟨_, parameters, ⟨_, _, ⟨_, _, ⟨-, rfl⟩,
        -, rfl⟩, -, rfl⟩, hparameters, rfl⟩, -, rfl⟩, -, rfl⟩, hgeneric, rfl⟩, hattributes, rfl⟩ :=
        hparts
      have hparameters := h.defaulted hparameters (parameters_addOneLevel room manner) (by decide)
      have hgeneric := h.optional hgeneric ih
      have hattributes := h.defaulted hattributes (attributes_addOneLevel room manner) (by decide)
      simp only [toJson, members, linkToJson_eq_optional, nesting_object, nestingMembers,
        Json.nesting] at hparameters hattributes ⊢
      omega

theorem TypeSymbol.addsOneLevel (room : Nat) (manner : Manner) :
    AddsOneLevel room (fun t => Json.object t.members) (TypeSymbol.read room manner) := by
  intro r t hread
  cases room with
  | zero => cases hread
  | succ room =>
      refine Layout.nesting_le_of_slots hread fun slots n h hparts => ?_
      simp only [Placed.result_eq_ok, Placed.part_eq_ok, Slots.fill_eq_ok] at hparts
      obtain ⟨_, attributes, ⟨_, bases, ⟨_, _, ⟨-, rfl⟩, -, rfl⟩, hbases, rfl⟩, hattributes, rfl⟩ :=
        hparts
      have hbases := h.defaulted hbases (.strings room) (by decide)
      have hattributes := h.defaulted hattributes (attributes_addOneLevel room manner) (by decide)
      simp only [members, nestingMembers, Json.nesting] at hattributes ⊢
      omega

theorem MemberSymbol.nesting_members_le (m : MemberSymbol) : (Json.object m.members).nesting ≤ 1 := by
  simp [members, nesting_object, nestingMembers]

theorem ValueSymbol.nesting_members_le (v : ValueSymbol) : (Json.object v.members).nesting ≤ 1 := by
  cases h : v.typeName <;> simp [members, h, Json.optional, nestingMembers, Json.nesting]

namespace Symbol

theorem nesting_toJson (symbol : Symbol) :
    symbol.toJson.nesting = (Json.object symbol.members).nesting := by
  rw [toJson, SymbolKind.toJson, nesting_object, nesting_object, nestingMembers]
  exact congrArg (· + 1) (Nat.zero_max _)

theorem readAs_addsOneLevel (room : Nat) (kind : SymbolKind) :
    AddsOneLevel room (fun s => Json.object s.members) fun fields => readAs room fields kind := by
  intro fields symbol hread
  cases kind with
  | method =>
      obtain ⟨m, hm, rfl⟩ := map_eq_ok.1 hread
      exact MethodSymbol.addsOneLevel room .loaded fields m hm
  | property =>
      obtain ⟨p, hp, rfl⟩ := map_eq_ok.1 hread
      exact PropertySymbol.addsOneLevel room .loaded fields p hp
  | type =>
      obtain ⟨t, ht, rfl⟩ := map_eq_ok.1 hread
      exact TypeSymbol.addsOneLevel room .loaded fields t ht
  | field | event =>
      obtain ⟨m, -, rfl⟩ := map_eq_ok.1 hread
      exact Nat.le_trans m.nesting_members_le (Nat.le_add_left 1 _)
  | localVariable | parameter | namespaceName =>
      obtain ⟨v, -, rfl⟩ := map_eq_ok.1 hread
      exact Nat.le_trans v.nesting_members_le (Nat.le_add_left 1 _)

theorem addsOneLevel (room : Nat) (manner : Manner) :
    AddsOneLevel room Symbol.toJson (Symbol.read room manner) := by
  intro r symbol hread
  cases room with
  | zero => cases hread
  | succ inside =>
      obtain ⟨⟨kind, fields⟩, hsplit, hfields⟩ := bind_eq_ok.1 hread
      have hle := TaggedUnion.nesting_split_le hsplit
      have hsymbol : (Json.object symbol.members).nesting ≤ min (inside + 1) fields.nesting + 1 :=
        readAs_addsOneLevel (inside + 1) kind fields symbol hfields
      rw [nesting_toJson]
      omega

end Symbol

theorem SortedMap.mem_of_mem_ofList {κ α : Type} [KeyOrder κ] {entries : List (κ × α)} {e : κ × α}
    (h : e ∈ (ofList entries).entries) : e ∈ entries := by
  have hfold : ∀ (added : List (κ × α)) (m : SortedMap κ α),
      e ∈ (added.foldl (fun m e => m.insert e.1 e.2) m).entries → e ∈ added ∨ e ∈ m.entries := by
    intro added
    induction added with
    | nil =>
        intro m h
        exact .inr h
    | cons first more ih =>
        intro m h
        obtain hmore | hinsert := ih _ h
        · exact .inl (List.mem_cons_of_mem _ hmore)
        · obtain rfl | hold := mem_of_mem_insertEntry hinsert
          · exact .inl List.mem_cons_self
          · exact .inr hold
  exact (hfold entries empty h).resolve_right List.not_mem_nil

namespace SymbolTable

theorem readMap_addsOneLevel (room : Nat) (manner : Manner) :
    AddsOneLevel room mapToJson (readMap manner room) := by
  intro r m hread
  obtain ⟨inside, members, ending, entries, rfl, rfl, -, hentries, rfl⟩ :=
    Reading.map_eq_ok.1 hread
  have hsymbols :=
    (Symbol.addsOneLevel inside manner).nesting_entry_le (Reading.entries_eq_ok.1 hentries)
  have hmap : (mapToJson (SortedMap.ofList entries)).nesting ≤
      min inside (Reading.membersNesting members) + 2 := by
    refine Nat.succ_le_succ (nestingMembers_le_iff.2 fun m hm => ?_)
    obtain ⟨e, he, rfl⟩ := List.mem_map.1 hm
    exact hsymbols e (SortedMap.mem_of_mem_ofList he)
  rw [Reading.nesting]
  omega

theorem addsOneLevel (room : Nat) (manner : Manner) :
    AddsOneLevel room SymbolTable.toJson (SymbolTable.read room manner) := by
  intro r t hread
  cases room with
  | zero => cases hread
  | succ room =>
      refine Layout.nesting_le_of_slots hread fun slots n h hparts => ?_
      simp only [Placed.result_eq_ok, Placed.part_eq_ok, Slots.fill_eq_ok] at hparts
      obtain ⟨_, declarations, ⟨_, bindings, ⟨-, rfl⟩, hbindings, rfl⟩, hdeclarations, rfl⟩ := hparts
      have hbindings := h.defaulted hbindings (readMap_addsOneLevel room manner) (by decide)
      have hdeclarations := h.defaulted hdeclarations (readMap_addsOneLevel room manner) (by decide)
      simp only [toJson, nesting_object, nestingMembers]
      omega

end SymbolTable

/-! ### Source trees -/

theorem Span.nesting_toJson_le (s : Span) : s.toJson.nesting ≤ 1 := by
  simp [Span.toJson, nesting_object, nestingMembers, Json.nesting]

@[simp] theorem nesting_ofId (id : NodeId) : (Json.ofId id).nesting = 0 := rfl

/-- What is read of the parts of methods is written one level deeper at most. -/
structure CodeAddsOneLevel (room : Nat) : Prop where
  expression : ∀ manner, AddsOneLevel room Expression.toJson (Expression.read room manner)
  expressions : ∀ manner, AddsOneLevel room (fun es => Json.list (expressionsToJson es))
    (readExpressions room manner)
  argument : ∀ manner, AddsOneLevel room Argument.toJson (Argument.read room manner)
  arguments : ∀ manner, AddsOneLevel room (fun as => Json.list (argumentsToJson as))
    (readArguments room manner)
  lambdaBody : ∀ manner, AddsOneLevel room LambdaBody.toJson (LambdaBody.read room manner)
  block : ∀ manner, AddsOneLevel room Block.toJson (Block.read room manner)
  statement : ∀ manner, AddsOneLevel room Statement.toJson (Statement.read room manner)
  statements : ∀ manner, AddsOneLevel room (fun ss => Json.list (statementsToJson ss))
    (readStatements room manner)

namespace CodeAddsOneLevel

variable {room : Nat}

theorem expression_succ (ih : CodeAddsOneLevel room) (manner : Manner) :
    AddsOneLevel (room + 1) Expression.toJson (Expression.read (room + 1) manner) := by
  intro r e hread
  rw [Expression.read] at hread
  obtain ⟨⟨kind, fields⟩, hsplit, hfields⟩ := bind_eq_ok.1 hread
  have hle := TaggedUnion.nesting_split_le hsplit
  -- The kind and the fields are members of one object, so the record nests as deep as the object.
  suffices hfields : e.toJson.nesting ≤ min (room + 1) fields.nesting + 1 by omega
  refine Layout.nesting_le_of_slots hfields fun slots n h hparts => ?_
  clear hread hsplit hle hfields
  cases kind with
  | invocation =>
      simp only [Placed.result_eq_ok, Placed.part_eq_ok, Slots.fill_eq_ok] at hparts
      obtain ⟨_, arguments, ⟨_, target, ⟨_, _, ⟨-, rfl⟩, -, rfl⟩, htarget, rfl⟩, harguments, rfl⟩ :=
        hparts
      have htarget := h.required htarget (ih.expression .loaded)
      have harguments := h.defaulted harguments (ih.arguments .loaded) (by decide)
      simp only [Expression.toJson, nesting_object, nestingMembers, Json.nesting,
        nesting_ofId] at harguments ⊢
      omega
  | lambda =>
      simp only [Placed.result_eq_ok, Placed.part_eq_ok, Slots.fill_eq_ok] at hparts
      obtain ⟨_, body, ⟨_, parameters, ⟨_, form, ⟨_, _, ⟨-, rfl⟩, -, rfl⟩, -, rfl⟩, hparameters,
        rfl⟩, hbody, rfl⟩ := hparts
      have hform : form.toJson.nesting = 0 := by cases form <;> rfl
      have hparameters := h.defaulted hparameters (.strings room) (by decide)
      have hbody := h.required hbody (ih.lambdaBody .loaded)
      simp only [Expression.toJson, nesting_object, nestingMembers, Json.nesting, nesting_ofId]
      omega
  | memberAccess =>
      simp only [Placed.result_eq_ok, Placed.part_eq_ok, Slots.fill_eq_ok] at hparts
      obtain ⟨_, _, ⟨_, target, ⟨_, _, ⟨-, rfl⟩, -, rfl⟩, htarget, rfl⟩, -, rfl⟩ := hparts
      have htarget := h.required htarget (ih.expression .loaded)
      simp only [Expression.toJson, nesting_object, nestingMembers, Json.nesting, nesting_ofId]
      omega
  | elementAccess =>
      simp only [Placed.result_eq_ok, Placed.part_eq_ok, Slots.fill_eq_ok] at hparts
      obtain ⟨_, arguments, ⟨_, target, ⟨_, _, ⟨-, rfl⟩, -, rfl⟩, htarget, rfl⟩, harguments, rfl⟩ :=
        hparts
      have htarget := h.required htarget (ih.expression .loaded)
      have harguments := h.defaulted harguments (ih.arguments .loaded) (by decide)
      simp only [Expression.toJson, nesting_object, nestingMembers, Json.nesting,
        nesting_ofId] at harguments ⊢
      omega
  | identifier =>
      simp only [Placed.result_eq_ok, Placed.part_eq_ok, Slots.fill_eq_ok] at hparts
      obtain ⟨_, _, ⟨_, _, ⟨-, rfl⟩, -, rfl⟩, -, rfl⟩ := hparts
      simp [Expression.toJson, nestingMembers, Json.nesting]
  | parenthesized =>
      simp only [Placed.result_eq_ok, Placed.part_eq_ok, Slots.fill_eq_ok] at hparts
      obtain ⟨_, inner, ⟨_, _, ⟨-, rfl⟩, -, rfl⟩, hinner, rfl⟩ := hparts
      have hinner := h.required hinner (ih.expression .loaded)
      simp only [Expression.toJson, nesting_object, nestingMembers, Json.nesting, nesting_ofId]
      omega
  | objectCreation =>
      simp only [Placed.result_eq_ok, Placed.part_eq_ok, Slots.fill_eq_ok] at hparts
      obtain ⟨_, arguments, ⟨_, _, ⟨_, _, ⟨-, rfl⟩, -, rfl⟩, -, rfl⟩, harguments, rfl⟩ := hparts
      have harguments := h.defaulted harguments (ih.arguments .loaded) (by decide)
      simp only [Expression.toJson, nesting_object, nestingMembers, Json.nesting,
        nesting_ofId] at harguments ⊢
      omega
  | literal =>
      simp only [Placed.result_eq_ok, Placed.part_eq_ok, Slots.fill_eq_ok] at hparts
      obtain ⟨_, _, ⟨_, _, ⟨-, rfl⟩, -, rfl⟩, -, rfl⟩ := hparts
      simp [Expression.toJson, nestingMembers, Json.nesting]
  | other =>
      simp only [Placed.result_eq_ok, Placed.part_eq_ok, Slots.fill_eq_ok] at hparts
      obtain ⟨_, children, ⟨_, _, ⟨_, _, ⟨-, rfl⟩, -, rfl⟩, -, rfl⟩, hchildren, rfl⟩ := hparts
      have hchildren := h.defaulted hchildren (ih.expressions .loaded) (by decide)
      simp only [Expression.toJson, nesting_object, nestingMembers, Json.nesting,
        nesting_ofId] at hchildren ⊢
      omega

theorem statement_succ (ih : CodeAddsOneLevel room) (manner : Manner) :
    AddsOneLevel (room + 1) Statement.toJson (Statement.read (room + 1) manner) := by
  intro r s hread
  rw [Statement.read] at hread
  obtain ⟨⟨kind, fields⟩, hsplit, hfields⟩ := bind_eq_ok.1 hread
  have hle := TaggedUnion.nesting_split_le hsplit
  suffices hfields : s.toJson.nesting ≤ min (room + 1) fields.nesting + 1 by omega
  refine Layout.nesting_le_of_slots hfields fun slots n h hparts => ?_
  clear hread hsplit hle hfields
  cases kind with
  | expression =>
      simp only [Placed.result_eq_ok, Placed.part_eq_ok, Slots.fill_eq_ok] at hparts
      obtain ⟨_, expression, ⟨_, _, ⟨-, rfl⟩, -, rfl⟩, hexpression, rfl⟩ := hparts
      have hexpression := h.required hexpression (ih.expression .loaded)
      simp only [Statement.toJson, nesting_object, nestingMembers, Json.nesting, nesting_ofId]
      omega
  | block =>
      simp only [Placed.result_eq_ok, Placed.part_eq_ok, Slots.fill_eq_ok] at hparts
      obtain ⟨_, statements, ⟨_, _, ⟨-, rfl⟩, -, rfl⟩, hstatements, rfl⟩ := hparts
      have hstatements := h.defaulted hstatements (ih.statements .loaded) (by decide)
      simp only [Statement.toJson, Block.members, nesting_object, nestingMembers, Json.nesting,
        nesting_ofId] at hstatements ⊢
      omega
  | branch =>
      simp only [Placed.result_eq_ok, Placed.part_eq_ok, Slots.fill_eq_ok] at hparts
      obtain ⟨_, whenFalse, ⟨_, whenTrue, ⟨_, condition, ⟨_, _, ⟨-, rfl⟩, -, rfl⟩, hcondition, rfl⟩,
        hwhenTrue, rfl⟩, hwhenFalse, rfl⟩ := hparts
      have hcondition := h.required hcondition (ih.expression .loaded)
      have hwhenTrue := h.required hwhenTrue (ih.statement .loaded)
      have hwhenFalse := h.optional hwhenFalse (ih.statement .loaded)
      simp only [Statement.toJson, statementToJson?_eq_optional, nesting_object, nestingMembers,
        Json.nesting, nesting_ofId]
      omega
  | loop =>
      simp only [Placed.result_eq_ok, Placed.part_eq_ok, Slots.fill_eq_ok] at hparts
      obtain ⟨_, body, ⟨_, header, ⟨_, kind, ⟨_, _, ⟨-, rfl⟩, -, rfl⟩, -, rfl⟩, hheader, rfl⟩, hbody,
        rfl⟩ := hparts
      have hkind : kind.toJson.nesting = 0 := by cases kind <;> rfl
      have hheader := h.defaulted hheader (ih.expressions .loaded) (by decide)
      have hbody := h.required hbody (ih.statement .loaded)
      simp only [Statement.toJson, nesting_object, nestingMembers, Json.nesting,
        nesting_ofId] at hheader ⊢
      omega
  | localDeclaration =>
      simp only [Placed.result_eq_ok, Placed.part_eq_ok, Slots.fill_eq_ok] at hparts
      obtain ⟨_, initializer, ⟨_, _, ⟨_, _, ⟨-, rfl⟩, -, rfl⟩, -, rfl⟩, hinitializer, rfl⟩ := hparts
      have hinitializer := h.optional hinitializer (ih.expression .loaded)
      simp only [Statement.toJson, expressionToJson?_eq_optional, nesting_object, nestingMembers,
        Json.nesting, nesting_ofId]
      omega
  | result =>
      simp only [Placed.result_eq_ok, Placed.part_eq_ok, Slots.fill_eq_ok] at hparts
      obtain ⟨_, value, ⟨_, _, ⟨-, rfl⟩, -, rfl⟩, hvalue, rfl⟩ := hparts
      have hvalue := h.optional hvalue (ih.expression .loaded)
      simp only [Statement.toJson, expressionToJson?_eq_optional, nesting_object, nestingMembers,
        Json.nesting, nesting_ofId]
      omega
  | other =>
      simp only [Placed.result_eq_ok, Placed.part_eq_ok, Slots.fill_eq_ok] at hparts
      obtain ⟨_, statements, ⟨_, expressions, ⟨_, _, ⟨_, _, ⟨-, rfl⟩, -, rfl⟩, -, rfl⟩, hexpressions,
        rfl⟩, hstatements, rfl⟩ := hparts
      have hexpressions := h.defaulted hexpressions (ih.expressions .loaded) (by decide)
      have hstatements := h.defaulted hstatements (ih.statements .loaded) (by decide)
      simp only [Statement.toJson, nesting_object, nestingMembers, Json.nesting,
        nesting_ofId] at hexpressions hstatements ⊢
      omega

theorem argument_succ (ih : CodeAddsOneLevel room) (manner : Manner) :
    AddsOneLevel (room + 1) Argument.toJson (Argument.read (room + 1) manner) := by
  intro r a hread
  rw [Argument.read] at hread
  refine Layout.nesting_le_of_slots hread fun slots n h hparts => ?_
  simp only [Placed.result_eq_ok, Placed.part_eq_ok, Slots.fill_eq_ok] at hparts
  obtain ⟨_, expression, ⟨_, name, ⟨_, _, ⟨-, rfl⟩, -, rfl⟩, -, rfl⟩, hexpression, rfl⟩ := hparts
  have hname : (Json.optional .text name).nesting = 0 := by cases name <;> rfl
  have hexpression := h.required hexpression (ih.expression manner)
  simp only [Argument.toJson, nesting_object, nestingMembers, nesting_ofId]
  omega

theorem block_succ (ih : CodeAddsOneLevel room) (manner : Manner) :
    AddsOneLevel (room + 1) Block.toJson (Block.read (room + 1) manner) := by
  intro r b hread
  rw [Block.read] at hread
  refine Layout.nesting_le_of_slots hread fun slots n h hparts => ?_
  simp only [Placed.result_eq_ok, Placed.part_eq_ok, Slots.fill_eq_ok] at hparts
  obtain ⟨_, statements, ⟨_, _, ⟨-, rfl⟩, -, rfl⟩, hstatements, rfl⟩ := hparts
  have hstatements := h.defaulted hstatements (ih.statements manner) (by decide)
  simp only [Block.toJson, Block.members, nesting_object, nestingMembers, Json.nesting,
    nesting_ofId] at hstatements ⊢
  omega

theorem lambdaBody_succ (ih : CodeAddsOneLevel room) (manner : Manner) :
    AddsOneLevel (room + 1) LambdaBody.toJson (LambdaBody.read (room + 1) manner) := by
  intro r b hread
  rw [LambdaBody.read] at hread
  obtain ⟨_, _, _, _, _, _, hbody⟩ | ⟨⟨name, value⟩, _, _, kind, rfl, -, -, hbody, -⟩ :=
    Reading.choice_eq_ok.1 hread
  · cases hbody
  · cases kind with
    | expression =>
        obtain ⟨e, he, rfl⟩ := map_eq_ok.1 hbody
        have hexpression := ih.expression manner value e he
        simp only [LambdaBody.toJson, nesting_object, nestingMembers, Reading.nesting,
          Reading.membersNesting]
        omega
    | block =>
        obtain ⟨block, hb, rfl⟩ := map_eq_ok.1 hbody
        have hblock := ih.block manner value block hb
        rw [Block.toJson] at hblock
        simp only [LambdaBody.toJson, nesting_object, nestingMembers, Reading.nesting,
          Reading.membersNesting] at hblock ⊢
        omega

theorem succ (ih : CodeAddsOneLevel room) : CodeAddsOneLevel (room + 1) where
  expression := ih.expression_succ
  expressions manner := by
    simp only [expressionsToJson_eq_map]
    exact (ih.expression manner).items
  argument := ih.argument_succ
  arguments manner := by
    simp only [argumentsToJson_eq_map]
    exact (ih.argument manner).items
  lambdaBody := ih.lambdaBody_succ
  block := ih.block_succ
  statement := ih.statement_succ
  statements manner := by
    simp only [statementsToJson_eq_map]
    exact (ih.statement manner).items

end CodeAddsOneLevel

/-- Without room nothing is read. -/
theorem codeAddsOneLevel_zero : CodeAddsOneLevel 0 where
  expression _ _ _ h := by cases h
  expressions _ _ _ h := by cases h
  argument _ _ _ h := by cases h
  arguments _ _ _ h := by cases h
  lambdaBody _ _ _ h := by
    obtain ⟨_, _, _, _, _, _, hbody⟩ | ⟨_, _, _, _, _, _, _, hbody, _⟩ :=
      Reading.choice_eq_ok.1 h <;> cases hbody
  block _ _ _ h := by cases h
  statement _ _ _ h := by cases h
  statements _ _ _ h := by cases h

theorem codeAddsOneLevel (room : Nat) : CodeAddsOneLevel room := by
  induction room with
  | zero => exact codeAddsOneLevel_zero
  | succ room ih => exact ih.succ

structure DeclarationsAddOneLevel (room : Nat) : Prop where
  declaration : ∀ manner, AddsOneLevel room Declaration.toJson (Declaration.read room manner)
  declarations : ∀ manner, AddsOneLevel room (fun ds => Json.list (declarationsToJson ds))
    (readDeclarations room manner)

namespace DeclarationsAddOneLevel

variable {room : Nat}

theorem declaration_succ (ih : DeclarationsAddOneLevel room) (manner : Manner) :
    AddsOneLevel (room + 1) Declaration.toJson (Declaration.read (room + 1) manner) := by
  have hcode := codeAddsOneLevel room
  intro r d hread
  rw [Declaration.read] at hread
  obtain ⟨⟨kind, fields⟩, hsplit, hfields⟩ := bind_eq_ok.1 hread
  have hle := TaggedUnion.nesting_split_le hsplit
  suffices hfields : d.toJson.nesting ≤ min (room + 1) fields.nesting + 1 by omega
  refine Layout.nesting_le_of_slots hfields fun slots n h hparts => ?_
  clear hread hsplit hle hfields
  cases kind with
  | namespaceScope =>
      simp only [Placed.result_eq_ok, Placed.part_eq_ok, Slots.fill_eq_ok] at hparts
      obtain ⟨_, members, ⟨_, _, ⟨_, _, ⟨-, rfl⟩, -, rfl⟩, -, rfl⟩, hmembers, rfl⟩ := hparts
      have hmembers := h.defaulted hmembers (ih.declarations .loaded) (by decide)
      simp only [Declaration.toJson, nesting_object, nestingMembers, Json.nesting,
        nesting_ofId] at hmembers ⊢
      omega
  | classType =>
      simp only [Placed.result_eq_ok, Placed.part_eq_ok, Slots.fill_eq_ok] at hparts
      obtain ⟨_, span, ⟨_, members, ⟨_, baseList, ⟨_, _, ⟨_, _, ⟨-, rfl⟩, -, rfl⟩, -, rfl⟩, hbaseList,
        rfl⟩, hmembers, rfl⟩, -, rfl⟩ := hparts
      have hspan := span.nesting_toJson_le
      have hbaseList := h.defaulted hbaseList (.strings room) (by decide)
      have hmembers := h.defaulted hmembers (ih.declarations .loaded) (by decide)
      simp only [Declaration.toJson, nesting_object, nestingMembers, Json.nesting,
        nesting_ofId] at hmembers ⊢
      omega
  | method =>
      simp only [Placed.result_eq_ok, Placed.part_eq_ok, Slots.fill_eq_ok] at hparts
      obtain ⟨_, span, ⟨_, expressionBody, ⟨_, body, ⟨_, attributeList, ⟨_, _, ⟨_, _, ⟨-, rfl⟩, -,
        rfl⟩, -, rfl⟩, hattributeList, rfl⟩, hbody, rfl⟩, hexpressionBody, rfl⟩, -, rfl⟩ := hparts
      have hspan := span.nesting_toJson_le
      have hattributeList := h.defaulted hattributeList (.strings room) (by decide)
      have hbody := h.optional hbody (hcode.block .loaded)
      have hexpressionBody := h.optional hexpressionBody (hcode.expression .loaded)
      simp only [Declaration.toJson, expressionToJson?_eq_optional, nesting_object, nestingMembers,
        Json.nesting, nesting_ofId]
      omega
  | member =>
      simp only [Placed.result_eq_ok, Placed.part_eq_ok, Slots.fill_eq_ok] at hparts
      obtain ⟨_, body, ⟨_, initializer, ⟨_, _, ⟨_, _, ⟨-, rfl⟩, -, rfl⟩, -, rfl⟩, hinitializer, rfl⟩,
        hbody, rfl⟩ := hparts
      have hinitializer := h.optional hinitializer (hcode.expression .loaded)
      have hbody := h.optional hbody (hcode.block .loaded)
      simp only [Declaration.toJson, expressionToJson?_eq_optional, nesting_object, nestingMembers,
        Json.nesting, nesting_ofId]
      omega

theorem succ (ih : DeclarationsAddOneLevel room) : DeclarationsAddOneLevel (room + 1) where
  declaration := ih.declaration_succ
  declarations manner := by
    simp only [declarationsToJson_eq_map]
    exact (ih.declaration manner).items

end DeclarationsAddOneLevel

theorem declarationsAddOneLevel (room : Nat) : DeclarationsAddOneLevel room := by
  induction room with
  | zero =>
      refine ⟨fun _ _ _ h => ?_, fun _ _ _ h => ?_⟩
      · cases h
      · cases h
  | succ room ih => exact ih.succ

theorem CompilationUnit.addsOneLevel (room : Nat) (manner : Manner) :
    AddsOneLevel room CompilationUnit.toJson (CompilationUnit.read room manner) := by
  intro r u hread
  cases room with
  | zero => cases hread
  | succ room =>
      refine Layout.nesting_le_of_slots hread fun slots n h hparts => ?_
      simp only [Placed.result_eq_ok, Placed.part_eq_ok, Slots.fill_eq_ok] at hparts
      obtain ⟨_, members, ⟨_, _, ⟨-, rfl⟩, -, rfl⟩, hmembers, rfl⟩ := hparts
      have hmembers := h.defaulted hmembers ((declarationsAddOneLevel room).declarations manner)
        (by decide)
      simp only [toJson, nesting_object, nestingMembers, Json.nesting, nesting_ofId] at hmembers ⊢
      omega

theorem SyntaxTree.addsOneLevel (room : Nat) (manner : Manner) :
    AddsOneLevel room SyntaxTree.toJson (SyntaxTree.read room manner) := by
  intro r t hread
  cases room with
  | zero => cases hread
  | succ room =>
      refine Layout.nesting_le_of_slots hread fun slots n h hparts => ?_
      simp only [Placed.result_eq_ok, Placed.part_eq_ok, Slots.fill_eq_ok] at hparts
      obtain ⟨_, root, ⟨_, _, ⟨-, rfl⟩, -, rfl⟩, hroot, rfl⟩ := hparts
      have hroot := h.required hroot (CompilationUnit.addsOneLevel room manner)
      simp only [toJson, nesting_object, nestingMembers, Json.nesting]
      omega

theorem UnitSnapshot.addsOneLevel (room : Nat) (manner : Manner) :
    AddsOneLevel room UnitSnapshot.toJson (UnitSnapshot.read room manner) := by
  intro r s hread
  cases room with
  | zero => cases hread
  | succ room =>
      refine Layout.nesting_le_of_slots hread fun slots n h hparts => ?_
      simp only [Placed.result_eq_ok, Placed.part_eq_ok, Slots.fill_eq_ok] at hparts
      obtain ⟨_, model, ⟨_, tree, ⟨_, _, ⟨-, rfl⟩, -, rfl⟩, htree, rfl⟩, hmodel, rfl⟩ := hparts
      have htree := h.optional htree (SyntaxTree.addsOneLevel room manner)
      have hmodel := h.optional hmodel (SymbolTable.addsOneLevel room manner)
      simp only [toJson, nesting_object, nestingMembers, Json.nesting]
      omega

end SafeCalls
