import SafeCalls.Proofs.WrittenDepth

namespace SafeCalls

/-!
# Writing again what was read

The reader refuses what nests too deep, and a snapshot is written up to one level deeper than it was
read. So at the limit there are texts of snapshots that are not read again once they are written;
everything else that is read can be written and read as often as one likes.
-/

open Json (Error Manner Member Name Reading TaggedUnion nestingMembers nestingMembers_le_iff
  nestingItems_le_iff nesting_object nesting_list readingItems readingMembers exists_room_of_object
  string_reading word_reading)

/-! ### What is read fits into the room -/

namespace Json

mutual

theorem nesting_le_of_loadingFault? : ∀ (v : Json) (room : Nat),
    v.reading.loadingFault? room = none → v.nesting ≤ room
  | .null, room, _ => Nat.zero_le room
  | .bool _, room, _ => Nat.zero_le room
  | .number _, room, _ => Nat.zero_le room
  | .text _, room, _ => Nat.zero_le room
  | .list _, 0, h => by simp [reading, Reading.loadingFault?] at h
  | .object _, 0, h => by simp [reading, Reading.loadingFault?] at h
  | .list items, room + 1, h => by
      simp [reading, Reading.loadingFault?, ListEnd.fault?] at h
      exact Nat.succ_le_succ (nestingItems_le_of_loadingFault? items room h)
  | .object members, room + 1, h => by
      simp [reading, Reading.loadingFault?, ObjectEnd.fault?] at h
      exact Nat.succ_le_succ (nestingMembers_le_of_loadingFault? members room fun m hm => (h m hm).2)

theorem nestingItems_le_of_loadingFault? : ∀ (items : List Json) (room : Nat),
    (∀ r ∈ readingItems items, r.loadingFault? room = none) → nestingItems items ≤ room
  | [], room, _ => Nat.zero_le room
  | item :: more, room, h => by
      rw [readingItems, List.forall_mem_cons] at h
      exact Nat.max_le.2 ⟨nesting_le_of_loadingFault? item room h.1,
        nestingItems_le_of_loadingFault? more room h.2⟩

theorem nestingMembers_le_of_loadingFault? : ∀ (members : List (String × Json)) (room : Nat),
    (∀ m ∈ readingMembers members, m.value.loadingFault? room = none) →
    nestingMembers members ≤ room
  | [], room, _ => Nat.zero_le room
  | (_, value) :: more, room, h => by
      rw [readingMembers, List.forall_mem_cons] at h
      exact Nat.max_le.2 ⟨nesting_le_of_loadingFault? value room h.1,
        nestingMembers_le_of_loadingFault? more room h.2⟩

end

theorem readingMembers_eq_map (members : List (String × Json)) :
    readingMembers members = members.map fun m => ⟨Name.ofString m.1, m.2.reading⟩ := by
  induction members with
  | nil => rfl
  | cons m more ih => rw [readingMembers, ih, List.map_cons]

/-- The kind nests nothing, and the other members of a union are loaded. -/
theorem TaggedUnion.nesting_le_of_split {κ : Type} {union : TaggedUnion κ} {room : Nat}
    {members : List (String × Json)} {x : κ × Reading}
    (h : union.split .direct room (Json.object members).reading = .ok x) :
    (Json.object members).nesting ≤ room + 1 := by
  obtain ⟨read, _, _, hread, -, hsplit⟩ | ⟨_, _, _, ⟨⟩, -⟩ := split_eq_ok.1 h
  obtain ⟨hmembers, -⟩ := Reading.object.inj hread
  obtain ⟨-, ⟨tag, htag, hkind⟩, rfl, hall⟩ := splitMembers_eq_ok.1 hsplit
  refine Nat.succ_le_succ (nestingMembers_le_iff.2 fun m hm => ?_)
  have hmem : ⟨Name.ofString m.1, m.2.reading⟩ ∈ read := by
    rw [← hmembers, readingMembers_eq_map]
    exact List.mem_map_of_mem hm
  by_cases hnamed : Member.isNamed "kind" ⟨Name.ofString m.1, m.2.reading⟩
  · have hsame : ⟨Name.ofString m.1, m.2.reading⟩ ∈ [tag] :=
      htag ▸ List.mem_filter.2 ⟨hmem, hnamed⟩
    obtain rfl := List.mem_singleton.1 hsame
    cases hvalue : m.2 with
    | list items => simp [hvalue, reading, kind] at hkind
    | object inner => simp [hvalue, reading, kind] at hkind
    | _ => exact Nat.zero_le room
  · have hload := (hall _ (List.mem_filter.2 ⟨hmem, by simpa using hnamed⟩)).2
    rw [loadError?, Option.map_eq_none_iff] at hload
    exact nesting_le_of_loadingFault? m.2 room hload

theorem Reading.nestingItems_le_of_items {α : Type} {decode : Reading → Except Error α}
    {items : List Json} {as : List α} {room : Nat}
    (hread : (Json.list items).reading.items decode = .ok as)
    (h : ∀ item ∈ items, ∀ a, decode item.reading = .ok a → item.nesting ≤ room) :
    nestingItems items ≤ room := by
  obtain ⟨readings, _, hitems, -, hall⟩ := items_eq_ok.1 hread
  obtain ⟨rfl, -⟩ := Reading.list.inj hitems
  clear hread hitems
  induction items generalizing as with
  | nil => exact Nat.zero_le room
  | cons item more ih =>
      obtain ⟨hfirst, hmore⟩ := List.forall_mem_cons.1 h
      rw [readingItems] at hall
      cases hall with
      | cons hitem hrest => exact Nat.max_le.2 ⟨hfirst _ hitem, ih hmore hrest⟩

theorem Reading.nesting_le_of_entries {κ α : Type} {key : Name → Except Error κ}
    {decode : Reading → Except Error α} {members : List (String × Json)} {read : List (κ × α)}
    {room : Nat} (hread : entries key decode (readingMembers members) = .ok read)
    (h : ∀ m ∈ members, ∀ a, decode m.2.reading = .ok a → m.2.nesting ≤ room) :
    nestingMembers members ≤ room := by
  have hall := entries_eq_ok.1 hread
  clear hread
  induction members generalizing read with
  | nil => exact Nat.zero_le room
  | cons m more ih =>
      obtain ⟨hfirst, hmore⟩ := List.forall_mem_cons.1 h
      rw [readingMembers] at hall
      cases hall with
      | cons hentry hrest => exact Nat.max_le.2 ⟨hfirst _ hentry.2, ih hmore hrest⟩

end Json

namespace Slots.Holds

variable {slots : Slots Error Reading} {n room : Nat} {members : List (String × Json)}
  {field : String} {value : Json} {α : Type} {decode : Reading → Except Error α} {a : α}

theorem of_required (h : slots.Holds n members) (hread : slots.required field decode = .ok a)
    (hfield : members.lookup field = some value) : decode value.reading = .ok a := by
  obtain ⟨place, hslot, -⟩ := h.slot field value hfield
  obtain ⟨_, _, hfilled, hdecode⟩ := Slots.required_eq_ok.1 hread
  obtain ⟨-, rfl⟩ := Slot.filled.inj (hslot.symm.trans hfilled)
  exact hdecode

theorem of_defaulted {default : α} (h : slots.Holds n members)
    (hread : slots.defaulted field default decode = .ok a)
    (hfield : members.lookup field = some value) : decode value.reading = .ok a := by
  obtain ⟨place, hslot, -⟩ := h.slot field value hfield
  obtain ⟨_, _, hfilled, hdecode⟩ | ⟨⟨_, _, hempty⟩, -⟩ := Slots.defaulted_eq_ok.1 hread
  · obtain ⟨-, rfl⟩ := Slot.filled.inj (hslot.symm.trans hfilled)
    exact hdecode
  · cases hslot.symm.trans hempty

theorem of_optional {write : α → Json} {o : Option α} {written : Option α}
    (h : slots.Holds n members) (hread : slots.optional field decode = .ok o)
    (hfield : members.lookup field = some (Json.optional write written))
    (hfits : ∀ b a, decode (write b).reading = .ok a → (write b).nesting ≤ room) :
    (Json.optional write written).nesting ≤ room := by
  cases written with
  | none => exact Nat.zero_le room
  | some b =>
      obtain ⟨hnull, -⟩ | ⟨-, a, ha, -⟩ := Reading.optional_eq_ok.1 (h.of_defaulted hread hfield)
      · have hflat := Json.nesting_reading (Json.optional write (some b))
        rw [hnull] at hflat
        rw [← hflat]
        exact Nat.zero_le room
      · exact hfits b a ha

end Slots.Holds

theorem Layout.holds_of_slots {layout : Layout} {manner : Manner} {members : List (String × Json)}
    {slots : Slots Error Reading} (h : layout.slots manner (Json.object members).reading = .ok slots)
    (hnames : members.map Prod.fst = layout.fields) (hnodup : layout.fields.Nodup) :
    slots.Holds (nestingMembers members) members := by
  obtain rfl := Except.ok.inj h
  exact layout.holds_ofObject manner hnames hnodup (Nat.le_refl _)

/-! ### The parts of a snapshot that are read directly -/

theorem Declaration.nesting_le_of_read {room : Nat} {d d' : Declaration}
    (h : Declaration.read room .direct d.toJson.reading = .ok d') : d.toJson.nesting ≤ room := by
  cases room with
  | zero => cases h
  | succ room =>
      obtain ⟨members, hobject⟩ : ∃ members, d.toJson = .object members := by
        unfold Declaration.toJson
        split <;> exact ⟨_, rfl⟩
      rw [Declaration.read] at h
      obtain ⟨_, hsplit, -⟩ := bind_eq_ok.1 h
      rw [hobject] at hsplit ⊢
      exact TaggedUnion.nesting_le_of_split hsplit

theorem nesting_le_of_readDeclarations {room : Nat} {ds ds' : List Declaration}
    (h : readDeclarations room .direct (Json.list (declarationsToJson ds)).reading = .ok ds') :
    (Json.list (declarationsToJson ds)).nesting ≤ room := by
  cases room with
  | zero => cases h
  | succ room =>
      rw [declarationsToJson_eq_map] at h ⊢
      refine Nat.succ_le_succ (Reading.nestingItems_le_of_items h fun item hitem d' hread => ?_)
      obtain ⟨d, -, rfl⟩ := List.mem_map.1 hitem
      exact Declaration.nesting_le_of_read hread

theorem CompilationUnit.nesting_le_of_read {room : Nat} {u u' : CompilationUnit}
    (h : CompilationUnit.read room .direct u.toJson.reading = .ok u') : u.toJson.nesting ≤ room := by
  cases room with
  | zero => cases h
  | succ room =>
      obtain ⟨slots, hslots, hparts⟩ := bind_eq_ok.1 h
      have hholds := Layout.holds_of_slots hslots rfl (by decide)
      simp only [Placed.result_eq_ok, Placed.part_eq_ok, Slots.fill_eq_ok] at hparts
      obtain ⟨_, members, ⟨_, _, ⟨-, rfl⟩, -, rfl⟩, hmembers, rfl⟩ := hparts
      have hread := hholds.of_defaulted hmembers rfl
      have hnesting := nesting_le_of_readDeclarations hread
      simp only [toJson, nesting_object, nestingMembers, nesting_ofId]
      omega

theorem SyntaxTree.nesting_le_of_read {room : Nat} {t t' : SyntaxTree}
    (h : SyntaxTree.read room .direct t.toJson.reading = .ok t') : t.toJson.nesting ≤ room := by
  cases room with
  | zero => cases h
  | succ room =>
      obtain ⟨slots, hslots, hparts⟩ := bind_eq_ok.1 h
      have hholds := Layout.holds_of_slots hslots rfl (by decide)
      simp only [Placed.result_eq_ok, Placed.part_eq_ok, Slots.fill_eq_ok] at hparts
      obtain ⟨_, root, ⟨_, _, ⟨-, rfl⟩, -, rfl⟩, hroot, rfl⟩ := hparts
      have hread := hholds.of_required hroot rfl
      have hnesting := CompilationUnit.nesting_le_of_read hread
      simp only [toJson, nesting_object, nestingMembers, Json.nesting]
      omega

theorem Symbol.nesting_le_of_read {room : Nat} {symbol symbol' : Symbol}
    (h : Symbol.read room .direct symbol.toJson.reading = .ok symbol') :
    symbol.toJson.nesting ≤ room := by
  cases room with
  | zero => cases h
  | succ room =>
      obtain ⟨_, hsplit, -⟩ := bind_eq_ok.1 h
      exact TaggedUnion.nesting_le_of_split hsplit

namespace SymbolTable

theorem nesting_le_of_readMap {room : Nat} {m m' : SortedMap NodeId Symbol}
    (h : readMap .direct room (mapToJson m).reading = .ok m') : (mapToJson m).nesting ≤ room := by
  obtain ⟨room, members, _, read, rfl, hobject, -, hentries, -⟩ := Reading.map_eq_ok.1 h
  obtain ⟨rfl, -⟩ := Reading.object.inj hobject
  refine Nat.succ_le_succ (Reading.nesting_le_of_entries hentries fun entry hentry s hread => ?_)
  obtain ⟨e, -, rfl⟩ := List.mem_map.1 hentry
  exact Symbol.nesting_le_of_read hread

theorem nesting_le_of_read {room : Nat} {t t' : SymbolTable}
    (h : SymbolTable.read room .direct t.toJson.reading = .ok t') : t.toJson.nesting ≤ room := by
  cases room with
  | zero => cases h
  | succ room =>
      obtain ⟨slots, hslots, hparts⟩ := bind_eq_ok.1 h
      have hholds := Layout.holds_of_slots hslots rfl (by decide)
      simp only [Placed.result_eq_ok, Placed.part_eq_ok, Slots.fill_eq_ok] at hparts
      obtain ⟨_, declarations, ⟨_, bindings, ⟨-, rfl⟩, hbindings, rfl⟩, hdeclarations, rfl⟩ := hparts
      have hbound := nesting_le_of_readMap (hholds.of_defaulted hbindings rfl)
      have hdeclared := nesting_le_of_readMap (hholds.of_defaulted hdeclarations rfl)
      simp only [toJson, nesting_object, nestingMembers]
      omega

end SymbolTable

namespace UnitSnapshot

theorem nesting_le_of_read {room : Nat} {s s' : UnitSnapshot}
    (h : UnitSnapshot.read room .direct s.toJson.reading = .ok s') : s.toJson.nesting ≤ room := by
  cases room with
  | zero => cases h
  | succ room =>
      obtain ⟨slots, hslots, hparts⟩ := bind_eq_ok.1 h
      have hholds := Layout.holds_of_slots hslots rfl (by decide)
      simp only [Placed.result_eq_ok, Placed.part_eq_ok, Slots.fill_eq_ok] at hparts
      obtain ⟨_, model, ⟨_, tree, ⟨_, _, ⟨-, rfl⟩, -, rfl⟩, htree, rfl⟩, hmodel, rfl⟩ := hparts
      have htree := hholds.of_optional htree rfl fun _ _ => SyntaxTree.nesting_le_of_read
      have hmodel := hholds.of_optional hmodel rfl fun _ _ => SymbolTable.nesting_le_of_read
      simp only [toJson, nesting_object, nestingMembers, Json.nesting]
      omega

/-- The text of a snapshot that nests too deep is not read at all. -/
theorem nesting_le_of_parse_render {s s' : UnitSnapshot} (h : parse s.render = .ok s') :
    s.toJson.nesting ≤ Json.nestingLimit := by
  rw [parse, render, Json.decode_pretty read (inRange_of_writes s.writes_toJson)] at h
  exact nesting_le_of_read h

/-- A snapshot that was read is written at most one level deeper than the text nests, and at most
one level deeper than texts may nest. It is read back as it is if what is written nests no deeper
than texts may, so always if there was a level to spare, and else it is not read any more. -/
theorem parse_render_of_parse {text : String} {s : UnitSnapshot} (h : parse text = .ok s) :
    s.toJson.nesting ≤ min Json.nestingLimit (Json.readText text).content.nesting + 1 ∧
    (parse s.render = .ok s ↔ s.toJson.nesting ≤ Json.nestingLimit) ∧
    ((Json.readText text).content.nesting < Json.nestingLimit → parse s.render = .ok s) ∧
    ∀ s', parse s.render = .ok s' → s' = s := by
  have hread := (Json.decode_eq_ok.1 h).1
  have hdeep := addsOneLevel Json.nestingLimit .direct _ s hread
  have hback : s.toJson.nesting ≤ Json.nestingLimit → parse s.render = .ok s :=
    parse_of_writes s.writes_toJson
  refine ⟨hdeep, ⟨nesting_le_of_parse_render, hback⟩, ?_, ?_⟩
  · intro hspare
    apply hback
    omega
  · intro s' hs'
    have hsame := hback (nesting_le_of_parse_render hs')
    exact Except.ok.inj (hs'.symm.trans hsame)

/-! ### Namespaces at the limit -/

/-- A namespace without a list of members, inside so many others. -/
def terseScopes : Nat → Json
  | 0 => .object [("kind", .text "namespace"), ("id", .number 0), ("name", .text "N")]
  | n + 1 => .object [("kind", .text "namespace"), ("id", .number 0), ("name", .text "N"),
      ("members", .list [terseScopes n])]

def scopes : Nat → Declaration
  | 0 => .namespaceScope ⟨0, "N", []⟩
  | n + 1 => .namespaceScope ⟨0, "N", [scopes n]⟩

/-- A snapshot whose tree consists of these namespaces. -/
def terse (n : Nat) : Json :=
  .object [("path", .text "N.cs"),
    ("tree", .object [("path", .text "N.cs"),
      ("root", .object [("id", .number 0), ("members", .list [terseScopes n])])]),
    ("model", .null)]

def nested (n : Nat) : UnitSnapshot :=
  ⟨"N.cs", some ⟨"N.cs", ⟨0, [scopes n]⟩⟩, none⟩

theorem nesting_terseScopes (n : Nat) : (terseScopes n).nesting = 2 * n + 1 := by
  induction n with
  | zero => rfl
  | succ n ih =>
      simp only [terseScopes, nesting_object, nestingMembers, Json.nestingItems, ih, Json.nesting]
      omega

theorem nesting_scopes (n : Nat) : (scopes n).toJson.nesting = 2 * n + 2 := by
  induction n with
  | zero => rfl
  | succ n ih =>
      simp only [scopes, Declaration.toJson, declarationsToJson, nesting_object, nestingMembers,
        Json.nestingItems, ih, Json.nesting, nesting_ofId]
      omega

theorem readDeclarations_singleton {room : Nat} {manner : Manner} {v : Json} {d : Declaration}
    (h : Declaration.read room manner v.reading = .ok d) :
    readDeclarations (room + 1) manner (Json.list [v]).reading = .ok [d] := by
  rw [readDeclarations, Json.reading, readingItems, readingItems, Reading.items, List.mapM_cons, h]
  rfl

theorem read_terseScopes (n room : Nat) (manner : Manner) (hroom : 2 * n + 1 ≤ room) :
    Declaration.read room manner (terseScopes n).reading = .ok (scopes n) := by
  induction n generalizing room manner with
  | zero =>
      obtain ⟨room, rfl⟩ := Nat.exists_eq_add_of_le' hroom
      cases manner <;> cases room <;> rfl
  | succ n ih =>
      obtain ⟨room, rfl⟩ : ∃ inside, room = inside + 2 := ⟨room - 2, by omega⟩
      have hinside := ih room .loaded (by omega)
      have hnesting := nesting_terseScopes (n + 1)
      rw [terseScopes] at hnesting ⊢
      rw [Declaration.read]
      refine Declaration.union.fields_bind manner DeclarationKind.nodup_fields .namespaceScope rfl
        rfl (by omega) rfl fun slots h => ?_
      have hid := h.required "id" rfl fun _ => word_reading 0
      have hname := h.required "name" rfl fun _ => string_reading "N"
      have hmembers := h.defaulted "members" rfl [] fun _ => readDeclarations_singleton hinside
      simp only [h.fill, hid, hname, hmembers]
      rfl

theorem nesting_terse (n : Nat) : (terse n).nesting = 2 * n + 5 := by
  simp only [terse, nesting_object, nestingMembers, Json.nestingItems, nesting_terseScopes,
    Json.nesting]
  omega

theorem nesting_nested (n : Nat) : (nested n).toJson.nesting = 2 * n + 6 := by
  simp only [nested, toJson, Json.optional, SyntaxTree.toJson, CompilationUnit.toJson,
    declarationsToJson, nesting_object, nestingMembers, Json.nestingItems, nesting_scopes,
    nesting_ofId, Json.nesting]
  omega

theorem read_terse (n : Nat) {room : Nat} (hroom : 2 * n + 5 ≤ room) :
    UnitSnapshot.read room .direct (terse n).reading = .ok (nested n) := by
  obtain ⟨room, rfl⟩ : ∃ inside, room = inside + 4 := ⟨room - 4, by omega⟩
  have hscopes := readDeclarations_singleton (read_terseScopes n room .direct (by omega))
  have hunit : CompilationUnit.read (room + 2) .direct
      (Json.object [("id", .number 0), ("members", .list [terseScopes n])]).reading =
      .ok ⟨0, [scopes n]⟩ := by
    refine Layout.slots_bind CompilationUnit.layout .direct rfl (by decide) (Nat.le_refl _)
      fun slots h => ?_
    have hid := h.required "id" rfl fun _ => word_reading 0
    have hmembers := h.defaulted "members" rfl [] fun _ => hscopes
    simp only [h.fill, hid, hmembers]
    rfl
  have htree : SyntaxTree.read (room + 3) .direct (Json.object [("path", .text "N.cs"),
      ("root", .object [("id", .number 0), ("members", .list [terseScopes n])])]).reading =
      .ok ⟨"N.cs", ⟨0, [scopes n]⟩⟩ := by
    refine Layout.slots_bind SyntaxTree.layout .direct rfl (by decide) (Nat.le_refl _)
      fun slots h => ?_
    have hpath := h.required "path" rfl fun _ => string_reading "N.cs"
    have hroot := h.required "root" rfl fun _ => hunit
    simp only [h.fill, hpath, hroot]
    rfl
  refine Layout.slots_bind layout .direct rfl (by decide) (Nat.le_refl _) fun slots h => ?_
  have hpath := h.required "path" rfl fun _ => string_reading "N.cs"
  have hsource : slots.optional "tree" (SyntaxTree.read (room + 3) .direct) =
      .ok (some ⟨"N.cs", ⟨0, [scopes n]⟩⟩) :=
    h.defaulted "tree" rfl none fun _ => congrArg (Except.map some) htree
  have hmodel : slots.optional "model" (SymbolTable.read (room + 3) .direct) = .ok none :=
    h.defaulted "model" rfl none fun _ => rfl
  simp only [h.fill, hpath, hsource, hmodel]
  rfl

theorem inRange_terseScopes (n : Nat) : (terseScopes n).InRange := by
  induction n with
  | zero => simp [terseScopes]
  | succ n ih => simp [terseScopes, ih]

theorem readText_terse (n : Nat) : Json.readText (terse n).pretty = ⟨(terse n).reading, none⟩ := by
  apply Json.readText_pretty
  simp [terse, inRange_terseScopes]

theorem parse_terse (n : Nat) (hn : 2 * n + 5 ≤ Json.nestingLimit) :
    parse (terse n).pretty = .ok (nested n) :=
  Json.decode_eq_ok.2 ⟨by rw [readText_terse]; exact read_terse n hn, by rw [readText_terse]⟩

/-- Two levels below the limit the list that the innermost namespace omits can be written. -/
theorem parse_render_below_limit :
    parse (terse 60).pretty = .ok (nested 60) ∧ parse (nested 60).render = .ok (nested 60) := by
  have hparse := parse_terse 60 (by decide)
  obtain ⟨-, -, hspare, -⟩ := parse_render_of_parse hparse
  refine ⟨hparse, hspare ?_⟩
  rw [readText_terse, Json.nesting_reading, nesting_terse]
  decide

/-- At the limit the text still is read, and what is written of it is not. -/
theorem parse_render_at_limit :
    parse (terse 61).pretty = .ok (nested 61) ∧ ∀ s, parse (nested 61).render ≠ .ok s := by
  refine ⟨parse_terse 61 (by decide), fun s hs => ?_⟩
  have hfits := nesting_le_of_parse_render hs
  rw [nesting_nested] at hfits
  exact absurd hfits (by decide)

end UnitSnapshot

end SafeCalls
