import SafeCalls.Proofs.JsonRecord
import SafeCalls.Proofs.JsonText
import SafeCalls.Symbol.Json

namespace SafeCalls

/-!
# Reading back symbols

Every symbol that is written is read back, wherever the room is enough for its nesting. Only methods
and properties link to further symbols of their own kind, so only for them there is an induction, on
the room again.
-/

open Json (Manner nestingMembers nesting_object exists_room_of_object string_reading
  boolean_reading strings_reading named_reading listOf_reading InRange MembersInRange inRange_list
  inRange_optional)

theorem RefKind.read_toJson (kind : RefKind) (room : Nat) (manner : Manner) :
    RefKind.read room manner kind.toJson.reading = .ok kind := by
  cases kind <;> exact named_reading rfl room manner

theorem SymbolKind.lookup_name (kind : SymbolKind) :
    SymbolKind.names.lookup kind.name = some kind := by
  cases kind <;> rfl

theorem Parameter.read_toJson (p : Parameter) {room : Nat} (manner : Manner)
    (hroom : p.toJson.nesting ≤ room) : Parameter.read room manner p.toJson.reading = .ok p := by
  rw [Parameter.toJson] at hroom ⊢
  obtain ⟨room, rfl, hmembers⟩ := exists_room_of_object hroom
  rw [Parameter.read]
  refine Layout.slots_bind _ manner rfl (by decide) hmembers fun slots h => ?_
  have hname := h.required "name" rfl fun _ => string_reading p.name
  have htype := h.required "type_name" rfl fun _ => string_reading p.typeName
  have hkind := h.defaulted "ref_kind" rfl RefKind.byValue fun _ =>
    p.refKind.read_toJson room manner
  rw [h.fill, hname, htype, hkind]
  rfl

theorem Attribute.read_toJson (a : Attribute) {room : Nat} (manner : Manner)
    (hroom : a.toJson.nesting ≤ room) : Attribute.read room manner a.toJson.reading = .ok a := by
  rw [Attribute.toJson] at hroom ⊢
  obtain ⟨room, rfl, hmembers⟩ := exists_room_of_object hroom
  rw [Attribute.read]
  refine Layout.slots_bind _ manner rfl (by decide) hmembers fun slots h => ?_
  have hclass := h.required "attribute_class" rfl fun _ => string_reading a.className
  have harguments := h.defaulted "arguments" rfl [] (strings_reading a.arguments)
  rw [h.fill, hclass, harguments]
  rfl

theorem inRange_parameters (ps : List Parameter) :
    (Json.list (ps.map Parameter.toJson)).InRange := by
  rw [inRange_list]
  intro item hitem
  obtain ⟨p, -, rfl⟩ := List.mem_map.1 hitem
  cases hkind : p.refKind <;> simp [Parameter.toJson, RefKind.toJson, hkind]

theorem inRange_attributes (as : List Attribute) :
    (Json.list (as.map Attribute.toJson)).InRange := by
  rw [inRange_list]
  intro item hitem
  obtain ⟨a, -, rfl⟩ := List.mem_map.1 hitem
  simp [Attribute.toJson]

theorem parameters_reading (ps : List Parameter) (manner : Manner) {room : Nat}
    (hroom : (Json.list (ps.map Parameter.toJson)).nesting ≤ room) :
    (Json.list (ps.map Parameter.toJson)).reading.listOf
      (fun room => Parameter.read room manner) room = .ok ps :=
  listOf_reading ps hroom fun p _ => p.read_toJson manner

theorem attributes_reading (as : List Attribute) (manner : Manner) {room : Nat}
    (hroom : (Json.list (as.map Attribute.toJson)).nesting ≤ room) :
    (Json.list (as.map Attribute.toJson)).reading.listOf
      (fun room => Attribute.read room manner) room = .ok as :=
  listOf_reading as hroom fun a _ => a.read_toJson manner

namespace MethodSymbol

theorem linkToJson_eq_optional (link : Option MethodSymbol) :
    linkToJson link = Json.optional toJson link := by
  cases link <;> simp [linkToJson, Json.optional, toJson]

theorem toJson_ne_null (m : MethodSymbol) : m.toJson ≠ .null := by simp [toJson]

mutual

theorem inRange_members : ∀ m : MethodSymbol, MembersInRange m.members
  | ⟨containingType, name, typeParameters, parameters, typeArguments, isStatic, generic, reduced,
      attributes⟩ => by
      have hparameters := inRange_parameters parameters
      have hattributes := inRange_attributes attributes
      rw [InRange] at hparameters hattributes
      simp [members, hparameters, inRange_linkToJson generic, inRange_linkToJson reduced,
        hattributes]

theorem inRange_linkToJson : ∀ link : Option MethodSymbol, (linkToJson link).InRange
  | none => by simp [linkToJson]
  | some m => by simp [linkToJson, m.inRange_members]

end

theorem read_toJson {room : Nat} (m : MethodSymbol) (manner : Manner)
    (hroom : m.toJson.nesting ≤ room) :
    MethodSymbol.read room manner m.toJson.reading = .ok m := by
  induction room generalizing m with
  | zero => simp [toJson, nesting_object] at hroom
  | succ room ih =>
      obtain ⟨containingType, name, typeParameters, parameters, typeArguments, isStatic, generic,
        reduced, attributes⟩ := m
      rw [toJson, members, linkToJson_eq_optional, linkToJson_eq_optional] at hroom ⊢
      rw [MethodSymbol.read]
      refine Layout.slots_bind _ manner rfl (by decide) (Nat.le_of_succ_le_succ hroom)
        fun slots h => ?_
      have hcontainingType := h.required "containing_type" rfl fun _ =>
        string_reading containingType
      have hname := h.required "name" rfl fun _ => string_reading name
      have htypeParameters := h.defaulted "type_parameters" rfl [] (strings_reading typeParameters)
      have hparameters := h.defaulted "parameters" rfl [] (parameters_reading parameters manner)
      have htypeArguments := h.defaulted "type_arguments" rfl [] (strings_reading typeArguments)
      have hstatic := h.defaulted "is_static" rfl false fun _ => boolean_reading isStatic
      have hgeneric := h.optional "original_definition" rfl toJson_ne_null ih
      have hreduced := h.optional "reduced_from" rfl toJson_ne_null ih
      have hattributes := h.defaulted "attributes" rfl [] (attributes_reading attributes manner)
      rw [h.fill, hcontainingType, hname, htypeParameters, hparameters, htypeArguments, hstatic,
        hgeneric, hreduced, hattributes]
      rfl

end MethodSymbol

namespace PropertySymbol

theorem linkToJson_eq_optional (link : Option PropertySymbol) :
    linkToJson link = Json.optional toJson link := by
  cases link <;> simp [linkToJson, Json.optional, toJson]

theorem toJson_ne_null (p : PropertySymbol) : p.toJson ≠ .null := by simp [toJson]

mutual

theorem inRange_members : ∀ p : PropertySymbol, MembersInRange p.members
  | ⟨containingType, name, parameters, isIndexer, isStatic, generic, attributes⟩ => by
      have hparameters := inRange_parameters parameters
      have hattributes := inRange_attributes attributes
      rw [InRange] at hparameters hattributes
      simp [members, hparameters, inRange_linkToJson generic, hattributes]

theorem inRange_linkToJson : ∀ link : Option PropertySymbol, (linkToJson link).InRange
  | none => by simp [linkToJson]
  | some p => by simp [linkToJson, p.inRange_members]

end

theorem read_toJson {room : Nat} (p : PropertySymbol) (manner : Manner)
    (hroom : p.toJson.nesting ≤ room) :
    PropertySymbol.read room manner p.toJson.reading = .ok p := by
  induction room generalizing p with
  | zero => simp [toJson, nesting_object] at hroom
  | succ room ih =>
      obtain ⟨containingType, name, parameters, isIndexer, isStatic, generic, attributes⟩ := p
      rw [toJson, members, linkToJson_eq_optional] at hroom ⊢
      rw [PropertySymbol.read]
      refine Layout.slots_bind _ manner rfl (by decide) (Nat.le_of_succ_le_succ hroom)
        fun slots h => ?_
      have hcontainingType := h.required "containing_type" rfl fun _ =>
        string_reading containingType
      have hname := h.required "name" rfl fun _ => string_reading name
      have hparameters := h.defaulted "parameters" rfl [] (parameters_reading parameters manner)
      have hindexer := h.defaulted "is_indexer" rfl false fun _ => boolean_reading isIndexer
      have hstatic := h.defaulted "is_static" rfl false fun _ => boolean_reading isStatic
      have hgeneric := h.optional "original_definition" rfl toJson_ne_null ih
      have hattributes := h.defaulted "attributes" rfl [] (attributes_reading attributes manner)
      rw [h.fill, hcontainingType, hname, hparameters, hindexer, hstatic, hgeneric, hattributes]
      rfl

end PropertySymbol

/-! The remaining kinds of symbols are written inside the tagged union only. -/

theorem TypeSymbol.read_members (t : TypeSymbol) {room : Nat} (manner : Manner)
    (hroom : (Json.object t.members).nesting ≤ room) :
    TypeSymbol.read room manner (Json.object t.members).reading = .ok t := by
  rw [TypeSymbol.members] at hroom ⊢
  obtain ⟨room, rfl, hmembers⟩ := exists_room_of_object hroom
  rw [TypeSymbol.read]
  refine Layout.slots_bind _ manner rfl (by decide) hmembers fun slots h => ?_
  have hname := h.required "full_name" rfl fun _ => string_reading t.fullName
  have hbases := h.defaulted "base_types" rfl [] (strings_reading t.baseTypes)
  have hattributes := h.defaulted "attributes" rfl [] (attributes_reading t.attributes manner)
  rw [h.fill, hname, hbases, hattributes]
  rfl

theorem MemberSymbol.read_members (m : MemberSymbol) {room : Nat} (manner : Manner)
    (hroom : (Json.object m.members).nesting ≤ room) :
    MemberSymbol.read room manner (Json.object m.members).reading = .ok m := by
  rw [MemberSymbol.members] at hroom ⊢
  obtain ⟨room, rfl, hmembers⟩ := exists_room_of_object hroom
  rw [MemberSymbol.read]
  refine Layout.slots_bind _ manner rfl (by decide) hmembers fun slots h => ?_
  have hcontainingType := h.required "containing_type" rfl fun _ => string_reading m.containingType
  have hname := h.required "name" rfl fun _ => string_reading m.name
  have htype := h.defaulted "type_name" rfl "" fun _ => string_reading m.typeName
  rw [h.fill, hcontainingType, hname, htype]
  rfl

theorem ValueSymbol.read_members (v : ValueSymbol) {room : Nat} (manner : Manner)
    (hroom : (Json.object v.members).nesting ≤ room) :
    ValueSymbol.read room manner (Json.object v.members).reading = .ok v := by
  rw [ValueSymbol.members] at hroom ⊢
  obtain ⟨room, rfl, hmembers⟩ := exists_room_of_object hroom
  rw [ValueSymbol.read]
  refine Layout.slots_bind _ manner rfl (by decide) hmembers fun slots h => ?_
  have hname := h.required "name" rfl fun _ => string_reading v.name
  have htype := h.optional "type_name" rfl (by simp) fun s _ => string_reading s
  rw [h.fill, hname, htype]
  rfl

namespace Symbol

theorem kind_notMem_members (symbol : Symbol) : ∀ m ∈ symbol.members, m.1 ≠ "kind" := by
  cases symbol with
  | method s =>
      cases s
      simp [members, MethodSymbol.members]
  | property s =>
      cases s
      simp [members, PropertySymbol.members]
  | type s => simp [members, TypeSymbol.members]
  | field s => simp [members, MemberSymbol.members]
  | event s => simp [members, MemberSymbol.members]
  | localVariable s => simp [members, ValueSymbol.members]
  | parameter s => simp [members, ValueSymbol.members]
  | namespaceName s => simp [members, ValueSymbol.members]

theorem inRange_toJson (symbol : Symbol) : symbol.toJson.InRange := by
  have hmembers : MembersInRange symbol.members := by
    cases symbol with
    | method s => exact s.inRange_members
    | property s => exact s.inRange_members
    | type s =>
        have hattributes := inRange_attributes s.attributes
        rw [InRange] at hattributes
        simp [members, TypeSymbol.members, hattributes]
    | field s => simp [members, MemberSymbol.members]
    | event s => simp [members, MemberSymbol.members]
    | localVariable s => exact ⟨trivial, inRange_optional s.typeName (by simp), trivial⟩
    | parameter s => exact ⟨trivial, inRange_optional s.typeName (by simp), trivial⟩
    | namespaceName s => exact ⟨trivial, inRange_optional s.typeName (by simp), trivial⟩
  simpa [toJson, SymbolKind.toJson] using hmembers

theorem readAs_members (symbol : Symbol) {room : Nat}
    (hroom : (Json.object symbol.members).nesting ≤ room) :
    readAs room (Json.object symbol.members).reading symbol.kind = .ok symbol := by
  cases symbol with
  | method s => exact congrArg (Except.map method) (s.read_toJson .loaded hroom)
  | property s => exact congrArg (Except.map property) (s.read_toJson .loaded hroom)
  | type s => exact congrArg (Except.map type) (s.read_members .loaded hroom)
  | field s => exact congrArg (Except.map field) (s.read_members .loaded hroom)
  | event s => exact congrArg (Except.map event) (s.read_members .loaded hroom)
  | localVariable s => exact congrArg (Except.map localVariable) (s.read_members .loaded hroom)
  | parameter s => exact congrArg (Except.map parameter) (s.read_members .loaded hroom)
  | namespaceName s => exact congrArg (Except.map namespaceName) (s.read_members .loaded hroom)

theorem read_toJson (symbol : Symbol) {room : Nat} (manner : Manner)
    (hroom : symbol.toJson.nesting ≤ room) :
    Symbol.read room manner symbol.toJson.reading = .ok symbol := by
  rw [toJson] at hroom ⊢
  obtain ⟨inside, rfl, hmembers⟩ := exists_room_of_object hroom
  have hinside : nestingMembers symbol.members ≤ inside := (Nat.max_le.1 hmembers).2
  -- the fields are read in place of the object with the kind, so they have its whole room
  have hread := symbol.readAs_members (Nat.add_le_add_right hinside 1)
  rw [Symbol.read, SymbolKind.toJson, union.split_reading manner symbol.kind.lookup_name
    symbol.kind_notMem_members hinside]
  exact hread

end Symbol

end SafeCalls
