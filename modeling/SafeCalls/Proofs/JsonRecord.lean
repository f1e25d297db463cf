import SafeCalls.Json.Choice
import SafeCalls.Proofs.Outcome

namespace SafeCalls

/-!
# Reading back what is written

The readings of values that this library writes decode to what was written: plain values, lists and
optional values, records with all of their fields, and the two spellings of a choice. What is
written inside a tagged union is loaded first, so there the nesting has to fit into the room.
-/

open Json (Reading Manner Error Member)

namespace Json

theorem nestingItems_le_iff {items : List Json} {room : Nat} :
    nestingItems items ≤ room ↔ ∀ item ∈ items, item.nesting ≤ room := by
  induction items with
  | nil => simp [nestingItems]
  | cons item more ih => rw [nestingItems, List.forall_mem_cons, ← ih, Nat.max_le]

theorem nestingMembers_le_iff {members : List (String × Json)} {room : Nat} :
    nestingMembers members ≤ room ↔ ∀ m ∈ members, m.2.nesting ≤ room := by
  induction members with
  | nil => simp [nestingMembers]
  | cons m more ih => rw [nestingMembers, List.forall_mem_cons, ← ih, Nat.max_le]

@[simp] theorem nesting_text (s : String) : (Json.text s).nesting = 0 := rfl

theorem nesting_list (items : List Json) : (Json.list items).nesting = nestingItems items + 1 := rfl

theorem nesting_texts_le (values : List String) : (Json.texts values).nesting ≤ 1 := by
  have hitems : nestingItems (values.map .text) ≤ 0 := by
    rw [nestingItems_le_iff]
    simp
  exact Nat.succ_le_succ hitems

theorem nesting_object (members : List (String × Json)) :
    (Json.object members).nesting = nestingMembers members + 1 := rfl

/-- An object takes one room for itself. -/
theorem exists_room_of_object {members : List (String × Json)} {room : Nat}
    (h : (Json.object members).nesting ≤ room) :
    ∃ inside, room = inside + 1 ∧ nestingMembers members ≤ inside := by
  rw [nesting_object] at h
  exact ⟨room - 1, by omega, by omega⟩

theorem reading_ne_null {v : Json} (h : v ≠ .null) : v.reading ≠ .null := by
  cases v <;> simp_all [reading]

mutual

/-- A value that is written has no faults, so it is loaded as soon as its nesting fits. -/
theorem loadingFault?_reading : ∀ (v : Json) (room : Nat), v.nesting ≤ room →
    v.reading.loadingFault? room = none
  | .null, room, _ => by cases room <;> rfl
  | .bool _, room, _ => by cases room <;> rfl
  | .number _, room, _ => by cases room <;> rfl
  | .text _, room, _ => by cases room <;> rfl
  | .list items, room + 1, h => by
      simp [reading, Reading.loadingFault?, ListEnd.fault?]
      exact loadingFault?_readingItems items room (Nat.le_of_succ_le_succ h)
  | .object members, room + 1, h => by
      simp [reading, Reading.loadingFault?, ObjectEnd.fault?]
      exact loadingFault?_readingMembers members room (Nat.le_of_succ_le_succ h)

theorem loadingFault?_readingItems : ∀ (items : List Json) (room : Nat), nestingItems items ≤ room →
    ∀ r ∈ readingItems items, r.loadingFault? room = none
  | [], room, _ => by simp [readingItems]
  | item :: more, room, h => by
      obtain ⟨hitem, hmore⟩ := Nat.max_le.1 h
      simp only [readingItems, List.forall_mem_cons]
      exact ⟨loadingFault?_reading item room hitem, loadingFault?_readingItems more room hmore⟩

theorem loadingFault?_readingMembers : ∀ (members : List (String × Json)) (room : Nat),
    nestingMembers members ≤ room →
    ∀ m ∈ readingMembers members, m.name.token.fault? = none ∧ m.value.loadingFault? room = none
  | [], room, _ => by simp [readingMembers]
  | (name, value) :: more, room, h => by
      obtain ⟨hvalue, hmore⟩ := Nat.max_le.1 h
      simp only [readingMembers, List.forall_mem_cons]
      exact ⟨⟨rfl, loadingFault?_reading value room hvalue⟩,
        loadingFault?_readingMembers more room hmore⟩

end

variable {α κ : Type}

/-! ### Plain values -/

@[simp] theorem string_reading (s : String) : (Json.text s).reading.string = .ok s := rfl

@[simp] theorem boolean_reading (b : Bool) : (Json.bool b).reading.boolean = .ok b := rfl

@[simp] theorem word_reading (n : UInt32) : (Json.number n.toNat).reading.word = .ok n := by
  have hn : n.toNat < UInt32.size := n.toNat_lt
  simp [reading, Reading.word, Reading.naturalBelow, Token.decode, Token.of, hn,
    bind, Except.bind, Except.map]

theorem mapM_reading {write : α → Json} {decode : Reading → Except Error α} (as : List α)
    (h : ∀ a ∈ as, decode (write a).reading = .ok a) :
    (readingItems (as.map write)).mapM decode = .ok as := by
  induction as with
  | nil => rfl
  | cons a as ih =>
      obtain ⟨hfirst, hmore⟩ := List.forall_mem_cons.1 h
      rw [List.map_cons, readingItems, List.mapM_cons, hfirst, ih hmore]
      rfl

theorem items_reading {write : α → Json} {decode : Reading → Except Error α} (as : List α)
    {room : Nat} (hroom : (Json.list (as.map write)).nesting ≤ room + 1)
    (h : ∀ a, (write a).nesting ≤ room → decode (write a).reading = .ok a) :
    (Json.list (as.map write)).reading.items decode = .ok as := by
  have hnesting : ∀ a ∈ as, (write a).nesting ≤ room := by
    simpa using nestingItems_le_iff.1 (Nat.le_of_succ_le_succ hroom)
  rw [reading, Reading.items, mapM_reading as fun a ha => h a (hnesting a ha)]
  rfl

theorem listOf_reading {write : α → Json} {decode : Nat → Reading → Except Error α} (as : List α)
    {room : Nat} (hroom : (Json.list (as.map write)).nesting ≤ room)
    (h : ∀ a room, (write a).nesting ≤ room → decode room (write a).reading = .ok a) :
    (Json.list (as.map write)).reading.listOf decode room = .ok as := by
  cases room with
  | zero => simp [nesting_list] at hroom
  | succ room => exact items_reading as hroom fun a => h a room

theorem strings_reading (values : List String) {room : Nat}
    (hroom : (Json.texts values).nesting ≤ room) :
    (Json.texts values).reading.strings room = .ok values :=
  listOf_reading values hroom fun s _ _ => string_reading s

end Json

/-! ### Records -/

/-- What a record that is written says about its fields: nothing is wrong, and each field has its
value, which nests no deeper than the room. -/
structure Slots.Holds (slots : Slots Error Reading) (room : Nat) (members : List (String × Json)) :
    Prop where
  stop? : slots.stop? = none
  slot : ∀ field value, members.lookup field = some value →
    ∃ place, slots.slot field = .filled place value.reading ∧ value.nesting ≤ room

namespace Layout

open Json

theorem find?_readingMembers {field : String} {value : Json} {members : List (String × Json)}
    (h : members.lookup field = some value) {room : Nat} (hroom : nestingMembers members ≤ room) :
    ∃ place, Member.find? field (readingMembers members) = some (place, value.reading) ∧
      value.nesting ≤ room := by
  induction members with
  | nil => simp at h
  | cons m more ih =>
      obtain ⟨name, v⟩ := m
      obtain ⟨hv, hmore⟩ := Nat.max_le.1 hroom
      rw [readingMembers, Member.find?]
      by_cases hname : name = field
      · subst hname
        obtain rfl : v = value := by simpa using h
        exact ⟨0, by simp [Name.ofString, Token.of, Except.toOption], hv⟩
      · have hlookup : more.lookup field = some value := by
          rw [List.lookup_cons, beq_eq_false_iff_ne.2 (Ne.symm hname)] at h
          exact h
        obtain ⟨place, hfind, hvalue⟩ := ih hlookup hmore
        exact ⟨place + 1, by simp [Name.ofString, Token.of, Except.toOption, hname, hfind], hvalue⟩

theorem stopFrom?_readingMembers (layout : Layout) (manner : Manner)
    {members : List (String × Json)} (place : Nat) (seen : List String)
    (hfields : ∀ m ∈ members, m.1 ∈ layout.fields)
    (hnodup : (members.map Prod.fst).Nodup) (hseen : ∀ m ∈ members, m.1 ∉ seen) :
    layout.stopFrom? manner place seen .closed (readingMembers members) = none := by
  induction members generalizing place seen with
  | nil => rfl
  | cons m more ih =>
      obtain ⟨name, v⟩ := m
      obtain ⟨hfirst, hmore⟩ := List.forall_mem_cons.1 hfields
      obtain ⟨hnew, hrest⟩ := List.forall_mem_cons.1 hseen
      rw [List.map_cons, List.nodup_cons] at hnodup
      have hfine : layout.memberError? manner seen ⟨Name.ofString name, v.reading⟩ = none := by
        simp [memberError?, Name.ofString, Token.of, Token.decode, hfirst, hnew]
      rw [readingMembers, stopFrom?, hfine]
      refine ih (place + 1) _ hmore hnodup.2 fun m hm => ?_
      have hother : m.1 ≠ name := fun h => hnodup.1 (List.mem_map.2 ⟨m, hm, h⟩)
      simpa [Name.ofString, Token.of, Except.toOption] using ⟨hother, hrest m hm⟩

theorem holds_ofObject (layout : Layout) (manner : Manner) {members : List (String × Json)}
    (hnames : members.map Prod.fst = layout.fields) (hnodup : layout.fields.Nodup) {room : Nat}
    (hroom : nestingMembers members ≤ room) :
    (layout.ofObject manner (readingMembers members) .closed).Holds room members where
  stop? := by
    refine stopFrom?_readingMembers layout manner 0 [] (fun m hm => ?_) (hnames ▸ hnodup) (by simp)
    rw [← hnames]
    exact List.mem_map_of_mem hm
  slot field value h := by
    obtain ⟨place, hfind, hvalue⟩ := find?_readingMembers h hroom
    exact ⟨place, by simp [ofObject, hfind], hvalue⟩

/-- An object with the names of the fields is read as the record, whatever is made of it. -/
theorem slots_bind {β : Type} (layout : Layout) (manner : Manner) {members : List (String × Json)}
    (hnames : members.map Prod.fst = layout.fields) (hnodup : layout.fields.Nodup) {room : Nat}
    (hroom : nestingMembers members ≤ room) {make : Slots Error Reading → Except Error β} {b : β}
    (hmake : ∀ slots : Slots Error Reading, slots.Holds room members → make slots = .ok b) :
    (layout.slots manner (Json.object members).reading >>= make) = .ok b :=
  hmake _ (layout.holds_ofObject manner hnames hnodup hroom)

end Layout

namespace Slots.Holds

variable {slots : Slots Error Reading} {room : Nat} {members : List (String × Json)}
  {value : Json} {α : Type} {decode : Reading → Except Error α} {a : α}

theorem fill (h : slots.Holds room members) (make : α) : slots.fill make = .ok make := by
  rw [Slots.fill, h.stop?]

theorem required (h : slots.Holds room members) (field : String)
    (hfield : members.lookup field = some value)
    (hread : value.nesting ≤ room → decode value.reading = .ok a) :
    slots.required field decode = .ok a := by
  obtain ⟨place, hslot, hvalue⟩ := h.slot field value hfield
  rw [Slots.required, hslot]
  simp [hread hvalue]

theorem defaulted (h : slots.Holds room members) (field : String)
    (hfield : members.lookup field = some value) (default : α)
    (hread : value.nesting ≤ room → decode value.reading = .ok a) :
    slots.defaulted field default decode = .ok a := by
  obtain ⟨place, hslot, hvalue⟩ := h.slot field value hfield
  rw [Slots.defaulted, hslot]
  simp [hread hvalue]

theorem optional {write : α → Json} {o : Option α} (h : slots.Holds room members)
    (field : String) (hfield : members.lookup field = some (Json.optional write o))
    (hnull : ∀ a, write a ≠ .null)
    (hread : ∀ a, (write a).nesting ≤ room → decode (write a).reading = .ok a) :
    slots.optional field decode = .ok o := by
  refine h.defaulted field hfield none fun hroom => ?_
  cases o with
  | none => rfl
  | some a =>
      have hnull' := Json.reading_ne_null (hnull a)
      rw [Json.optional, Reading.optional, hread a hroom]
      · rfl
      · exact hnull'

end Slots.Holds

/-! ### Choices -/

namespace Json

variable {α κ : Type}

theorem named_reading {names : Names κ} {name : String} {k : κ} (h : names.lookup name = some k)
    (room : Nat) (manner : Manner) :
    (Json.text name).reading.named names room manner = .ok k := by
  cases manner <;>
    simp [reading, Reading.named, Reading.choice, Reading.directChoice, Reading.loadedChoice,
      Token.decode, Token.of, Json.named, h, bind, Except.bind]

theorem choice_reading {names : Names κ} {name : String} (k : κ) (h : names.lookup name = some k)
    (decode : κ → Option Reading → Except Error α) (room : Nat) (manner : Manner) (value : Json)
    {a : α} (hread : decode k (some value.reading) = .ok a) :
    (Json.object [(name, value)]).reading.choice names decode (room + 1) manner = .ok a := by
  cases manner <;>
    simp [reading, readingMembers, Reading.choice, Reading.directChoice, Reading.loadedChoice,
      Reading.afterOnly?, Token.decode, Token.of, Name.ofString, Json.named, h, hread,
      bind, Except.bind]

namespace TaggedUnion

theorem splitMembers_readingMembers (union : TaggedUnion κ) (manner : Manner) {room : Nat}
    (k : κ) {members : List (String × Json)} (hnames : ∀ m ∈ members, m.1 ≠ "kind")
    (hroom : nestingMembers members ≤ room) :
    union.splitMembers manner room .closed (some k) (readingMembers members) =
      .ok (k, readingMembers members) := by
  induction members with
  | nil => rfl
  | cons m more ih =>
      obtain ⟨name, v⟩ := m
      obtain ⟨hname, hmore⟩ := List.forall_mem_cons.1 hnames
      obtain ⟨hv, hnesting⟩ := Nat.max_le.1 hroom
      have hload : loadError? manner room v.reading = none := by
        cases manner <;> simp [loadError?, loadingFault?_reading v room hv]
      rw [readingMembers, splitMembers]
      simp only [Name.ofString, Token.decode, Token.of, mapError_ok, ih hmore hnesting, hload]
      simp [bind, Except.bind, hname, pure, Except.pure]

theorem split_reading (union : TaggedUnion κ) (manner : Manner) {room : Nat} {name : String}
    {k : κ} (hkind : union.kinds.lookup name = some k) {members : List (String × Json)}
    (hnames : ∀ m ∈ members, m.1 ≠ "kind") (hroom : nestingMembers members ≤ room) :
    union.split manner room (Json.object (("kind", .text name) :: members)).reading =
      .ok (k, (Json.object members).reading) := by
  have hfirst : union.kind manner (Json.text name).reading = .ok k := by
    cases manner <;>
      simp [reading, kind, Token.decode, Token.of, Json.named, hkind, bind, Except.bind]
  have hmore := splitMembers_readingMembers union manner k hnames hroom
  rw [reading, readingMembers, split, splitMembers]
  simp only [hfirst]
  simp [Name.ofString, Token.decode, Token.of, bind, Except.bind, hmore,
    Except.map, reading]

/-- An object with a kind and the names of the fields of its alternative is read as the record of
this alternative, whatever is made of it. -/
theorem fields_bind {β : Type} (union : TaggedUnion κ) (manner : Manner) {layout : κ → Layout}
    (hnodup : ∀ k, ("kind" :: (layout k).fields).Nodup) {room : Nat} {name : String} (k : κ)
    {members : List (String × Json)} (hkind : union.kinds.lookup name = some k)
    (hnames : members.map Prod.fst = (layout k).fields)
    (hroom : (Json.object (("kind", .text name) :: members)).nesting ≤ room + 1)
    {next : κ × Reading → Except Error β} {make : Slots Error Reading → Except Error β} {b : β}
    (hnext : next (k, (Json.object members).reading) =
      (layout k).slots .loaded (Json.object members).reading >>= make)
    (hmake : ∀ slots : Slots Error Reading, slots.Holds room members → make slots = .ok b) :
    (union.split manner room (Json.object (("kind", .text name) :: members)).reading >>= next) =
      .ok b := by
  obtain ⟨hkindName, hfields⟩ := List.nodup_cons.1 (hnodup k)
  have hmembers : nestingMembers members ≤ room := by
    simpa [nesting_object, nestingMembers] using hroom
  have hother : ∀ m ∈ members, m.1 ≠ "kind" := by
    intro m hm h
    rw [← hnames, ← h] at hkindName
    exact hkindName (List.mem_map_of_mem hm)
  rw [union.split_reading manner hkind hother hmembers]
  change next _ = _
  rw [hnext]
  exact Layout.slots_bind _ .loaded hnames hfields hmembers hmake

end TaggedUnion

end Json

end SafeCalls
