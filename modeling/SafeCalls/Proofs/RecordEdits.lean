import Mathlib.Data.List.Nodup
import SafeCalls.Proofs.PassingOver
import SafeCalls.Proofs.SnapshotEdits

namespace SafeCalls

/-!
# Records under edits

What a record makes of its fields does not change when its object is spelled in another way: the
fields keep their values, apart from values that are edited themselves and values that may as well
be left out. How a value inside may change is a parameter here.
-/

open Json (Error Manner Member ObjectEnd ListEnd Reading TaggedUnion)

/-! ### Slots -/

def Slot.value? {ε ν : Type} : Slot ε ν → Option ν
  | filled _ value => some value
  | empty _ _ => none

namespace Slots

variable {ε ν α : Type} {slots : Slots ε ν} {field : String} {decode : ν → Except ε α} {a : α}

theorem required_eq_ok_iff : slots.required field decode = .ok a ↔
    ∃ value, (slots.slot field).value? = some value ∧ decode value = .ok a := by
  rw [required_eq_ok]
  cases slots.slot field <;> simp [Slot.value?]

theorem defaulted_eq_ok_iff {default : α} : slots.defaulted field default decode = .ok a ↔
    (∃ value, (slots.slot field).value? = some value ∧ decode value = .ok a) ∨
      (slots.slot field).value? = none ∧ default = a := by
  rw [defaulted_eq_ok]
  cases slots.slot field <;> simp [Slot.value?]

end Slots

section

variable {E : Form → Reading → Reading → Prop} {room : Nat} {manner : Manner}

/-- How the value of a field may change: not at all, as values of its form do, or by being left out
where it is the default. -/
inductive Field.Follows (E : Form → Reading → Reading → Prop) (room : Nat) (manner : Manner)
    (field : Field) : Option Reading → Option Reading → Prop
  | same (value : Option Reading) : Follows E room manner field value value
  | edited {part : Form} {value value' : Reading} (hpart : field.form? = some part)
      (h : E part value value') : Follows E room manner field (some value) (some value')
  | dropped {default : Default} {value : Reading} (hdefault : field.default? = some default)
      (h : default.IsSpelledBy room manner value) : Follows E room manner field (some value) none

/-- The slots of a record after an edit. Nothing is known of them where the record itself is in
error. -/
structure Slots.Follow (E : Form → Reading → Reading → Prop) (room : Nat) (manner : Manner)
    (fields : List Field) (slots slots' : Slots Error Reading) : Prop where
  stop? : slots.stop? = none → slots'.stop? = none
  field : slots.stop? = none → ∀ field ∈ fields,
    field.Follows E room manner (slots.slot field.name).value? (slots'.slot field.name).value?

/-- What is made of some of the fields is made of them after the edit as well. -/
structure Slots.Fills (E : Form → Reading → Reading → Prop) (room : Nat) (manner : Manner)
    (fields : List Field) (slots slots' : Slots Error Reading) {α : Type}
    (made made' : Placed Error α) : Prop where
  follow : Slots.Follow E room manner fields slots slots'
  keeps : ∀ a, made = .ok a → slots.stop? = none ∧ made' = .ok a

namespace Slots.Fills

variable {fields : List Field} {slots slots' : Slots Error Reading} {α β : Type}
  {decode : Reading → Except Error α} {make make' : Placed Error (α → β)}

theorem start (h : Slots.Follow E room manner fields slots slots') (make : α) :
    Fills E room manner fields slots slots' (slots.fill make) (slots'.fill make) where
  follow := h
  keeps := by
    intro f hf
    obtain ⟨hstop, rfl⟩ := fill_eq_ok.1 hf
    exact ⟨hstop, fill_eq_ok.2 ⟨h.stop? hstop, rfl⟩⟩

theorem part (h : Fills E room manner fields slots slots' make make') {value value' : Placed Error α}
    (hvalue : slots.stop? = none → Keeps value value') :
    Fills E room manner fields slots slots' (make.part value) (make'.part value') where
  follow := h.follow
  keeps := by
    intro b hb
    obtain ⟨f, a, hf, ha, rfl⟩ := Placed.part_eq_ok.1 hb
    obtain ⟨hstop, hf'⟩ := h.keeps f hf
    exact ⟨hstop, Placed.part_eq_ok.2 ⟨f, a, hf', hvalue hstop a ha, rfl⟩⟩

theorem result {made made' : Placed Error α}
    (h : Fills E room manner fields slots slots' made made') : Keeps made.result made'.result := by
  intro a ha
  exact Placed.result_eq_ok.2 (h.keeps a (Placed.result_eq_ok.1 ha)).2

theorem required (h : Fills E room manner fields slots slots' make make') {field : Field}
    (hmem : field ∈ fields) (hdefault : field.default? = none)
    (hpart : ∀ part value value', field.form? = some part → E part value value' →
      Keeps (decode value) (decode value')) :
    Fills E room manner fields slots slots' (make.part (slots.required field.name decode))
      (make'.part (slots'.required field.name decode)) := by
  apply h.part
  intro hstop a ha
  obtain ⟨value, hvalue, hdecode⟩ := required_eq_ok_iff.1 ha
  have hfollows := h.follow.field hstop field hmem
  rw [hvalue] at hfollows
  apply required_eq_ok_iff.2
  cases hvalue' : (slots'.slot field.name).value? with
  | none =>
      rw [hvalue'] at hfollows
      cases hfollows with
      | dropped hsome => cases hdefault.symm.trans hsome
  | some value' =>
      rw [hvalue'] at hfollows
      cases hfollows with
      | same => exact ⟨value, rfl, hdecode⟩
      | edited hform hE => exact ⟨value', rfl, hpart _ _ _ hform hE a hdecode⟩

theorem defaulted (h : Fills E room manner fields slots slots' make make') {field : Field}
    (hmem : field ∈ fields) {missing : α}
    (hdefault : ∀ default value a, field.default? = some default →
      default.IsSpelledBy room manner value → decode value = .ok a → missing = a)
    (hpart : ∀ part value value', field.form? = some part → E part value value' →
      Keeps (decode value) (decode value')) :
    Fills E room manner fields slots slots' (make.part (slots.defaulted field.name missing decode))
      (make'.part (slots'.defaulted field.name missing decode)) := by
  apply h.part
  intro hstop a ha
  have hfollows := h.follow.field hstop field hmem
  apply defaulted_eq_ok_iff.2
  obtain ⟨value, hvalue, hdecode⟩ | ⟨hnone, rfl⟩ := defaulted_eq_ok_iff.1 ha
  · rw [hvalue] at hfollows
    cases hvalue' : (slots'.slot field.name).value? with
    | none =>
        rw [hvalue'] at hfollows
        cases hfollows with
        | dropped hsome hspelled => exact .inr ⟨rfl, hdefault _ _ _ hsome hspelled hdecode⟩
    | some value' =>
        rw [hvalue'] at hfollows
        cases hfollows with
        | same => exact .inl ⟨value, rfl, hdecode⟩
        | edited hform hE => exact .inl ⟨value', rfl, hpart _ _ _ hform hE a hdecode⟩
  · rw [hnone] at hfollows
    cases hvalue' : (slots'.slot field.name).value? with
    | none => exact .inr ⟨rfl, rfl⟩
    | some value' =>
        rw [hvalue'] at hfollows
        cases hfollows

/-! The fields of a record are of four sorts: there is a default or none, and the value is edited
or not. -/

variable {name : String} {default : Default} {form : Form} {missing : α}

theorem plain (h : Fills E room manner fields slots slots' make make')
    (hmem : Field.plain name ∈ fields := by decide) :
    Fills E room manner fields slots slots' (make.part (slots.required name decode))
      (make'.part (slots'.required name decode)) := by
  apply h.required hmem rfl
  intro part value value' hform
  cases hform

theorem plainOr (h : Fills E room manner fields slots slots' make make')
    (hmem : Field.plainOr name default ∈ fields)
    (hdefault : ∀ value a, default.IsSpelledBy room manner value → decode value = .ok a →
      missing = a) :
    Fills E room manner fields slots slots' (make.part (slots.defaulted name missing decode))
      (make'.part (slots'.defaulted name missing decode)) := by
  apply h.defaulted hmem
  · rintro _ value a ⟨⟩
    exact hdefault value a
  · intro part value value' hform
    cases hform

theorem inner (h : Fills E room manner fields slots slots' make make')
    (hmem : Field.part name form ∈ fields)
    (hedit : ∀ value value', E form value value' → Keeps (decode value) (decode value')) :
    Fills E room manner fields slots slots' (make.part (slots.required name decode))
      (make'.part (slots'.required name decode)) := by
  apply h.required hmem rfl
  rintro _ value value' ⟨⟩
  exact hedit value value'

theorem innerOr (h : Fills E room manner fields slots slots' make make')
    (hmem : Field.partOr name default form ∈ fields)
    (hdefault : ∀ value a, default.IsSpelledBy room manner value → decode value = .ok a →
      missing = a)
    (hedit : ∀ value value', E form value value' → Keeps (decode value) (decode value')) :
    Fills E room manner fields slots slots' (make.part (slots.defaulted name missing decode))
      (make'.part (slots'.defaulted name missing decode)) := by
  apply h.defaulted hmem
  · rintro _ value a ⟨⟩
    exact hdefault value a
  · rintro _ value value' ⟨⟩
    exact hedit value value'

end Slots.Fills

end

/-! ### The members of an object -/

namespace Json.Member

theorem isNamed_unique {member : Member} {name name' : String} (h : member.isNamed name)
    (h' : member.isNamed name') : name = name' :=
  Except.ok.inj ((isNamed_iff.1 h).symm.trans (isNamed_iff.1 h'))

/-- The values of the members with a name. -/
def values (name : String) (members : List Member) : List Reading :=
  (members.filter (·.isNamed name)).map Member.value

section

variable {name : String} {member : Member} {members more : List Member}

@[simp] theorem values_nil : values name [] = [] := rfl

@[simp] theorem values_append :
    values name (members ++ more) = values name members ++ values name more := by
  simp [values]

theorem values_cons_of_named (h : member.isNamed name) :
    values name (member :: more) = member.value :: values name more := by
  rw [values, List.filter_cons_of_pos h]
  rfl

theorem values_cons_of_not_named (h : ¬ member.isNamed name) :
    values name (member :: more) = values name more := by
  rw [values, List.filter_cons_of_neg h]
  rfl

theorem find?_value (field : String) (members : List Member) :
    (Member.find? field members).map Prod.snd = (values field members).head? := by
  induction members with
  | nil => rfl
  | cons m more ih =>
      rw [Member.find?]
      by_cases hm : m.isNamed field
      · rw [if_pos (by simpa [isNamed] using hm), values_cons_of_named hm]
        rfl
      · rw [if_neg (by simpa [isNamed] using hm), values_cons_of_not_named hm, ← ih, Option.map_map]
        rfl

end

end Json.Member

namespace Layout

variable {layout : Layout} {manner : Manner} {members : List Member} {ending : ObjectEnd}

theorem value?_slot_ofObject (field : String) :
    ((layout.ofObject manner members ending).slot field).value? =
      (Member.values field members).head? := by
  rw [← Member.find?_value]
  simp only [ofObject]
  cases Member.find? field members <;> rfl

/-- Nothing is wrong with a member, unless its name occurs twice. -/
def Admits (layout : Layout) (manner : Manner) (member : Member) : Prop :=
  ∃ name, member.name.token.value = .ok name ∧
    (name ∈ layout.fields ∨ layout.isStrict = false ∧ member.value.skipError? manner = none)

theorem memberError?_eq_none {seen : List String} {member : Member} :
    layout.memberError? manner seen member = none ↔
      layout.Admits manner member ∧ ∀ field ∈ layout.fields, member.isNamed field → field ∉ seen := by
  simp only [memberError?, Json.Token.decode, Admits, Member.isNamed_iff]
  cases member.name.token.value with
  | error e => simp [Except.mapError]
  | ok name =>
      have hseen : (∀ field ∈ layout.fields,
          Except.ok (ε := Json.Fault) name = .ok field → field ∉ seen) ↔
            (name ∈ layout.fields → name ∉ seen) :=
        ⟨fun h hname => h name hname rfl, fun h field hfield heq => by cases heq; exact h hfield⟩
      rw [hseen]
      by_cases hfield : name ∈ layout.fields
      · simp [Except.mapError, hfield]
      · cases layout.isStrict <;> simp [Except.mapError, hfield]

/-- A name counts as seen from the first member that has it. -/
theorem count_cons {seen : List String} {m : Member} {more : List Member} {name : String}
    (hname : m.name.token.value = .ok name) (field : String) :
    ((m.isNamed field → field ∉ seen) ∧
      (Member.values field more).length ≤ if field ∈ name :: seen then 0 else 1) ↔
        (Member.values field (m :: more)).length ≤ if field ∈ seen then 0 else 1 := by
  by_cases hfield : name = field
  · subst hfield
    have hm : m.isNamed name := Member.isNamed_iff.2 hname
    by_cases hseen : name ∈ seen <;> simp [hm, hseen, Member.values_cons_of_named]
  · have hm : ¬ m.isNamed field := by
      intro h
      exact hfield (Member.isNamed_unique (Member.isNamed_iff.2 hname) h)
    simp [hm, Ne.symm hfield, Member.values_cons_of_not_named]

theorem stopFrom?_eq_none {place : Nat} {seen : List String} :
    layout.stopFrom? manner place seen ending members = none ↔
      ending.fault? = none ∧ (∀ m ∈ members, layout.Admits manner m) ∧
        ∀ field ∈ layout.fields,
          (Member.values field members).length ≤ if field ∈ seen then 0 else 1 := by
  induction members generalizing place seen with
  | nil => simp [stopFrom?]
  | cons m more ih =>
      have hstep : layout.stopFrom? manner place seen ending (m :: more) = none ↔
          layout.memberError? manner seen m = none ∧
            layout.stopFrom? manner (place + 1) (m.name.token.value.toOption.getD "" :: seen) ending
              more = none := by
        rw [stopFrom?]
        cases layout.memberError? manner seen m <;> simp
      rw [hstep, memberError?_eq_none, ih, List.forall_mem_cons]
      constructor
      · rintro ⟨⟨hm, hfresh⟩, hend, hmore, hcount⟩
        obtain ⟨name, hname, -⟩ := id hm
        rw [hname] at hcount
        exact ⟨hend, ⟨hm, hmore⟩, fun field hfield =>
          (count_cons hname field).1 ⟨hfresh field hfield, hcount field hfield⟩⟩
      · rintro ⟨hend, ⟨hm, hmore⟩, hcount⟩
        obtain ⟨name, hname, -⟩ := id hm
        have hparts := fun field hfield => (count_cons hname field).2 (hcount field hfield)
        rw [hname]
        exact ⟨⟨hm, fun field hfield => (hparts field hfield).1⟩, hend, hmore,
          fun field hfield => (hparts field hfield).2⟩

theorem stop?_ofObject_eq_none : (layout.ofObject manner members ending).stop? = none ↔
    ending.fault? = none ∧ (∀ m ∈ members, layout.Admits manner m) ∧
      ∀ field ∈ layout.fields, (Member.values field members).length ≤ 1 := by
  rw [ofObject, stopFrom?_eq_none]
  simp

end Layout

/-! ### Edited members -/

/-- Where a member of an edited object comes from. -/
inductive Json.Member.Stems (room : Nat) (fields : List Field) (members : List Member) :
    Member → Prop
  | kept {member : Member} (h : member ∈ members) : Stems room fields members member
  | edited {name : Json.Name} {value value' : Reading} {field : Field}
      (h : ⟨name, value⟩ ∈ members) (hfield : field ∈ fields)
      (hname : isNamed field.name ⟨name, value'⟩)
      (hload : value.loadingFault? room = none → value'.loadingFault? room = none) :
      Stems room fields members ⟨name, value'⟩
  | added {member : Member} {name : String} (hname : member.isNamed name)
      (hvalue : member.value.IsReadable room) : Stems room fields members member

/-- The members of an object after an edit. -/
structure MembersFollow (E : Form → Reading → Reading → Prop) (room : Nat) (manner : Manner)
    (fields : List Field) (members members' : List Member) : Prop where
  stems : ∀ member ∈ members', member.Stems room fields members
  field : ∀ field ∈ fields, (Member.values field.name members).length ≤ 1 →
    (Member.values field.name members').length ≤ 1 ∧
      field.Follows E room manner (Member.values field.name members).head?
        (Member.values field.name members').head?

section

variable {E : Form → Reading → Reading → Prop} {room : Nat} {manner : Manner} {fields : List Field}

theorem Field.eq_of_name_eq (hnodup : (fields.map Field.name).Nodup) {field field' : Field}
    (h : field ∈ fields) (h' : field' ∈ fields) (hname : field.name = field'.name) :
    field = field' :=
  List.inj_on_of_nodup_map hnodup h h' hname

namespace MembersFollow

variable {members members' before after : List Member} {member : Member}

theorem reorder (hperm : members.Perm members') :
    MembersFollow E room manner fields members members' where
  stems member hmem := .kept (hperm.mem_iff.2 hmem)
  field field _ hcount := by
    have hvalues : (Member.values field.name members).Perm (Member.values field.name members') :=
      (hperm.filter _).map _
    have heq : Member.values field.name members' = Member.values field.name members := by
      revert hvalues hcount
      cases Member.values field.name members with
      | nil => exact fun _ h => List.nil_perm.1 h
      | cons v more =>
          intro hcount h
          obtain rfl : more = [] := by simpa using hcount
          exact (List.singleton_perm.1 h).symm
    rw [heq]
    exact ⟨hcount, .same _⟩

theorem add {name : String} (hname : member.isNamed name)
    (hnew : ∀ field ∈ fields, field.name ≠ name) (hvalue : member.value.IsReadable room) :
    MembersFollow E room manner fields (before ++ after) (before ++ member :: after) where
  stems m hm := by
    rcases List.mem_append.1 hm with hm | hm
    · exact .kept (List.mem_append_left _ hm)
    · rcases List.mem_cons.1 hm with rfl | hm
      · exact .added hname hvalue
      · exact .kept (List.mem_append_right _ hm)
  field field hfield hcount := by
    have hother : ¬ member.isNamed field.name := by
      intro h
      exact hnew field hfield (Member.isNamed_unique h hname)
    have heq : Member.values field.name (before ++ member :: after) =
        Member.values field.name (before ++ after) := by
      simp [Member.values_cons_of_not_named hother]
    rw [heq]
    exact ⟨hcount, .same _⟩

/-- The value of a field is edited or dropped, and all other fields stay. -/
theorem field_of_middle (middle : List Member) (hnodup : (fields.map Field.name).Nodup)
    {field : Field} (hfield : field ∈ fields) (hname : member.isNamed field.name)
    (hmiddle : ∀ m ∈ middle, m.isNamed field.name) (hshort : middle.length ≤ 1)
    (hfollows : field.Follows E room manner (some member.value) (middle.map Member.value).head?) :
    ∀ other ∈ fields, (Member.values other.name (before ++ member :: after)).length ≤ 1 →
      (Member.values other.name (before ++ (middle ++ after))).length ≤ 1 ∧
        other.Follows E room manner
          (Member.values other.name (before ++ member :: after)).head?
          (Member.values other.name (before ++ (middle ++ after))).head? := by
  intro other hother hcount
  by_cases heq : other.name = field.name
  · obtain rfl := Field.eq_of_name_eq hnodup hother hfield heq
    have hmid : Member.values other.name middle = middle.map Member.value := by
      rw [Member.values, List.filter_eq_self.2 hmiddle]
    simp only [Member.values_append, Member.values_cons_of_named hname, hmid] at hcount ⊢
    have hempty : Member.values other.name before = [] ∧ Member.values other.name after = [] := by
      simp only [List.length_append, List.length_cons] at hcount
      constructor <;> apply List.length_eq_zero_iff.1 <;> omega
    rw [hempty.1, hempty.2]
    rw [List.nil_append, List.append_nil, List.length_map]
    exact ⟨hshort, hfollows⟩
  · have hnot : ∀ m : Member, m.isNamed field.name → ¬ m.isNamed other.name := by
      intro m h h'
      exact heq (Member.isNamed_unique h' h)
    have hmid : Member.values other.name middle = [] := by
      rw [Member.values, List.filter_eq_nil_iff.2 fun m hm => hnot m (hmiddle m hm)]
      rfl
    simp only [Member.values_append, Member.values_cons_of_not_named (hnot member hname), hmid,
      List.nil_append] at hcount ⊢
    exact ⟨hcount, .same _⟩

theorem drop (hnodup : (fields.map Field.name).Nodup) {field : Field} {default : Default}
    (hfield : field ∈ fields) (hname : member.isNamed field.name)
    (hdefault : field.default? = some default)
    (hvalue : default.IsSpelledBy room manner member.value) :
    MembersFollow E room manner fields (before ++ member :: after) (before ++ after) where
  stems m hm := by
    rcases List.mem_append.1 hm with hm | hm
    · exact .kept (List.mem_append_left _ hm)
    · exact .kept (List.mem_append_right _ (List.mem_cons_of_mem _ hm))
  field := field_of_middle [] hnodup hfield hname (List.forall_mem_nil _) (Nat.zero_le 1)
    (.dropped hdefault hvalue)

theorem edit (hnodup : (fields.map Field.name).Nodup) {name : Json.Name} {value value' : Reading}
    {field : Field} {part : Form} (hfield : field ∈ fields)
    (hname : Member.isNamed field.name ⟨name, value⟩) (hpart : field.form? = some part)
    (hE : E part value value')
    (hload : value.loadingFault? room = none → value'.loadingFault? room = none) :
    MembersFollow E room manner fields (before ++ ⟨name, value⟩ :: after)
      (before ++ ⟨name, value'⟩ :: after) where
  stems m hm := by
    rcases List.mem_append.1 hm with hm | hm
    · exact .kept (List.mem_append_left _ hm)
    · rcases List.mem_cons.1 hm with rfl | hm
      · exact .edited (List.mem_append_right _ List.mem_cons_self) hfield hname hload
      · exact .kept (List.mem_append_right _ (List.mem_cons_of_mem _ hm))
  field := field_of_middle [⟨name, value'⟩] hnodup hfield hname
    (List.forall_mem_singleton.2 hname) (Nat.le_refl 1) (.edited hpart hE)

end MembersFollow

/-! ### Edited records -/

/-- What is made of the slots of a record with the given fields does not change under edits. -/
structure Layout.Makes (E : Form → Reading → Reading → Prop) (room : Nat) (manner : Manner)
    (layout : Layout) (fields : List Field) {α : Type} (make : Slots Error Reading → Except Error α) :
    Prop where
  names : layout.fields = fields.map Field.name
  isLenient : layout.isStrict = false
  keeps : ∀ {slots slots' : Slots Error Reading}, Slots.Follow E room manner fields slots slots' →
    Keeps (make slots) (make slots')

section

variable {layout : Layout} {α : Type} {make : Slots Error Reading → Except Error α}

theorem Json.Member.Stems.admits {members : List Member} {member : Member}
    (h : member.Stems room fields members) (hfields : layout.fields = fields.map Field.name)
    (hstrict : layout.isStrict = false) (hall : ∀ m ∈ members, layout.Admits manner m) :
    layout.Admits manner member := by
  cases h with
  | kept hmem => exact hall _ hmem
  | @edited _ _ _ field _ hfield hname _ =>
      refine ⟨field.name, Member.isNamed_iff.1 hname, .inl ?_⟩
      rw [hfields]
      exact List.mem_map_of_mem hfield
  | @added _ name hname hvalue =>
      refine ⟨name, Member.isNamed_iff.1 hname, .inr ⟨hstrict, ?_⟩⟩
      obtain ⟨text, htext⟩ := hvalue.spelled
      have hpass : member.value.passingFault? = none := by
        have := Json.isPassable_readText text room
        rw [htext] at this
        exact this hvalue.loadingFault?
      cases manner with
      | loaded => rfl
      | direct => rw [Reading.skipError?, hpass]; rfl

theorem MembersFollow.slots {members members' : List Member} {ending : ObjectEnd}
    (h : MembersFollow E room manner fields members members')
    (hfields : layout.fields = fields.map Field.name) (hstrict : layout.isStrict = false) :
    Slots.Follow E room manner fields (layout.ofObject manner members ending)
      (layout.ofObject manner members' ending) where
  stop? := by
    simp only [Layout.stop?_ofObject_eq_none, hfields, List.forall_mem_map]
    rintro ⟨hend, hall, hcount⟩
    exact ⟨hend, fun m hm => (h.stems m hm).admits hfields hstrict hall,
      fun field hfield => (h.field field hfield (hcount field hfield)).1⟩
  field := by
    intro hstop field hfield
    simp only [Layout.stop?_ofObject_eq_none, hfields, List.forall_mem_map] at hstop
    simp only [Layout.value?_slot_ofObject]
    exact (h.field field hfield (hstop.2.2 field hfield)).2

theorem Layout.value?_slot_ofList {items : List Reading} {ending : ListEnd} (field : String) :
    ((layout.ofList manner items ending).slot field).value? =
      items[layout.fields.idxOf field]? := by
  simp only [ofList]
  cases items[layout.fields.idxOf field]? <;> rfl

theorem Layout.Makes.keeps_object (h : layout.Makes E room manner fields make)
    {members members' : List Member} {ending : ObjectEnd}
    (hmembers : MembersFollow E room manner fields members members') :
    Keeps (layout.slots manner (.object members ending) >>= make)
      (layout.slots manner (.object members' ending) >>= make) :=
  h.keeps (hmembers.slots h.names h.isLenient)

/-- In a list the place of an item tells which field it is. -/
theorem Layout.Makes.keeps_list (h : layout.Makes E room manner fields make)
    (hnodup : (fields.map Field.name).Nodup) {before after : List Reading} {value value' : Reading}
    {ending : ListEnd} {field : Field} {part : Form} (hfield : fields[before.length]? = some field)
    (hpart : field.form? = some part) (hE : E part value value') :
    Keeps (layout.slots manner (.list (before ++ value :: after) ending) >>= make)
      (layout.slots manner (.list (before ++ value' :: after) ending) >>= make) := by
  apply h.keeps
  constructor
  · simp [Layout.ofList]
  · intro _ other hother
    obtain ⟨place, hplace, rfl⟩ := List.getElem_of_mem hother
    have hindex : layout.fields.idxOf fields[place].name = place := by
      have hmap : place < (fields.map Field.name).length := by simpa using hplace
      rw [h.names, ← List.getElem_map (h := hmap), hnodup.idxOf_getElem]
    rw [Layout.value?_slot_ofList, Layout.value?_slot_ofList, hindex]
    by_cases heq : place = before.length
    · subst heq
      obtain rfl : fields[before.length] = field := by simpa [hplace] using hfield
      simpa using .edited hpart hE
    · have hset : before ++ value' :: after = (before ++ value :: after).set before.length value' := by
        simp
      rw [hset, List.getElem?_set_ne (Ne.symm heq)]
      exact .same _

end

/-! ### Edited unions -/

theorem Field.Follows.eq_of_plain {name : String} {value value' : Option Reading}
    (h : (Field.plain name).Follows E room manner value value') : value' = value := by
  cases h with
  | same => rfl
  | edited hpart => cases hpart
  | dropped hdefault => cases hdefault

theorem Json.TaggedUnion.loadError?_eq_none {value : Reading} :
    TaggedUnion.loadError? manner room value = none ↔
      (manner = .direct → value.loadingFault? room = none) := by
  cases manner <;> simp [TaggedUnion.loadError?]

theorem Json.Member.Stems.isLoadable {members : List Member} {member : Member}
    (h : member.Stems room fields members)
    (hall : ∀ m ∈ members, TaggedUnion.IsLoadable manner room m) :
    TaggedUnion.IsLoadable manner room member := by
  cases h with
  | kept hmem => exact hall _ hmem
  | edited hmem _ _ hload =>
      obtain ⟨hname, hold⟩ := hall _ hmem
      rw [TaggedUnion.loadError?_eq_none] at hold
      exact ⟨hname, TaggedUnion.loadError?_eq_none.2 fun h => hload (hold h)⟩
  | added hname hvalue =>
      exact ⟨⟨_, Member.isNamed_iff.1 hname⟩,
        TaggedUnion.loadError?_eq_none.2 fun _ => hvalue.loadingFault?⟩

section

variable {members members' : List Member} {fields : List Field}

/-- Besides the kind, the same edit is one of the fields alone. -/
theorem MembersFollow.others
    (h : MembersFollow E room manner (Field.plain "kind" :: fields) members members')
    (hnodup : ("kind" :: fields.map Field.name).Nodup) :
    MembersFollow E room manner fields (members.filter (!·.isNamed "kind"))
      (members'.filter (!·.isNamed "kind")) where
  stems member hmem := by
    obtain ⟨hmem, hother⟩ := List.mem_filter.1 hmem
    cases h.stems member hmem with
    | kept hold => exact .kept (List.mem_filter.2 ⟨hold, hother⟩)
    | edited hold hfield hname hload =>
        rcases List.mem_cons.1 hfield with rfl | hfield
        · have hkind : Member.isNamed "kind" _ = true := hname
          rw [hkind] at hother
          cases hother
        · exact .edited (List.mem_filter.2 ⟨hold, hother⟩) hfield hname hload
    | added hname hvalue => exact .added hname hvalue
  field field hfield := by
    have hne : field.name ≠ "kind" := by
      intro heq
      exact (List.nodup_cons.1 hnodup).1 (heq ▸ List.mem_map_of_mem hfield)
    have hvalues : ∀ all : List Member, Member.values field.name (all.filter (!·.isNamed "kind")) =
        Member.values field.name all := by
      intro all
      rw [Member.values, Member.values, List.filter_filter]
      congr 1
      apply List.filter_congr
      intro m _
      cases hm : m.isNamed field.name with
      | false => rfl
      | true =>
          have hother : ¬ m.isNamed "kind" := fun hkind => hne (Member.isNamed_unique hm hkind)
          simpa using hother
    rw [hvalues, hvalues]
    exact h.field field (List.mem_cons_of_mem _ hfield)

theorem MembersFollow.kind
    (h : MembersFollow E room manner (Field.plain "kind" :: fields) members members')
    {tag : Reading} (htag : Member.values "kind" members = [tag]) :
    Member.values "kind" members' = [tag] := by
  have hfield := h.field (Field.plain "kind") List.mem_cons_self
  dsimp only [Field.plain] at hfield
  rw [htag] at hfield
  obtain ⟨hcount, hfollows⟩ := hfield (Nat.le_refl 1)
  have hhead : (Member.values "kind" members').head? = some tag := hfollows.eq_of_plain
  cases hvalues : Member.values "kind" members' with
  | nil =>
      rw [hvalues] at hhead
      cases hhead
  | cons v more =>
      rw [hvalues] at hhead hcount
      obtain rfl : more = [] := by simpa using hcount
      obtain rfl : v = tag := by simpa using hhead
      rfl

/-- Of a union, the alternative of the given kind is a record of the given fields. -/
def Json.TaggedUnion.Offers {κ α : Type} (E : Form → Reading → Reading → Prop) (room : Nat)
    (union : TaggedUnion κ) (kind : κ) (fields : List Field)
    (read : Manner → Reading → Except Error α) : Prop :=
  ∃ (next : κ × Reading → Except Error α) (layout : Layout)
    (make : Slots Error Reading → Except Error α),
    layout.Makes E room .loaded fields make ∧
      (∀ reading, next (kind, reading) = layout.slots .loaded reading >>= make) ∧
        ∀ manner reading, read manner reading = union.split manner room reading >>= next

namespace Json.TaggedUnion.Offers

variable {κ α : Type} {union : TaggedUnion κ} {kind : κ} {read : Manner → Reading → Except Error α}

theorem keeps_object (h : union.Offers E room kind fields read)
    (hnodup : ("kind" :: fields.map Field.name).Nodup) {tag : Member} (hmem : tag ∈ members)
    (htag : tag.isNamed "kind") (hkind : union.kind manner tag.value = .ok kind)
    (hmembers : MembersFollow E room .loaded (Field.plain "kind" :: fields) members members')
    {ending : ObjectEnd} :
    Keeps (read manner (.object members ending)) (read manner (.object members' ending)) := by
  obtain ⟨next, layout, make, hmake, hnext, hunion⟩ := h
  rw [hunion, hunion]
  intro a ha
  obtain ⟨⟨kind', reading⟩, hsplit, hread⟩ := bind_eq_ok.1 ha
  obtain ⟨_, _, others, ⟨⟩, rfl, hparts⟩ | ⟨_, _, _, ⟨⟩, -⟩ := TaggedUnion.split_eq_ok.1 hsplit
  obtain ⟨hend, ⟨tag', hfilter, hkind'⟩, rfl, hall⟩ := TaggedUnion.splitMembers_eq_ok.1 hparts
  obtain rfl : tag = tag' := by
    have hone : tag ∈ members.filter (·.isNamed "kind") := List.mem_filter.2 ⟨hmem, htag⟩
    rw [hfilter] at hone
    exact List.mem_singleton.1 hone
  obtain rfl : kind = kind' := Except.ok.inj (hkind.symm.trans hkind')
  have hvalues : Member.values "kind" members' = [tag.value] :=
    hmembers.kind (by rw [Member.values, hfilter]; rfl)
  obtain ⟨tag', hfilter', hvalue⟩ := List.map_eq_singleton_iff.1 hvalues
  have hothers := hmembers.others hnodup
  refine bind_eq_ok.2 ⟨(kind, .object (members'.filter (!·.isNamed "kind")) .closed), ?_, ?_⟩
  · refine TaggedUnion.split_eq_ok.2 (.inl ⟨members', ending, _, rfl, rfl, ?_⟩)
    exact TaggedUnion.splitMembers_eq_ok.2
      ⟨hend, ⟨tag', hfilter', by rw [hvalue]; exact hkind⟩, rfl,
        fun m hm => (hothers.stems m hm).isLoadable hall⟩
  · rw [hnext] at hread ⊢
    exact hmake.keeps_object hothers a hread

theorem keeps_list (h : union.Offers E room kind fields read)
    (hnodup : ("kind" :: fields.map Field.name).Nodup) {before after : List Reading}
    {tag value value' : Reading} {field : Field} {part : Form}
    (htag : (before ++ value :: after).head? = some tag) (hkind : union.kind manner tag = .ok kind)
    (hfield : (Field.plain "kind" :: fields)[before.length]? = some field)
    (hpart : field.form? = some part) (hE : E part value value')
    (hload : value.loadingFault? room = none → value'.loadingFault? room = none)
    {ending : ListEnd} :
    Keeps (read manner (.list (before ++ value :: after) ending))
      (read manner (.list (before ++ value' :: after) ending)) := by
  obtain ⟨next, layout, make, hmake, hnext, hunion⟩ := h
  rw [hunion, hunion]
  cases before with
  | nil =>
      obtain rfl : Field.plain "kind" = field := Option.some.inj hfield
      cases hpart
  | cons first before =>
      obtain rfl : first = tag := Option.some.inj htag
      intro a ha
      obtain ⟨⟨kind', reading⟩, hsplit, hread⟩ := bind_eq_ok.1 ha
      obtain ⟨_, _, _, ⟨⟩, -⟩ | ⟨_, _, rest, ⟨⟩, rfl, hparts⟩ := TaggedUnion.split_eq_ok.1 hsplit
      obtain ⟨hend, _, ⟨⟩, hkind', hall⟩ := TaggedUnion.splitItems_eq_ok.1 hparts
      obtain rfl : kind = kind' := Except.ok.inj (hkind.symm.trans hkind')
      refine bind_eq_ok.2 ⟨(kind, .list (before ++ value' :: after) .closed), ?_, ?_⟩
      · refine TaggedUnion.split_eq_ok.2 (.inr ⟨_, ending, _, rfl, rfl, ?_⟩)
        refine TaggedUnion.splitItems_eq_ok.2 ⟨hend, first, rfl, hkind, ?_⟩
        change ∀ item ∈ before ++ value :: after, _ at hall
        simp only [TaggedUnion.loadError?_eq_none, List.mem_append, List.mem_cons] at hall ⊢
        rintro item (hitem | rfl | hitem) h
        · exact hall item (.inl hitem) h
        · exact hload (hall value (.inr (.inl rfl)) h)
        · exact hall item (.inr (.inr hitem)) h
      · rw [hnext] at hread ⊢
        exact hmake.keeps_list (List.nodup_cons.1 hnodup).2 (by simpa using hfield) hpart hE a hread

end Json.TaggedUnion.Offers

end

end

end SafeCalls
