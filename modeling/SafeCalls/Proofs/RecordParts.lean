import SafeCalls.Json.Decode
import SafeCalls.Proofs.Outcome
import SafeCalls.Symbol.Table

namespace SafeCalls

/-!
# What a record was read from

A record is read when its text is without fault and all of its parts are there or have a default.
The lemmas take such a reading apart again, from the record down to the slots of its fields.
-/

namespace Placed

variable {ε α β : Type}

theorem part_eq_ok {make : Placed ε (α → β)} {value : Placed ε α} {b : β} :
    make.part value = .ok b ↔ ∃ f a, make = .ok f ∧ value = .ok a ∧ f a = b := by
  cases make <;> cases value <;> simp [part]

theorem result_eq_ok {value : Placed ε α} {a : α} : value.result = .ok a ↔ value = .ok a :=
  mapError_eq_ok

end Placed

namespace Slots

variable {ε ν α : Type} {slots : Slots ε ν} {field : String} {decode : ν → Except ε α} {a : α}

theorem fill_eq_ok {make f : α} : slots.fill make = .ok f ↔ slots.stop? = none ∧ make = f := by
  rw [fill]
  cases slots.stop? <;> simp

theorem required_eq_ok : slots.required field decode = .ok a ↔
    ∃ place value, slots.slot field = .filled place value ∧ decode value = .ok a := by
  rw [required]
  cases slots.slot field with
  | filled place value =>
      rw [mapError_eq_ok]
      constructor
      · intro h
        exact ⟨place, value, rfl, h⟩
      · rintro ⟨_, _, ⟨⟩, h⟩
        exact h
  | empty place error => simp

theorem defaulted_eq_ok {default : α} : slots.defaulted field default decode = .ok a ↔
    (∃ place value, slots.slot field = .filled place value ∧ decode value = .ok a) ∨
      (∃ place error, slots.slot field = .empty place error) ∧ default = a := by
  rw [defaulted]
  cases slots.slot field with
  | filled place value =>
      rw [mapError_eq_ok]
      constructor
      · intro h
        exact .inl ⟨place, value, rfl, h⟩
      · rintro (⟨_, _, ⟨⟩, h⟩ | ⟨⟨_, _, ⟨⟩⟩, _⟩)
        exact h
  | empty place error => simp

end Slots

namespace Json.Reading

variable {α : Type} {reading : Reading} {as : List α}

theorem optional_eq_ok {decode : Reading → Except Error α} {o : Option α} :
    reading.optional decode = .ok o ↔
      reading = .null ∧ o = none ∨ reading ≠ .null ∧ ∃ a, decode reading = .ok a ∧ some a = o := by
  cases reading with
  | null => simp [optional, eq_comm]
  | _ => simp [optional, SafeCalls.map_eq_ok]

theorem items_eq_ok {decode : Reading → Except Error α} : reading.items decode = .ok as ↔
    ∃ readings ending, reading = .list readings ending ∧ ending.fault? = none ∧
      List.Forall₂ (fun r a => decode r = .ok a) readings as := by
  cases reading with
  | list readings ending =>
      rw [items]
      cases hread : readings.mapM decode with
      | error e => simp [← mapM_eq_ok, hread]
      | ok values =>
          cases hend : ending.fault? <;> simp [← mapM_eq_ok, hread, hend]
  | _ => simp [items]

theorem string_eq_ok {s : String} :
    reading.string = .ok s ↔ ∃ token : Token String, reading = .text token ∧ token.value = .ok s := by
  cases reading with
  | text token => simp [string, Token.decode, mapError_eq_ok]
  | _ => simp [string]

/-- A list takes one room for itself. -/
theorem listOf_eq_ok {decode : Nat → Reading → Except Error α} {room : Nat} :
    reading.listOf decode room = .ok as ↔
      ∃ inside readings ending, room = inside + 1 ∧ reading = .list readings ending ∧
        ending.fault? = none ∧
        List.Forall₂ (fun r a => decode inside r = .ok a) readings as := by
  cases room with
  | zero => simp [listOf]
  | succ inside => simp [listOf, items_eq_ok]

end Json.Reading

/-! ### Maps -/

namespace Json.Reading

variable {κ α : Type} {key : Name → Except Error κ} {value : Reading → Except Error α}
  {members : List Member} {read : List (κ × α)}

theorem entries_eq_ok : entries key value members = .ok read ↔
    List.Forall₂ (fun m e => key m.name = .ok e.1 ∧ value m.value = .ok e.2) members read := by
  induction members generalizing read with
  | nil => cases read <;> simp [entries]
  | cons m more ih =>
      rw [entries]
      constructor
      · intro h
        obtain ⟨k, hk, h⟩ := bind_eq_ok.1 h
        obtain ⟨v, hv, h⟩ := bind_eq_ok.1 h
        obtain ⟨rest, hrest, h⟩ := bind_eq_ok.1 h
        obtain rfl := Except.ok.inj h
        exact .cons ⟨hk, hv⟩ (ih.1 hrest)
      · rintro (_ | ⟨⟨hk, hv⟩, hmore⟩)
        rw [hk, hv, ih.2 hmore]
        rfl

/-- A map takes one room for itself. -/
theorem map_eq_ok [KeyOrder κ] {value : Nat → Reading → Except Error α} {room : Nat}
    {reading : Reading} {m : SortedMap κ α} : reading.map key value room = .ok m ↔
      ∃ inside members ending read, room = inside + 1 ∧ reading = .object members ending ∧
        ending.fault? = none ∧ entries key (value inside) members = .ok read ∧
        m = .ofList read := by
  cases room with
  | zero => simp [map]
  | succ inside =>
      cases reading with
      | object members ending =>
          rw [map, bind_eq_ok]
          cases hend : ending.fault? <;> simp [hend, eq_comm (a := m)]
      | _ => simp [map]

end Json.Reading

/-! ### Tagged unions -/

namespace Json.Member

def isNamed (name : String) (member : Member) : Bool :=
  member.name.token.value.toOption == some name

theorem isNamed_iff {name : String} {member : Member} :
    member.isNamed name ↔ member.name.token.value = .ok name := by
  rw [isNamed]
  cases member.name.token.value <;> simp [Except.toOption]

end Json.Member

namespace Json.TaggedUnion

variable {κ : Type} {union : TaggedUnion κ} {manner : Manner} {room : Nat} {ending : ObjectEnd}
  {members others : List Member} {k k' : κ}

/-- A member that can be loaded. -/
def IsLoadable (manner : Manner) (room : Nat) (member : Member) : Prop :=
  (∃ name, member.name.token.value = .ok name) ∧ loadError? manner room member.value = none

theorem splitMembers_cons_eq_ok {seen : Option κ} {member : Member} (h : ¬ member.isNamed "kind") :
    union.splitMembers manner room ending seen (member :: members) = .ok (k, others) ↔
      IsLoadable manner room member ∧ ∃ rest, others = member :: rest ∧
        union.splitMembers manner room ending seen members = .ok (k, rest) := by
  rw [splitMembers.eq_def]
  dsimp only
  rw [bind_eq_ok]
  constructor
  · rintro ⟨name, hname, hread⟩
    rw [Token.decode, mapError_eq_ok] at hname
    have hother : name ≠ "kind" := by
      rintro rfl
      exact h (Member.isNamed_iff.2 hname)
    rw [if_neg hother] at hread
    split at hread
    · cases hread
    · next hload =>
        obtain ⟨⟨_, rest⟩, hrest, heq⟩ := bind_eq_ok.1 hread
        obtain ⟨rfl, rfl⟩ := Prod.mk.inj (Except.ok.inj heq)
        exact ⟨⟨⟨name, hname⟩, hload⟩, rest, rfl, hrest⟩
  · rintro ⟨⟨⟨name, hname⟩, hload⟩, rest, rfl, hrest⟩
    have hother : name ≠ "kind" := by
      rintro rfl
      exact h (Member.isNamed_iff.2 hname)
    refine ⟨name, mapError_eq_ok.2 hname, ?_⟩
    rw [if_neg hother, hload, hrest]
    rfl

theorem splitMembers_some_eq_ok :
    union.splitMembers manner room ending (some k') members = .ok (k, others) ↔
      ending.fault? = none ∧ members.filter (·.isNamed "kind") = [] ∧ k = k' ∧ others = members ∧
        ∀ m ∈ members, IsLoadable manner room m := by
  induction members generalizing others with
  | nil =>
      rw [splitMembers.eq_def]
      cases ending.fault? <;> simp [eq_comm]
  | cons m more ih =>
      by_cases hm : m.isNamed "kind"
      · have hname : m.name.token.decode = .ok "kind" := mapError_eq_ok.2 (Member.isNamed_iff.1 hm)
        rw [splitMembers, hname]
        simp [hm, bind, Except.bind]
      · rw [splitMembers_cons_eq_ok hm, List.filter_cons_of_neg hm, List.forall_mem_cons]
        constructor
        · rintro ⟨hload, rest, rfl, hrest⟩
          obtain ⟨hend, hnone, rfl, rfl, hall⟩ := ih.1 hrest
          exact ⟨hend, hnone, rfl, rfl, hload, hall⟩
        · rintro ⟨hend, hnone, rfl, rfl, hload, hall⟩
          exact ⟨hload, more, rfl, ih.2 ⟨hend, hnone, rfl, rfl, hall⟩⟩

/-- One of the members is the kind, the others are the fields. -/
theorem splitMembers_eq_ok : union.splitMembers manner room ending none members = .ok (k, others) ↔
    ending.fault? = none ∧
      (∃ tag, members.filter (·.isNamed "kind") = [tag] ∧ union.kind manner tag.value = .ok k) ∧
      others = members.filter (!·.isNamed "kind") ∧ ∀ m ∈ others, IsLoadable manner room m := by
  induction members generalizing others with
  | nil =>
      rw [splitMembers.eq_def]
      cases ending.fault? <;> simp
  | cons m more ih =>
      by_cases hm : m.isNamed "kind"
      -- The kind is here, and another one after it is an error.
      · have hfilter : (m :: more).filter (!·.isNamed "kind") = more.filter (!·.isNamed "kind") :=
          List.filter_cons_of_neg (by simp [hm])
        have hname : m.name.token.decode = .ok "kind" := mapError_eq_ok.2 (Member.isNamed_iff.1 hm)
        have hread : union.splitMembers manner room ending none (m :: more) =
            union.kind manner m.value >>= fun k =>
              union.splitMembers manner room ending (some k) more := by
          rw [splitMembers, hname]
          rfl
        have hfields : more.filter (·.isNamed "kind") = [] →
            more.filter (!·.isNamed "kind") = more := by
          intro hnone
          rw [List.filter_eq_self]
          intro m' hm'
          simpa using List.filter_eq_nil_iff.1 hnone m' hm'
        rw [hread, bind_eq_ok, List.filter_cons_of_pos hm, hfilter]
        constructor
        · rintro ⟨_, hk, hrest⟩
          obtain ⟨hend, hnone, rfl, rfl, hall⟩ := splitMembers_some_eq_ok.1 hrest
          exact ⟨hend, ⟨m, by rw [hnone], hk⟩, (hfields hnone).symm, hall⟩
        · rintro ⟨hend, ⟨tag, htag, hk⟩, rfl, hall⟩
          obtain ⟨rfl, hnone⟩ := List.cons.inj htag
          rw [hfields hnone] at hall ⊢
          exact ⟨k, hk, splitMembers_some_eq_ok.2 ⟨hend, hnone, rfl, rfl, hall⟩⟩
      · have hfilter : (m :: more).filter (!·.isNamed "kind") =
            m :: more.filter (!·.isNamed "kind") := List.filter_cons_of_pos (by simp [hm])
        rw [splitMembers_cons_eq_ok hm, List.filter_cons_of_neg hm, hfilter]
        constructor
        · rintro ⟨hload, rest, rfl, hrest⟩
          obtain ⟨hend, htag, rfl, hall⟩ := ih.1 hrest
          exact ⟨hend, htag, rfl, List.forall_mem_cons.2 ⟨hload, hall⟩⟩
        · rintro ⟨hend, htag, rfl, hall⟩
          obtain ⟨hload, hall⟩ := List.forall_mem_cons.1 hall
          exact ⟨hload, _, rfl, ih.2 ⟨hend, htag, rfl, hall⟩⟩

theorem splitItems_eq_ok {items rest : List Reading} {ending : ListEnd} :
    union.splitItems manner room ending items = .ok (k, rest) ↔
      ending.fault? = none ∧ ∃ tag, items = tag :: rest ∧ union.kind manner tag = .ok k ∧
        ∀ item ∈ rest, loadError? manner room item = none := by
  cases items with
  | nil =>
      rw [splitItems.eq_def]
      cases ending.fault? <;> simp
  | cons tag more =>
      rw [splitItems, bind_eq_ok]
      constructor
      · rintro ⟨k', hk, h⟩
        split at h
        · cases h
        · next hload =>
            split at h
            · cases h
            · next hend =>
                obtain ⟨rfl, rfl⟩ := Prod.mk.inj (Except.ok.inj h)
                exact ⟨hend, tag, rfl, hk, List.findSome?_eq_none_iff.1 hload⟩
      · rintro ⟨hend, _, ⟨⟩, hk, hall⟩
        refine ⟨k, hk, ?_⟩
        rw [List.findSome?_eq_none_iff.2 hall, hend]

theorem split_eq_ok {reading fields : Reading} :
    union.split manner room reading = .ok (k, fields) ↔
      (∃ members ending others, reading = .object members ending ∧ fields = .object others .closed ∧
        union.splitMembers manner room ending none members = .ok (k, others)) ∨
      ∃ items ending rest, reading = .list items ending ∧ fields = .list rest .closed ∧
        union.splitItems manner room ending items = .ok (k, rest) := by
  cases reading with
  | object members ending =>
      rw [split, map_eq_ok]
      constructor
      · rintro ⟨⟨_, others⟩, h, heq⟩
        obtain ⟨rfl, rfl⟩ := Prod.mk.inj heq
        exact .inl ⟨members, ending, others, rfl, rfl, h⟩
      · rintro (⟨_, _, others, ⟨⟩, rfl, h⟩ | ⟨_, _, _, ⟨⟩, -⟩)
        exact ⟨(k, others), h, rfl⟩
  | list items ending =>
      rw [split, map_eq_ok]
      constructor
      · rintro ⟨⟨_, rest⟩, h, heq⟩
        obtain ⟨rfl, rfl⟩ := Prod.mk.inj heq
        exact .inr ⟨items, ending, rest, rfl, rfl, h⟩
      · rintro (⟨_, _, _, ⟨⟩, -⟩ | ⟨_, _, rest, ⟨⟩, rfl, h⟩)
        exact ⟨(k, rest), h, rfl⟩
  | _ => simp [split]

end Json.TaggedUnion

namespace Json.Reading

variable {κ α : Type} {names : Names κ} {decode : κ → Option Reading → Except Error α}
  {room : Nat} {manner : Manner} {reading : Reading} {a : α}

/-- A plain choice is a name alone, or the only member of an object. -/
theorem choice_eq_ok : reading.choice names decode room manner = .ok a ↔
    (∃ token name k, reading = .text token ∧ token.decode = .ok name ∧
      Json.named names name = .ok k ∧ decode k none = .ok a) ∨
    ∃ only ending name k, reading = .object [only] ending ∧ only.name.token.decode = .ok name ∧
      Json.named names name = .ok k ∧ decode k (some only.value) = .ok a ∧
      (manner = .direct → room ≠ 0 ∧ ending = .closed) := by
  cases manner with
  | loaded =>
      cases reading with
      | text token => simp [choice, loadedChoice, bind_eq_ok]
      | object members ending =>
          match members with
          | [] => simp [choice, loadedChoice]
          | [only] => simp [choice, loadedChoice, bind_eq_ok]
          | _ :: _ :: _ => simp [choice, loadedChoice]
      | _ => simp [choice, loadedChoice]
  | direct =>
      cases reading with
      | text token => simp [choice, directChoice, bind_eq_ok]
      | object members ending =>
          cases room with
          | zero => cases members <;> cases ending <;> simp [choice, directChoice]
          | succ room =>
              match members with
              | [] => cases ending <;> simp [choice, directChoice]
              | [only] => cases ending <;> simp [choice, directChoice, bind_eq_ok, afterOnly?]
              | _ :: _ :: _ => cases ending <;> simp [choice, directChoice, bind_eq_ok, afterOnly?]
      | _ => simp [choice, directChoice]

end Json.Reading

namespace Json

variable {α : Type} {read : Nat → Manner → Reading → Except Error α} {text : String} {a : α}

theorem decode_eq_ok : decode read text = .ok a ↔
    read nestingLimit .direct (readText text).content = .ok a ∧
      (readText text).trailing = none := by
  rw [decode, bind_eq_ok]
  cases (readText text).trailing <;> simp

end Json

end SafeCalls
