namespace SafeCalls

/-!
# Records, their slots and choices

The slots of a record say for each of its fields which value a text gives to it. Every error has
its place in reading order, and of several errors the one with the smallest place counts: an error
in the value of a field has the place of that value, and a missing field comes after the end of the
record, in the order of the fields. Formats differ in what stands for a value and in their errors.
-/

/-- What records of one type are called and which fields they have. -/
structure Layout where
  name : String
  fields : List String
  /-- Whether a member of any other name is an error. -/
  isStrict : Bool

/-- Alternatives by their names. -/
abbrev Names (κ : Type) := List (String × κ)

namespace Names

variable {κ : Type}

def spelled (names : Names κ) : List String := names.map Prod.fst

end Names

/-- What a text says about one field. -/
inductive Slot (ε ν : Type) where
  | filled (place : Nat) (value : ν)
  | empty (place : Nat) (error : ε)

/-- A result in which an error has a place in reading order. -/
abbrev Placed (ε α : Type) := Except (Nat × ε) α

/-- What a text says about the fields of a record, and where the text itself is in error. -/
structure Slots (ε ν : Type) where
  slot : String → Slot ε ν
  stop? : Option (Nat × ε)

namespace Placed

variable {ε α β : Type}

/-- Both parts, or the error that is met first. -/
def part (make : Placed ε (α → β)) (value : Placed ε α) : Placed ε β :=
  match make, value with
  | .ok make, .ok value => .ok (make value)
  | .error e, .ok _ => .error e
  | .ok _, .error e => .error e
  | .error e, .error e' => .error (if e'.1 < e.1 then e' else e)

def result (value : Placed ε α) : Except ε α := value.mapError Prod.snd

end Placed

namespace Slots

variable {ε ν α : Type}

/-- The start of a record: what is made of its fields, unless the text itself is in error. -/
def fill (slots : Slots ε ν) (make : α) : Placed ε α :=
  match slots.stop? with
  | none => .ok make
  | some e => .error e

/-- A field that has to be there. -/
def required (slots : Slots ε ν) (field : String) (decode : ν → Except ε α) : Placed ε α :=
  match slots.slot field with
  | .filled place value => (decode value).mapError fun e => (place, e)
  | .empty place error => .error (place, error)

/-- A field that has the given value when it is not there. -/
def defaulted (slots : Slots ε ν) (field : String) (default : α) (decode : ν → Except ε α) :
    Placed ε α :=
  match slots.slot field with
  | .filled place value => (decode value).mapError fun e => (place, e)
  | .empty _ _ => .ok default

end Slots

end SafeCalls
