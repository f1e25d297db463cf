import SafeCalls.Json.Scalar
import SafeCalls.Record

namespace SafeCalls

/-!
# Decoding records

A record is spelled as an object, with its fields in any order and usually with unknown members
among them, or as a list of its fields in their order.
-/

/-- A field that may be null or not be there. -/
def Slots.optional {α : Type} (slots : Slots Json.Error Json.Reading) (field : String)
    (decode : Json.Reading → Except Json.Error α) : Placed Json.Error (Option α) :=
  slots.defaulted field none (Json.Reading.optional decode)

/-- The first member with the given name, by its place. -/
def Json.Member.find? (field : String) : List Member → Option (Nat × Reading)
  | [] => none
  | member :: more =>
      if member.name.token.value.toOption = some field then some (0, member.value)
      else (Member.find? field more).map fun (place, value) => (place + 1, value)

namespace Layout

open Json

/-- What is wrong with a member apart from the value of a field, after members with the given
names. -/
def memberError? (layout : Layout) (manner : Manner) (seen : List String) (member : Member) :
    Option Error :=
  match member.name.token.decode with
  | .error e => some e
  | .ok name =>
      if layout.fields.contains name then
        if seen.contains name then some (.refused (.duplicateField name)) else none
      else if layout.isStrict then some (.refused (.unknownField name layout.fields))
      else member.value.skipError? manner

/-- The first error of an object from a place on, apart from those in the values of fields. -/
def stopFrom? (layout : Layout) (manner : Manner) (place : Nat) (seen : List String)
    (ending : ObjectEnd) : List Member → Option (Nat × Error)
  | [] => ending.fault?.map fun fault => (place, Error.ofFault fault)
  | member :: more =>
      match layout.memberError? manner seen member with
      | some e => some (place, e)
      | none =>
          let name := member.name.token.value.toOption.getD ""
          stopFrom? layout manner (place + 1) (name :: seen) ending more

/-- The slots of a record that is spelled as an object. -/
def ofObject (layout : Layout) (manner : Manner) (members : List Member) (ending : ObjectEnd) :
    Slots Error Reading where
  slot field :=
    match Member.find? field members with
    | some (place, value) => .filled place value
    | none =>
        .empty (members.length + 1 + layout.fields.idxOf field) (.refused (.missingField field))
  stop? := layout.stopFrom? manner 0 [] ending members

/-- How the number of values is worded in the error of a list that is too short. -/
def expectation (layout : Layout) : String :=
  "struct " ++ layout.name ++ " with " ++ elements layout.fields.length

/-- The error of a list with more items than there are fields. -/
def surplus (layout : Layout) (manner : Manner) (length : Nat) : Error :=
  match manner with
  | .direct => .malformed
  | .loaded =>
      .refused (.wrongLength length (elements layout.fields.length ++ " in sequence"))

/-- The slots of a record that is spelled as a list. -/
def ofList (layout : Layout) (manner : Manner) (items : List Reading) (ending : ListEnd) :
    Slots Error Reading where
  slot field :=
    let place := layout.fields.idxOf field
    match items[place]? with
    | some value => .filled place value
    | none => .empty place (.refused (.wrongLength place layout.expectation))
  stop? :=
    if layout.fields.length < items.length then
      some (layout.fields.length, layout.surplus manner items.length)
    else ending.fault?.map fun fault => (items.length, Error.ofFault fault)

/-- The slots of a record, for which one more list or object has to be opened. -/
def slots (layout : Layout) (manner : Manner) (reading : Reading) :
    Except Error (Slots Error Reading) :=
  match reading with
  | .object members ending => .ok (layout.ofObject manner members ending)
  | .list items ending => .ok (layout.ofList manner items ending)
  | other => .error (other.mismatch ("struct " ++ layout.name))

/-- The error of a record where no list or object may be opened any more. -/
def overflow (layout : Layout) (reading : Reading) : Error :=
  reading.overflow ("struct " ++ layout.name)

end Layout

end SafeCalls
