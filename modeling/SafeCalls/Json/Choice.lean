import SafeCalls.Json.Record

namespace SafeCalls.Json

/-!
# Decoding alternatives

There are two spellings of a choice between alternatives. A plain choice is the name of the
alternative, or an object with that name as its only key and the payload as its value. A tagged
union is an object in which the member `kind` names the alternative and the other members are its
fields, or a list of the kind and the fields in their order.
-/

def named {κ : Type} (names : Names κ) (name : String) : Except Error κ :=
  match names.lookup name with
  | some k => .ok k
  | none => .error (.refused (.unknownVariant name names.spelled))

namespace Reading

variable {κ α : Type}

/-- The payload of an alternative without data. A loaded payload may also be an empty object. -/
def unit (manner : Manner) (reading : Reading) : Except Error Unit :=
  match reading, manner with
  | .null, _ => .ok ()
  | .object [] _, .loaded => .ok ()
  | other, _ => .error (other.mismatch "unit")

/-- What is wrong with an object after the only key that a plain choice may have. -/
def afterOnly? (more : List Member) (ending : ObjectEnd) : Option Error :=
  match more, ending with
  | [], .closed => none
  | [], .cut fault => some (Error.ofFault fault)
  | _, _ => some .malformed

/-- A plain choice that is read directly. -/
def directChoice (names : Names κ) (decode : κ → Option Reading → Except Error α) (room : Nat) :
    Reading → Except Error α
  | .text token => do decode (← Json.named names (← token.decode)) none
  | .object (only :: more) ending =>
      match room with
      | 0 => .error .malformed
      | _ + 1 => do
          let value ← decode (← Json.named names (← only.name.token.decode)) (some only.value)
          match afterOnly? more ending with
          | some e => .error e
          | none => .ok value
  | .object [] (.nameless found) =>
      match room with
      | 0 => .error .malformed
      | _ + 1 => .error (found.mismatch "variant identifier")
  | .absent fault => .error (Error.ofFault fault)
  | _ => .error .malformed

/-- A plain choice that has been loaded. -/
def loadedChoice (names : Names κ) (decode : κ → Option Reading → Except Error α) :
    Reading → Except Error α
  | .text token => do decode (← Json.named names (← token.decode)) none
  | .object [only] _ => do decode (← Json.named names (← only.name.token.decode)) (some only.value)
  | .object _ _ => .error (.refused (.wrongValue .map "map with a single key"))
  | other => .error (other.mismatch "string or map")

/-- A plain choice, each alternative of which makes something of its payload. -/
def choice (names : Names κ) (decode : κ → Option Reading → Except Error α) (room : Nat)
    (manner : Manner) (reading : Reading) : Except Error α :=
  match manner with
  | .direct => directChoice names decode room reading
  | .loaded => loadedChoice names decode reading

/-- A choice between alternatives without data. -/
def named (names : Names κ) (room : Nat) (manner : Manner) (reading : Reading) : Except Error κ :=
  reading.choice names (fun k payload =>
    match payload with
    | none => .ok k
    | some payload => (payload.unit manner).map fun _ => k) room manner

end Reading

/-- The name that messages use for a tagged union, and its alternatives. -/
structure TaggedUnion (κ : Type) where
  name : String
  kinds : Names κ

namespace TaggedUnion

variable {κ : Type}

/-- The alternative that is named. A loaded kind may also be its number. -/
def kind (union : TaggedUnion κ) (manner : Manner) (reading : Reading) : Except Error κ :=
  match reading, manner with
  | .text token, _ => do Json.named union.kinds (← token.decode)
  | .number token, .loaded => do
      match ← token.decode with
      | .natural n =>
          match union.kinds[n]? with
          | some (_, k) => .ok k
          | none =>
              .error (.refused (.wrongValue (.natural n)
                ("variant index 0 <= i < " ++ toString union.kinds.length)))
      | other => .error (.refused (.wrongType other.found "variant identifier"))
  | other, _ => .error (other.mismatch "variant identifier")

def loadError? (manner : Manner) (room : Nat) (reading : Reading) : Option Error :=
  match manner with
  | .direct => (reading.loadingFault? room).map Error.ofFault
  | .loaded => none

/-- The kind among the members, after those with the given kind, and the members besides it. -/
def splitMembers (union : TaggedUnion κ) (manner : Manner) (room : Nat) (ending : ObjectEnd) :
    Option κ → List Member → Except Error (κ × List Member)
  | seen, [] =>
      match ending.fault?, seen with
      | some fault, _ => .error (Error.ofFault fault)
      | none, some k => .ok (k, [])
      | none, none => .error (.refused (.missingField "kind"))
  | seen, member :: more => do
      if (← member.name.token.decode) = "kind" then
        match seen with
        | some _ => .error (.refused (.duplicateField "kind"))
        | none =>
            let k ← union.kind manner member.value
            splitMembers union manner room ending (some k) more
      else
        match loadError? manner room member.value with
        | some e => .error e
        | none =>
            let (k, others) ← splitMembers union manner room ending seen more
            pure (k, member :: others)

/-- The kind at the head of a list, and the items after it. -/
def splitItems (union : TaggedUnion κ) (manner : Manner) (room : Nat) (ending : ListEnd) :
    List Reading → Except Error (κ × List Reading)
  | [] =>
      match ending.fault? with
      | some fault => .error (Error.ofFault fault)
      | none => .error (.refused (.missingField "kind"))
  | first :: more => do
      let k ← union.kind manner first
      match more.findSome? (loadError? manner room) with
      | some e => .error e
      | none =>
          match ending.fault? with
          | some fault => .error (Error.ofFault fault)
          | none => .ok (k, more)

/-- The alternative and the record of its fields, all of it loaded. The values inside may open
`room` lists and objects inside one another. -/
def split (union : TaggedUnion κ) (manner : Manner) (room : Nat) :
    Reading → Except Error (κ × Reading)
  | .object members ending =>
      (union.splitMembers manner room ending none members).map fun (k, others) =>
        (k, .object others .closed)
  | .list items ending =>
      (union.splitItems manner room ending items).map fun (k, others) => (k, .list others .closed)
  | other => .error (other.mismatch ("internally tagged enum " ++ union.name))

/-- The error of a tagged union where no list or object may be opened any more. -/
def overflow (union : TaggedUnion κ) (reading : Reading) : Error :=
  reading.overflow ("internally tagged enum " ++ union.name)

end TaggedUnion

end SafeCalls.Json
