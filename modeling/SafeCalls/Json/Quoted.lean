import SafeCalls.Json.Reading

namespace SafeCalls.Json

/-!
# Strings in a JSON text

Reading in full replaces escapes, among them pairs of escapes for the two halves of a surrogate
pair. Passing over checks the escapes but does not pair the halves.
-/

def hexValue? (c : Char) : Option Nat :=
  if '0' ≤ c ∧ c ≤ '9' then some (c.toNat - '0'.toNat)
  else if 'a' ≤ c ∧ c ≤ 'f' then some (c.toNat - 'a'.toNat + 10)
  else if 'A' ≤ c ∧ c ≤ 'F' then some (c.toNat - 'A'.toNat + 10)
  else none

/-- The 16-bit unit that four hexadecimal digits spell. -/
def unit? (a b c d : Char) : Option Nat := do
  let a ← hexValue? a
  let b ← hexValue? b
  let c ← hexValue? c
  let d ← hexValue? d
  pure (((a * 16 + b) * 16 + c) * 16 + d)

/-- What is wrong with a text of which four hexadecimal digits cannot be read: it is too short
if fewer than four bytes of it are left. -/
def unitFault (cs : List Char) : Fault :=
  if (String.ofList cs).utf8ByteSize < 4 then .truncated else .malformed

/-- What follows a backslash, other than the escape by code unit. -/
def simpleEscape? (c : Char) : Option Char :=
  if c = '"' then some '"'
  else if c = '\\' then some '\\'
  else if c = '/' then some '/'
  else if c = 'b' then some '\x08'
  else if c = 'f' then some '\x0c'
  else if c = 'n' then some '\n'
  else if c = 'r' then some '\r'
  else if c = 't' then some '\t'
  else none

def isHighHalf (u : Nat) : Bool := 0xD800 ≤ u && u ≤ 0xDBFF

def isLowHalf (u : Nat) : Bool := 0xDC00 ≤ u && u ≤ 0xDFFF

def joinHalves (high low : Nat) : Char :=
  Char.ofNat (0x10000 + (high - 0xD800) * 0x400 + (low - 0xDC00))

/-- The characters up to the closing quote, with every escape replaced. -/
def unescape : List Char → Except Fault (List Char)
  | [] => .error .truncated
  | '"' :: _ => .ok []
  | '\\' :: [] => .error .truncated
  | '\\' :: 'u' :: a :: b :: c :: d :: rest =>
      match unit? a b c d with
      | none => .error .malformed
      | some u =>
          if isLowHalf u then .error .malformed
          else if isHighHalf u then
            match rest with
            | [] => .error .truncated
            | '\\' :: [] => .error .truncated
            | '\\' :: 'u' :: e :: f :: g :: h :: more =>
                match unit? e f g h with
                | none => .error .malformed
                | some v =>
                    if isLowHalf v then (unescape more).map (joinHalves u v :: ·)
                    else .error .malformed
            | '\\' :: 'u' :: short => .error (unitFault short)
            | _ => .error .malformed
          else (unescape rest).map (Char.ofNat u :: ·)
  | '\\' :: 'u' :: short => .error (unitFault short)
  | '\\' :: c :: rest =>
      match simpleEscape? c with
      | some e => (unescape rest).map (e :: ·)
      | none => .error .malformed
  | c :: rest =>
      if c.toNat < 0x20 then .error .malformed
      else (unescape rest).map (c :: ·)

/-- The characters before the closing quote as they are spelled, and the text after it. -/
def passString : List Char → Except Fault (List Char × List Char)
  | [] => .error .truncated
  | '"' :: rest => .ok ([], rest)
  | '\\' :: [] => .error .truncated
  | '\\' :: 'u' :: a :: b :: c :: d :: rest =>
      match unit? a b c d with
      | none => .error .malformed
      | some _ =>
          (passString rest).map fun (spelling, after) =>
            ('\\' :: 'u' :: a :: b :: c :: d :: spelling, after)
  | '\\' :: 'u' :: short => .error (unitFault short)
  | '\\' :: c :: rest =>
      match simpleEscape? c with
      | some _ => (passString rest).map fun (spelling, after) => ('\\' :: c :: spelling, after)
      | none => .error .malformed
  | c :: rest =>
      if c.toNat < 0x20 then .error .malformed
      else (passString rest).map fun (spelling, after) => (c :: spelling, after)

/-- The string whose opening quote is before the text, and the text after its closing quote. -/
def readString (cs : List Char) : Name × Option (List Char) :=
  let value := (unescape cs).map String.ofList
  match passString cs with
  | .ok (spelling, rest) => (⟨spelling, value, none⟩, some rest)
  | .error fault => (⟨cs, value, some fault⟩, none)

end SafeCalls.Json
