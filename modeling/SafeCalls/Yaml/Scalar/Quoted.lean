import SafeCalls.Yaml.Scalar.Folding

namespace SafeCalls.Yaml

/-!
# Quoted scalars

Between apostrophes only an apostrophe is escaped, by another one. Between double quotes a
backslash starts an escape: of a character, of a code point by its hexadecimal digits, or of the
end of a line.
-/

namespace Quoted

/-- How far a quoted scalar has been read: up to a character of it, into a run of blanks that goes
on, or into the digits of an escape, of which a number is still to come. -/
inductive Mode where
  | inside
  | between (fold : Fold)
  | code (digits value : Nat)

/-- The character that a backslash and a letter stand for. -/
def escape? : Char → Option Char
  | '0' => some '\x00'
  | 'a' => some '\x07'
  | 'b' => some '\x08'
  | 't' => some '\t'
  | '\t' => some '\t'
  | 'n' => some '\n'
  | 'v' => some '\x0b'
  | 'f' => some '\x0c'
  | 'r' => some '\r'
  | 'e' => some '\x1b'
  | ' ' => some ' '
  | '"' => some '"'
  | '/' => some '/'
  | '\\' => some '\\'
  | 'N' => some '\u0085'
  | '_' => some '\u00a0'
  | 'L' => some '\u2028'
  | 'P' => some '\u2029'
  | _ => none

/-- How many digits follow a backslash and a letter. -/
def codeLength? : Char → Option Nat
  | 'x' => some 2
  | 'u' => some 4
  | 'U' => some 8
  | _ => none

def hexValue? (c : Char) : Option Nat :=
  if '0' ≤ c ∧ c ≤ '9' then some (c.toNat - '0'.toNat)
  else if 'a' ≤ c ∧ c ≤ 'f' then some (c.toNat - 'a'.toNat + 10)
  else if 'A' ≤ c ∧ c ≤ 'F' then some (c.toNat - 'A'.toNat + 10)
  else none

/-- The character with a code point, if it has one. -/
def char? (n : Nat) : Option Char := if n.isValidChar then some (Char.ofNat n) else none

/-- How it goes on after a run of blanks so far, and what the run becomes if it ends there. No line
of the scalar may look like the start or the end of a document. -/
def settle? (fold : Fold) (rest : Stream) : Option (Mode × List Char) :=
  if rest.isGap 0 then some (.between fold, [])
  else if rest.isDocumentMark then none
  else some (.inside, fold.text)

/-- The text of a scalar up to its closing quote, and what comes after that. -/
def read? (quote : Char) : Mode → Stream → Option (List Char × Stream)
  | _, .finish _ => none
  | .inside, .next c _ rest =>
      if c = quote then
        match rest with
        | .next d _ after =>
            if quote = '\'' ∧ d = quote then
              (read? quote .inside after).map fun (cs, after) => (c :: cs, after)
            else some ([], rest)
        | .finish _ => some ([], rest)
      else if isBlank c || isBreak c then do
        let (mode, cs) ← settle? (Fold.empty.push c) rest
        (read? quote mode rest).map fun (cs', after) => (cs ++ cs', after)
      else if c = '\\' ∧ quote = '"' then
        match rest with
        | .next d _ rest =>
            if isBreak d then do
              let (mode, cs) ← settle? .escaped rest
              (read? quote mode rest).map fun (cs', after) => (cs ++ cs', after)
            else
              match escape? d, codeLength? d with
              | some e, _ => (read? quote .inside rest).map fun (cs, after) => (e :: cs, after)
              | none, some digits => read? quote (.code digits 0) rest
              | none, none => none
        | .finish _ => none
      else (read? quote .inside rest).map fun (cs, after) => (c :: cs, after)
  | .between fold, .next c _ rest => do
      let (mode, cs) ← settle? (fold.push c) rest
      (read? quote mode rest).map fun (cs', after) => (cs ++ cs', after)
  | .code 0 _, .next _ _ _ => none
  | .code (digits + 1) value, .next c _ rest => do
      let value := value * 16 + (← hexValue? c)
      match digits with
      | 0 =>
          let e ← char? value
          (read? quote .inside rest).map fun (cs, after) => (e :: cs, after)
      | digits + 1 => read? quote (.code (digits + 1) value) rest

end Quoted

end SafeCalls.Yaml
