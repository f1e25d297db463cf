import SafeCalls.Yaml.Scalar.Style

namespace SafeCalls.Yaml

/-!
# Writing texts

A text in each of the styles. Lines after the first are indented.
-/

namespace Writing

def spaces (n : Nat) : List Char := List.replicate n ' '

/-- The text between apostrophes after the first one, each apostrophe in it written twice. -/
def apostrophesFrom (indent : Nat) : Bool → List Char → List Char
  | isLineStart, [] => (if isLineStart then spaces indent else []) ++ ['\'']
  | isLineStart, c :: rest =>
      if isBreak c then
        (if !isLineStart && c == '\n' then ['\n', '\n'] else [c]) ++
          apostrophesFrom indent true rest
      else
        (if isLineStart then spaces indent else []) ++ (if c = '\'' then [c, c] else [c]) ++
          apostrophesFrom indent false rest

/-- The letter that stands for a character after a backslash. -/
def escapeLetter? : Char → Option Char
  | '\x00' => some '0'
  | '\x07' => some 'a'
  | '\x08' => some 'b'
  | '\t' => some 't'
  | '\n' => some 'n'
  | '\x0b' => some 'v'
  | '\x0c' => some 'f'
  | '\r' => some 'r'
  | '\x1b' => some 'e'
  | '"' => some '"'
  | '\\' => some '\\'
  | '\u0085' => some 'N'
  | '\u2028' => some 'L'
  | '\u2029' => some 'P'
  | _ => none

def upperHexDigit (n : Nat) : Char := (Nat.digitChar n).toUpper

/-- The given number of hexadecimal digits. -/
def hexDigits : Nat → Nat → List Char
  | 0, _ => []
  | digits + 1, n => hexDigits digits (n / 16) ++ [upperHexDigit (n % 16)]

/-- An escape by the code point, with as many digits as it takes. -/
def codeEscape (c : Char) : List Char :=
  let n := c.toNat
  if n < 0x100 then '\\' :: 'x' :: hexDigits 2 n
  else if n < 0x10000 then '\\' :: 'u' :: hexDigits 4 n
  else '\\' :: 'U' :: hexDigits 8 n

def escapedChar (c : Char) : List Char :=
  match escapeLetter? c with
  | some letter => ['\\', letter]
  | none => if TextStyle.isPrintable c then [c] else codeEscape c

/-- The lines of a literal block after its header. Empty lines are not indented. -/
def literalFrom (indent : Nat) : Bool → List Char → List Char
  | _, [] => []
  | isLineStart, c :: rest =>
      if isBreak c then c :: literalFrom indent true rest
      else
        (if isLineStart then spaces indent else []) ++ c :: literalFrom indent false rest

/-- Whether a text starts in a way that hides the indentation of its first line. -/
def hidesIndent (cs : List Char) : Bool :=
  (cs.head?.map fun c => c == ' ' || isBreak c).getD false

/-- How many line breaks at the end a block keeps: none, all, or one. -/
def chompingMark (cs : List Char) : List Char :=
  match cs.reverse with
  | [] => ['-']
  | last :: before =>
      if !isBreak last then ['-']
      else
        match before with
        | [] => ['+']
        | c :: _ => if isBreak c then ['+'] else []

def literalHeader (cs : List Char) : List Char :=
  '|' :: (if hidesIndent cs then ['2'] else []) ++ chompingMark cs ++ ['\n']

/-- A text in a style, where lines are indented that far. -/
def text (style : TextStyle) (indent : Nat) (cs : List Char) : List Char :=
  match style with
  | .plain => cs
  | .apostrophes => '\'' :: apostrophesFrom indent false cs
  | .literal => literalHeader cs ++ literalFrom indent true cs
  | .escaped => '"' :: cs.flatMap escapedChar ++ ['"']

end Writing

end SafeCalls.Yaml
