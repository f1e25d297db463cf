import SafeCalls.Yaml.Stream

namespace SafeCalls.Yaml

/-!
# Line folding

A run of blanks and line breaks inside a quoted or plain scalar is folded: blanks around breaks are
dropped, a single break becomes a space, and of more breaks all but the first are kept. Without any
break the blanks stay as they are.
-/

/-- A run of blanks and breaks as far as it has been read. -/
structure Fold where
  /-- Whether a line has ended in it. -/
  isBroken : Bool
  /-- The blanks before the first break. -/
  blanks : List Char
  /-- The first break, unless it was escaped. -/
  first : List Char
  /-- The breaks after the first one. -/
  others : List Char

namespace Fold

def empty : Fold := ⟨false, [], [], []⟩

/-- The run after an escaped break, which joins the lines around it. -/
def escaped : Fold := ⟨true, [], [], []⟩

/-- The run with one more blank or break. -/
def push (f : Fold) (c : Char) : Fold :=
  if isBreak c then
    if f.isBroken then { f with others := f.others ++ [c] } else ⟨true, [], [c], f.others⟩
  else if f.isBroken then f
  else { f with blanks := f.blanks ++ [c] }

/-- What the run becomes. -/
def text (f : Fold) : List Char :=
  if f.isBroken then
    if f.first = ['\n'] then
      if f.others.isEmpty then [' '] else f.others
    else f.first ++ f.others
  else f.blanks

end Fold

end SafeCalls.Yaml
