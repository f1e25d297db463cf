import SafeCalls.Yaml.Scalar.Folding

namespace SafeCalls.Yaml

/-!
# Plain scalars

A plain scalar goes on until something ends it: a colon or a comment after a blank, a line that is
indented too little, and in a flow collection its indicators.
-/

namespace Plain

/-- Where a plain scalar stands: inside a flow collection or not, and from which column on its
lines may start. -/
structure Place where
  inFlow : Bool
  margin : Nat

/-- How far a plain scalar has been read: up to a character of it, or into a run of blanks. -/
inductive Mode where
  | inside
  | between (fold : Fold)

def isFlowIndicator (c : Char) : Bool :=
  c == ',' || c == '[' || c == ']' || c == '\x7b' || c == '\x7d'

/-- Whether a colon stands before an indicator, which a flow collection does not allow. -/
def isStrayColon (place : Place) (s : Stream) : Bool :=
  place.inFlow && s.has 0 ':' &&
    match s.char? 1 with
    | none => false
    | some c => c == '?' || isFlowIndicator c

/-- Whether an indicator ends the scalar here. -/
def isEnd (place : Place) (s : Stream) : Bool :=
  (s.has 0 ':' && s.isGap 1) ||
    (place.inFlow &&
      match s.char? 0 with
      | none => false
      | some c => isFlowIndicator c)

/-- Whether the scalar ends after a run of blanks. -/
def isEndBetween (place : Place) (s : Stream) : Bool :=
  (!place.inFlow && s.column < place.margin) || s.isDocumentMark || s.has 0 '#'

def Mode.isBroken : Mode → Bool
  | inside => false
  | between fold => fold.isBroken

/-- The text of a plain scalar, whether it ends after a line break, and what comes after it. -/
def read? (place : Place) : Mode → Stream → Option (List Char × Bool × Stream)
  | mode, .finish p => some ([], mode.isBroken, .finish p)
  | .inside, .next c p rest =>
      let s := Stream.next c p rest
      if isBlank c || isBreak c then read? place (.between (Fold.empty.push c)) rest
      else if isStrayColon place s then none
      else if isEnd place s then some ([], false, s)
      else (read? place .inside rest).map fun (cs, after) => (c :: cs, after)
  | .between fold, .next c p rest =>
      let s := Stream.next c p rest
      if isBlank c || isBreak c then
        if fold.isBroken && c == '\t' && p.column < place.margin then none
        else read? place (.between (fold.push c)) rest
      else if isEndBetween place s then some ([], fold.isBroken, s)
      else if isStrayColon place s then none
      else if isEnd place s then some ([], fold.isBroken, s)
      else (read? place .inside rest).map fun (cs, after) => (fold.text ++ c :: cs, after)

end Plain

end SafeCalls.Yaml
