namespace SafeCalls

/-!
# Cancellation

A run polls a cancellation token and consults a semantic model. A token is given by what a poll
sees at each moment of a run, and moments are counted in polls and lookups, so that a token can
fire at any of them. A run in which a poll sees the token fired ends without a result.
-/

/-- How far a run has come. -/
structure Moment where
  polls : Nat
  lookups : Nat
  deriving DecidableEq, Repr

namespace Moment

def start : Moment := ⟨0, 0⟩

end Moment

/-- A cancellation token: whether a poll at the given moment sees it fired. -/
structure Token where
  isFired : Moment → Bool

namespace Token

def never : Token := ⟨fun _ => false⟩

def always : Token := ⟨fun _ => true⟩

/-- A token that fires during the given lookup, counted from one. -/
def atLookup (n : Nat) : Token := ⟨fun moment => n ≤ moment.lookups⟩

/-- A token that is fired when either of two is. -/
def either (a b : Token) : Token := ⟨fun moment => a.isFired moment || b.isFired moment⟩

end Token

/-- The outcome of a run that saw its token fired. -/
inductive Cancelled where
  | cancelled
  deriving DecidableEq, Repr

namespace Cancelled

def message (_ : Cancelled) : String := "whitelist extraction cancelled"

end Cancelled

/-- A run that may be cancelled. -/
abbrev Watched := ReaderT Token (ExceptT Cancelled (StateM Moment))

namespace Watched

variable {α : Type}

/-- Looks at the token, and ends the run if it has fired. -/
def poll : Watched Unit := fun token => do
  let moment ← get
  set { moment with polls := moment.polls + 1 }
  if token.isFired moment then throw .cancelled else pure ()

/-- Takes note of a number of lookups. -/
def advance (lookups : Nat) : Watched Unit :=
  modify fun moment => { moment with lookups := moment.lookups + lookups }

/-- The outcome of a run and the moment at its end. -/
def runFrom (run : Watched α) (token : Token) (moment : Moment) : Except Cancelled α × Moment :=
  StateT.run (ExceptT.run (ReaderT.run run token)) moment

def outcome (run : Watched α) (token : Token) : Except Cancelled α :=
  (run.runFrom token .start).1

end Watched

end SafeCalls
