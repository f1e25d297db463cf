import Mathlib.Logic.Relation
import SafeCalls.Proofs.YamlStream
import SafeCalls.Yaml.Tokens

namespace SafeCalls.Yaml

/-!
# Steps from token to token

A token is read after the gap before it has been skipped and the collections that its column ends
have been closed. In that form the places of a text where a token starts follow one another, and the
tokens of the text are those of its last place.
-/

open Writing (spaces)

namespace Progress

/-- The place of the next token, unless the stream has ended. -/
def ready? (p : Progress) : Option Progress :=
  if p.tokens.head? = some .streamEnd then none
  else p.toToken.expire?.map fun p => p.close (p.column + 1)

/-- A token is read at a place and leads to the place of the token after it. -/
structure Next (p q : Progress) : Prop where
  isCut : p.isCut = false
  length : q.ahead.length < p.ahead.length
  token : ∃ r, p.token? = some r ∧ r.isCut = false ∧ ∃ r', r.expire? = some r' ∧ r'.ready? = some q

variable {p q r : Progress} {ts : List Token}

theorem isCut_close (p : Progress) (floor : Nat) : (p.close floor).isCut = p.isCut := by
  rw [close]
  split <;> rfl

theorem canSee_of_not_isCut (h : p.isCut = false) (length : Nat) : p.canSee length := by
  simp [canSee, h]

theorem head?_ne_of_ready? (h : p.ready? = some q) : p.tokens.head? ≠ some .streamEnd := by
  intro hend
  rw [ready?, if_pos hend] at h
  cases h

theorem step?_eq (h : p.ready? = some q) (hcut : q.isCut = false) :
    p.step? = q.token?.bind fun r => if r.canSee 1 then r.expire? else none := by
  rw [ready?, if_neg (head?_ne_of_ready? h), Option.map_eq_some_iff] at h
  obtain ⟨r, hexpire, rfl⟩ := h
  rw [isCut_close] at hcut
  have hsee : r.canSee 4 := canSee_of_not_isCut hcut 4
  rw [step?, hexpire]
  simp only [Option.bind_eq_bind, Option.bind_some, hsee, if_true]

theorem run_of_ready? (h : p.ready? = some q) (hcut : q.isCut = false) (htoken : q.token? = some r)
    (hcut' : r.isCut = false) {r' : Progress} (hexpire : r.expire? = some r') (fuel : Nat) :
    p.run (fuel + 1) = r'.run fuel := by
  have hsee : r.canSee 1 := canSee_of_not_isCut hcut' 1
  rw [run, if_neg (head?_ne_of_ready? h), step?_eq h hcut, htoken, Option.bind_some, if_pos hsee,
    hexpire]

/-- From whatever state leads to this place the tokens of the stream are these. -/
def Spells (q : Progress) (ts : List Token) : Prop :=
  ∀ (p : Progress) (fuel : Nat), p.ready? = some q → q.ahead.length < fuel → p.run fuel = ts

theorem Spells.of_next (h : Next p q) (hq : Spells q ts) : Spells p ts := by
  intro s fuel hs hfuel
  obtain ⟨r, htoken, hcut, r', hexpire, hready⟩ := h.token
  cases fuel with
  | zero => exact absurd hfuel (Nat.not_lt_zero _)
  | succ fuel =>
      rw [run_of_ready? hs h.isCut htoken hcut hexpire]
      exact hq r' fuel hready (Nat.lt_of_lt_of_le h.length (Nat.le_of_lt_succ hfuel))

theorem Spells.of_reflTransGen (h : Relation.ReflTransGen Next p q) (hq : Spells q ts) :
    Spells p ts := by
  induction h using Relation.ReflTransGen.head_induction_on with
  | refl => exact hq
  | head hnext _ ih => exact .of_next hnext ih

/-! ### Gaps -/

section

variable {a : Bool} {inFlow : Bool} {pos : Position} {cs : List Char} {n : Nat}

theorem skipGap_space : skipGap inFlow a false (.ofChars pos (' ' :: cs)) =
    skipGap inFlow a false (.ofChars (pos.past ' ') cs) := by
  rw [Stream.ofChars_cons (by decide), skipGap]
  simp [byteOrderMark]

theorem skipGap_spaces : skipGap inFlow a false (.ofChars pos (spaces n ++ cs)) =
    skipGap inFlow a false (.ofChars (pos.pastAll (spaces n)) cs) := by
  induction n generalizing pos with
  | zero => rfl
  | succ n ih =>
      have hspaces : spaces (n + 1) = ' ' :: spaces n := rfl
      rw [hspaces, List.cons_append, skipGap_space, ih]
      rfl

theorem skipGap_token (hprint : IsPrintable cs) (htoken : StartsToken cs) :
    skipGap inFlow a false (.ofChars pos cs) = (.ofChars pos cs, a) := by
  cases cs with
  | nil => rfl
  | cons c cs =>
      obtain ⟨hc, -⟩ := IsPrintable.cons_iff.1 hprint
      obtain ⟨hgap, hcomment⟩ := htoken c rfl
      rw [isGapChar_iff hc, not_or] at hgap
      rw [Stream.ofChars_cons hc, skipGap]
      simp [hgap.1, hgap.2, hcomment, ne_mark_of_isPrintable hc, ne_tab_of_isPrintable hc]

theorem skipGap_feed : skipGap false a false (.ofChars pos ('\n' :: (spaces n ++ cs))) =
    skipGap false true false (.ofChars (pos.nextLine n) cs) := by
  rw [Stream.ofChars_cons (by decide), skipGap, if_pos (by decide), skipGap_spaces]
  simp [Position.nextLine]

end

/-! ### Places -/

/-- A place outside of flow collections. -/
def inBlock (candidate : Option Candidate) (isKeyAllowed : Bool) (tokens : List Token)
    (indents : List Nat) (ahead : Stream) : Progress :=
  ⟨ahead, tokens, indents, candidate, [], isKeyAllowed, false⟩

/-- The place of the first token of a line. -/
def lineStart (tokens : List Token) (indents : List Nat) (p : Position) (cs : List Char) : Progress :=
  (inBlock none true tokens indents (.ofChars p cs)).close (p.column + 1)

section

variable {a : Bool} {c : Option Candidate} {pos : Position} {cs : List Char} {n floor : Nat}
variable {tokens : List Token} {indents : List Nat}

theorem length_ahead_inBlock (h : IsPrintable cs) :
    (inBlock c a tokens indents (.ofChars pos cs)).ahead.length = cs.length :=
  Stream.length_ofChars h

theorem margin_inBlock {s : Stream} {i : Nat} (h : indents.head? = some i) :
    (inBlock c a tokens indents s).margin = i + 1 := by
  obtain ⟨more, rfl⟩ := List.head?_eq_some_iff.1 h
  rfl

theorem close_eq_self (h : ∀ i ∈ indents.head?, i < floor) :
    (inBlock c a tokens indents (.ofChars pos cs)).close floor =
      inBlock c a tokens indents (.ofChars pos cs) := by
  have hclosed : indents.takeWhile (floor ≤ ·) = [] := by
    cases indents with
    | nil => rfl
    | cons i indents => simp [h i rfl]
  rw [close]
  simp [inFlow, inBlock, hclosed]

theorem lineStart_cons {i : Nat} (h : pos.column < i) :
    lineStart tokens (i :: indents) pos cs = lineStart (.blockEnd :: tokens) indents pos cs := by
  have hclosed : (i :: indents).takeWhile (pos.column + 1 ≤ ·) =
      i :: indents.takeWhile (pos.column + 1 ≤ ·) :=
    List.takeWhile_cons_of_pos (decide_eq_true (Nat.succ_le_of_lt h))
  have hends (m : Nat) : Token.blockEnd :: (List.replicate m Token.blockEnd ++ tokens) =
      List.replicate m Token.blockEnd ++ Token.blockEnd :: tokens := by
    rw [List.append_cons, ← List.replicate_succ', List.replicate_succ, List.cons_append]
  simp only [lineStart, close, inFlow, inBlock, hclosed]
  simp [List.map_const', hends]

theorem lineStart_eq (h : ∀ i ∈ indents.head?, i ≤ pos.column) :
    lineStart tokens indents pos cs = inBlock none true tokens indents (.ofChars pos cs) :=
  close_eq_self fun i hi => Nat.lt_succ_of_le (h i hi)

theorem ready?_inBlock (hstream : tokens.head? ≠ some .streamEnd)
    {s s' : Stream} {a' : Bool} (hskip : skipGap false a false s = (s', a'))
    {c' : Option Candidate} (hcurrent : current? s'.position c = some c') :
    (inBlock c a tokens indents s).ready? =
      some ((inBlock c' a' tokens indents s').close (s'.column + 1)) := by
  have htoken : (inBlock c a tokens indents s).toToken = inBlock c a' tokens indents s' := by
    rw [toToken]
    simp only [inBlock, inFlow, List.isEmpty_nil, Bool.not_true, hskip]
  have hexpire : (inBlock c a' tokens indents s').expire? = some (inBlock c' a' tokens indents s') := by
    simp [expire?, inBlock, hcurrent]
  have hgoing : ¬ (inBlock c a tokens indents s).tokens.head? = some .streamEnd := hstream
  rw [ready?, if_neg hgoing, htoken, hexpire]
  rfl

/-! ### Candidates -/

theorem current?_of_line {line : Position} (h : ∀ x ∈ c, x.isRequired = false ∧ x.position.line < line.line) :
    current? line c = some none := by
  cases c with
  | none => rfl
  | some x =>
      obtain ⟨hfree, hline⟩ := h x rfl
      simp [current?, isStale, hline, hfree]

theorem exists_current? (here : Position) (h : ∀ x ∈ c, x.isRequired = false) :
    ∃ c', current? here c = some c' ∧ ∀ x ∈ c', x ∈ c := by
  cases c with
  | none => exact ⟨none, rfl, fun _ hx => hx⟩
  | some x =>
      by_cases hstale : isStale here x
      · exact ⟨none, by simp [current?, hstale, h x rfl], fun _ hx => nomatch hx⟩
      · exact ⟨some x, by simp [current?, hstale], fun _ hx => hx⟩

theorem Next.of_inBlock {p q : Progress} {c' : Option Candidate} (hcut : p.isCut = false)
    (htoken : p.token? = some (inBlock c a tokens indents (.ofChars pos cs)))
    (hcurrent : current? pos c = some c')
    (hready : (inBlock c' a tokens indents (.ofChars pos cs)).ready? = some q)
    (hlength : q.ahead.length < p.ahead.length) : Next p q where
  isCut := hcut
  length := hlength
  token := by
    refine ⟨_, htoken, rfl, _, ?_, hready⟩
    simp [expire?, inBlock, hcurrent]

/-- A line that has started with its indentation. -/
theorem ready?_lineStart (hstream : tokens.head? ≠ some .streamEnd) (hprint : IsPrintable cs)
    (htoken : StartsToken cs) :
    (inBlock none true tokens indents (.ofChars pos cs)).ready? =
      some (lineStart tokens indents pos cs) := by
  rw [ready?_inBlock hstream (skipGap_token hprint htoken) (c := none) rfl, Stream.column_ofChars]
  rfl

theorem ready?_space (hstream : tokens.head? ≠ some .streamEnd) (hprint : IsPrintable cs)
    (htoken : StartsToken cs) (hindents : ∀ i ∈ indents.head?, i ≤ pos.column) :
    (inBlock none a tokens indents (.ofChars pos (' ' :: cs))).ready? =
      some (inBlock none a tokens indents (.ofChars (pos.past ' ') cs)) := by
  have hskip : skipGap false a false (.ofChars pos (' ' :: cs)) = (.ofChars (pos.past ' ') cs, a) := by
    rw [skipGap_space, skipGap_token hprint htoken]
  rw [ready?_inBlock hstream hskip (c := none) rfl, close_eq_self]
  intro i hi
  rw [Stream.column_ofChars]
  exact Nat.lt_succ_of_le (Nat.le_succ_of_le (hindents i hi))

theorem ahead_lineStart : (lineStart tokens indents pos cs).ahead = .ofChars pos cs := rfl

/-- After a token comes the first one of a line whose indentation has been read. -/
theorem Next.of_line {p : Progress} (hcut : p.isCut = false)
    (htoken : p.token? = some (inBlock c true tokens indents (.ofChars pos cs)))
    (hlength : cs.length < p.ahead.length) (hstream : tokens.head? ≠ some .streamEnd)
    (hprint : IsPrintable cs) (hstart : StartsToken cs)
    (hc : ∀ x ∈ c, x.isRequired = false ∧ x.position.line < pos.line) :
    Next p (lineStart tokens indents pos cs) := by
  refine .of_inBlock hcut htoken (current?_of_line hc) (ready?_lineStart hstream hprint hstart) ?_
  rwa [ahead_lineStart, Stream.length_ofChars hprint]

theorem line_lt_line_nextLine : pos.line < (pos.nextLine n).line :=
  Nat.lt_of_succ_le (Position.line_le_line_pastAll (p := pos.past '\n'))

theorem ready?_feed (hstream : tokens.head? ≠ some .streamEnd) (hprint : IsPrintable cs)
    (htoken : StartsToken cs) (hc : ∀ x ∈ c, x.isRequired = false ∧ x.position.line ≤ pos.line) :
    (inBlock c a tokens indents (.ofChars pos ('\n' :: (spaces n ++ cs)))).ready? =
      some (lineStart tokens indents (pos.nextLine n) cs) := by
  have hskip : skipGap false a false (.ofChars pos ('\n' :: (spaces n ++ cs))) =
      (.ofChars (pos.nextLine n) cs, true) := by
    rw [skipGap_feed, skipGap_token hprint htoken]
  have hstale : current? (pos.nextLine n) c = some none :=
    current?_of_line fun x hx =>
      ⟨(hc x hx).1, Nat.lt_of_le_of_lt (hc x hx).2 line_lt_line_nextLine⟩
  rw [ready?_inBlock hstream hskip (by rwa [Stream.position_ofChars]), Stream.column_ofChars]
  rfl

/-- After a token the line ends, and then comes the first one of the next line. -/
theorem Next.of_feed {p : Progress} (hcut : p.isCut = false)
    (htoken : p.token? =
      some (inBlock c a tokens indents (.ofChars pos ('\n' :: (spaces n ++ cs)))))
    (hlength : cs.length < p.ahead.length) (hstream : tokens.head? ≠ some .streamEnd)
    (hprint : IsPrintable cs) (hstart : StartsToken cs)
    (hc : ∀ x ∈ c, x.isRequired = false ∧ x.position.line ≤ pos.line) :
    Next p (lineStart tokens indents (pos.nextLine n) cs) := by
  obtain ⟨c', hcurrent, hc'⟩ := exists_current? pos fun x hx => (hc x hx).1
  refine .of_inBlock hcut htoken hcurrent
    (ready?_feed hstream hprint hstart fun x hx => hc x (hc' x hx)) ?_
  rwa [ahead_lineStart, Stream.length_ofChars hprint]

end

end Progress

end SafeCalls.Yaml
