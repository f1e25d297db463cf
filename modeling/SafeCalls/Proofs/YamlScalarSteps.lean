import SafeCalls.Proofs.YamlScalars
import SafeCalls.Proofs.YamlSteps

namespace SafeCalls.Yaml

/-!
# The tokens of scalars

In whatever style a text has been written, its token is one scalar with that text.
-/

open TextStyle (isPrintable isGapChar isAtGap)
open Writing (spaces)

/-- How a text in a style is read. -/
def TextStyle.scalarStyle : TextStyle → ScalarStyle
  | plain => .plain
  | apostrophes => .quoted
  | literal => .literal
  | escaped => .quoted

namespace Progress

variable {candidate : Option Candidate} {a : Bool} {tokens : List Token} {indents : List Nat}
variable {p : Position} {c : Char} {cs rest tail : List Char}

theorem isTriple_ofChars {mark : Char} (hmark : mark = '-' ∨ mark = '.') (h : Plain.IsAllowed c rest)
    (htail : IsPrintable tail) (hnext : ∀ d ∈ tail.head?, d ≠ '-' ∧ d ≠ '.') :
    (Stream.ofChars p (c :: rest ++ tail)).isTriple mark = false := by
  have hprint : IsPrintable (c :: rest ++ tail) := IsPrintable.append_iff.2 ⟨h.printable, htail⟩
  have hnext' : tail.head? ≠ some mark := by
    intro hhead
    obtain ⟨hdash, hdot⟩ := hnext mark hhead
    exact hmark.elim hdash hdot
  rw [List.head?_eq_getElem?] at hnext'
  have hdocument := h.startsDocument
  refine Bool.eq_false_iff.2 fun htriple => ?_
  simp only [Stream.isTriple, Stream.has, Stream.char?_ofChars hprint, Bool.and_eq_true,
    beq_iff_eq] at htriple
  obtain ⟨⟨⟨hfirst, hsecond⟩, hthird⟩, -⟩ := htriple
  rcases rest with _ | ⟨d, _ | ⟨e, rest⟩⟩
  · exact hnext' hsecond
  · exact hnext' hthird
  · cases hfirst
    cases hsecond
    cases hthird
    rcases hmark with rfl | rfl <;> cases hdocument

/-- The characters that start tokens other than plain scalars, and those that may do so. -/
def indicators : List Char := "#,[]\x7b\x7d&*!|>'\"%@\x60".toList

def marks : List Char := "?:-".toList

theorem isPlainStart_inBlock {s : Stream} (hchar : s.char? 0 = some c) (hgap : ¬ isGapChar c)
    (hindicator : indicators.contains c = false) (hmark : marks.contains c → s.isGap 1 = false) :
    (inBlock candidate a tokens indents s).isPlainStart := by
  simp only [isPlainStart, inBlock, hchar]
  by_cases hc : marks.contains c
  · have hnext := hmark hc
    have hblank : ((s.char? 1).map isBlank).getD false = false := by
      rw [Stream.isGap] at hnext
      cases hd : s.char? 1 with
      | none => rfl
      | some d =>
          simp only [hd, Bool.or_eq_false_iff] at hnext
          exact hnext.1
    have hcases : c = '?' ∨ c = ':' ∨ c = '-' := by simpa [marks] using hc
    rw [Bool.or_eq_true, Bool.or_eq_true]
    rcases hcases with rfl | rfl | rfl
    · exact .inr (by rw [hnext]; rfl)
    · exact .inr (by rw [hnext]; rfl)
    · exact .inl (.inr (by rw [hblank]; rfl))
  · have hstart : startsPlain c := by
      have hall : "-?:,[]\x7b\x7d#&*!|>'\"%@\x60".toList.all fun d =>
          indicators.contains d || marks.contains d := by decide
      have hnot : "-?:,[]\x7b\x7d#&*!|>'\"%@\x60".toList.contains c = false := by
        refine Bool.eq_false_iff.2 fun hmem => ?_
        have hfound := List.all_eq_true.1 hall c (List.contains_iff_mem.1 hmem)
        rcases Bool.or_eq_true_iff.1 hfound with h | h
        · rw [hindicator] at h
          cases h
        · exact hc h
      have hgap' : (isBlank c || isBreak c) = false := Bool.eq_false_iff.2 hgap
      rw [startsPlain, hgap', hnot]
      rfl
    rw [hstart]
    rfl

theorem token?_of_plain {s : Stream} (hchar : s.char? 0 = some c) (hdash : s.isTriple '-' = false)
    (hdot : s.isTriple '.' = false) (hgap : ¬ isGapChar c) (hindicator : indicators.contains c = false)
    (hmark : marks.contains c → s.isGap 1 = false) :
    (inBlock candidate a tokens indents s).token? =
      (inBlock candidate a tokens indents s).plainScalar? := by
  have hpercent : c ≠ '%' := by
    rintro rfl
    cases hindicator
  have hindicated : (inBlock candidate a tokens indents s).indicated? c = none := by
    unfold indicated?
    split
    all_goals first
      | exact absurd hindicator (by decide)
      | simp [inBlock, inFlow, hmark rfl]
      | rfl
  have hstart : (inBlock candidate a tokens indents s).isPlainStart :=
    isPlainStart_inBlock hchar hgap hindicator hmark
  have hahead : (inBlock candidate a tokens indents s).ahead = s := rfl
  rw [token?]
  simp only [hahead, hchar, hpercent, hdash, hdot, hindicated, hstart, false_and, if_false,
    Bool.false_eq_true, and_false, if_true]

theorem token?_plain (h : Plain.IsAllowed c rest) (htail : IsPrintable tail)
    (hnext : ∀ d ∈ tail.head?, d ≠ '-' ∧ d ≠ '.') :
    (inBlock candidate a tokens indents (.ofChars p (c :: rest ++ tail))).token? =
      (inBlock candidate a tokens indents (.ofChars p (c :: rest ++ tail))).plainScalar? := by
  have hprint : IsPrintable (c :: rest ++ tail) := IsPrintable.append_iff.2 ⟨h.printable, htail⟩
  have hindicator := h.isIndicator
  rw [TextStyle.isIndicator, Bool.or_eq_false_iff] at hindicator
  refine token?_of_plain (c := c) ?_ (isTriple_ofChars (.inl rfl) h htail hnext)
    (isTriple_ofChars (.inr rfl) h htail hnext) h.not_isGapChar hindicator.1 fun hmark => ?_
  · rw [Stream.char?_ofChars hprint]
    rfl
  · rw [List.cons_append] at hprint ⊢
    rw [Stream.isGap_ofChars hprint, List.drop_one, List.tail_cons, h.not_isAtGap hmark]

theorem token?_of_indicated {q : Progress} {next : Option Progress} (hchar : q.ahead.char? 0 = some c)
    (hpercent : c ≠ '%') (hdash : c ≠ '-') (hdot : c ≠ '.') (h : q.indicated? c = some next) :
    q.token? = next := by
  have hnot {mark : Char} (hne : c ≠ mark) : q.ahead.isTriple mark = false := by
    simp [Stream.isTriple, Stream.has, hchar, hne]
  rw [token?]
  simp only [hchar, hpercent, hnot hdash, hnot hdot, h, false_and, if_false, Bool.false_eq_true,
    and_false]

/-- What is kept in mind of a token that starts here. -/
def saved (isKeyAllowed : Bool) (tokens : List Token) (indents : List Nat) (p : Position) :
    Option Candidate :=
  if isKeyAllowed then some ⟨tokens.length, p, indents.head? == some p.column⟩ else none

theorem saveKey?_inBlock {s : Stream} : (inBlock none a tokens indents s).saveKey? =
    some (inBlock (saved a tokens indents s.position) a tokens indents s) := by
  cases a <;> rfl

theorem plainScalar?_eq (h : Plain.IsAllowed c rest) (htail : IsPrintable tail)
    (hmargin : ∀ i ∈ indents.head?, i ≤ p.column) :
    (inBlock none a tokens indents (.ofChars p (c :: rest ++ tail))).plainScalar? =
      (Plain.read? ⟨false, (inBlock none a tokens indents (.ofChars p tail)).margin⟩ .inside
        (.ofChars (p.pastAll (c :: rest)) tail)).map fun r =>
          inBlock (saved a tokens indents p) r.2.1
            (.scalar (String.ofList (c :: rest ++ r.1)) .plain :: tokens) indents r.2.2 := by
  have hle : (inBlock none a tokens indents (.ofChars p tail)).margin ≤ p.column + 1 := by
    cases indents with
    | nil => exact Nat.zero_le _
    | cons i indents => exact Nat.succ_le_succ (hmargin i rfl)
  have hread := h.read? htail hle
  rw [plainScalar?, saveKey?_inBlock, Stream.position_ofChars]
  change Option.bind (Plain.read? ⟨false, (inBlock none a tokens indents (.ofChars p tail)).margin⟩ .inside
    (.ofChars p (c :: rest ++ tail))) _ = _
  rw [hread]
  cases Plain.read? ⟨false, (inBlock none a tokens indents (.ofChars p tail)).margin⟩ .inside
    (.ofChars (p.pastAll (c :: rest)) tail) <;> rfl

theorem token?_quoted {quote : Char} (hquote : quote = '\'' ∨ quote = '"') {s s' : Stream}
    (hchar : s.char? 0 = some quote) (hread : Quoted.read? quote .inside s.tail = some (cs, s')) :
    (inBlock none a tokens indents s).token? =
      some (inBlock (saved a tokens indents s.position) false (.scalar (String.ofList cs) .quoted :: tokens)
        indents s') := by
  have hpart : (inBlock none a tokens indents s).quotedScalar? quote =
      some (inBlock (saved a tokens indents s.position) false (.scalar (String.ofList cs) .quoted :: tokens)
        indents s') := by
    rw [quotedScalar?, part?, saveKey?_inBlock]
    change Option.bind (Option.bind (Quoted.read? quote .inside s.tail) _) _ = _
    rw [hread]
    rfl
  rcases hquote with rfl | rfl
  · rw [token?_of_indicated hchar (by decide) (by decide) (by decide) rfl, hpart]
  · rw [token?_of_indicated hchar (by decide) (by decide) (by decide) rfl, hpart]

/-- A literal block is not a key. -/
theorem token?_literal {s s' : Stream} (hchar : s.char? 0 = some '|')
    (hread : Block.read? false (inBlock none a tokens indents s).margin s.tail = some (cs, s')) :
    (inBlock none a tokens indents s).token? =
      some (inBlock none true (.scalar (String.ofList cs) .literal :: tokens) indents s') := by
  have hblock : (inBlock none a tokens indents s).blockScalar? .literal =
      some (inBlock none true (.scalar (String.ofList cs) .literal :: tokens) indents s') := by
    rw [blockScalar?]
    change Option.bind (Block.read? false (inBlock none a tokens indents s).margin s.tail) _ = _
    rw [hread]
    rfl
  rw [token?_of_indicated hchar (by decide) (by decide) (by decide) rfl, hblock]

section

variable {style : TextStyle} {indent : Nat}

/-- What is written between quotes is read up to the closing quote. -/
theorem exists_quoted (h : style.Suits cs) (hstyle : style = .apostrophes ∨ style = .escaped)
    (hindent : 0 < indent) (htail : IsPrintable tail) (hnext : tail.head? ≠ some '\'') :
    ∃ quote written, (quote = '\'' ∨ quote = '"') ∧ Writing.text style indent cs = quote :: written ∧
      ∀ p : Position, Quoted.read? quote .inside (.ofChars p (written ++ tail)) =
        some (cs, .ofChars (p.pastAll written) tail) := by
  rcases hstyle with rfl | rfl
  · obtain ⟨hprint, hfeed, hblank, hbreak⟩ := h
    exact ⟨'\'', _, .inl rfl, rfl,
      (Quoted.readsInside hindent htail hnext cs hprint hfeed hblank hbreak).1⟩
  · refine ⟨'"', cs.flatMap Writing.escapedChar ++ ['"'], .inr rfl, rfl, fun p => ?_⟩
    rw [List.append_assoc]
    exact (Quoted.read?_escaped htail cs).1 p

theorem token?_quotedText (h : style.Suits cs) (hstyle : style = .apostrophes ∨ style = .escaped)
    (hindent : 0 < indent) (htail : IsPrintable tail) (hnext : tail.head? ≠ some '\'') :
    (inBlock none a tokens indents (.ofChars p (Writing.text style indent cs ++ tail))).token? =
      some (inBlock (saved a tokens indents p) false
        (.scalar (String.ofList cs) .quoted :: tokens) indents
        (.ofChars (p.pastAll (Writing.text style indent cs)) tail)) := by
  obtain ⟨quote, written, hquote, htext, hread⟩ := exists_quoted h hstyle hindent htail hnext
  have hprint : isPrintable quote := by rcases hquote with rfl | rfl <;> decide
  have hall : IsPrintable (Writing.text style indent cs ++ tail) :=
    IsPrintable.append_iff.2 ⟨Writing.isPrintable_text h, htail⟩
  rw [htext] at hall ⊢
  have hchar : (Stream.ofChars p (quote :: written ++ tail)).char? 0 = some quote := by
    rw [Stream.char?_ofChars hall]
    rfl
  have hwritten : Quoted.read? quote .inside (Stream.ofChars p (quote :: written ++ tail)).tail =
      some (cs, .ofChars (p.pastAll (quote :: written)) tail) := by
    rw [List.cons_append, Stream.tail_ofChars hprint]
    exact hread (p.past quote)
  rw [token?_quoted hquote hchar hwritten]
  simp [saved]

theorem token?_key (h : style.Suits cs) (hstyle : style ≠ .literal) (hindent : 0 < indent)
    (hindents : ∀ i ∈ indents.head?, i ≤ p.column) (hprint : IsPrintable rest) (hgap : isAtGap rest) :
    (inBlock none a tokens indents (.ofChars p (Writing.text style indent cs ++ ':' :: rest))).token? =
      some (inBlock (saved a tokens indents p) false
        (.scalar (String.ofList cs) style.scalarStyle :: tokens) indents
        (.ofChars (p.pastAll (Writing.text style indent cs)) (':' :: rest))) := by
  have htail : IsPrintable (':' :: rest) := IsPrintable.cons_iff.2 ⟨by decide, hprint⟩
  have hnext : (':' :: rest).head? ≠ some '\'' := by simp
  cases style with
  | plain =>
      obtain ⟨c, word, rfl, h⟩ := h
      have hmark : ∀ d ∈ (':' :: rest).head?, d ≠ '-' ∧ d ≠ '.' := by simp
      rw [Writing.text, token?_plain h htail hmark, plainScalar?_eq h htail hindents,
        Plain.read?_colon htail hgap, Option.map_some, List.append_nil]
      simp [saved, TextStyle.scalarStyle]
  | apostrophes => exact token?_quotedText h (.inl rfl) hindent htail hnext
  | literal => exact absurd rfl hstyle
  | escaped => exact token?_quotedText h (.inr rfl) hindent htail hnext

/-! ### Scalars at the end of a line -/

variable {k n : Nat}

theorem saved_of_lt (hindents : indents.head? = some k) (hk : k < p.column) :
    ∀ x ∈ saved a tokens indents p, x.isRequired = false ∧ x.position = p := by
  intro x hx
  cases a with
  | false => cases hx
  | true =>
      cases hx
      refine ⟨?_, rfl⟩
      have hne : k ≠ p.column := Nat.ne_of_lt hk
      simp [hindents, hne]

theorem column_nextLine : (p.nextLine n).column = n := by
  have hstart : (p.past '\n').column = 0 := Block.column_past_of_isBreak rfl
  rw [Position.nextLine, Position.column_pastAll_spaces, hstart, Nat.zero_add]

theorem isPrintable_feed (hprint : IsPrintable rest) : IsPrintable ('\n' :: (spaces n ++ rest)) := by
  rw [IsPrintable.cons_iff, IsPrintable.append_iff]
  exact ⟨by decide, isPrintable_spaces n, hprint⟩

section

variable (hindents : indents.head? = some k) (hk : k < p.column) (hprint : IsPrintable rest)
variable (htoken : StartsToken rest)

include hindents hk hprint htoken

theorem next_plain (h : Plain.IsAllowed c cs) (hn : n ≤ k) :
    Next (inBlock none a tokens indents (.ofChars p (c :: cs ++ '\n' :: (spaces n ++ rest))))
      (lineStart (.scalar (String.ofList (c :: cs)) .plain :: tokens) indents
        ((p.pastAll (c :: cs)).nextLine n) rest) := by
  have htail := isPrintable_feed (n := n) hprint
  have hall : IsPrintable (c :: cs ++ '\n' :: (spaces n ++ rest)) :=
    IsPrintable.append_iff.2 ⟨h.printable, htail⟩
  refine .of_line (c := saved a tokens indents p) rfl ?_ ?_ (by simp) hprint htoken fun x hx => ?_
  · rw [token?_plain h htail (by simp), plainScalar?_eq h htail ?_, margin_inBlock hindents,
      Plain.read?_line hprint htoken (Nat.lt_succ_of_le hn), Option.map_some, List.append_nil]
    intro i hi
    rw [hindents] at hi
    cases hi
    exact Nat.le_of_lt hk
  · rw [length_ahead_inBlock hall]
    simp only [List.length_append, List.length_cons]
    omega
  · obtain ⟨hfree, hposition⟩ := saved_of_lt hindents hk x hx
    refine ⟨hfree, ?_⟩
    rw [hposition]
    exact Nat.lt_of_le_of_lt Position.line_le_line_pastAll line_lt_line_nextLine

theorem next_quoted (h : style.Suits cs) (hstyle : style = .apostrophes ∨ style = .escaped) :
    Next (inBlock none a tokens indents
        (.ofChars p (Writing.text style (k + 2) cs ++ '\n' :: (spaces n ++ rest))))
      (lineStart (.scalar (String.ofList cs) .quoted :: tokens) indents
        ((p.pastAll (Writing.text style (k + 2) cs)).nextLine n) rest) := by
  have htail := isPrintable_feed (n := n) hprint
  have hall : IsPrintable (Writing.text style (k + 2) cs ++ '\n' :: (spaces n ++ rest)) :=
    IsPrintable.append_iff.2 ⟨Writing.isPrintable_text h, htail⟩
  refine .of_feed (c := saved a tokens indents p) (a := false) rfl ?_ ?_ (by simp) hprint htoken
    fun x hx => ?_
  · exact token?_quotedText h hstyle (Nat.succ_pos _) htail (by simp)
  · rw [length_ahead_inBlock hall]
    simp only [List.length_append, List.length_cons]
    omega
  · obtain ⟨hfree, hposition⟩ := saved_of_lt hindents hk x hx
    refine ⟨hfree, ?_⟩
    rw [hposition]
    exact Position.line_le_line_pastAll

end

theorem next_scalar (h : style.Suits cs) (hindents : indents.head? = some k) (hk : k < p.column)
    (hn : n ≤ k) (hprint : IsPrintable rest) (htoken : StartsToken rest) :
    ∃ q : Position, q.column = n ∧
      Next (inBlock none a tokens indents
        (.ofChars p (Value.endLine (Writing.text style (k + 2) cs) ++ (spaces n ++ rest))))
        (lineStart (.scalar (String.ofList cs) style.scalarStyle :: tokens) indents q rest) := by
  cases style with
  | plain =>
      rw [Value.endLine_text (by decide) h, List.append_assoc]
      obtain ⟨c, word, rfl, h⟩ := h
      exact ⟨_, column_nextLine, next_plain hindents hk hprint htoken h hn⟩
  | apostrophes =>
      rw [Value.endLine_text (by decide) h, List.append_assoc]
      exact ⟨_, column_nextLine, next_quoted hindents hk hprint htoken h (.inl rfl)⟩
  -- Only a literal block is read together with the end of its last line.
  | literal =>
      have hne : cs ≠ [] := List.ne_nil_of_mem h.2
      obtain ⟨core, breaks, rfl, hlast, hbreaks, hwritten⟩ := Value.endLine_literal (k + 2) hne
      have hblock : IsPrintable ('|' :: Block.literal (k + 2) core breaks) := by
        rw [← hwritten]
        exact Value.isPrintable_endLine (Writing.isPrintable_text h)
      rw [hwritten]
      have htail : IsPrintable (spaces n ++ rest) :=
        IsPrintable.append_iff.2 ⟨isPrintable_spaces n, hprint⟩
      have hall := IsPrintable.append_iff.2 ⟨hblock, htail⟩
      refine ⟨((p.past '|').pastAll (Block.literal (k + 2) core breaks)).pastAll (spaces n), ?_, ?_⟩
      · rw [Position.column_pastAll_spaces, Block.column_pastAll_literal hbreaks, Nat.zero_add]
      · refine .of_line (c := none) rfl ?_ ?_ (by simp) hprint htoken (by simp)
        · apply token?_literal
          · rw [Stream.char?_ofChars hall]
            rfl
          · rw [margin_inBlock hindents, List.cons_append, Stream.tail_ofChars (by decide)]
            exact Block.read?_literal hne hlast hbreaks h.1 hprint htoken (Nat.succ_pos k)
              (Nat.lt_succ_of_le hn)
        · rw [length_ahead_inBlock hall]
          simp only [List.length_append, List.length_cons]
          omega
  | escaped =>
      rw [Value.endLine_text (by decide) h, List.append_assoc]
      exact ⟨_, column_nextLine, next_quoted hindents hk hprint htoken h (.inr rfl)⟩

end

end Progress

end SafeCalls.Yaml
