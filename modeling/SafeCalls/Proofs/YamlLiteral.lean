import Mathlib.Data.List.Basic
import Mathlib.Data.List.DropRight
import SafeCalls.Proofs.YamlStream
import SafeCalls.Yaml.Scalar.Block

namespace SafeCalls.Yaml.Block

/-!
# Literal blocks are read back

A text is read back from its lines because each of them is indented as far as the header says or as
the first one is, and because the header tells how many line breaks at the end belong to the text.
-/

open TextStyle (isPrintable isGapChar)
open Writing (spaces literalFrom hidesIndent chompingMark literalHeader)

variable {chomping : Chomping} {indent margin n : Nat} {p : Position} {c : Char}
variable {cs core breaks tail : List Char}

/-! ### Headers -/

/-- The mark of a header. -/
def Chomping.mark : Chomping → List Char
  | strip => ['-']
  | clip => []
  | keep => ['+']

/-- The indentation in a header. -/
def incrementMark (isSaid : Bool) : List Char := if isSaid then ['2'] else []

def headerPosition (p : Position) (isSaid : Bool) (chomping : Chomping) : Position :=
  p.pastAll (incrementMark isSaid ++ (chomping.mark ++ ['\n']))

theorem header?_eq (isSaid : Bool) (chomping : Chomping) :
    header? (.ofChars p (incrementMark isSaid ++ (chomping.mark ++ '\n' :: cs))) =
      some (⟨chomping, if isSaid then some 2 else none⟩,
        .ofChars (headerPosition p isSaid chomping) cs) := by
  cases isSaid <;> cases chomping <;>
    simp only [incrementMark, Chomping.mark, if_true, if_false, Bool.false_eq_true, List.nil_append,
      List.cons_append] <;>
    repeat rw [Stream.ofChars_cons (by decide)]
  all_goals rfl

/-! ### Lines -/

/-- In a literal block it does not matter whether lines start with blanks. -/
theorem lines?_isBlank (s : Stream) (b b' : Bool) :
    lines? false chomping indent (.inside b) s = lines? false chomping indent (.inside b') s ∧
    ∀ first others, lines? false chomping indent (.between ⟨b, first, others⟩) s =
      lines? false chomping indent (.between ⟨b', first, others⟩) s := by
  induction s with
  | finish p => exact ⟨rfl, fun _ _ => by cases chomping <;> rfl⟩
  | next c p rest ih =>
      obtain ⟨hinside, hbetween⟩ := ih
      refine ⟨by rw [lines?, lines?, hinside, hbetween], fun first others => ?_⟩
      rw [lines?, lines?, hbetween first others, hbetween first (others ++ [c])]
      cases chomping <;> simp [Pause.text, Pause.tail]

theorem lines?_spaces {pause : Pause} (h : p.column + n ≤ indent) :
    lines? false chomping indent (.between pause) (.ofChars p (spaces n ++ cs)) =
      lines? false chomping indent (.between pause) (.ofChars (p.pastAll (spaces n)) cs) := by
  induction n generalizing p with
  | zero => rfl
  | succ n ih =>
      have hspaces : spaces (n + 1) = ' ' :: spaces n := rfl
      have hcolumn : (p.past ' ').column = p.column + 1 := rfl
      have hmargin : p.column < indent := by omega
      rw [hspaces, List.cons_append, Stream.ofChars_cons (by decide), lines?]
      simp only [beq_self_eq_true, hmargin, decide_true, Bool.and_self, if_true]
      rw [ih (by omega)]
      rfl

theorem literalFrom_break (h : isBreak c) (isLineStart : Bool) :
    literalFrom indent isLineStart (c :: cs) = c :: literalFrom indent true cs := if_pos h

theorem literalFrom_false (h : ¬ isBreak c) :
    literalFrom indent false (c :: cs) = c :: literalFrom indent false cs := if_neg h

theorem literalFrom_true (h : ¬ isBreak c) :
    literalFrom indent true (c :: cs) = spaces indent ++ c :: literalFrom indent false cs :=
  if_neg h

theorem column_past_of_isBreak (h : isBreak c) : (p.past c).column = 0 := by
  rw [Position.past_of_isBreak h]
  rfl

/-- Lines that do not end in a break are read up to what follows them. The induction carries what is
read inside of a line and what is read at the start of one. -/
theorem lines?_append (chomping : Chomping) (indent : Nat) (tail cs : List Char)
    (hprint : IsPrintable cs) (hlast : ∀ c ∈ cs.getLast?, ¬ isBreak c) :
    (∀ p b, lines? false chomping indent (.inside b)
        (.ofChars p (literalFrom indent false cs ++ tail)) =
      (lines? false chomping indent (.inside false)
        (.ofChars (p.pastAll (literalFrom indent false cs)) tail)).map
          fun r => (cs ++ r.1, r.2)) ∧
    (cs ≠ [] → ∀ (p : Position) first others, p.column = 0 →
      lines? false chomping indent (.between ⟨false, first, others⟩)
          (.ofChars p (literalFrom indent true cs ++ tail)) =
        (lines? false chomping indent (.inside false)
          (.ofChars (p.pastAll (literalFrom indent true cs)) tail)).map
            fun r => (first ++ others ++ cs ++ r.1, r.2)) := by
  induction cs with
  | nil =>
      refine ⟨fun p b => ?_, fun h => absurd rfl h⟩
      rw [(lines?_isBlank _ b false).1]
      exact Option.map_id'.symm
  | cons c cs ih =>
      obtain ⟨hc, hcs⟩ := IsPrintable.cons_iff.1 hprint
      have hlast' : ∀ d ∈ cs.getLast?, ¬ isBreak d := by
        intro d hd
        refine hlast d ?_
        rw [List.getLast?_cons, hd]
        rfl
      obtain ⟨hinside, hbetween⟩ := ih hcs hlast'
      -- A break is not the last character, so the line after it is read from its start.
      by_cases hbreak : isBreak c
      · have hne : cs ≠ [] := by
          rintro rfl
          exact hlast c rfl hbreak
        have hspace : c ≠ ' ' := by
          rintro rfl
          cases hbreak
        refine ⟨fun p b => ?_, fun _ p first others _ => ?_⟩
        · rw [literalFrom_break hbreak, List.cons_append, Stream.ofChars_cons hc, lines?,
            if_pos hbreak, (lines?_isBlank _ b false).2, hbetween hne _ _ _ (column_past_of_isBreak hbreak)]
          rfl
        · rw [literalFrom_break hbreak, List.cons_append, Stream.ofChars_cons hc, lines?]
          simp only [beq_eq_false_iff_ne.2 hspace, beq_eq_false_iff_ne.2 (ne_tab_of_isPrintable hc),
            Bool.false_and, Bool.false_eq_true, if_false, if_pos hbreak]
          rw [hbetween hne _ _ _ (column_past_of_isBreak hbreak)]
          simp
      · refine ⟨fun p b => ?_, fun _ p first others hcolumn => ?_⟩
        · rw [literalFrom_false hbreak, List.cons_append, Stream.ofChars_cons hc, lines?,
            if_neg hbreak, hinside, Option.map_map]
          rfl
        · have hindent : (p.pastAll (spaces indent)).column = indent := by
            rw [Position.column_pastAll_spaces, hcolumn, Nat.zero_add]
          rw [literalFrom_true hbreak, List.append_assoc, lines?_spaces (by omega),
            List.cons_append, Stream.ofChars_cons hc, lines?]
          simp only [hindent, Nat.lt_irrefl, decide_false, Bool.and_false, Bool.false_eq_true,
            if_false, if_neg hbreak, if_true]
          rw [hinside, Option.map_map, Position.pastAll_append]
          simp [Pause.text, Function.comp_def]

theorem lines?_token {pause : Pause} (hprint : IsPrintable cs) (htoken : StartsToken cs)
    (hcolumn : p.column = 0) (hn : n < indent) :
    lines? false chomping indent (.between pause) (.ofChars p (spaces n ++ cs)) =
      some (pause.tail chomping, .ofChars (p.pastAll (spaces n)) cs) := by
  rw [lines?_spaces (by omega)]
  cases cs with
  | nil => rfl
  | cons c cs =>
      obtain ⟨hc, -⟩ := IsPrintable.cons_iff.1 hprint
      obtain ⟨hgap, -⟩ := htoken c rfl
      rw [isGapChar_iff hc, not_or] at hgap
      have hne : ¬ (p.pastAll (spaces n)).column = indent := by
        rw [Position.column_pastAll_spaces]
        omega
      rw [Stream.ofChars_cons hc, lines?]
      simp only [beq_eq_false_iff_ne.2 hgap.1, beq_eq_false_iff_ne.2 (ne_tab_of_isPrintable hc),
        Bool.false_and, Bool.false_eq_true, if_false, if_neg hgap.2, if_neg hne]

theorem lines?_breaks (hprint : IsPrintable cs) (htoken : StartsToken cs)
    (hn : n < indent) {breaks : List Char} (hbreaks : ∀ b ∈ breaks, isBreak b)
    (hreadable : IsPrintable breaks) {pause : Pause} (hcolumn : p.column = 0) :
    lines? false chomping indent (.between pause) (.ofChars p (breaks ++ (spaces n ++ cs))) =
      some ({ pause with others := pause.others ++ breaks }.tail chomping,
        .ofChars ((p.pastAll breaks).pastAll (spaces n)) cs) := by
  induction breaks generalizing p pause with
  | nil =>
      rw [List.nil_append, lines?_token hprint htoken hcolumn hn]
      simp
  | cons b breaks ih =>
      obtain ⟨hb, hbreaks⟩ := List.forall_mem_cons.1 hbreaks
      obtain ⟨hbp, hreadable⟩ := IsPrintable.cons_iff.1 hreadable
      have hspace : b ≠ ' ' := by
        rintro rfl
        cases hb
      rw [List.cons_append, Stream.ofChars_cons hbp, lines?]
      simp only [beq_eq_false_iff_ne.2 hspace, beq_eq_false_iff_ne.2 (ne_tab_of_isPrintable hbp),
        Bool.false_and, Bool.false_eq_true, if_false, if_pos hb]
      rw [ih hbreaks hreadable (column_past_of_isBreak hb)]
      simp

/-! ### Indentation -/

theorem emptyLines?_token {asked : Option Nat} {widest n : Nat} (hprint : IsPrintable cs)
    (hmargin : ∀ column < p.column + n, isInMargin asked column)
    (hstop : ∀ c ∈ cs.head?, ¬ isBreak c ∧ (c = ' ' → isInMargin asked (p.column + n) = false)) :
    emptyLines? asked widest (.ofChars p (spaces n ++ cs)) =
      some ([], max widest (p.column + n), .ofChars (p.pastAll (spaces n)) cs) := by
  induction n generalizing p with
  | zero =>
      cases cs with
      | nil => rfl
      | cons c cs =>
          obtain ⟨hc, -⟩ := IsPrintable.cons_iff.1 hprint
          obtain ⟨hbreak, hspace⟩ := hstop c rfl
          have hblank : (c == ' ' && isInMargin asked p.column) = false := by
            by_cases h : c = ' '
            · have houtside := hspace h
              rw [Nat.add_zero] at houtside
              rw [houtside, Bool.and_false]
            · simp [h]
          simp only [spaces, List.replicate_zero, List.nil_append, Position.pastAll_nil]
          rw [Stream.ofChars_cons hc, emptyLines?, hblank]
          simp [hbreak, ne_tab_of_isPrintable hc]
  | succ n ih =>
      have hspaces : spaces (n + 1) = ' ' :: spaces n := rfl
      have hcolumn : (p.past ' ').column = p.column + 1 := rfl
      have hsum : (p.past ' ').column + n = p.column + (n + 1) := by omega
      have hhere : isInMargin asked p.column := hmargin _ (by omega)
      rw [hspaces, List.cons_append, Stream.ofChars_cons (by decide), emptyLines?]
      simp only [beq_self_eq_true, hhere, Bool.and_self, if_true]
      rw [ih (by rwa [hsum]) (by rwa [hsum]), hsum]
      rfl

theorem emptyLines?_breaks {asked : Option Nat} (hprint : IsPrintable cs)
    (hmargin : ∀ column < n, isInMargin asked column)
    (hstop : ∀ c ∈ cs.head?, ¬ isBreak c ∧ (c = ' ' → isInMargin asked n = false))
    {breaks : List Char} (hbreaks : ∀ b ∈ breaks, isBreak b) (hreadable : IsPrintable breaks)
    (hcolumn : p.column = 0) (widest : Nat) :
    ∃ widest', emptyLines? asked widest (.ofChars p (breaks ++ (spaces n ++ cs))) =
      some (breaks, widest', .ofChars ((p.pastAll breaks).pastAll (spaces n)) cs) := by
  induction breaks generalizing p widest with
  | nil =>
      have hsum : p.column + n = n := by omega
      exact ⟨_, emptyLines?_token hprint (by rwa [hsum]) (by rwa [hsum])⟩
  | cons b breaks ih =>
      obtain ⟨hb, hbreaks⟩ := List.forall_mem_cons.1 hbreaks
      obtain ⟨hbp, hreadable⟩ := IsPrintable.cons_iff.1 hreadable
      have hspace : b ≠ ' ' := by
        rintro rfl
        cases hb
      obtain ⟨widest', hread⟩ :=
        ih hbreaks hreadable (column_past_of_isBreak (p := p) hb) (max widest p.column)
      refine ⟨widest', ?_⟩
      rw [List.cons_append, Stream.ofChars_cons hbp, emptyLines?]
      simp only [beq_eq_false_iff_ne.2 hspace, beq_eq_false_iff_ne.2 (ne_tab_of_isPrintable hbp),
        Bool.false_and, Bool.false_eq_true, if_false, if_pos hb, hread]
      rfl

/-! ### Line breaks at the end -/

/-- What the header says about the line breaks after a text. -/
def chompingOf (core breaks : List Char) : Chomping :=
  if breaks.length = 0 then .strip
  else if breaks.length = 1 ∧ core ≠ [] then .clip
  else .keep

/-- The end of the last line, which does not belong to every text. -/
def lineEnd (breaks : List Char) : List Char := if breaks.isEmpty then ['\n'] else breaks

theorem chompingMark_break {cs : List Char} {b : Char} (hb : isBreak b) :
    chompingMark (cs ++ [b]) =
      match cs.getLast? with
      | none => ['+']
      | some c => if isBreak c then ['+'] else [] := by
  rw [chompingMark, List.reverse_append]
  simp only [List.reverse_singleton, List.singleton_append, hb, Bool.not_true, Bool.false_eq_true,
    if_false]
  rw [← List.head?_reverse]
  cases cs.reverse <;> rfl

theorem chompingMark_eq (hcore : ∀ c ∈ core.getLast?, ¬ isBreak c)
    (hbreaks : ∀ b ∈ breaks, isBreak b) :
    chompingMark (core ++ breaks) = (chompingOf core breaks).mark := by
  rcases List.eq_nil_or_concat breaks with rfl | ⟨before, last, rfl⟩
  · rcases List.eq_nil_or_concat core with rfl | ⟨core, c, rfl⟩
    · rfl
    · have hc : isBreak c = false := by simpa using hcore c (by simp)
      simp [chompingMark, hc, chompingOf, Chomping.mark]
  · rw [List.concat_eq_append, ← List.append_assoc, chompingMark_break (hbreaks last (by simp))]
    rcases List.eq_nil_or_concat before with rfl | ⟨others, b, rfl⟩
    · rcases List.eq_nil_or_concat core with rfl | ⟨core, c, rfl⟩
      · rfl
      · have hc : isBreak c = false := by simpa using hcore c (by simp)
        simp [hc, chompingOf, Chomping.mark]
    · have hb : isBreak b := hbreaks b (by simp)
      rw [List.concat_eq_append, ← List.append_assoc, List.getLast?_concat]
      simp [hb, chompingOf, Chomping.mark]

theorem lines?_lineEnd (hcore : core ≠ [])
    (hbreaks : ∀ b ∈ breaks, isBreak b) (hreadable : IsPrintable breaks)
    (hprint : IsPrintable tail) (htoken : StartsToken tail) (hn : n < indent) :
    lines? false (chompingOf core breaks) indent (.inside false)
        (.ofChars p (lineEnd breaks ++ (spaces n ++ tail))) =
      some (breaks, .ofChars ((p.pastAll (lineEnd breaks)).pastAll (spaces n)) tail) := by
  cases breaks with
  | nil =>
      have hbreak : isBreak '\n' := rfl
      rw [lineEnd, List.isEmpty_nil, if_pos rfl, List.cons_append, List.nil_append,
        Stream.ofChars_cons (by decide), lines?, if_pos hbreak,
        lines?_token hprint htoken (column_past_of_isBreak hbreak) hn]
      rfl
  | cons b breaks =>
      obtain ⟨hb, hbreaks⟩ := List.forall_mem_cons.1 hbreaks
      obtain ⟨hbp, hreadable⟩ := IsPrintable.cons_iff.1 hreadable
      have hline : lineEnd (b :: breaks) = b :: breaks := rfl
      rw [hline, List.cons_append, Stream.ofChars_cons hbp, lines?, if_pos hb,
        lines?_breaks hprint htoken hn hbreaks hreadable (column_past_of_isBreak hb)]
      cases breaks <;> simp [chompingOf, hcore, Pause.tail]

/-! ### Whole blocks -/

theorem literalFrom_leading (hbreaks : ∀ b ∈ breaks, isBreak b) :
    literalFrom indent true (breaks ++ cs) = breaks ++ literalFrom indent true cs := by
  induction breaks with
  | nil => rfl
  | cons b breaks ih =>
      obtain ⟨hb, hbreaks⟩ := List.forall_mem_cons.1 hbreaks
      rw [List.cons_append, literalFrom_break hb, ih hbreaks, List.cons_append]

theorem literalFrom_append_breaks (hbreaks : ∀ b ∈ breaks, isBreak b) (isLineStart : Bool) :
    literalFrom indent isLineStart (core ++ breaks) =
      literalFrom indent isLineStart core ++ breaks := by
  induction core generalizing isLineStart with
  | nil =>
      cases breaks with
      | nil => rfl
      | cons b breaks =>
          obtain ⟨hb, hbreaks⟩ := List.forall_mem_cons.1 hbreaks
          have hrest : literalFrom indent true (breaks ++ []) = breaks ++ literalFrom indent true [] :=
            literalFrom_leading hbreaks
          rw [List.append_nil] at hrest
          rw [List.nil_append, literalFrom_break hb, hrest]
          simp [literalFrom]
  | cons c core ih =>
      rw [List.cons_append]
      by_cases hc : isBreak c
      · rw [literalFrom_break hc, literalFrom_break hc, ih, List.cons_append]
      · rw [literalFrom, literalFrom, if_neg hc, if_neg hc, ih]
        simp

theorem isPrintable_literalFrom (h : IsPrintable cs) (isLineStart : Bool) :
    IsPrintable (literalFrom indent isLineStart cs) := by
  induction cs generalizing isLineStart with
  | nil => exact .nil
  | cons c cs ih =>
      obtain ⟨hc, hcs⟩ := IsPrintable.cons_iff.1 h
      rw [literalFrom]
      split
      · exact IsPrintable.cons_iff.2 ⟨hc, ih hcs true⟩
      · refine IsPrintable.append_iff.2 ⟨?_, IsPrintable.cons_iff.2 ⟨hc, ih hcs false⟩⟩
        cases isLineStart
        · exact .nil
        · exact isPrintable_spaces indent

theorem isPrintable_lineEnd (h : IsPrintable breaks) : IsPrintable (lineEnd breaks) := by
  rw [lineEnd]
  split
  · decide
  · exact h

/-- A text is its lines and the line breaks at its end. -/
theorem exists_core (cs : List Char) : ∃ core breaks, cs = core ++ breaks ∧
    (∀ c ∈ core.getLast?, ¬ isBreak c) ∧ ∀ b ∈ breaks, isBreak b := by
  refine ⟨cs.rdropWhile isBreak, cs.rtakeWhile isBreak,
    List.rdropWhile_append_rtakeWhile.symm, fun c hc => ?_, fun b => List.mem_rtakeWhile_imp⟩
  obtain ⟨hne, rfl⟩ := List.mem_getLast?_eq_getLast hc
  exact List.rdropWhile_last_not isBreak cs hne

/-- A literal block after its indicator, up to the end of its last line. -/
def literal (indent : Nat) (core breaks : List Char) : List Char :=
  incrementMark (hidesIndent (core ++ breaks)) ++ ((chompingOf core breaks).mark ++
    '\n' :: (literalFrom indent true core ++ lineEnd breaks))

/-- The start of a text up to the first character of its first line. -/
theorem exists_leading (hcore : core ≠ []) (hlast : ∀ c ∈ core.getLast?, ¬ isBreak c) :
    ∃ leading c rest, core = leading ++ c :: rest ∧ (∀ b ∈ leading, isBreak b) ∧ ¬ isBreak c := by
  induction core with
  | nil => exact absurd rfl hcore
  | cons c core ih =>
      by_cases hc : isBreak c
      · have hne : core ≠ [] := by
          rintro rfl
          exact hlast c rfl hc
        have hlast' : ∀ d ∈ core.getLast?, ¬ isBreak d := by
          intro d hd
          refine hlast d ?_
          rw [List.getLast?_cons, hd]
          rfl
        obtain ⟨leading, d, rest, rfl, hleading, hd⟩ := ih hne hlast'
        exact ⟨c :: leading, d, rest, rfl, List.forall_mem_cons.2 ⟨hc, hleading⟩, hd⟩
      · exact ⟨[], c, core, rfl, List.forall_mem_nil _, hc⟩

/-- How far the lines are indented, if the header says it. -/
def asked? (margin : Nat) (isSaid : Bool) : Option Nat := if isSaid then some (margin - 1 + 2) else none

theorem read?_header (isSaid : Bool) :
    read? false margin (.ofChars p (incrementMark isSaid ++ (chomping.mark ++ '\n' :: cs))) =
      (emptyLines? (asked? margin isSaid) 0 (.ofChars (headerPosition p isSaid chomping) cs)).bind
        fun (breaks, widest, s) =>
          lines? false chomping ((asked? margin isSaid).getD (max (max widest margin) 1))
            (.between ⟨false, [], breaks⟩) s := by
  rw [read?, header?_eq]
  cases isSaid <;> rfl

theorem column_headerPosition (isSaid : Bool) :
    (headerPosition p isSaid chomping).column = 0 := by
  rw [headerPosition, ← List.append_assoc, Position.pastAll_append]
  exact column_past_of_isBreak (c := '\n') rfl

theorem column_pastAll_breaks (hcolumn : p.column = 0) (hbreaks : ∀ b ∈ breaks, isBreak b) :
    (p.pastAll breaks).column = 0 := by
  rcases List.eq_nil_or_concat breaks with rfl | ⟨before, b, rfl⟩
  · exact hcolumn
  · rw [List.concat_eq_append, Position.pastAll_append]
    exact column_past_of_isBreak (hbreaks b (by simp))

/-- The indentation is known from the header, or else the first line shows it. -/
theorem read?_leading {isSaid : Bool} {leading : List Char} (hleading : ∀ b ∈ leading, isBreak b)
    (hreadable : IsPrintable leading) (hprint : IsPrintable cs) (hmargin : 0 < margin)
    (hn : n ≤ margin + 1) (hsaid : isSaid ∨ (leading = [] ∧ n = margin + 1))
    (hstop : ∀ c ∈ cs.head?, ¬ isBreak c ∧ (c = ' ' → isSaid ∧ n = margin + 1)) :
    read? false margin (.ofChars p (incrementMark isSaid ++ (chomping.mark ++
        '\n' :: (leading ++ (spaces n ++ cs))))) =
      lines? false chomping (margin + 1) (.between ⟨false, [], leading⟩)
        (.ofChars ((headerPosition p isSaid chomping).pastAll leading) (spaces n ++ cs)) := by
  have hcolumn : (headerPosition p isSaid chomping).column = 0 := column_headerPosition isSaid
  have hstart := column_pastAll_breaks hcolumn hleading
  rw [read?_header, lines?_spaces (by omega)]
  -- Without an increment in the header no break comes first, and the first line has the whole
  -- indentation.
  cases isSaid with
  | true =>
      have hasked : asked? margin true = some (margin + 1) := by
        rw [asked?, if_pos rfl]
        congr 1
        omega
      have hinside : ∀ column < n, isInMargin (some (margin + 1)) column := fun column hlt =>
        decide_eq_true (show column < margin + 1 by omega)
      have hends : ∀ c ∈ cs.head?, ¬ isBreak c ∧
          (c = ' ' → isInMargin (some (margin + 1)) n = false) := by
        intro c hc
        refine ⟨(hstop c hc).1, fun hspace => decide_eq_false ?_⟩
        rw [((hstop c hc).2 hspace).2]
        exact Nat.lt_irrefl _
      obtain ⟨widest, hempty⟩ :=
        emptyLines?_breaks hprint hinside hends hleading hreadable hcolumn 0
      rw [hasked, hempty]
      rfl
  | false =>
      obtain ⟨rfl, rfl⟩ := hsaid.resolve_left Bool.false_ne_true
      have hends : ∀ c ∈ cs.head?, ¬ isBreak c ∧
          (c = ' ' → isInMargin none ((headerPosition p false chomping).column + (margin + 1)) =
            false) :=
        fun c hc => ⟨(hstop c hc).1, fun h => absurd ((hstop c hc).2 h).1 Bool.false_ne_true⟩
      have hempty : emptyLines? none 0 (.ofChars (headerPosition p false chomping)
            (spaces (margin + 1) ++ cs)) =
          some ([], margin + 1,
            .ofChars ((headerPosition p false chomping).pastAll (spaces (margin + 1))) cs) := by
        rw [emptyLines?_token hprint (fun _ _ => rfl) hends, hcolumn, Nat.zero_add, Nat.zero_max]
      have hindent : max (max (margin + 1) margin) 1 = margin + 1 := by omega
      have hasked : asked? margin false = none := rfl
      rw [List.nil_append, hasked, hempty, Option.bind_some]
      simp only [Option.getD_none, hindent, Position.pastAll_nil]

theorem pastAll_literal : p.pastAll (literal indent core breaks) =
    (headerPosition p (hidesIndent (core ++ breaks)) (chompingOf core breaks)).pastAll
      (literalFrom indent true core ++ lineEnd breaks) := by
  simp [literal, headerPosition]

theorem read?_breaks (hne : breaks ≠ []) (hbreaks : ∀ b ∈ breaks, isBreak b)
    (hreadable : IsPrintable breaks) (hprint : IsPrintable tail) (htoken : StartsToken tail)
    (hmargin : 0 < margin) (hn : n < margin) :
    read? false margin (.ofChars p (literal (margin + 1) [] breaks ++ (spaces n ++ tail))) =
      some (breaks, .ofChars ((p.pastAll (literal (margin + 1) [] breaks)).pastAll (spaces n))
        tail) := by
  have hhidden : hidesIndent ([] ++ breaks) = true := by
    cases breaks with
    | nil => exact absurd rfl hne
    | cons b breaks => simp [hidesIndent, hbreaks b]
  have hend : lineEnd breaks = breaks := if_neg (by simpa using hne)
  have hkeep : chompingOf [] breaks = .keep := by simp [chompingOf, hne]
  have hstop : ∀ c ∈ tail.head?, ¬ isBreak c ∧ (c = ' ' → true = true ∧ n = margin + 1) := by
    intro c hc
    have hgap := (htoken c hc).1
    rw [isGapChar_iff (hprint c (List.mem_of_mem_head? hc)), not_or] at hgap
    exact ⟨hgap.2, fun h => absurd h hgap.1⟩
  have hcolumn : ((headerPosition p true .keep).pastAll breaks).column = 0 :=
    column_pastAll_breaks (column_headerPosition true) hbreaks
  rw [pastAll_literal, literal, hhidden, hkeep, hend, literalFrom, List.nil_append]
  simp only [List.append_assoc, List.cons_append]
  rw [read?_leading hbreaks hreadable hprint hmargin (by omega) (.inl rfl) hstop,
    lines?_token hprint htoken hcolumn (by omega)]
  rfl

theorem hidesIndent_leading {leading : List Char} (hleading : ∀ b ∈ leading, isBreak b)
    (hc : ¬ isBreak c) : hidesIndent (leading ++ c :: cs) = (!leading.isEmpty || c == ' ') := by
  cases leading with
  | nil => simp [hidesIndent, hc]
  | cons b leading => simp [hidesIndent, hleading b]

theorem read?_lines (hcore : core ≠ []) (hlast : ∀ c ∈ core.getLast?, ¬ isBreak c)
    (hbreaks : ∀ b ∈ breaks, isBreak b) (hreadable : IsPrintable (core ++ breaks))
    (hprint : IsPrintable tail) (htoken : StartsToken tail) (hmargin : 0 < margin)
    (hn : n < margin) :
    read? false margin (.ofChars p (literal (margin + 1) core breaks ++ (spaces n ++ tail))) =
      some (core ++ breaks,
        .ofChars ((p.pastAll (literal (margin + 1) core breaks)).pastAll (spaces n)) tail) := by
  obtain ⟨leading, c, rest, rfl, hleading, hc⟩ := exists_leading hcore hlast
  obtain ⟨hcoreReadable, hbreaksReadable⟩ := IsPrintable.append_iff.1 hreadable
  obtain ⟨hleadingReadable, hrest⟩ := IsPrintable.append_iff.1 hcoreReadable
  have hlast' : ∀ d ∈ (c :: rest).getLast?, ¬ isBreak d := by
    intro d hd
    refine hlast d ?_
    rw [List.getLast?_append, hd]
    rfl
  have hprint' : IsPrintable
      (c :: (literalFrom (margin + 1) false rest ++ (lineEnd breaks ++ (spaces n ++ tail)))) := by
    obtain ⟨hcp, hrest⟩ := IsPrintable.cons_iff.1 hrest
    simp only [IsPrintable.cons_iff, IsPrintable.append_iff]
    exact ⟨hcp, isPrintable_literalFrom hrest false, isPrintable_lineEnd hbreaksReadable,
      isPrintable_spaces n, hprint⟩
  have hcolumn : ((headerPosition p (!leading.isEmpty || c == ' ')
      (chompingOf (leading ++ c :: rest) breaks)).pastAll leading).column = 0 :=
    column_pastAll_breaks (column_headerPosition _) hleading
  have hhides : hidesIndent (leading ++ c :: rest ++ breaks) = (!leading.isEmpty || c == ' ') := by
    rw [List.append_assoc, List.cons_append, hidesIndent_leading hleading hc]
  rw [pastAll_literal, literal, hhides, literalFrom_leading hleading, literalFrom_true hc]
  simp only [List.append_assoc, List.cons_append]
  rw [read?_leading hleading hleadingReadable hprint' hmargin (Nat.le_refl _)
    (by cases leading <;> simp) (by simp +contextual [hc])]
  have hwords := (lines?_append (chompingOf (leading ++ c :: rest) breaks) (margin + 1)
    (lineEnd breaks ++ (spaces n ++ tail)) (c :: rest) hrest hlast').2
    (List.cons_ne_nil _ _) _ [] leading hcolumn
  rw [literalFrom_true hc] at hwords
  simp only [List.append_assoc, List.cons_append] at hwords
  rw [hwords, lines?_lineEnd hcore hbreaks hbreaksReadable hprint htoken (by omega)]
  simp

/-- A literal block is read up to what comes after the lines and their last break. -/
theorem read?_literal (hne : core ++ breaks ≠ []) (hlast : ∀ c ∈ core.getLast?, ¬ isBreak c)
    (hbreaks : ∀ b ∈ breaks, isBreak b) (hreadable : IsPrintable (core ++ breaks))
    (hprint : IsPrintable tail) (htoken : StartsToken tail) (hmargin : 0 < margin)
    (hn : n < margin) :
    read? false margin (.ofChars p (literal (margin + 1) core breaks ++ (spaces n ++ tail))) =
      some (core ++ breaks,
        .ofChars ((p.pastAll (literal (margin + 1) core breaks)).pastAll (spaces n)) tail) := by
  by_cases hcore : core = []
  · subst hcore
    exact read?_breaks hne hbreaks hreadable hprint htoken hmargin hn
  · exact read?_lines hcore hlast hbreaks hreadable hprint htoken hmargin hn

theorem isBreak_of_mem_lineEnd (hbreaks : ∀ b ∈ breaks, isBreak b) :
    ∀ b ∈ lineEnd breaks, isBreak b := by
  rw [lineEnd]
  split
  · exact List.forall_mem_singleton.2 rfl
  · exact hbreaks

theorem lineEnd_ne_nil (breaks : List Char) : lineEnd breaks ≠ [] := by
  cases breaks <;> simp [lineEnd]

theorem column_pastAll_literal (hbreaks : ∀ b ∈ breaks, isBreak b) :
    (p.pastAll (literal indent core breaks)).column = 0 := by
  rw [pastAll_literal, ← List.dropLast_append_getLast (lineEnd_ne_nil breaks), Position.pastAll_append,
    Position.pastAll_append]
  exact column_past_of_isBreak (isBreak_of_mem_lineEnd hbreaks _ (List.getLast_mem _))

end SafeCalls.Yaml.Block
