import SafeCalls.Proofs.YamlStream
import SafeCalls.Yaml.Scalar.Plain

namespace SafeCalls.Yaml

/-!
# Plain scalars are read back

A plain scalar is read up to the colon after a key, or up to the next line if that line is not
indented as far as it would have to be.
-/

open TextStyle (isPrintable isGapChar isAtGap hasMark)
open Writing (spaces)

namespace Plain

variable {margin : Nat} {p : Position} {c : Char} {cs tail : List Char}

theorem isEnd_ofChars (margin : Nat) (p : Position) (h : IsPrintable (c :: cs)) :
    isEnd ⟨false, margin⟩ (.ofChars p (c :: cs)) = (c == ':' && isAtGap cs) := by
  rw [isEnd, Stream.isGap_ofChars h, List.drop_one, List.tail_cons, Stream.has,
    Stream.char?_ofChars h]
  simp

/-- Inside a plain scalar a character ends nothing, unless it is a colon at the end of a word. -/
theorem read?_inside_cons (hprint : IsPrintable (c :: cs)) (hgap : ¬ isGapChar c)
    (hcolon : (c == ':' && isAtGap cs) = false) :
    read? ⟨false, margin⟩ .inside (.ofChars p (c :: cs)) =
      (read? ⟨false, margin⟩ .inside (.ofChars (p.past c) cs)).map fun r => (c :: r.1, r.2) := by
  have hend := isEnd_ofChars margin p hprint
  rw [hcolon] at hend
  rw [Stream.ofChars_cons (IsPrintable.cons_iff.1 hprint).1] at hend ⊢
  rw [read?]
  simp [isStrayColon, hend, show (isBlank c || isBreak c) = false by simpa [isGapChar] using hgap]

theorem read?_inside_space :
    read? ⟨false, margin⟩ .inside (.ofChars p (' ' :: cs)) =
      read? ⟨false, margin⟩ (.between ⟨false, [' '], [], []⟩) (.ofChars (p.past ' ') cs) := by
  rw [Stream.ofChars_cons (by decide), read?]
  rfl

theorem read?_between_space {blanks : List Char} :
    read? ⟨false, margin⟩ (.between ⟨false, blanks, [], []⟩) (.ofChars p (' ' :: cs)) =
      read? ⟨false, margin⟩ (.between ⟨false, blanks ++ [' '], [], []⟩)
        (.ofChars (p.past ' ') cs) := by
  rw [Stream.ofChars_cons (by decide), read?]
  rfl

theorem read?_between_cons {blanks : List Char} (hprint : IsPrintable (c :: cs))
    (hgap : ¬ isGapChar c) (hcolon : (c == ':' && isAtGap cs) = false) (hcomment : c ≠ '#')
    (hmargin : margin ≤ p.column) (hcolumn : 0 < p.column) :
    read? ⟨false, margin⟩ (.between ⟨false, blanks, [], []⟩) (.ofChars p (c :: cs)) =
      (read? ⟨false, margin⟩ .inside (.ofChars (p.past c) cs)).map
        fun r => (blanks ++ c :: r.1, r.2) := by
  have hend := isEnd_ofChars margin p hprint
  rw [hcolon] at hend
  rw [Stream.ofChars_cons (IsPrintable.cons_iff.1 hprint).1] at hend ⊢
  have hmark : (Stream.next c p (.ofChars (p.past c) cs)).isDocumentMark = false := by
    simp [Stream.isDocumentMark, Stream.column, Stream.position, Nat.ne_of_gt hcolumn]
  rw [read?]
  simp [isStrayColon, hend, isEndBetween, hmark, Stream.column, Stream.position, Stream.has,
    Stream.char?, hcomment, Nat.not_lt.2 hmargin, Fold.text,
    show (isBlank c || isBreak c) = false by simpa [isGapChar] using hgap]

/-- Text on one line is read up to what follows it, if neither a colon nor a comment cuts it off.
The induction carries what is read inside of a word and what is read after blanks. -/
theorem read?_append (cs : List Char) : ∀ (before : Char) (p : Position), IsPrintable (cs ++ tail) →
    (∀ c ∈ cs, ¬ isBreak c) → cs.getLast? ≠ some ' ' → hasMark before cs = false →
    (margin ≤ p.column + 1 →
      read? ⟨false, margin⟩ .inside (.ofChars p (cs ++ tail)) =
        (read? ⟨false, margin⟩ .inside (.ofChars (p.pastAll cs) tail)).map
          fun r => (cs ++ r.1, r.2)) ∧
    ∀ blanks, cs ≠ [] → isGapChar before → margin ≤ p.column → 0 < p.column →
      read? ⟨false, margin⟩ (.between ⟨false, blanks, [], []⟩) (.ofChars p (cs ++ tail)) =
        (read? ⟨false, margin⟩ .inside (.ofChars (p.pastAll cs) tail)).map
          fun r => (blanks ++ cs ++ r.1, r.2) := by
  induction cs with
  | nil =>
      intro before p _ _ _ _
      exact ⟨fun _ => by simp, fun _ h => absurd rfl h⟩
  | cons c cs ih =>
      intro before p hprint hbreak hlast hmark
      rw [List.cons_append] at hprint ⊢
      obtain ⟨hc, hcs⟩ := IsPrintable.cons_iff.1 hprint
      obtain ⟨hcb, hcsb⟩ := List.forall_mem_cons.1 hbreak
      simp only [hasMark, Bool.or_eq_false_iff] at hmark
      obtain ⟨⟨hcolon, hcomment⟩, hrest⟩ := hmark
      have hlast' : cs.getLast? ≠ some ' ' := by
        cases cs with
        | nil => simp
        | cons d cs => simpa using hlast
      have hpast : p.past c = p.afterChar c := Position.past_of_not_isBreak hcb
      obtain ⟨hinside, hbetween⟩ := ih c (p.past c) hcs hcsb hlast' hrest
      have hcolumn : (p.past c).column = p.column + 1 := by rw [hpast]; rfl
      -- A space opens or prolongs a run of blanks, and the text does not end in it. Any other
      -- character ends the run, and the word goes on.
      by_cases hspace : c = ' '
      · subst hspace
        have hne : cs ≠ [] := by
          rintro rfl
          exact hlast rfl
        constructor
        · intro hmargin
          rw [read?_inside_space,
            hbetween [' '] hne rfl (by omega) (by omega)]
          rfl
        · intro blanks _ _ hmargin _
          rw [read?_between_space,
            hbetween (blanks ++ [' ']) hne rfl (by omega) (by omega)]
          simp
      · have hgap : ¬ isGapChar c := by
          rw [isGapChar_iff hc]
          simp [hspace, hcb]
        have hcolon' : (c == ':' && isAtGap (cs ++ tail)) = false := by
          cases cs with
          | nil => simp_all [isAtGap]
          | cons d cs => exact hcolon
        constructor
        · intro hmargin
          rw [read?_inside_cons hprint hgap hcolon', hinside (by omega),
            Option.map_map]
          rfl
        · intro blanks _ hbefore hmargin hpos
          have hcomment' : c ≠ '#' := by
            rintro rfl
            simp [hbefore] at hcomment
          rw [read?_between_cons hprint hgap hcolon' hcomment' hmargin hpos,
            hinside (by omega), Option.map_map]
          simp [Function.comp_def]

theorem read?_colon (hprint : IsPrintable (':' :: cs)) (hgap : isAtGap cs) :
    read? ⟨false, margin⟩ .inside (.ofChars p (':' :: cs)) =
      some ([], false, .ofChars p (':' :: cs)) := by
  have hend := isEnd_ofChars margin p hprint
  rw [hgap] at hend
  rw [Stream.ofChars_cons (by decide)] at hend ⊢
  rw [read?]
  simp [isStrayColon, hend, show (isBlank ':' || isBreak ':') = false by rfl]

theorem read?_margin {fold : Fold} (hbroken : fold.isBroken) {n : Nat}
    (hprint : IsPrintable cs) (htoken : StartsToken cs) (hmargin : p.column + n < margin) :
    read? ⟨false, margin⟩ (.between fold) (.ofChars p (spaces n ++ cs)) =
      some ([], true, .ofChars (p.pastAll (spaces n)) cs) := by
  induction n generalizing p with
  | zero =>
      cases cs with
      | nil => simp [spaces, Stream.ofChars, read?, Mode.isBroken, hbroken]
      | cons c cs =>
          obtain ⟨hgap, -⟩ := htoken c rfl
          have hcolumn : p.column < margin := hmargin
          simp only [spaces, List.replicate_zero, List.nil_append, Position.pastAll_nil]
          rw [Stream.ofChars_cons (IsPrintable.cons_iff.1 hprint).1, read?]
          simp [isEndBetween, Stream.column, Stream.position, hcolumn, hbroken,
            show (isBlank c || isBreak c) = false by simpa [isGapChar] using hgap]
  | succ n ih =>
      have hspaces : spaces (n + 1) = ' ' :: spaces n := rfl
      have hcolumn : (p.past ' ').column = p.column + 1 := rfl
      have hpush : fold.push ' ' = fold := by simp [Fold.push, hbroken]
      rw [hspaces, List.cons_append, Stream.ofChars_cons (by decide), read?]
      simp only [hpush, show isBlank ' ' = true by rfl, Bool.true_or, if_true]
      rw [ih (by omega)]
      simp

theorem read?_line {n : Nat} (hprint : IsPrintable cs) (htoken : StartsToken cs) (hmargin : n < margin) :
    read? ⟨false, margin⟩ .inside (.ofChars p ('\n' :: (spaces n ++ cs))) =
      some ([], true, .ofChars (p.nextLine n) cs) := by
  rw [Stream.ofChars_cons (by decide), read?]
  exact read?_margin rfl hprint htoken (by rwa [Position.past_of_isBreak rfl, Position.afterBreak, Nat.zero_add])

/-- A text that may be written as it is. -/
structure IsAllowed (c : Char) (rest : List Char) : Prop where
  printable : IsPrintable (c :: rest)
  not_isBreak : ∀ d ∈ c :: rest, ¬ isBreak d
  head : c ≠ ' '
  last : rest.getLast? ≠ some ' '
  startsDocument : TextStyle.startsDocument (c :: rest) = false
  isIndicator : TextStyle.isIndicator c rest = false
  hasMark : TextStyle.hasMark c rest = false

theorem isAllowed_of_allowsPlain {rest : List Char} (h : TextStyle.allowsPlain (c :: rest)) :
    IsAllowed c rest := by
  simp only [TextStyle.allowsPlain, TextStyle.needsEscapes, TextStyle.hasGapAtEnds,
    TextStyle.hasIndicator, Bool.not_eq_true', Bool.or_eq_false_iff, List.any_eq_false,
    List.head?_cons, Option.map_some, Option.getD_some] at h
  obtain ⟨⟨⟨⟨hprint, -⟩, hbreak⟩, hhead, hlast⟩, ⟨hdocument, hindicator⟩, hmark⟩ := h
  refine ⟨fun d hd => by simpa using hprint d hd, hbreak, by simpa using hhead.1, ?_, hdocument,
    hindicator, hmark⟩
  intro heq
  rw [List.getLast?_cons, heq] at hlast
  simp at hlast

namespace IsAllowed

variable {rest : List Char}

theorem not_isGapChar (h : IsAllowed c rest) : ¬ isGapChar c := by
  rw [isGapChar_iff (h.printable c List.mem_cons_self)]
  simp [h.head, h.not_isBreak c List.mem_cons_self]

theorem not_isAtGap (h : IsAllowed c rest) (hc : "?:-".toList.contains c) (tail : List Char) :
    isAtGap (rest ++ tail) = false := by
  have hgap := h.isIndicator
  simp only [TextStyle.isIndicator, hc, Bool.true_and, Bool.or_eq_false_iff] at hgap
  cases rest with
  | nil => cases hgap.2
  | cons d rest => exact hgap.2

theorem read? (h : IsAllowed c rest) (hprint : IsPrintable tail) (hmargin : margin ≤ p.column + 1) :
    Plain.read? ⟨false, margin⟩ .inside (.ofChars p (c :: rest ++ tail)) =
      (Plain.read? ⟨false, margin⟩ .inside (.ofChars (p.pastAll (c :: rest)) tail)).map
        fun r => (c :: rest ++ r.1, r.2) := by
  have hall : IsPrintable (c :: (rest ++ tail)) := IsPrintable.append_iff.2 ⟨h.printable, hprint⟩
  have hcolon : (c == ':' && isAtGap (rest ++ tail)) = false := by
    by_cases heq : c = ':'
    · rw [h.not_isAtGap (by rw [heq]; rfl), Bool.and_false]
    · simp [heq]
  have hcolumn : (p.past c).column = p.column + 1 := by
    rw [Position.past_of_not_isBreak (h.not_isBreak c List.mem_cons_self)]
    rfl
  have hrest : Plain.read? ⟨false, margin⟩ .inside (.ofChars (p.past c) (rest ++ tail)) = _ :=
    (read?_append rest c (p.past c) (IsPrintable.cons_iff.1 hall).2
      (List.forall_mem_cons.1 h.not_isBreak).2 h.last h.hasMark).1 (by omega)
  rw [List.cons_append, read?_inside_cons hall h.not_isGapChar hcolon, hrest, Option.map_map]
  rfl

end IsAllowed

end Plain

end SafeCalls.Yaml
