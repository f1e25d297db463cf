import SafeCalls.Proofs.YamlStream
import SafeCalls.Yaml.Scalar.Quoted

namespace SafeCalls.Yaml

/-!
# Quoted scalars are read back

Between double quotes every text is read back. Between apostrophes it is one without line feeds in
which no space stands next to a line break.
-/

open TextStyle (isPrintable isGapChar isAtGap hasPair)
open Writing (spaces)

theorem hasPair_cons {f g : Char → Bool} {c : Char} {cs : List Char} :
    hasPair f g (c :: cs) = false ↔
      (f c → ∀ d ∈ cs.head?, g d = false) ∧ hasPair f g cs = false := by
  cases cs with
  | nil => simp [hasPair]
  | cons d cs => cases hf : f c <;> simp [hasPair, hf]

namespace Fold

variable {fold : Fold}

theorem text_push_space (h : fold.isBroken = false) :
    (fold.push ' ').isBroken = false ∧ (fold.push ' ').text = fold.text ++ [' '] := by
  simp [push, text, h]

theorem text_push_break (h : fold.isBroken) (hfirst : fold.first ≠ ['\n']) {c : Char}
    (hc : isBreak c) : (fold.push c).isBroken ∧ (fold.push c).first ≠ ['\n'] ∧
      (fold.push c).text = fold.text ++ [c] := by
  simp [push, text, h, hfirst, hc]

end Fold

namespace Writing

variable {indent : Nat} {c : Char} {cs : List Char}

theorem apostrophesFrom_break (hbreak : isBreak c) (hfeed : c ≠ '\n') (isLineStart : Bool) :
    apostrophesFrom indent isLineStart (c :: cs) = c :: apostrophesFrom indent true cs := by
  simp [apostrophesFrom, hbreak, hfeed]

theorem apostrophesFrom_cons (hbreak : ¬ isBreak c) :
    apostrophesFrom indent false (c :: cs) =
      (if c = '\'' then [c, c] else [c]) ++ apostrophesFrom indent false cs := by
  simp [apostrophesFrom, hbreak]

theorem apostrophesFrom_true (h : ∀ c ∈ cs.head?, ¬ isBreak c) :
    apostrophesFrom indent true cs = spaces indent ++ apostrophesFrom indent false cs := by
  cases cs with
  | nil => rfl
  | cons c cs => simp [apostrophesFrom, h c rfl]

theorem isPrintable_apostrophesFrom (h : IsPrintable cs) (isLineStart : Bool) :
    IsPrintable (apostrophesFrom indent isLineStart cs) := by
  have hspaces : IsPrintable (if isLineStart then spaces indent else []) := by
    cases isLineStart
    · exact IsPrintable.nil
    · exact isPrintable_spaces indent
  induction cs generalizing isLineStart with
  | nil => exact IsPrintable.append_iff.2 ⟨hspaces, by decide⟩
  | cons c cs ih =>
      obtain ⟨hc, hcs⟩ := IsPrintable.cons_iff.1 h
      have hone : IsPrintable [c] := IsPrintable.cons_iff.2 ⟨hc, IsPrintable.nil⟩
      rw [apostrophesFrom]
      split
      · refine IsPrintable.append_iff.2 ⟨?_, ih hcs true (isPrintable_spaces indent)⟩
        split
        · decide
        · exact hone
      · refine IsPrintable.append_iff.2 ⟨IsPrintable.append_iff.2 ⟨hspaces, ?_⟩,
          ih hcs false IsPrintable.nil⟩
        split
        · exact IsPrintable.cons_iff.2 ⟨hc, hone⟩
        · exact hone

/-- What is written between apostrophes does not start with a gap unless the text does. -/
theorem exists_apostrophesFrom_eq_cons (indent : Nat)
    (h : ∀ c ∈ cs.head?, ¬ isGapChar c) :
    ∃ d ds, apostrophesFrom indent false cs = d :: ds ∧ ¬ isGapChar d := by
  cases cs with
  | nil => exact ⟨'\'', [], rfl, by decide⟩
  | cons c cs =>
      have hgap := h c rfl
      have hbreak : ¬ isBreak c := fun hb => hgap (by simp [isGapChar, hb])
      rw [apostrophesFrom_cons hbreak]
      by_cases hquote : c = '\''
      · rw [if_pos hquote]
        exact ⟨c, _, rfl, hgap⟩
      · rw [if_neg hquote]
        exact ⟨c, _, rfl, hgap⟩

end Writing

namespace Quoted

/-- How a quoted scalar is read on from a run of blanks and breaks so far. -/
def resume? (quote : Char) (fold : Fold) (s : Stream) : Option (List Char × Stream) := do
  let (mode, cs) ← settle? fold s
  (read? quote mode s).map fun (cs', after) => (cs ++ cs', after)

variable {quote c : Char} {fold : Fold} {p : Position} {cs tail : List Char}

theorem read?_inside (c : Char) (p : Position) (rest : Stream) :
    read? quote .inside (.next c p rest) =
      if c = quote then
        match rest with
        | .next d _ after =>
            if quote = '\'' ∧ d = quote then
              (read? quote .inside after).map fun r => (c :: r.1, r.2)
            else some ([], rest)
        | .finish _ => some ([], rest)
      else if isGapChar c then resume? quote (Fold.empty.push c) rest
      else if c = '\\' ∧ quote = '"' then
        match rest with
        | .next d _ rest =>
            if isBreak d then resume? quote .escaped rest
            else
              match escape? d, codeLength? d with
              | some e, _ => (read? quote .inside rest).map fun r => (e :: r.1, r.2)
              | none, some digits => read? quote (.code digits 0) rest
              | none, none => none
        | .finish _ => none
      else (read? quote .inside rest).map fun r => (c :: r.1, r.2) := by
  cases rest <;> rfl

theorem read?_between (c : Char) (p : Position) (rest : Stream) :
    read? quote (.between fold) (.next c p rest) = resume? quote (fold.push c) rest := rfl

theorem read?_inside_gap (hprint : isPrintable c) (hquote : c ≠ quote) (hgap : isGapChar c) :
    read? quote .inside (.ofChars p (c :: cs)) =
      resume? quote (Fold.empty.push c) (.ofChars (p.past c) cs) := by
  rw [Stream.ofChars_cons hprint, read?_inside, if_neg hquote, if_pos hgap]

theorem read?_inside_cons (hprint : isPrintable c) (hquote : c ≠ quote) (hgap : ¬ isGapChar c)
    (hescape : ¬ (c = '\\' ∧ quote = '"')) :
    read? quote .inside (.ofChars p (c :: cs)) =
      (read? quote .inside (.ofChars (p.past c) cs)).map fun r => (c :: r.1, r.2) := by
  rw [Stream.ofChars_cons hprint, read?_inside, if_neg hquote, if_neg hgap, if_neg hescape]

theorem resume?_gap (hprint : IsPrintable (c :: cs)) (hgap : isGapChar c) :
    resume? quote fold (.ofChars p (c :: cs)) =
      resume? quote (fold.push c) (.ofChars (p.past c) cs) := by
  have hat : (Stream.ofChars p (c :: cs)).isGap 0 = true := by
    rw [Stream.isGap_ofChars hprint, List.drop_zero]
    exact hgap
  rw [resume?, settle?, if_pos hat, Stream.ofChars_cons (IsPrintable.cons_iff.1 hprint).1]
  change Option.map _ (read? quote (.between fold) _) = _
  rw [read?_between]
  exact Option.map_id'

theorem resume?_cons (hprint : IsPrintable (c :: cs)) (hgap : ¬ isGapChar c)
    (hcolumn : 0 < p.column) :
    resume? quote fold (.ofChars p (c :: cs)) =
      (read? quote .inside (.ofChars p (c :: cs))).map fun r => (fold.text ++ r.1, r.2) := by
  have hat : (Stream.ofChars p (c :: cs)).isGap 0 = false := by
    rw [Stream.isGap_ofChars hprint, List.drop_zero]
    simpa [isAtGap] using hgap
  have hmark : (Stream.ofChars p (c :: cs)).isDocumentMark = false := by
    simp [Stream.isDocumentMark, Nat.ne_of_gt hcolumn]
  rw [resume?, settle?, hat, hmark]
  rfl

theorem resume?_spaces (hbroken : fold.isBroken) (n : Nat) (hprint : IsPrintable cs) :
    resume? quote fold (.ofChars p (spaces n ++ cs)) =
      resume? quote fold (.ofChars (p.pastAll (spaces n)) cs) := by
  induction n generalizing p with
  | zero => rfl
  | succ n ih =>
      have hspaces : spaces (n + 1) = ' ' :: spaces n := rfl
      have hpush : fold.push ' ' = fold := by simp [Fold.push, hbroken]
      have hall : IsPrintable (' ' :: (spaces n ++ cs)) := by
        refine IsPrintable.cons_iff.2 ⟨by decide, IsPrintable.append_iff.2 ⟨?_, hprint⟩⟩
        intro d hd
        rw [List.eq_of_mem_replicate hd]
        decide
      rw [hspaces, List.cons_append, resume?_gap hall rfl, hpush, ih]
      rfl

theorem read?_quote (htail : IsPrintable tail) (hprint : isPrintable quote)
    (hnext : quote = '\'' → tail.head? ≠ some '\'') :
    read? quote .inside (.ofChars p (quote :: tail)) = some ([], .ofChars (p.past quote) tail) := by
  rw [Stream.ofChars_cons hprint, read?_inside, if_pos rfl]
  cases tail with
  | nil => rfl
  | cons d tail =>
      rw [Stream.ofChars_cons (IsPrintable.cons_iff.1 htail).1]
      dsimp only
      rw [if_neg]
      rintro ⟨rfl, rfl⟩
      exact hnext rfl rfl


open Writing (apostrophesFrom)

/-- The text is read back inside of a word. -/
def ReadsInside (indent : Nat) (tail cs : List Char) : Prop :=
  ∀ p, read? '\'' .inside (.ofChars p (apostrophesFrom indent false cs ++ tail)) =
    some (cs, .ofChars (p.pastAll (apostrophesFrom indent false cs)) tail)

/-- The text is read back after blanks. -/
def ReadsAfterBlanks (indent : Nat) (tail cs : List Char) : Prop :=
  ∀ (p : Position) (fold : Fold), fold.isBroken = false → 0 < p.column →
    resume? '\'' fold (.ofChars p (apostrophesFrom indent false cs ++ tail)) =
      some (fold.text ++ cs, .ofChars (p.pastAll (apostrophesFrom indent false cs)) tail)

/-- The text is read back after line breaks. -/
def ReadsAfterBreaks (indent : Nat) (tail cs : List Char) : Prop :=
  ∀ (p : Position) (fold : Fold), fold.isBroken → fold.first ≠ ['\n'] →
    resume? '\'' fold (.ofChars p (apostrophesFrom indent true cs ++ tail)) =
      some (fold.text ++ cs, .ofChars (p.pastAll (apostrophesFrom indent true cs)) tail)

section

variable {indent : Nat} (hprint : IsPrintable cs) (htail : IsPrintable tail)

include hprint htail

theorem isPrintable_apostrophes (isLineStart : Bool) :
    IsPrintable (apostrophesFrom indent isLineStart cs ++ tail) :=
  IsPrintable.append_iff.2 ⟨Writing.isPrintable_apostrophesFrom hprint isLineStart, htail⟩

theorem resume?_word (hgap : ∀ c ∈ cs.head?, ¬ isGapChar c) (hread : ReadsInside indent tail cs)
    (hcolumn : 0 < p.column) :
    resume? '\'' fold (.ofChars p (apostrophesFrom indent false cs ++ tail)) =
      some (fold.text ++ cs, .ofChars (p.pastAll (apostrophesFrom indent false cs)) tail) := by
  have hall : IsPrintable (apostrophesFrom indent false cs ++ tail) :=
    isPrintable_apostrophes hprint htail false
  have hread := hread p
  obtain ⟨d, ds, heq, hd⟩ := Writing.exists_apostrophesFrom_eq_cons indent hgap
  rw [heq, List.cons_append] at hread hall ⊢
  rw [resume?_cons hall hd hcolumn, hread]
  rfl

theorem ReadsInside.afterBlanks (hgap : ∀ c ∈ cs.head?, ¬ isGapChar c)
    (hread : ReadsInside indent tail cs) : ReadsAfterBlanks indent tail cs :=
  fun _ _ _ hcolumn => resume?_word hprint htail hgap hread hcolumn

theorem ReadsInside.afterBreaks (hindent : 0 < indent) (hgap : ∀ c ∈ cs.head?, ¬ isGapChar c)
    (hread : ReadsInside indent tail cs) : ReadsAfterBreaks indent tail cs := by
  intro p fold hfold _
  have hbreak : ∀ c ∈ cs.head?, ¬ isBreak c := fun c hc hb => hgap c hc (by simp [isGapChar, hb])
  rw [Writing.apostrophesFrom_true hbreak, List.append_assoc,
    resume?_spaces hfold indent (isPrintable_apostrophes hprint htail false),
    resume?_word hprint htail hgap hread, Position.pastAll_append]
  rw [Position.column_pastAll_spaces]
  omega

/-- A break starts a run, or goes on with one in which a line has ended already. -/
theorem ReadsAfterBreaks.cons (hrest : ReadsAfterBreaks indent tail cs) (hc : isPrintable c)
    (hbreak : isBreak c) (hne : c ≠ '\n') :
    ReadsInside indent tail (c :: cs) ∧ ReadsAfterBreaks indent tail (c :: cs) := by
  have hgap : isGapChar c := by simp [isGapChar, hbreak]
  have hquote : c ≠ '\'' := by
    rintro rfl
    cases hbreak
  constructor
  · intro p
    have hpush : Fold.empty.push c = ⟨true, [], [c], []⟩ := by
      simp [Fold.push, Fold.empty, hbreak]
    have hfirst : [c] ≠ ['\n'] := by simpa using hne
    rw [Writing.apostrophesFrom_break hbreak hne, List.cons_append,
      read?_inside_gap hc hquote hgap, hpush, hrest _ _ rfl hfirst]
    simp [Fold.text, hne]
  · intro p fold hfold hfirst
    obtain ⟨hfold', hfirst', htext⟩ := Fold.text_push_break hfold hfirst hbreak
    have hall : IsPrintable (c :: (apostrophesFrom indent true cs ++ tail)) :=
      IsPrintable.cons_iff.2 ⟨hc, isPrintable_apostrophes hprint htail true⟩
    rw [Writing.apostrophesFrom_break hbreak hne, List.cons_append, resume?_gap hall hgap,
      hrest _ _ hfold' hfirst', htext]
    simp

/-- A space starts a run, or goes on with one on the same line. -/
theorem ReadsAfterBlanks.cons (hrest : ReadsAfterBlanks indent tail cs) :
    ReadsInside indent tail (' ' :: cs) ∧ ReadsAfterBlanks indent tail (' ' :: cs) := by
  have hwrite : apostrophesFrom indent false (' ' :: cs) = ' ' :: apostrophesFrom indent false cs :=
    Writing.apostrophesFrom_cons (by decide)
  have hcolumn (p : Position) : 0 < (p.past ' ').column := Nat.succ_pos p.column
  constructor
  · intro p
    rw [hwrite, List.cons_append, read?_inside_gap (by decide) (by decide) rfl,
      hrest _ _ rfl (hcolumn p)]
    rfl
  · intro p fold hfold _
    obtain ⟨hfold', htext⟩ := Fold.text_push_space hfold
    have hall : IsPrintable (' ' :: (apostrophesFrom indent false cs ++ tail)) :=
      IsPrintable.cons_iff.2 ⟨by decide, isPrintable_apostrophes hprint htail false⟩
    rw [hwrite, List.cons_append, resume?_gap hall rfl, hrest _ _ hfold' (hcolumn p), htext]
    simp

omit hprint htail in
/-- An apostrophe is read from two of them, and any other character of a word from itself. -/
theorem ReadsInside.cons (hread : ReadsInside indent tail cs) (hc : isPrintable c)
    (hgap : ¬ isGapChar c) : ReadsInside indent tail (c :: cs) := by
  intro p
  have hbreak : ¬ isBreak c := fun h => hgap (by simp [isGapChar, h])
  rw [Writing.apostrophesFrom_cons hbreak, List.append_assoc]
  by_cases hquote : c = '\''
  · subst hquote
    rw [if_pos rfl, List.cons_append, List.singleton_append, Stream.ofChars_cons hc,
      Stream.ofChars_cons hc, read?_inside, if_pos rfl]
    dsimp only
    rw [if_pos ⟨rfl, rfl⟩, hread]
    simp
  · rw [if_neg hquote, List.singleton_append, read?_inside_cons hc hquote hgap (by simp), hread]
    rfl

end

/-- Text without line feeds is read back from between apostrophes. The induction carries what is
read inside of a word, after blanks, and after line breaks. -/
theorem readsInside {indent : Nat} (hindent : 0 < indent) (htail : IsPrintable tail)
    (hnext : tail.head? ≠ some '\'') (cs : List Char) (hprint : IsPrintable cs) (hfeed : '\n' ∉ cs)
    (hblank : hasPair TextStyle.isSpace isBreak cs = false)
    (hbreak : hasPair isBreak TextStyle.isSpace cs = false) :
    ReadsInside indent tail cs ∧
      ((∀ c ∈ cs.head?, isBreak c = false) → ReadsAfterBlanks indent tail cs) ∧
      ((∀ c ∈ cs.head?, TextStyle.isSpace c = false) → ReadsAfterBreaks indent tail cs) := by
  induction cs with
  | nil =>
      have hread : ReadsInside indent tail [] := fun p => read?_quote htail (by decide) fun _ => hnext
      exact ⟨hread, fun _ => hread.afterBlanks hprint htail (by simp),
        fun _ => hread.afterBreaks hprint htail hindent (by simp)⟩
  | cons c cs ih =>
      obtain ⟨hc, hcs⟩ := IsPrintable.cons_iff.1 hprint
      obtain ⟨hblankHead, hblank⟩ := hasPair_cons.1 hblank
      obtain ⟨hbreakHead, hbreak⟩ := hasPair_cons.1 hbreak
      obtain ⟨hne, hfeed⟩ : c ≠ '\n' ∧ '\n' ∉ cs := by simpa [eq_comm] using hfeed
      obtain ⟨hinside, hblanks, hbreaks⟩ := ih hcs hfeed hblank hbreak
      -- A run of blanks and breaks has no blank next to a break, so what comes after a break is
      -- read after breaks, and what comes after a space after blanks.
      by_cases hlineBreak : isBreak c
      · obtain ⟨hread, hafter⟩ :=
          (hbreaks (hbreakHead hlineBreak)).cons hcs htail hc hlineBreak hne
        exact ⟨hread, fun h => absurd (h c rfl) (by simp [hlineBreak]), fun _ => hafter⟩
      · by_cases hspace : c = ' '
        · subst hspace
          obtain ⟨hread, hafter⟩ := (hblanks (hblankHead rfl)).cons hcs htail
          exact ⟨hread, fun _ => hafter, fun h => absurd (h ' ' rfl) (by decide)⟩
        · have hgap : ¬ isGapChar c := by
            rw [isGapChar_iff hc]
            simp [hspace, hlineBreak]
          have hread := hinside.cons hc hgap
          exact ⟨hread, fun _ => hread.afterBlanks hprint htail (by simpa using hgap),
            fun _ => hread.afterBreaks hprint htail hindent (by simpa using hgap)⟩

/-! Between double quotes nothing but spaces, quotes and backslashes has to be told apart. -/

theorem escape?_escapeLetter? {letter : Char} (h : Writing.escapeLetter? c = some letter) :
    escape? letter = some c ∧ ¬ isBreak letter ∧ isPrintable letter := by
  unfold Writing.escapeLetter? at h
  split at h
  all_goals cases h <;> decide

theorem not_isBreak_of_escapeLetter? (h : Writing.escapeLetter? c = none) :
    ¬ isBreak c ∧ c ≠ '"' ∧ c ≠ '\\' := by
  refine ⟨fun hbreak => ?_, ?_, ?_⟩
  · simp only [isBreak, isSeparator, Bool.or_eq_true, beq_iff_eq] at hbreak
    rcases hbreak with ((rfl | rfl) | rfl) | rfl | rfl <;> cases h
  · rintro rfl
    cases h
  · rintro rfl
    cases h

theorem hexValue?_upperHexDigit (n : Nat) :
    hexValue? (Writing.upperHexDigit (n % 16)) = some (n % 16) ∧
      ¬ isBreak (Writing.upperHexDigit (n % 16)) ∧ isPrintable (Writing.upperHexDigit (n % 16)) := by
  have hall : ∀ k : Fin 16, hexValue? (Writing.upperHexDigit k) = some k.val ∧
      ¬ isBreak (Writing.upperHexDigit k) ∧ isPrintable (Writing.upperHexDigit k) := by decide
  exact hall ⟨n % 16, Nat.mod_lt n (by decide)⟩

theorem read?_code_succ (digits value n : Nat) :
    read? quote (.code (digits + 2) value) (.ofChars p (Writing.upperHexDigit (n % 16) :: cs)) =
      read? quote (.code (digits + 1) (value * 16 + n % 16))
        (.ofChars (p.past (Writing.upperHexDigit (n % 16))) cs) := by
  obtain ⟨hvalue, -, hprint⟩ := hexValue?_upperHexDigit n
  rw [Stream.ofChars_cons hprint]
  change (hexValue? _ >>= fun value' => read? quote (.code (digits + 1) (value * 16 + value')) _) = _
  rw [hvalue]
  rfl

theorem read?_code_one (value n : Nat) :
    read? quote (.code 1 value) (.ofChars p (Writing.upperHexDigit (n % 16) :: cs)) =
      (char? (value * 16 + n % 16)).bind fun e =>
        (read? quote .inside (.ofChars (p.past (Writing.upperHexDigit (n % 16))) cs)).map
          fun r => (e :: r.1, r.2) := by
  obtain ⟨hvalue, -, hprint⟩ := hexValue?_upperHexDigit n
  rw [Stream.ofChars_cons hprint]
  change (hexValue? _ >>= fun value' => (char? (value * 16 + value')).bind _) = _
  rw [hvalue]
  rfl

/-- How many numbers have that many hexadecimal digits. -/
def hexLimit : Nat → Nat
  | 0 => 1
  | digits + 1 => 16 * hexLimit digits

theorem read?_code_append (digits : Nat) {n : Nat} (hn : n < hexLimit digits) (more value : Nat) :
    read? quote (.code (digits + (more + 1)) value) (.ofChars p (Writing.hexDigits digits n ++ cs)) =
      read? quote (.code (more + 1) (value * hexLimit digits + n))
        (.ofChars (p.pastAll (Writing.hexDigits digits n)) cs) := by
  induction digits generalizing n more cs with
  | zero =>
      obtain rfl : n = 0 := by
        rw [hexLimit] at hn
        omega
      simp [hexLimit, Writing.hexDigits]
  | succ digits ih =>
      rw [hexLimit] at hn
      have hvalue : (value * hexLimit digits + n / 16) * 16 + n % 16 =
          value * (16 * hexLimit digits) + n := by
        rw [Nat.mul_left_comm]
        omega
      have hcount : digits + 1 + (more + 1) = digits + (more + 1 + 1) := by omega
      rw [Writing.hexDigits, List.append_assoc, hcount, ih (by omega), List.singleton_append,
        read?_code_succ, hvalue, Position.pastAll_append]
      rfl

theorem read?_hexDigits (digits : Nat) {n : Nat} (hn : n < hexLimit (digits + 1)) :
    read? quote (.code (digits + 1) 0) (.ofChars p (Writing.hexDigits (digits + 1) n ++ cs)) =
      (char? n).bind fun e =>
        (read? quote .inside (.ofChars (p.pastAll (Writing.hexDigits (digits + 1) n)) cs)).map
          fun r => (e :: r.1, r.2) := by
  rw [hexLimit] at hn
  have hvalue : (0 * hexLimit digits + n / 16) * 16 + n % 16 = n := by omega
  rw [Writing.hexDigits, List.append_assoc, read?_code_append digits (by omega) 0,
    List.singleton_append, read?_code_one, hvalue, Position.pastAll_append]
  rfl

theorem char?_toNat (c : Char) : char? c.toNat = some c := by
  have hvalid : c.toNat.isValidChar := c.valid
  rw [char?, if_pos hvalid, Char.ofNat_toNat]

theorem read?_escape {letter : Char} {digits : Nat} (hprint : isPrintable letter)
    (hbreak : ¬ isBreak letter) (hescape : escape? letter = none)
    (hlength : codeLength? letter = some digits) :
    read? '"' .inside (.ofChars p ('\\' :: letter :: cs)) =
      read? '"' (.code digits 0) (.ofChars ((p.past '\\').past letter) cs) := by
  rw [Stream.ofChars_cons (by decide), Stream.ofChars_cons hprint, read?_inside,
    if_neg (by decide), if_neg (by decide), if_pos ⟨rfl, rfl⟩]
  dsimp only
  rw [if_neg hbreak, hescape, hlength]

theorem read?_codeEscape (c : Char) :
    read? '"' .inside (.ofChars p (Writing.codeEscape c ++ cs)) =
      (read? '"' .inside (.ofChars (p.pastAll (Writing.codeEscape c)) cs)).map
        fun r => (c :: r.1, r.2) := by
  have hlimit : c.toNat < 0x110000 := by
    have hvalid : c.toNat.isValidChar := c.valid
    simp only [Nat.isValidChar] at hvalid
    omega
  simp only [Writing.codeEscape]
  split
  · next hn =>
      simp only [List.cons_append]
      rw [read?_escape (by decide) (by decide) rfl rfl, read?_hexDigits 1 hn, char?_toNat]
      rfl
  · split
    · next hn =>
        simp only [List.cons_append]
        rw [read?_escape (by decide) (by decide) rfl rfl, read?_hexDigits 3 hn, char?_toNat]
        rfl
    · simp only [List.cons_append]
      rw [read?_escape (by decide) (by decide) rfl rfl,
        read?_hexDigits 7 (Nat.lt_trans hlimit (by decide)), char?_toNat]
      rfl

theorem read?_escapedChar (hspace : c ≠ ' ') :
    read? '"' .inside (.ofChars p (Writing.escapedChar c ++ cs)) =
      (read? '"' .inside (.ofChars (p.pastAll (Writing.escapedChar c)) cs)).map
        fun r => (c :: r.1, r.2) := by
  rw [Writing.escapedChar]
  cases hletter : Writing.escapeLetter? c with
  | some letter =>
      obtain ⟨hescape, hbreak, hprint⟩ := escape?_escapeLetter? hletter
      simp only [List.cons_append, List.nil_append]
      rw [Stream.ofChars_cons (by decide), Stream.ofChars_cons hprint, read?_inside,
        if_neg (by decide), if_neg (by decide), if_pos ⟨rfl, rfl⟩]
      dsimp only
      rw [if_neg hbreak, hescape]
      rfl
  | none =>
      obtain ⟨hbreak, hquote, hslash⟩ := not_isBreak_of_escapeLetter? hletter
      dsimp only
      split
      · next hprint =>
          rw [List.singleton_append, read?_inside_cons hprint hquote ?_ (by simp [hslash])]
          · rfl
          · rw [isGapChar_iff hprint]
            simp [hspace, hbreak]
      · exact read?_codeEscape c

open Writing (escapedChar)

theorem isPrintable_hexDigits (digits n : Nat) : IsPrintable (Writing.hexDigits digits n) := by
  induction digits generalizing n with
  | zero => exact IsPrintable.nil
  | succ digits ih =>
      refine IsPrintable.append_iff.2 ⟨ih (n / 16), ?_⟩
      exact IsPrintable.cons_iff.2 ⟨(hexValue?_upperHexDigit n).2.2, IsPrintable.nil⟩

/-- What is written for a character is printable, and it is a gap only for a space. -/
theorem exists_escapedChar_eq_cons (c : Char) :
    ∃ d ds, escapedChar c = d :: ds ∧ IsPrintable (d :: ds) ∧ (c ≠ ' ' → ¬ isGapChar d) := by
  have hslash (ds : List Char) (hds : IsPrintable ds) : IsPrintable ('\\' :: ds) :=
    IsPrintable.cons_iff.2 ⟨by decide, hds⟩
  have hgap : ¬ isGapChar '\\' := by decide
  rw [escapedChar]
  cases hletter : Writing.escapeLetter? c with
  | some letter =>
      obtain ⟨-, -, hprint⟩ := escape?_escapeLetter? hletter
      exact ⟨'\\', [letter], rfl, hslash _ (IsPrintable.cons_iff.2 ⟨hprint, IsPrintable.nil⟩),
        fun _ => hgap⟩
  | none =>
      dsimp only
      split
      · next hprint =>
          refine ⟨c, [], rfl, IsPrintable.cons_iff.2 ⟨hprint, IsPrintable.nil⟩, fun hspace => ?_⟩
          rw [isGapChar_iff hprint]
          simp [hspace, (not_isBreak_of_escapeLetter? hletter).1]
      · simp only [Writing.codeEscape]
        split
        · exact ⟨_, _, rfl, hslash _ (IsPrintable.cons_iff.2 ⟨by decide, isPrintable_hexDigits _ _⟩),
            fun _ => hgap⟩
        · split
          · exact ⟨_, _, rfl,
              hslash _ (IsPrintable.cons_iff.2 ⟨by decide, isPrintable_hexDigits _ _⟩), fun _ => hgap⟩
          · exact ⟨_, _, rfl,
              hslash _ (IsPrintable.cons_iff.2 ⟨by decide, isPrintable_hexDigits _ _⟩), fun _ => hgap⟩

theorem isPrintable_flatMap_escapedChar (cs : List Char) : IsPrintable (cs.flatMap escapedChar) := by
  intro d hd
  obtain ⟨c, -, hd⟩ := List.mem_flatMap.1 hd
  obtain ⟨_, _, heq, hprint, -⟩ := exists_escapedChar_eq_cons c
  rw [heq] at hd
  exact hprint d hd

/-- Every text is read back from between double quotes. The induction carries what is read inside of
a word and what is read after blanks. -/
theorem read?_escaped (htail : IsPrintable tail) (cs : List Char) :
    (∀ p, read? '"' .inside (.ofChars p (cs.flatMap escapedChar ++ '"' :: tail)) =
      some (cs, .ofChars (p.pastAll (cs.flatMap escapedChar ++ ['"'])) tail)) ∧
    ∀ (p : Position) (fold : Fold), fold.isBroken = false → 0 < p.column →
      resume? '"' fold (.ofChars p (cs.flatMap escapedChar ++ '"' :: tail)) =
        some (fold.text ++ cs, .ofChars (p.pastAll (cs.flatMap escapedChar ++ ['"'])) tail) := by
  have hquote : IsPrintable ('"' :: tail) := IsPrintable.cons_iff.2 ⟨by decide, htail⟩
  induction cs with
  | nil =>
      have hread (p : Position) : read? '"' .inside (.ofChars p ('"' :: tail)) =
          some ([], .ofChars (p.past '"') tail) := read?_quote htail (by decide) (by simp)
      refine ⟨hread, fun p fold _ hcolumn => ?_⟩
      rw [List.flatMap_nil, List.nil_append, resume?_cons hquote (by decide) hcolumn, hread]
      rfl
  | cons c cs ih =>
      obtain ⟨hinside, hblanks⟩ := ih
      have hmore : IsPrintable (cs.flatMap escapedChar ++ '"' :: tail) :=
        IsPrintable.append_iff.2 ⟨isPrintable_flatMap_escapedChar cs, hquote⟩
      simp only [List.flatMap_cons, List.append_assoc]
      by_cases hspace : c = ' '
      · subst hspace
        have hwrite : escapedChar ' ' = [' '] := rfl
        have hcolumn (p : Position) : 0 < (p.past ' ').column := Nat.succ_pos p.column
        rw [hwrite]
        simp only [List.singleton_append]
        refine ⟨fun p => ?_, fun p fold hfold _ => ?_⟩
        · rw [read?_inside_gap (by decide) (by decide) rfl, hblanks _ _ rfl (hcolumn p)]
          rfl
        · obtain ⟨hfold', htext⟩ := Fold.text_push_space hfold
          rw [resume?_gap (IsPrintable.cons_iff.2 ⟨by decide, hmore⟩) rfl,
            hblanks _ _ hfold' (hcolumn p), htext]
          simp
      · have hread (p : Position) :
            read? '"' .inside (.ofChars p (escapedChar c ++ (cs.flatMap escapedChar ++ '"' :: tail))) =
              some (c :: cs, .ofChars (p.pastAll (escapedChar c ++ (cs.flatMap escapedChar ++ ['"'])))
                tail) := by
          rw [read?_escapedChar hspace, hinside]
          simp
        refine ⟨hread, fun p fold _ hcolumn => ?_⟩
        obtain ⟨d, ds, heq, hprint, hgap⟩ := exists_escapedChar_eq_cons c
        have hread := hread p
        rw [heq] at hread ⊢
        rw [List.cons_append] at hread ⊢
        have hall : IsPrintable (d :: (ds ++ (cs.flatMap escapedChar ++ '"' :: tail))) :=
          IsPrintable.append_iff.2 ⟨hprint, hmore⟩
        rw [resume?_cons hall (hgap hspace) hcolumn, hread]
        rfl

end Quoted

end SafeCalls.Yaml
