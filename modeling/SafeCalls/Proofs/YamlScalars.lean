import SafeCalls.Proofs.YamlLiteral
import SafeCalls.Proofs.YamlPlain
import SafeCalls.Proofs.YamlQuoted
import SafeCalls.Yaml.Writer

namespace SafeCalls.Yaml

/-!
# Texts in the style that is chosen for them

A style is only chosen for a text that it keeps. Apart from a literal block, a text without line
breaks is written on one line, and takes at most four times as many bytes there and two quotes.
-/

open Writing (spaces apostrophesFrom escapedChar)

namespace TextStyle

variable {cs : List Char}

/-- What a text is like if it is kept in a style. -/
def Suits : TextStyle → List Char → Prop
  | plain, cs => ∃ c rest, cs = c :: rest ∧ Plain.IsAllowed c rest
  | apostrophes, cs => IsPrintable cs ∧ '\n' ∉ cs ∧ hasPair isSpace isBreak cs = false ∧
      hasPair isBreak isSpace cs = false
  | literal, cs => IsPrintable cs ∧ '\n' ∈ cs
  | escaped, _ => True

theorem isPrintable_of_needsEscapes (h : needsEscapes cs = false) : IsPrintable cs := by
  intro c hc
  simp only [needsEscapes, Bool.or_eq_false_iff, List.any_eq_false, Bool.not_eq_true',
    Bool.not_eq_false] at h
  exact h.1 c hc

theorem suits_fallback (hfeed : '\n' ∉ cs) :
    Suits (if allowsApostrophes cs then apostrophes else escaped) cs := by
  split
  · next h =>
      simp only [allowsApostrophes, Bool.not_eq_true', Bool.or_eq_false_iff] at h
      refine ⟨isPrintable_of_needsEscapes h.1, hfeed, ?_, h.2⟩
      exact (Bool.or_eq_false_iff.1 h.1).2
  · trivial

theorem suits_choose (isKey : Bool) (s : String) : Suits (choose isKey s) s.toList := by
  by_cases hfeed : '\n' ∈ s.toList
  · have hliteral : preferred s = literal := if_pos (by simpa using hfeed)
    simp only [choose, hliteral]
    split
    · trivial
    · split
      · next h =>
          simp only [allowsLiteral, Bool.not_eq_true', Bool.or_eq_false_iff] at h
          exact ⟨isPrintable_of_needsEscapes h.1, hfeed⟩
      · trivial
  · have hpreferred : preferred s = if readsAsText s then plain else apostrophes :=
      if_neg (by simpa using hfeed)
    simp only [choose, hpreferred]
    split
    · trivial
    · by_cases hreads : readsAsText s
      · rw [if_pos hreads]
        dsimp only
        split
        · next h =>
            cases hcs : s.toList with
            | nil =>
                rw [String.toList_eq_nil_iff] at hcs
                subst hcs
                exact absurd hreads (by decide)
            | cons c rest => exact ⟨c, rest, rfl, Plain.isAllowed_of_allowsPlain (hcs ▸ h)⟩
        · exact suits_fallback hfeed
      · rw [if_neg hreads]
        exact suits_fallback hfeed

theorem choose_ne_literal {s : String} (h : ∀ c ∈ s.toList, ¬ isBreak c) (isKey : Bool) :
    choose isKey s ≠ literal := by
  intro hliteral
  have hsuits := suits_choose isKey s
  rw [hliteral] at hsuits
  exact h '\n' hsuits.2 rfl

end TextStyle

theorem sum_utf8Size (s : String) : (s.toList.map Char.utf8Size).sum = s.utf8ByteSize := by
  have hlist (cs : List Char) : (cs.map Char.utf8Size).sum = (String.ofList cs).utf8ByteSize := by
    induction cs with
    | nil => rfl
    | cons c cs ih =>
        rw [List.map_cons, List.sum_cons, ih, String.ofList_cons, String.utf8ByteSize_append,
          String.utf8ByteSize_singleton]
  rw [hlist, String.ofList_toList]

namespace Writing

variable {style : TextStyle} {indent : Nat} {c : Char} {cs : List Char}

theorem isPrintable_literalHeader (cs : List Char) : IsPrintable (literalHeader cs) := by
  obtain ⟨core, breaks, rfl, hcore, hbreaks⟩ := Block.exists_core cs
  rw [literalHeader, Block.chompingMark_eq hcore hbreaks]
  cases hidesIndent (core ++ breaks) <;> cases Block.chompingOf core breaks <;> decide

theorem isPrintable_text (h : style.Suits cs) : IsPrintable (text style indent cs) := by
  cases style with
  | plain =>
      obtain ⟨c, rest, rfl, h⟩ := h
      exact h.printable
  | apostrophes =>
      exact IsPrintable.cons_iff.2 ⟨by decide, isPrintable_apostrophesFrom h.1 false⟩
  | literal =>
      exact IsPrintable.append_iff.2 ⟨isPrintable_literalHeader cs, Block.isPrintable_literalFrom h.1 true⟩
  | escaped =>
      refine IsPrintable.append_iff.2 ⟨IsPrintable.cons_iff.2 ⟨by decide, ?_⟩, by decide⟩
      exact Quoted.isPrintable_flatMap_escapedChar cs

/-! ### One line -/

/-- What takes the place of a character between apostrophes. -/
def doubled (c : Char) : List Char := if c = '\'' then [c, c] else [c]

theorem apostrophesFrom_eq (h : ∀ c ∈ cs, ¬ isBreak c) :
    apostrophesFrom indent false cs = cs.flatMap doubled ++ ['\''] := by
  induction cs with
  | nil => rfl
  | cons c cs ih =>
      obtain ⟨hc, hcs⟩ := List.forall_mem_cons.1 h
      rw [apostrophesFrom_cons hc, ih hcs, List.flatMap_cons, doubled, List.append_assoc]

/-- What is short and on one line, compared with the characters it stands for. -/
def IsShort (written : List Char) (cs : List Char) : Prop :=
  (∀ d ∈ written, ¬ isBreak d) ∧
    (written.map Char.utf8Size).sum ≤ 4 * (cs.map Char.utf8Size).sum

theorem IsShort.flatMap {write : Char → List Char} (h : ∀ c ∈ cs, IsShort (write c) [c]) :
    IsShort (cs.flatMap write) cs := by
  induction cs with
  | nil => exact ⟨List.forall_mem_nil _, Nat.le_refl 0⟩
  | cons c cs ih =>
      obtain ⟨hc, hcs⟩ := List.forall_mem_cons.1 h
      obtain ⟨hbreak, hsize⟩ := ih hcs
      refine ⟨?_, ?_⟩
      · rw [List.flatMap_cons]
        exact List.forall_mem_append.2 ⟨hc.1, hbreak⟩
      · have hone : ((write c).map Char.utf8Size).sum ≤ 4 * c.utf8Size := by simpa using hc.2
        rw [List.flatMap_cons, List.map_append, List.sum_append, List.map_cons, List.sum_cons]
        omega

theorem isShort_doubled (h : ¬ isBreak c) : IsShort (doubled c) [c] := by
  by_cases hquote : c = '\''
  · subst hquote
    exact ⟨List.forall_mem_cons.2 ⟨h, List.forall_mem_singleton.2 h⟩, by decide⟩
  · rw [doubled, if_neg hquote]
    refine ⟨by simpa using h, ?_⟩
    simp only [List.map_cons, List.map_nil, List.sum_cons, List.sum_nil]
    omega

theorem isShort_hexDigits (digits n : Nat) :
    (∀ d ∈ hexDigits digits n, ¬ isBreak d) ∧
      ((hexDigits digits n).map Char.utf8Size).sum = digits := by
  induction digits generalizing n with
  | zero => exact ⟨List.forall_mem_nil _, rfl⟩
  | succ digits ih =>
      obtain ⟨hbreak, hsize⟩ := ih (n / 16)
      have hall : ∀ k : Fin 16, (upperHexDigit k).utf8Size = 1 := by decide
      have hone : (upperHexDigit (n % 16)).utf8Size = 1 := hall ⟨n % 16, Nat.mod_lt n (by decide)⟩
      refine ⟨List.forall_mem_append.2 ⟨hbreak, ?_⟩, ?_⟩
      · simpa using (Quoted.hexValue?_upperHexDigit n).2.1
      · simp [hexDigits, hsize, hone]

theorem isShort_escape {letter : Char} {digits n : Nat} (hbreak : ¬ isBreak letter)
    (hletter : letter.utf8Size = 1) (hsize : digits + 2 ≤ 4 * c.utf8Size) :
    IsShort ('\\' :: letter :: hexDigits digits n) [c] := by
  obtain ⟨hdigits, hlength⟩ := isShort_hexDigits digits n
  have hslash : '\\'.utf8Size = 1 := rfl
  refine ⟨?_, ?_⟩
  · simp only [List.forall_mem_cons]
    exact ⟨by decide, hbreak, hdigits⟩
  · simp only [List.map_cons, List.map_nil, List.sum_cons, List.sum_nil, hslash, hletter, hlength]
    omega

theorem isShort_codeEscape (c : Char) : IsShort (codeEscape c) [c] := by
  have hpos := c.utf8Size_pos
  simp only [codeEscape]
  split
  · exact isShort_escape (by decide) rfl (by omega)
  · next hbyte =>
      have hone : c.utf8Size ≠ 1 := by
        rw [ne_eq, Char.utf8Size_eq_one_iff, UInt32.le_iff_toNat_le]
        exact fun hle => hbyte (Nat.lt_of_le_of_lt hle (by decide))
      split
      · exact isShort_escape (by decide) rfl (by omega)
      · next hword =>
          have hfour : c.utf8Size = 4 := by
            rw [Char.utf8Size_eq_four_iff, UInt32.lt_iff_toNat_lt]
            exact Nat.lt_of_not_le fun hle => hword (Nat.lt_succ_of_le hle)
          exact isShort_escape (by decide) rfl (by omega)

theorem utf8Size_escapeLetter? {letter : Char} (h : escapeLetter? c = some letter) :
    letter.utf8Size = 1 := by
  unfold escapeLetter? at h
  split at h
  all_goals cases h <;> rfl

theorem isShort_escapedChar (c : Char) : IsShort (escapedChar c) [c] := by
  rw [escapedChar]
  cases hletter : escapeLetter? c with
  | some letter =>
      have hone := utf8Size_escapeLetter? hletter
      have hbreak := (Quoted.escape?_escapeLetter? hletter).2.1
      have hpos := c.utf8Size_pos
      have hslash : '\\'.utf8Size = 1 := rfl
      refine ⟨?_, ?_⟩
      · simp only [List.forall_mem_cons]
        exact ⟨by decide, hbreak, List.forall_mem_nil _⟩
      · simp only [List.map_cons, List.map_nil, List.sum_cons, List.sum_nil, hone, hslash]
        omega
  | none =>
      dsimp only
      split
      · refine ⟨by simpa using (Quoted.not_isBreak_of_escapeLetter? hletter).1, ?_⟩
        simp only [List.map_cons, List.map_nil, List.sum_cons, List.sum_nil]
        omega
      · exact isShort_codeEscape c

/-- A text without line breaks is on one line, unless it is a literal block. -/
theorem isShort_text (indent : Nat) (hstyle : style ≠ .literal) (h : style.Suits cs)
    (hbreak : ∀ c ∈ cs, ¬ isBreak c) :
    (∀ d ∈ text style indent cs, ¬ isBreak d) ∧
      ((text style indent cs).map Char.utf8Size).sum ≤ 4 * (cs.map Char.utf8Size).sum + 2 := by
  have hquoted {quote : Char} {write : Char → List Char} (hone : quote.utf8Size = 1)
      (hquote : ¬ isBreak quote) (hwrite : IsShort (cs.flatMap write) cs) :
      (∀ d ∈ quote :: (cs.flatMap write ++ [quote]), ¬ isBreak d) ∧
        ((quote :: (cs.flatMap write ++ [quote])).map Char.utf8Size).sum ≤
          4 * (cs.map Char.utf8Size).sum + 2 := by
    obtain ⟨hline, hsize⟩ := hwrite
    refine ⟨?_, ?_⟩
    · simp only [List.forall_mem_cons, List.forall_mem_append]
      exact ⟨hquote, hline, hquote, List.forall_mem_nil _⟩
    · simp only [List.map_cons, List.map_append, List.map_nil, List.sum_cons, List.sum_append,
        List.sum_nil, hone]
      omega
  cases style with
  | plain =>
      refine ⟨hbreak, ?_⟩
      rw [text]
      omega
  | apostrophes =>
      rw [text, apostrophesFrom_eq hbreak]
      exact hquoted rfl (by decide) (.flatMap fun c hc => isShort_doubled (hbreak c hc))
  | literal => exact absurd rfl hstyle
  | escaped => exact hquoted rfl (by decide) (.flatMap fun c _ => isShort_escapedChar c)

/-! ### Ends of lines -/

theorem text_ne_nil (indent : Nat) (h : style.Suits cs) : text style indent cs ≠ [] := by
  cases style with
  | plain =>
      obtain ⟨c, rest, rfl, -⟩ := h
      exact List.cons_ne_nil c rest
  | apostrophes => exact List.cons_ne_nil _ _
  | literal => simp [text, literalHeader]
  | escaped => exact List.cons_ne_nil _ _

theorem exists_apostrophesFrom_eq_concat (indent : Nat) (cs : List Char) (isLineStart : Bool) :
    ∃ ds, apostrophesFrom indent isLineStart cs = ds ++ ['\''] := by
  induction cs generalizing isLineStart with
  | nil => exact ⟨_, rfl⟩
  | cons c cs ih =>
      rw [apostrophesFrom]
      split
      · obtain ⟨ds, hds⟩ := ih true
        exact ⟨_, by rw [hds, ← List.append_assoc]⟩
      · obtain ⟨ds, hds⟩ := ih false
        exact ⟨_, by rw [hds, ← List.append_assoc]⟩

theorem getLast?_literalFrom (indent : Nat) (cs : List Char) (isLineStart : Bool) :
    (literalFrom indent isLineStart cs).getLast? = cs.getLast? := by
  induction cs generalizing isLineStart with
  | nil => rfl
  | cons c cs ih =>
      rw [literalFrom]
      split
      · rw [List.getLast?_cons, ih, List.getLast?_cons]
      · rw [List.getLast?_append_of_ne_nil _ (List.cons_ne_nil _ _), List.getLast?_cons, ih,
          List.getLast?_cons]

theorem literalFrom_ne_nil (h : cs ≠ []) : literalFrom indent true cs ≠ [] := by
  intro hnil
  have hlast := getLast?_literalFrom indent cs true
  rw [hnil, List.getLast?_nil] at hlast
  exact h (List.getLast?_eq_none_iff.1 hlast.symm)

/-- A text starts with its first character, or else with an indicator. -/
theorem startsToken_text (indent : Nat) (h : style.Suits cs) (tail : List Char) :
    StartsToken (text style indent cs ++ tail) := by
  intro c hc
  cases style with
  | plain =>
      obtain ⟨d, rest, rfl, h⟩ := h
      cases hc
      refine ⟨h.not_isGapChar, ?_⟩
      rintro rfl
      cases h.isIndicator
  | apostrophes =>
      cases hc
      decide
  | literal =>
      cases hc
      decide
  | escaped =>
      cases hc
      decide

end Writing

namespace Value

variable {style : TextStyle} {indent : Nat} {cs ds : List Char}

theorem isPrintable_endLine (h : IsPrintable cs) : IsPrintable (endLine cs) := by
  rw [endLine]
  split
  · split
    · exact h
    · exact IsPrintable.append_iff.2 ⟨h, by decide⟩
  · exact h

theorem exists_endLine_eq_append (cs : List Char) : ∃ feed, endLine cs = cs ++ feed := by
  rw [endLine]
  split
  · split
    · exact ⟨[], (List.append_nil cs).symm⟩
    · exact ⟨['\n'], rfl⟩
  · exact ⟨[], (List.append_nil cs).symm⟩

theorem startsToken_endLine (h : style.Suits cs) (tail : List Char) :
    StartsToken (endLine (Writing.text style indent cs) ++ tail) := by
  obtain ⟨feed, hfeed⟩ := exists_endLine_eq_append (Writing.text style indent cs)
  rw [hfeed, List.append_assoc]
  exact Writing.startsToken_text indent h (feed ++ tail)

theorem endLine_append (cs : List Char) (h : ds ≠ []) : endLine (cs ++ ds) = cs ++ endLine ds := by
  have hlast : (cs ++ ds).getLast? = ds.getLast? := List.getLast?_append_of_ne_nil cs h
  rw [endLine, endLine, hlast]
  split
  · split <;> simp
  · rfl

theorem endLine_cons (h : ds ≠ []) (c : Char) : endLine (c :: ds) = c :: endLine ds :=
  endLine_append [c] h

theorem endLine_of_getLast? (h : ∀ c ∈ cs.getLast?, ¬ isBreak c) (hne : cs ≠ []) :
    endLine cs = cs ++ ['\n'] := by
  rw [endLine, List.getLast?_eq_getLast_of_ne_nil hne]
  exact if_neg (h _ (List.getLast?_eq_getLast_of_ne_nil hne))

theorem endLine_text (hstyle : style ≠ .literal) (h : style.Suits cs) :
    endLine (Writing.text style indent cs) = Writing.text style indent cs ++ ['\n'] := by
  refine endLine_of_getLast? ?_ (Writing.text_ne_nil _ h)
  cases style with
  | plain =>
      obtain ⟨c, rest, rfl, h⟩ := h
      exact fun d hd => h.not_isBreak d (List.mem_of_mem_getLast? hd)
  | apostrophes =>
      obtain ⟨ds, hds⟩ := Writing.exists_apostrophesFrom_eq_concat indent cs false
      intro c hc
      rw [Writing.text, hds, ← List.cons_append, List.getLast?_concat] at hc
      cases hc
      decide
  | literal => exact absurd rfl hstyle
  | escaped =>
      intro c hc
      rw [Writing.text, List.getLast?_concat] at hc
      cases hc
      decide

/-- The last line of a literal block has been ended before unless no line break ends the text. -/
theorem endLine_literal (indent : Nat) (hne : cs ≠ []) :
    ∃ core breaks, cs = core ++ breaks ∧ (∀ c ∈ core.getLast?, ¬ isBreak c) ∧
      (∀ b ∈ breaks, isBreak b) ∧
      endLine (Writing.text .literal indent cs) = '|' :: Block.literal indent core breaks := by
  obtain ⟨core, breaks, rfl, hcore, hbreaks⟩ := Block.exists_core cs
  refine ⟨core, breaks, rfl, hcore, hbreaks, ?_⟩
  have htext : Writing.text .literal indent (core ++ breaks) =
      '|' :: (Block.incrementMark (Writing.hidesIndent (core ++ breaks)) ++
        ((Block.chompingOf core breaks).mark ++ ['\n'])) ++
          (Writing.literalFrom indent true core ++ breaks) := by
    rw [Writing.text, Writing.literalHeader, Block.chompingMark_eq hcore hbreaks,
      Block.literalFrom_append_breaks hbreaks]
    simp [Block.incrementMark]
  have hend : endLine (Writing.literalFrom indent true core ++ breaks) =
      Writing.literalFrom indent true core ++ Block.lineEnd breaks := by
    rcases List.eq_nil_or_concat breaks with rfl | ⟨before, b, rfl⟩
    · have hcore' : core ≠ [] := by simpa using hne
      rw [List.append_nil]
      refine endLine_of_getLast? ?_ (Writing.literalFrom_ne_nil hcore')
      rwa [Writing.getLast?_literalFrom]
    · have hb : isBreak b := hbreaks b (by simp)
      rw [List.concat_eq_append, ← List.append_assoc, endLine, List.getLast?_concat]
      simp [hb, Block.lineEnd]
  rw [htext, endLine_append _ ?_, hend, Block.literal]
  · simp
  · rw [← Block.literalFrom_append_breaks hbreaks]
    exact Writing.literalFrom_ne_nil hne

end Value

end SafeCalls.Yaml
