import SafeCalls.Proofs.YamlLines

namespace SafeCalls.Yaml

/-!
# The tokens of written values

The text of a record is read as the tokens of its fields, each with the tokens of its value, however
deep the records are nested in one another.
-/

open Writing (spaces)
open Progress (Opens StepsToLine ReachesLine inBlock lineStart)

namespace Value

/-! ### Tokens -/

/-- A text in the style that is chosen for it. -/
def scalarToken (isKey : Bool) (s : String) : Token :=
  .scalar s (TextStyle.choose isKey s).scalarStyle

def entryTokens (entry : String × String) : List Token :=
  [.key, scalarToken (isShortKey entry.1) entry.1, .value, scalarToken false entry.2]

mutual

/-- The tokens of a value. -/
def tokens : Value → List Token
  | word spelling => [.scalar spelling .plain]
  | text value => [scalarToken false value]
  | record [] => [.flowMappingStart, .flowMappingEnd]
  | record (field :: more) => .blockMappingStart :: fieldTokens (field :: more) ++ [.blockEnd]
  | map [] => [.flowMappingStart, .flowMappingEnd]
  | map (first :: more) => .blockMappingStart :: (first :: more).flatMap entryTokens ++ [.blockEnd]

def fieldTokens : List (String × Value) → List Token
  | [] => []
  | (name, value) :: more =>
      .key :: .scalar name .plain :: .value :: value.tokens ++ fieldTokens more

end

/-! ### What can be written -/

/-- A word that stands for itself. -/
def IsWord (s : String) : Prop := TextStyle.plain.Suits s.toList

mutual

/-- The words and the names of fields stand for themselves, and the names are short. -/
def IsWritable : Value → Prop
  | word spelling => IsWord spelling
  | text _ => True
  | record fields => AreWritable fields
  | map _ => True

def AreWritable : List (String × Value) → Prop
  | [] => True
  | (name, value) :: more =>
      (IsWord name ∧ name.utf8ByteSize ≤ 128) ∧ value.IsWritable ∧ AreWritable more

end

variable {k n : Nat} {rest : List Char}

theorem isPrintable_scalar (isKey : Bool) (s : String) : IsPrintable (scalar isKey k s) :=
  Writing.isPrintable_text (TextStyle.suits_choose isKey s)

theorem endLine_scalar (isKey : Bool) (c d : Char) (s : String) :
    endLine (c :: d :: scalar isKey k s) = c :: d :: endLine (scalar isKey k s) := by
  have hne : scalar isKey k s ≠ [] := Writing.text_ne_nil _ (TextStyle.suits_choose isKey s)
  rw [endLine_cons (List.cons_ne_nil d _), endLine_cons hne]

/-- An entry without the indentation of its first line. -/
def entryLine (indent : Nat) (key value : String) : List Char :=
  if isShortKey key then
    scalar true (indent + 2) key ++ ':' :: ' ' :: endLine (scalar false (indent + 2) value)
  else
    '?' :: ' ' :: (endLine (scalar false (indent + 2) key) ++
      (spaces indent ++ ':' :: ' ' :: endLine (scalar false (indent + 2) value)))

theorem entry_eq (key value : String) : entry k key value = spaces k ++ entryLine k key value := by
  rw [entry, entryLine]
  split
  · rw [endLine_append _ (List.cons_ne_nil _ _), endLine_scalar, List.append_assoc]
  · rw [endLine_append _ (List.cons_ne_nil _ _), endLine_append _ (List.cons_ne_nil _ _), endLine_scalar,
      endLine_scalar]
    simp

theorem isPrintable_entryLine (key value : String) : IsPrintable (entryLine k key value) := by
  have hend (s : String) : IsPrintable (endLine (scalar false (k + 2) s)) :=
    isPrintable_endLine (isPrintable_scalar false s)
  rw [entryLine]
  split
  · simp only [IsPrintable.append_iff, IsPrintable.cons_iff]
    exact ⟨isPrintable_scalar true key, by decide, by decide, hend value⟩
  · simp only [IsPrintable.append_iff, IsPrintable.cons_iff]
    exact ⟨by decide, by decide, hend key, isPrintable_spaces k, by decide, by decide, hend value⟩

theorem startsToken_entryLine (key value : String) (tail : List Char) :
    StartsToken (entryLine k key value ++ tail) := by
  rw [entryLine]
  split
  · rw [List.append_assoc]
    exact Writing.startsToken_text _ (TextStyle.suits_choose true key) _
  · exact Progress.startsToken_cons (by decide)

theorem isPrintable_entries (entries : List (String × String)) :
    IsPrintable (entries.flatMap fun (key, value) => entry k key value) := by
  intro c hc
  obtain ⟨⟨key, value⟩, -, hc⟩ := List.mem_flatMap.1 hc
  dsimp only at hc
  rw [entry_eq] at hc
  exact IsPrintable.append_iff.2 ⟨isPrintable_spaces k, isPrintable_entryLine key value⟩ c hc

mutual

theorem isPrintable_lines : ∀ (k : Nat) (v : Value), v.IsWritable → IsPrintable (lines k v)
  | k, word spelling, h => by
      obtain ⟨c, rest, hspelling, h⟩ := h
      rw [lines, hspelling]
      exact isPrintable_endLine (IsPrintable.cons_iff.2 ⟨by decide, h.printable⟩)
  | k, text value, _ => by
      rw [lines]
      exact isPrintable_endLine (IsPrintable.cons_iff.2 ⟨by decide, isPrintable_scalar false value⟩)
  | k, record [], _ => by
      rw [lines]
      decide
  | k, record (field :: more), h => by
      rw [lines]
      exact IsPrintable.cons_iff.2 ⟨by decide, isPrintable_fieldLines (k + 2) (field :: more) h⟩
  | k, map [], _ => by
      rw [lines]
      decide
  | k, map (first :: more), _ => by
      rw [lines]
      exact IsPrintable.cons_iff.2 ⟨by decide, isPrintable_entries (first :: more)⟩

theorem isPrintable_fieldLines : ∀ (k : Nat) (fields : List (String × Value)),
    AreWritable fields → IsPrintable (fieldLines k fields)
  | k, [], _ => .nil
  | k, (name, value) :: more, ⟨⟨hname, _⟩, hvalue, hmore⟩ => by
      obtain ⟨c, rest, hspelling, hname⟩ := hname
      rw [fieldLines, hspelling]
      have hrest := isPrintable_lines k value hvalue
      have hmore := isPrintable_fieldLines k more hmore
      simp only [IsPrintable.append_iff, IsPrintable.cons_iff]
      exact ⟨⟨⟨isPrintable_spaces k, IsPrintable.cons_iff.1 hname.printable⟩, by decide, hrest⟩, hmore⟩

end

/-! ### Entries -/

variable {tokens tokens' : List Token} {indents indents' : List Nat} {p : Position}

theorem stepsToLine_entryLine (key value : String) (hopens : Opens k tokens indents indents' tokens')
    (hcolumn : p.column = k) (hn : n ≤ k) (hprint : IsPrintable rest) (htoken : StartsToken rest) :
    StepsToLine (lineStart tokens indents p (entryLine k key value ++ (spaces n ++ rest)))
      ((entryTokens (key, value)).reverse ++ tokens') indents' n rest := by
  have hvalue := TextStyle.suits_choose false value
  by_cases h : isShortKey key
  · have hkey := TextStyle.suits_choose true key
    have hshort : (∀ c ∈ key.toList, ¬ isBreak c) ∧ key.utf8ByteSize ≤ 128 := by
      simpa [isShortKey] using h
    have hlines := Progress.isPrintable_scalarLine (n := n) (k := k) hvalue hprint
    have hsteps := Progress.stepsToLine_key hopens hcolumn hlines hkey
      (TextStyle.choose_ne_literal hshort.1 true) hshort.1 (by rw [sum_utf8Size]; exact hshort.2) rfl
      fun p' hp' => Progress.reachesLine_scalar (by simp) hvalue hopens.head? hp' hn hprint htoken
    simpa [entryLine, h, entryTokens, scalarToken, scalar] using hsteps
  · have hkey := TextStyle.suits_choose false key
    have hsteps := Progress.stepsToLine_longKey hopens hkey hvalue hcolumn hn hprint htoken
    simpa [entryLine, h, entryTokens, scalarToken, scalar] using hsteps

theorem stepsToLine_entries (more : List (String × String)) (key value : String)
    (hopens : Opens k tokens indents indents' tokens') (hcolumn : p.column = k) (hn : n ≤ k)
    (hprint : IsPrintable rest) (htoken : StartsToken rest) :
    StepsToLine (lineStart tokens indents p (entryLine k key value ++
        (more.flatMap (fun (key, value) => entry k key value) ++ (spaces n ++ rest))))
      ((((key, value) :: more).flatMap entryTokens).reverse ++ tokens') indents' n rest := by
  induction more generalizing key value tokens tokens' indents p with
  | nil => simpa using stepsToLine_entryLine key value hopens hcolumn hn hprint htoken
  | cons next more ih =>
      obtain ⟨key', value'⟩ := next
      obtain ⟨outer, rfl⟩ := List.head?_eq_some_iff.1 hopens.head?
      have hprint' : IsPrintable (entryLine k key' value' ++
          (more.flatMap (fun (key, value) => entry k key value) ++ (spaces n ++ rest))) := by
        simp only [IsPrintable.append_iff]
        exact ⟨isPrintable_entryLine key' value', isPrintable_entries more, isPrintable_spaces n, hprint⟩
      have hfirst := stepsToLine_entryLine key value hopens hcolumn (Nat.le_refl k) hprint'
        (startsToken_entryLine key' value' _)
      have hlater := hfirst.trans fun p' hp' => ih key' value' (.another outer) hp'
      simpa [entry_eq] using hlater

/-! ### Values -/

/-- Fields without the indentation of their first line. -/
def fieldsLine (indent : Nat) : List (String × Value) → List Char
  | [] => []
  | (name, value) :: more => name.toList ++ ':' :: (lines indent value ++ fieldLines indent more)

theorem fieldLines_eq {fields : List (String × Value)} (h : fields ≠ []) :
    fieldLines k fields = spaces k ++ fieldsLine k fields := by
  obtain ⟨⟨name, value⟩, more, rfl⟩ := List.exists_cons_of_ne_nil h
  simp [fieldLines, fieldsLine]

theorem isPrintable_fieldsLine (k : Nat) {fields : List (String × Value)} (h : AreWritable fields) :
    IsPrintable (fieldsLine k fields) := by
  cases fields with
  | nil => exact .nil
  | cons field more =>
      have hall := isPrintable_fieldLines k _ h
      rw [fieldLines_eq (List.cons_ne_nil field more)] at hall
      exact (IsPrintable.append_iff.1 hall).2

theorem startsToken_fieldsLine (k : Nat) {fields : List (String × Value)}
    (h : AreWritable fields) (hne : fields ≠ []) (tail : List Char) : StartsToken (fieldsLine k fields ++ tail) := by
  obtain ⟨⟨name, value⟩, more, rfl⟩ := List.exists_cons_of_ne_nil hne
  rw [fieldsLine, List.append_assoc]
  have hword : TextStyle.plain.Suits name.toList := h.1.1
  exact Writing.startsToken_text k hword _

theorem isAtGap_lines (v : Value) (tail : List Char) : TextStyle.isAtGap (lines k v ++ tail) := by
  have hspace (cs : List Char) : TextStyle.isAtGap (endLine (' ' :: cs) ++ tail) := by
    obtain ⟨feed, hfeed⟩ := exists_endLine_eq_append (' ' :: cs)
    rw [hfeed]
    rfl
  cases v with
  | word spelling =>
      rw [lines]
      exact hspace _
  | text value =>
      rw [lines]
      exact hspace _
  | record fields => cases fields <;> rw [lines] <;> rfl
  | map entries => cases entries <;> rw [lines] <;> rfl

theorem brackets : " \x7b\x7d\n".toList = [' ', '\x7b', '\x7d', '\n'] := rfl

theorem reachesLine_block {cs : List Char} (hstream : tokens.head? ≠ some .streamEnd)
    (hprint : IsPrintable cs) (htoken : StartsToken cs)
    (hsteps : ∀ p' : Position, p'.column = k + 2 → StepsToLine
      (lineStart tokens indents p' cs) tokens' ((k + 2) :: indents) n rest) (hn : n ≤ k) :
    ReachesLine (inBlock none false tokens indents (.ofChars p ('\n' :: (spaces (k + 2) ++ cs))))
      (.blockEnd :: tokens') indents n rest := by
  obtain ⟨p', hcolumn, hsteps⟩ := hsteps (p.nextLine (k + 2)) Progress.column_nextLine
  have hclosed : lineStart tokens' ((k + 2) :: indents) p' rest =
      lineStart (.blockEnd :: tokens') indents p' rest := Progress.lineStart_cons (by omega)
  rw [hclosed] at hsteps
  refine ⟨_, Progress.ready?_feed hstream hprint htoken (by simp), ?_, p', hcolumn, hsteps⟩
  rw [Progress.ahead_lineStart, Stream.length_ofChars hprint,
    Progress.length_ahead_inBlock (Progress.isPrintable_feed hprint)]
  simp only [List.length_cons, List.length_append]
  omega

theorem opens_nested (h : indents.head? = some k) :
    Opens (k + 2) tokens indents ((k + 2) :: indents) (.blockMappingStart :: tokens) := by
  refine .first indents fun i hi => ?_
  rw [h] at hi
  cases hi
  exact Nat.lt_add_of_pos_right (by decide)

mutual

/-- A value is read up to the next line. -/
theorem reachesLine_lines : ∀ (v : Value), v.IsWritable → ∀ {k n : Nat} {rest : List Char}
    {tokens : List Token} {indents : List Nat} {p : Position}, tokens.head? ≠ some .streamEnd →
    indents.head? = some k → k < p.column → n ≤ k → IsPrintable rest → StartsToken rest →
    ReachesLine (inBlock none false tokens indents (.ofChars p (lines k v ++ (spaces n ++ rest))))
      (v.tokens.reverse ++ tokens) indents n rest
  | word spelling, h, k, n, rest, tokens, indents, p, hstream, hindents, hk, hn, hprint, htoken => by
      have hword : TextStyle.plain.Suits spelling.toList := by rwa [IsWritable] at h
      have hne : spelling.toList ≠ [] := Writing.text_ne_nil k hword
      have hreach := Progress.reachesLine_scalar (a := false) hstream hword hindents hk hn hprint htoken
      rw [lines, endLine_cons hne]
      simpa [TextStyle.scalarStyle, Value.tokens, Writing.text] using hreach
  | text value, _, k, n, rest, tokens, indents, p, hstream, hindents, hk, hn, hprint, htoken => by
      have hsuits := TextStyle.suits_choose false value
      have hne : scalar false (k + 2) value ≠ [] := Writing.text_ne_nil _ hsuits
      have hreach := Progress.reachesLine_scalar (a := false) hstream hsuits hindents hk hn hprint htoken
      rw [lines, endLine_cons hne]
      simpa [Value.tokens, scalarToken, scalar] using hreach
  | record [], _, k, n, rest, tokens, indents, p, hstream, hindents, hk, hn, hprint, htoken => by
      rw [lines, brackets, Value.tokens]
      exact Progress.reachesLine_empty hstream hindents hk hprint htoken
  | record (field :: more), h, k, n, rest, tokens, indents, p, hstream, hindents, hk, hn, hprint,
      htoken => by
      rw [IsWritable] at h
      have hne := List.cons_ne_nil field more
      have hall : IsPrintable (fieldsLine (k + 2) (field :: more) ++ (spaces n ++ rest)) := by
        simp only [IsPrintable.append_iff]
        exact ⟨isPrintable_fieldsLine _ h, isPrintable_spaces n, hprint⟩
      have hreach := reachesLine_block (p := p) hstream hall (startsToken_fieldsLine _ h hne _)
        (fun p' hp' => stepsToLine_fieldsLine (field :: more) h hne (opens_nested hindents) hp'
          (by omega) hprint htoken) hn
      rw [lines, fieldLines_eq hne]
      simpa [Value.tokens] using hreach
  | map [], _, k, n, rest, tokens, indents, p, hstream, hindents, hk, hn, hprint, htoken => by
      rw [lines, brackets, Value.tokens]
      exact Progress.reachesLine_empty hstream hindents hk hprint htoken
  | map ((key, value) :: more), _, k, n, rest, tokens, indents, p, hstream, hindents, hk, hn, hprint,
      htoken => by
      have hall : IsPrintable (entryLine (k + 2) key value ++
          (more.flatMap (fun (key, value) => entry (k + 2) key value) ++ (spaces n ++ rest))) := by
        simp only [IsPrintable.append_iff]
        exact ⟨isPrintable_entryLine key value, isPrintable_entries more, isPrintable_spaces n, hprint⟩
      have hreach := reachesLine_block (p := p) hstream hall (startsToken_entryLine key value _)
        (fun p' hp' => stepsToLine_entries more key value (opens_nested hindents) hp'
          (by omega) hprint htoken) hn
      rw [lines]
      simpa [Value.tokens, entry_eq] using hreach

/-- The fields of a record are read one after another. -/
theorem stepsToLine_fieldsLine : ∀ (fields : List (String × Value)), AreWritable fields →
    fields ≠ [] → ∀ {k n : Nat} {rest : List Char} {tokens tokens' : List Token}
    {indents indents' : List Nat} {p : Position}, Opens k tokens indents indents' tokens' →
    p.column = k → n ≤ k → IsPrintable rest → StartsToken rest →
    StepsToLine (lineStart tokens indents p (fieldsLine k fields ++ (spaces n ++ rest)))
      ((fieldTokens fields).reverse ++ tokens') indents' n rest
  | [], _, hne, _, _, _, _, _, _, _, _, _, _, _, _, _ => absurd rfl hne
  | (name, value) :: more, ⟨⟨hname, hshort⟩, hvalue, hmore⟩, _, k, n, rest, tokens, tokens', indents,
      indents', p, hopens, hcolumn, hn, hprint, htoken => by
      obtain ⟨outer, rfl⟩ := List.head?_eq_some_iff.1 hopens.head?
      have hline : ∀ c ∈ name.toList, ¬ isBreak c := by
        obtain ⟨c, rest, hcs, hallowed⟩ := hname
        rw [hcs]
        exact hallowed.not_isBreak
      by_cases hlast : more = []
      · subst hlast
        have hall : IsPrintable (lines k value ++ (spaces n ++ rest)) := by
          simp only [IsPrintable.append_iff]
          exact ⟨isPrintable_lines k value hvalue, isPrintable_spaces n, hprint⟩
        have hsteps := Progress.stepsToLine_key hopens hcolumn hall hname (by decide) hline
          (by rwa [sum_utf8Size]) (isAtGap_lines value _) fun p' hp' =>
            reachesLine_lines value hvalue (by simp) rfl hp' hn hprint htoken
        simpa [fieldsLine, fieldLines, fieldTokens, Writing.text, TextStyle.scalarStyle] using hsteps
      · have hnext : IsPrintable (fieldsLine k more ++ (spaces n ++ rest)) := by
          simp only [IsPrintable.append_iff]
          exact ⟨isPrintable_fieldsLine _ hmore, isPrintable_spaces n, hprint⟩
        have hall : IsPrintable (lines k value ++ (spaces k ++ (fieldsLine k more ++ (spaces n ++ rest)))) := by
          rw [IsPrintable.append_iff, IsPrintable.append_iff]
          exact ⟨isPrintable_lines k value hvalue, isPrintable_spaces k, hnext⟩
        have hfirst := Progress.stepsToLine_key hopens hcolumn hall hname (by decide) hline
          (by rwa [sum_utf8Size]) (isAtGap_lines value _) fun p' hp' =>
            reachesLine_lines value hvalue (by simp) rfl hp' (Nat.le_refl k) hnext
              (startsToken_fieldsLine _ hmore hlast _)
        have hsteps := hfirst.trans fun p' hp' =>
          stepsToLine_fieldsLine more hmore hlast (.another outer) hp' hn hprint htoken
        simpa [fieldsLine, fieldLines_eq hlast, fieldTokens, Writing.text, TextStyle.scalarStyle]
          using hsteps

end

/-! ### Documents -/

/-- At the end of the text everything is closed. -/
theorem spells_end (hcolumn : p.column = 0) :
    Progress.Spells (lineStart tokens [0] p []) (tokens.reverse ++ [.blockEnd, .streamEnd]) := by
  intro q fuel hready hfuel
  have hstart : lineStart tokens [0] p [] = inBlock none true tokens [0] (.ofChars p []) :=
    Progress.lineStart_eq (by simp [hcolumn])
  have hend : (lineStart tokens [0] p []).token? =
      some ⟨.finish p, .streamEnd :: .blockEnd :: tokens, [], none, [], false, false⟩ := by
    have hclose : (inBlock none true tokens [0] (.ofChars p [])).close 0 =
        inBlock none true (.blockEnd :: tokens) [] (.ofChars p []) := rfl
    have hkey : (inBlock none true (.blockEnd :: tokens) [] (.ofChars p [])).dropKey? =
        some (inBlock none true (.blockEnd :: tokens) [] (.ofChars p [])) := rfl
    have hhere : (inBlock none true (.blockEnd :: tokens) [] (.ofChars p [])).ahead.position.column =
        0 := hcolumn
    rw [hstart]
    change Progress.finish? _ = _
    rw [Progress.finish?, hclose, hkey]
    simp only [Option.bind_eq_bind, Option.bind_some, if_pos hhere]
    rfl
  have hover (fuel : Nat) : Progress.run fuel
      ⟨.finish p, .streamEnd :: .blockEnd :: tokens, [], none, [], false, false⟩ =
        tokens.reverse ++ [.blockEnd, .streamEnd] := by
    cases fuel with
    | zero => simp [Progress.run, Progress.certain, Progress.count, List.take_of_length_le]
    | succ fuel => simp [Progress.run]
  cases fuel with
  | zero => exact absurd hfuel (Nat.not_lt_zero _)
  | succ fuel =>
      rw [Progress.run_of_ready? hready (by rw [hstart]; rfl) hend rfl rfl]
      exact hover fuel

theorem tokens_document {fields : List (String × Value)} (h : AreWritable fields)
    (hne : fields ≠ []) :
    (Stream.ofText (document fields).toList).1.tokens (Stream.ofText (document fields).toList).2 =
      .blockMappingStart :: fieldTokens fields ++ [.blockEnd, .streamEnd] := by
  have hprint := isPrintable_fieldsLine 0 h
  have htext : (document fields).toList = fieldsLine 0 fields := by
    rw [document, String.toList_ofList, fieldLines_eq hne]
    rfl
  have hfirst : Opens 0 [] [] [0] [.blockMappingStart] := .first [] (by simp)
  obtain ⟨p', hcolumn, hsteps⟩ := stepsToLine_fieldsLine fields h hne hfirst (p := .start) rfl
    (Nat.le_refl 0) .nil (by simp [StartsToken])
  have hspells := Progress.Spells.of_reflTransGen hsteps (spells_end hcolumn)
  have hready := @Progress.ready?_lineStart .start (fieldsLine 0 fields) [] [] (by simp) hprint
    (by simpa using startsToken_fieldsLine 0 h hne [])
  have hnothing : spaces 0 ++ [] = [] := rfl
  rw [hnothing, List.append_nil] at hspells
  have hfuel : (Stream.ofChars .start (fieldsLine 0 fields)).length <
      (Stream.ofChars .start (fieldsLine 0 fields)).length + 2 := Nat.lt_add_of_pos_right (by decide)
  have hrun := hspells _ _ hready hfuel
  rw [htext, Stream.ofText_eq hprint]
  refine hrun.trans ?_
  simp

end Value

end SafeCalls.Yaml
