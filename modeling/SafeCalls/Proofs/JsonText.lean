import SafeCalls.Json.Decode

namespace SafeCalls.Json

/-!
# Reading indented texts

The reader takes the indented text of a value for the reading of that value, whatever follows the
text, as long as that cannot belong to a number. Digits and strings come first; for whole values the
induction is on the value, and the length of the text bounds the steps.
-/

/-- A text that does not go on with the number in front of it. -/
def EndsNumber (rest : List Char) : Prop :=
  ∀ c ∈ rest.head?, c.isDigit = false ∧ c ≠ '.' ∧ c ≠ 'e' ∧ c ≠ 'E'

@[simp] theorem endsNumber_cons (c : Char) (rest : List Char) :
    EndsNumber (c :: rest) ↔ c.isDigit = false ∧ c ≠ '.' ∧ c ≠ 'e' ∧ c ≠ 'E' := by
  simp [EndsNumber]

theorem isDigit_of_mem_toDigits {n : Nat} {c : Char} (h : c ∈ Nat.toDigits 10 n) : c.isDigit :=
  Nat.isDigit_of_mem_toDigits (by decide) (by decide) h

theorem exists_toDigits_eq_cons (n : Nat) :
    ∃ d ds, Nat.toDigits 10 n = d :: ds ∧ d.isDigit ∧ (d = '0' → ds = []) := by
  induction n using Nat.strongRecOn with
  | ind n ih =>
      by_cases hn : n < 10
      · have hd : n.digitChar ∈ Nat.toDigits 10 n := by simp [Nat.toDigits_of_lt_base hn]
        exact ⟨_, _, Nat.toDigits_of_lt_base hn, isDigit_of_mem_toDigits hd, fun _ => rfl⟩
      · have hle : 10 ≤ n := by omega
        have hsplit := Nat.toDigits_of_base_le (by decide : 1 < 10) hle
        obtain ⟨d, ds, heq, hd, hzero⟩ := ih (n / 10) (by omega)
        rw [heq, List.cons_append] at hsplit
        refine ⟨d, _, hsplit, hd, fun h => ?_⟩
        -- a tenth of `n` that starts with a zero is zero
        have hvalue := Nat.ofDigitChars_ten_toDigits (n := n / 10)
        rw [heq, h, hzero h] at hvalue
        simp [Nat.ofDigitChars] at hvalue
        omega

namespace Numeral

theorem natValue_toDigits (n : Nat) : natValue (Nat.toDigits 10 n) = n := by
  have h := Nat.ofDigitChars_ten_toDigits (n := n)
  rw [Nat.ofDigitChars_eq_foldl] at h
  simpa only [natValue, digitValue, Nat.mul_comm] using h

theorem spanDigits_append {ds rest : List Char} (hds : ∀ c ∈ ds, c.isDigit)
    (hrest : EndsNumber rest) : spanDigits (ds ++ rest) = (ds, rest) := by
  rw [spanDigits, List.takeWhile_append_of_pos hds, List.dropWhile_append_of_pos hds]
  cases rest with
  | nil => simp
  | cons c rest => simp [((endsNumber_cons c rest).1 hrest).1]

theorem readFraction_of_endsNumber {rest : List Char} (h : EndsNumber rest) :
    readFraction rest = .ok (none, rest) := by
  cases rest with
  | nil => rfl
  | cons c rest =>
      obtain ⟨-, hpoint, -⟩ := (endsNumber_cons c rest).1 h
      rw [readFraction]
      simpa using hpoint

theorem readExponent_of_endsNumber {rest : List Char} (h : EndsNumber rest) :
    readExponent rest = .ok (none, rest) := by
  cases rest with
  | nil => rfl
  | cons c rest =>
      obtain ⟨-, -, hlower, hupper⟩ := (endsNumber_cons c rest).1 h
      rw [readExponent]
      · simpa using hlower
      · simpa using hupper

theorem readUnsigned_digits (n : Nat) {rest : List Char} (hrest : EndsNumber rest) :
    readUnsigned false (Nat.toDigits 10 n ++ rest) =
      .ok (⟨false, Nat.toDigits 10 n, none, none⟩, rest) := by
  have hspan : spanDigits (Nat.toDigits 10 n ++ rest) = (Nat.toDigits 10 n, rest) :=
    spanDigits_append (fun _ => isDigit_of_mem_toDigits) hrest
  obtain ⟨d, ds, heq, -, hzero⟩ := exists_toDigits_eq_cons n
  have hlead : ¬ (d = '0' ∧ 0 < ds.length) := by
    rintro ⟨h, hlong⟩
    simp [hzero h] at hlong
  rw [readUnsigned, hspan, heq]
  simp [readFraction_of_endsNumber hrest, readExponent_of_endsNumber hrest, hlead, bind,
    Except.bind, pure, Except.pure]

theorem read_digits {n : Nat} (hn : n ≤ maxNatural) {rest : List Char} (hrest : EndsNumber rest) :
    read (Nat.toDigits 10 n ++ rest) = (Token.of (.natural n), some rest) := by
  obtain ⟨d, ds, heq, hd, -⟩ := exists_toDigits_eq_cons n
  have hminus : d ≠ '-' := by
    rintro rfl
    simp at hd
  have hparts := readUnsigned_digits n hrest
  have htoken : (⟨false, Nat.toDigits 10 n, none, none⟩ : Parts).token = Token.of (.natural n) := by
    simp [Parts.token, Parts.numeral?, natValue_toDigits, hn]
  rw [heq, List.cons_append] at hparts ⊢
  rw [heq] at htoken
  rw [read]
  · simp only [hparts, htoken]
  · intro body h
    exact hminus (List.cons.inj h).1

end Numeral

theorem unit?_hexDigits {n : Nat} (h : n < 0x20) :
    unit? '0' '0' (hexDigit (n / 16)) (hexDigit (n % 16)) = some n := by
  have hall : ∀ n < 0x20, unit? '0' '0' (hexDigit (n / 16)) (hexDigit (n % 16)) = some n := by
    decide
  exact hall n h

/-- A character is spelled by one more character after a backslash, by the escape of its code
unit, or by itself. -/
theorem escaped_cases (c : Char) :
    (∃ e, escaped c = ['\\', e] ∧ simpleEscape? e = some c) ∨
      (escaped c =
          ['\\', 'u', '0', '0', hexDigit (c.toNat / 16), hexDigit (c.toNat % 16)] ∧
        c.toNat < 0x20) ∨
      (escaped c = [c] ∧ c ≠ '"' ∧ c ≠ '\\' ∧ ¬ c.toNat < 0x20) := by
  by_cases h : c ∈ ['"', '\\', '\x08', '\x0c', '\n', '\r', '\t']
  · left
    simp only [List.mem_cons, List.not_mem_nil, or_false] at h
    rcases h with rfl | rfl | rfl | rfl | rfl | rfl | rfl <;> exact ⟨_, rfl, rfl⟩
  · right
    simp only [List.mem_cons, List.not_mem_nil, or_false, not_or] at h
    obtain ⟨hquote, hslash, hb, hf, hn, hr, ht⟩ := h
    by_cases hlow : c.toNat < 0x20
    · exact .inl ⟨by simp [escaped, hquote, hslash, hb, hf, hn, hr, ht, hlow], hlow⟩
    · exact .inr ⟨by simp [escaped, hquote, hslash, hb, hf, hn, hr, ht, hlow], hquote, hslash, hlow⟩

theorem unescape_escaped (c : Char) (cs : List Char) :
    unescape (escaped c ++ cs) = (unescape cs).map (c :: ·) := by
  rcases escaped_cases c with ⟨e, heq, he⟩ | ⟨heq, hc⟩ | ⟨heq, hquote, hslash, hc⟩
  · have hu : e ≠ 'u' := by
      rintro rfl
      simp [simpleEscape?] at he
    rw [heq, List.cons_append, List.singleton_append, unescape] <;> simp [he, hu]
  · have hlow : isLowHalf c.toNat = false := by simp [isLowHalf]; omega
    have hhigh : isHighHalf c.toNat = false := by simp [isHighHalf]; omega
    simp [heq, unescape, unit?_hexDigits hc, hlow, hhigh]
  · rw [heq, List.singleton_append, unescape, if_neg hc] <;> simp [hquote, hslash]

theorem passString_escaped (c : Char) (cs : List Char) :
    passString (escaped c ++ cs) =
      (passString cs).map fun (spelling, after) => (escaped c ++ spelling, after) := by
  rcases escaped_cases c with ⟨e, heq, he⟩ | ⟨heq, hc⟩ | ⟨heq, hquote, hslash, hc⟩
  · have hu : e ≠ 'u' := by
      rintro rfl
      simp [simpleEscape?] at he
    rw [heq, List.cons_append, List.singleton_append, passString] <;> simp [he, hu]
  · simp [heq, passString, unit?_hexDigits hc]
  · rw [heq, List.singleton_append, passString, if_neg hc] <;> simp [hquote, hslash]

theorem readString_escaped (s : String) (rest : List Char) :
    readString (s.toList.flatMap escaped ++ '"' :: rest) = (Name.ofString s, some rest) := by
  have hvalue : ∀ cs : List Char, unescape (cs.flatMap escaped ++ '"' :: rest) = .ok cs := by
    intro cs
    induction cs with
    | nil => simp [unescape]
    | cons c cs ih =>
        rw [List.flatMap_cons, List.append_assoc, unescape_escaped, ih]
        rfl
  have hspelling : ∀ cs : List Char,
      passString (cs.flatMap escaped ++ '"' :: rest) = .ok (cs.flatMap escaped, rest) := by
    intro cs
    induction cs with
    | nil => simp [passString]
    | cons c cs ih =>
        rw [List.flatMap_cons, List.append_assoc, passString_escaped, ih]
        rfl
  simp [readString, hvalue, hspelling, Name.ofString, Token.of, Except.map]

mutual

/-- Whether every number inside fits into 64 bits. -/
@[simp] def InRange : Json → Prop
  | .null => True
  | .bool _ => True
  | .number n => n ≤ maxNatural
  | .text _ => True
  | .list items => ItemsInRange items
  | .object members => MembersInRange members

@[simp] def ItemsInRange : List Json → Prop
  | [] => True
  | item :: more => InRange item ∧ ItemsInRange more

@[simp] def MembersInRange : List (String × Json) → Prop
  | [] => True
  | (_, value) :: more => InRange value ∧ MembersInRange more

end

theorem inRange_list {items : List Json} :
    (Json.list items).InRange ↔ ∀ item ∈ items, item.InRange := by
  rw [InRange]
  induction items with
  | nil => simp
  | cons item more ih => simp [ih]

theorem inRange_object {members : List (String × Json)} :
    (Json.object members).InRange ↔ ∀ m ∈ members, m.2.InRange := by
  rw [InRange]
  induction members with
  | nil => simp
  | cons m more ih => rw [MembersInRange, List.forall_mem_cons, ih]

theorem toNat_le_maxNatural (n : UInt32) : n.toNat ≤ maxNatural := by
  have hn := n.toNat_lt
  change n.toNat ≤ UInt64.size - 1
  simp only [UInt64.size]
  omega

@[simp] theorem inRange_texts (values : List String) : (Json.texts values).InRange := by
  rw [texts, inRange_list]
  simp

theorem inRange_optional {α : Type} {write : α → Json} (value : Option α)
    (h : ∀ a, (write a).InRange) : (Json.optional write value).InRange := by
  cases value with
  | none => simp [Json.optional]
  | some a => exact h a

theorem skipSpace_cons {c : Char} (hc : isSpace c = false) (cs : List Char) :
    skipSpace (c :: cs) = c :: cs := by
  simp [skipSpace, hc]

theorem isSpace_of_mem_newline {level : Nat} {c : Char} (h : c ∈ newline level) : isSpace c := by
  rcases List.mem_cons.1 h with rfl | h
  · rfl
  · rw [List.eq_of_mem_replicate h]
    rfl

theorem skipSpace_append {blank : List Char} (hblank : ∀ c ∈ blank, isSpace c) (cs : List Char) :
    skipSpace (blank ++ cs) = skipSpace cs :=
  List.dropWhile_append_of_pos hblank

@[simp] theorem skipSpace_newline (level : Nat) (cs : List Char) :
    skipSpace (newline level ++ cs) = skipSpace cs :=
  skipSpace_append (fun _ => isSpace_of_mem_newline) cs

theorem endsNumber_newline (level : Nat) (cs : List Char) : EndsNumber (newline level ++ cs) := by
  simp [newline]

@[simp] theorem readValue_newline (fuel level : Nat) (cs : List Char) :
    readValue fuel (newline level ++ cs) = readValue fuel cs := by
  cases fuel <;> simp [readValue]

@[simp] theorem readItems_newline (fuel level : Nat) (cs : List Char) :
    readItems fuel (newline level ++ cs) = readItems fuel cs := by
  cases fuel <;> simp [readItems]

@[simp] theorem readMembers_newline (fuel level : Nat) (cs : List Char) :
    readMembers fuel (newline level ++ cs) = readMembers fuel cs := by
  cases fuel <;> simp [readMembers]

theorem readValue_space (fuel : Nat) (cs : List Char) :
    readValue fuel (' ' :: cs) = readValue fuel cs := by
  have hskip : skipSpace (' ' :: cs) = skipSpace cs := by simp [skipSpace, isSpace]
  cases fuel <;> simp [readValue, hskip]

/-- A text that starts neither with a blank nor with the end of a list. -/
def StartsItem (text : List Char) : Prop := ∃ c cs, text = c :: cs ∧ isSpace c = false ∧ c ≠ ']'

theorem StartsItem.append {text : List Char} (h : StartsItem text) (rest : List Char) :
    StartsItem (text ++ rest) := by
  obtain ⟨c, cs, rfl, hspace, hc⟩ := h
  exact ⟨c, cs ++ rest, rfl, hspace, hc⟩

theorem StartsItem.skipSpace {text : List Char} (h : StartsItem text) : skipSpace text = text := by
  obtain ⟨c, cs, rfl, hspace, -⟩ := h
  exact skipSpace_cons hspace cs

theorem startsItem_of_isDigit {c : Char} (h : c.isDigit) (cs : List Char) :
    StartsItem (c :: cs) := by
  refine ⟨c, cs, rfl, ?_, ?_⟩
  · simp only [isSpace, Bool.or_eq_false_iff, beq_eq_false_iff_ne]
    refine ⟨⟨⟨?_, ?_⟩, ?_⟩, ?_⟩ <;> (rintro rfl; simp at h)
  · rintro rfl
    simp at h

theorem startsItem_prettyChars (level : Nat) (v : Json) : StartsItem (prettyChars level v) := by
  cases v with
  | null => exact ⟨_, _, rfl, by decide, by decide⟩
  | bool b => cases b <;> exact ⟨_, _, rfl, by decide, by decide⟩
  | number n =>
      obtain ⟨d, ds, heq, hd, -⟩ := exists_toDigits_eq_cons n
      rw [prettyChars, heq]
      exact startsItem_of_isDigit hd ds
  | text s => exact ⟨_, _, rfl, by decide, by decide⟩
  | list items =>
      rw [prettyChars]
      cases prettyItems (level + 1) items <;> exact ⟨_, _, rfl, by decide, by decide⟩
  | object members =>
      rw [prettyChars]
      cases prettyMembers (level + 1) members <;> exact ⟨_, _, rfl, by decide, by decide⟩

theorem readValue_digits (fuel : Nat) {n : Nat} (hn : n ≤ maxNatural) {rest : List Char}
    (hrest : EndsNumber rest) :
    readValue (fuel + 1) (Nat.toDigits 10 n ++ rest) =
      ⟨.number (Token.of (.natural n)), some rest⟩ := by
  have hread := Numeral.read_digits hn hrest
  obtain ⟨d, ds, heq, hd, -⟩ := exists_toDigits_eq_cons n
  rw [heq, List.cons_append] at hread ⊢
  rw [readValue, (startsItem_of_isDigit hd _).skipSpace]
  split
  case h_8 c cs _ _ _ _ _ _ h =>
    obtain ⟨rfl, rfl⟩ := List.cons.inj h
    simp [hd, Read.ofNumber, hread]
  -- the other cases start with a character that is no digit
  all_goals simp_all

theorem readValue_list {blank text : List Char} (hblank : ∀ c ∈ blank, isSpace c)
    (h : StartsItem text) (fuel : Nat) :
    readValue (fuel + 1) ('[' :: (blank ++ text)) =
      ⟨.list (readItems fuel text).part.1 (readItems fuel text).part.2,
        (readItems fuel text).rest⟩ := by
  obtain ⟨c, cs, rfl, hspace, hc⟩ := h
  have hbracket : skipSpace ('[' :: (blank ++ c :: cs)) = '[' :: (blank ++ c :: cs) :=
    skipSpace_cons rfl _
  simp [readValue, hbracket, skipSpace_append hblank, skipSpace_cons hspace, hc]

theorem readValue_object (fuel level : Nat) (cs : List Char) :
    readValue (fuel + 1) ('\x7b' :: (newline level ++ '"' :: cs)) =
      ⟨.object (readMembers fuel ('"' :: cs)).part.1 (readMembers fuel ('"' :: cs)).part.2,
        (readMembers fuel ('"' :: cs)).rest⟩ := by
  have hbrace : skipSpace ('\x7b' :: (newline level ++ '"' :: cs)) =
      '\x7b' :: (newline level ++ '"' :: cs) := skipSpace_cons rfl _
  have hquote : skipSpace ('"' :: cs) = '"' :: cs := skipSpace_cons rfl _
  simp [readValue, hbrace, hquote]

theorem readItems_comma {fuel : Nat} {text rest more : List Char} {item : Reading}
    (hitem : readValue fuel text = ⟨item, some rest⟩) (hrest : skipSpace rest = ',' :: more) :
    readItems (fuel + 1) text =
      ⟨(item :: (readItems fuel more).part.1, (readItems fuel more).part.2),
        (readItems fuel more).rest⟩ := by
  simp [readItems, hitem, hrest]

theorem readItems_bracket {fuel : Nat} {text rest more : List Char} {item : Reading}
    (hitem : readValue fuel text = ⟨item, some rest⟩) (hrest : skipSpace rest = ']' :: more) :
    readItems (fuel + 1) text = ⟨([item], .closed), some more⟩ := by
  simp [readItems, hitem, hrest]

theorem readMembers_comma {fuel : Nat} (name : String) {text rest more : List Char}
    {value : Reading} (hvalue : readValue fuel text = ⟨value, some rest⟩)
    (hrest : skipSpace rest = ',' :: more) :
    readMembers (fuel + 1) (quote name ++ ':' :: ' ' :: text) =
      ⟨(⟨Name.ofString name, value⟩ :: (readMembers fuel more).part.1,
        (readMembers fuel more).part.2), (readMembers fuel more).rest⟩ := by
  have hquote := skipSpace_cons (by rfl : isSpace '"' = false)
    (name.toList.flatMap escaped ++ '"' :: ':' :: ' ' :: text)
  have hcolon := skipSpace_cons (by rfl : isSpace ':' = false) (' ' :: text)
  simp [readMembers, quote, hquote, readString_escaped, readColon, hcolon, readValue_space, hvalue,
    hrest]

theorem readMembers_brace {fuel : Nat} (name : String) {text rest more : List Char}
    {value : Reading} (hvalue : readValue fuel text = ⟨value, some rest⟩)
    (hrest : skipSpace rest = '\x7d' :: more) :
    readMembers (fuel + 1) (quote name ++ ':' :: ' ' :: text) =
      ⟨([⟨Name.ofString name, value⟩], .closed), some more⟩ := by
  have hquote := skipSpace_cons (by rfl : isSpace '"' = false)
    (name.toList.flatMap escaped ++ '"' :: ':' :: ' ' :: text)
  have hcolon := skipSpace_cons (by rfl : isSpace ':' = false) (' ' :: text)
  simp [readMembers, quote, hquote, readString_escaped, readColon, hcolon, readValue_space, hvalue,
    hrest]

theorem exists_separated_eq_append (between part : List Char) (more : List (List Char)) :
    ∃ cs, separated between (part :: more) = part ++ cs := by
  cases more with
  | nil => exact ⟨[], by simp [separated]⟩
  | cons next more => exact ⟨_, rfl⟩

mutual

theorem readValue_prettyChars : ∀ (v : Json) (level fuel : Nat) (rest : List Char), v.InRange →
    EndsNumber rest → (prettyChars level v).length ≤ fuel →
    readValue fuel (prettyChars level v ++ rest) = ⟨v.reading, some rest⟩
  | .null, level, fuel + 1, rest, _, _, _ => rfl
  | .bool true, level, fuel + 1, rest, _, _, _ => rfl
  | .bool false, level, fuel + 1, rest, _, _, _ => rfl
  | .number n, level, fuel + 1, rest, hrange, hrest, _ => by
      rw [prettyChars, reading]
      exact readValue_digits fuel hrange hrest
  | .text s, level, fuel + 1, rest, _, _, _ => by
      have hquote := skipSpace_cons (by rfl : isSpace '"' = false)
        (s.toList.flatMap escaped ++ '"' :: rest)
      simp [prettyChars, quote, readValue, hquote, Read.ofString, readString_escaped, reading,
        Name.ofString]
  | .list [], level, fuel + 1, rest, _, _, _ => rfl
  | .list (item :: more), level, fuel + 1, rest, hrange, _, hfuel => by
      -- The brackets are longer than the one step that leads inside of them.
      have hlength : (prettyChars level (.list (item :: more))).length =
          (separated (',' :: newline (level + 1)) (prettyItems (level + 1) (item :: more))).length +
            4 * level + 6 := by
        simp [prettyChars, prettyItems, bracketed, newline]
        omega
      have hitems := readItems_prettyItems (item :: more) (level + 1) level fuel rest
        (List.cons_ne_nil _ _) hrange (by omega)
      have hstart : StartsItem
          (separated (',' :: newline (level + 1)) (prettyItems (level + 1) (item :: more))) := by
        obtain ⟨cs, heq⟩ := exists_separated_eq_append (',' :: newline (level + 1))
          (prettyChars (level + 1) item) (prettyItems (level + 1) more)
        rw [prettyItems, heq]
        exact (startsItem_prettyChars (level + 1) item).append cs
      have hblank : ∀ c ∈ newline (level + 1), isSpace c := fun _ => isSpace_of_mem_newline
      have hread := readValue_list hblank (hstart.append (newline level ++ ']' :: rest)) fuel
      rw [hitems] at hread
      simpa [prettyChars, prettyItems, bracketed, reading] using hread
  | .object [], level, fuel + 1, rest, _, _, _ => rfl
  | .object ((name, value) :: more), level, fuel + 1, rest, hrange, hrest, hfuel => by
      have hlength : (prettyChars level (.object ((name, value) :: more))).length =
          (separated (',' :: newline (level + 1))
            (prettyMembers (level + 1) ((name, value) :: more))).length + 4 * level + 6 := by
        simp [prettyChars, prettyMembers, bracketed, newline]
        omega
      have hmembers := readMembers_prettyMembers ((name, value) :: more) (level + 1) level fuel rest
        (List.cons_ne_nil _ _) hrange (by omega)
      obtain ⟨cs, heq⟩ := exists_separated_eq_append (',' :: newline (level + 1))
        (quote name ++ ':' :: ' ' :: prettyChars (level + 1) value) (prettyMembers (level + 1) more)
      have hread := readValue_object fuel (level + 1) (name.toList.flatMap escaped ++ '"' :: ':' ::
        ' ' :: (prettyChars (level + 1) value ++ (cs ++ (newline level ++ '\x7d' :: rest))))
      have htext : separated (',' :: newline (level + 1))
            (prettyMembers (level + 1) ((name, value) :: more)) ++
          (newline level ++ '\x7d' :: rest) =
          '"' :: (name.toList.flatMap escaped ++ '"' :: ':' :: ' ' ::
            (prettyChars (level + 1) value ++ (cs ++ (newline level ++ '\x7d' :: rest)))) := by
        rw [prettyMembers, heq, quote]
        simp
      rw [← htext, hmembers] at hread
      simpa [prettyChars, prettyMembers, bracketed, reading] using hread
  | v, level, 0, rest, _, _, hfuel => by
      obtain ⟨c, cs, heq, -⟩ := startsItem_prettyChars level v
      simp [heq] at hfuel

theorem readItems_prettyItems : ∀ (items : List Json) (level outer fuel : Nat)
    (rest : List Char), items ≠ [] → ItemsInRange items →
    (separated (',' :: newline level) (prettyItems level items)).length < fuel →
    readItems fuel (separated (',' :: newline level) (prettyItems level items) ++
        (newline outer ++ ']' :: rest)) = ⟨(readingItems items, .closed), some rest⟩
  | [item], level, outer, fuel + 1, rest, _, hrange, hfuel => by
      have hitem := readValue_prettyChars item level fuel (newline outer ++ ']' :: rest) hrange.1
        (endsNumber_newline outer _) (by simp [prettyItems, separated] at hfuel; omega)
      have hclose : skipSpace (newline outer ++ ']' :: rest) = ']' :: rest := by
        rw [skipSpace_newline, skipSpace_cons rfl]
      simpa [prettyItems, separated, readingItems] using readItems_bracket hitem hclose
  | item :: next :: more, level, outer, fuel + 1, rest, _, hrange, hfuel => by
      have hlength : (separated (',' :: newline level)
            (prettyItems level (item :: next :: more))).length =
          (prettyChars level item).length + 2 * level + 2 +
            (separated (',' :: newline level) (prettyItems level (next :: more))).length := by
        simp [prettyItems, separated, newline]
        omega
      have hmore := readItems_prettyItems (next :: more) level outer fuel rest
        (List.cons_ne_nil _ _) hrange.2 (by omega)
      have hitem := readValue_prettyChars item level fuel
        (',' :: (newline level ++
          (separated (',' :: newline level) (prettyItems level (next :: more)) ++
            (newline outer ++ ']' :: rest))))
        hrange.1 (by simp) (by omega)
      have hread := readItems_comma hitem (skipSpace_cons rfl _)
      rw [readItems_newline, hmore] at hread
      simpa [prettyItems, separated, readingItems] using hread

theorem readMembers_prettyMembers : ∀ (members : List (String × Json)) (level outer fuel : Nat)
    (rest : List Char), members ≠ [] → MembersInRange members →
    (separated (',' :: newline level) (prettyMembers level members)).length < fuel →
    readMembers fuel (separated (',' :: newline level) (prettyMembers level members) ++
        (newline outer ++ '\x7d' :: rest)) = ⟨(readingMembers members, .closed), some rest⟩
  | [(name, value)], level, outer, fuel + 1, rest, _, hrange, hfuel => by
      have hvalue := readValue_prettyChars value level fuel (newline outer ++ '\x7d' :: rest)
        hrange.1 (endsNumber_newline outer _)
        (by simp [prettyMembers, separated] at hfuel; omega)
      have hclose : skipSpace (newline outer ++ '\x7d' :: rest) = '\x7d' :: rest := by
        rw [skipSpace_newline, skipSpace_cons rfl]
      have hread := readMembers_brace name hvalue hclose
      simpa [prettyMembers, separated, readingMembers] using hread
  | (name, value) :: next :: more, level, outer, fuel + 1, rest, _, hrange, hfuel => by
      have hlength : (separated (',' :: newline level)
            (prettyMembers level ((name, value) :: next :: more))).length =
          (quote name).length + (prettyChars level value).length + 2 * level + 4 +
            (separated (',' :: newline level) (prettyMembers level (next :: more))).length := by
        simp [prettyMembers, separated, newline]
        omega
      have hmore := readMembers_prettyMembers (next :: more) level outer fuel rest
        (List.cons_ne_nil _ _) hrange.2 (by omega)
      have hvalue := readValue_prettyChars value level fuel
        (',' :: (newline level ++
          (separated (',' :: newline level) (prettyMembers level (next :: more)) ++
            (newline outer ++ '\x7d' :: rest))))
        hrange.1 (by simp) (by omega)
      have hread := readMembers_comma name hvalue (skipSpace_cons rfl _)
      rw [readMembers_newline, hmore] at hread
      simpa [prettyMembers, separated, readingMembers] using hread

end

/-- The indented text of a value spells the value and nothing else, also with blanks after it. -/
theorem readText_pretty_append {v : Json} (hrange : v.InRange) {blank : List Char}
    (hblank : ∀ c ∈ blank, isSpace c) :
    readText (v.pretty ++ String.ofList blank) = ⟨v.reading, none⟩ := by
  have hends : EndsNumber blank := by
    intro c hc
    have hspace := hblank c (List.mem_of_mem_head? hc)
    refine ⟨?_, ?_, ?_, ?_⟩
    · simp only [isSpace, Bool.or_eq_true, beq_iff_eq] at hspace
      rcases hspace with ((rfl | rfl) | rfl) | rfl <;> rfl
    · rintro rfl
      cases hspace
    · rintro rfl
      cases hspace
    · rintro rfl
      cases hspace
  have hskip : skipSpace blank = [] := by
    have h := skipSpace_append hblank []
    rwa [List.append_nil] at h
  have hread := readValue_prettyChars v 0 (2 * (v.prettyChars 0 ++ blank).length + 2) blank hrange
    hends (by rw [List.length_append]; omega)
  simp only [readText, pretty, String.toList_append, String.toList_ofList, hread, hskip]
  rfl

theorem readText_pretty {v : Json} (hrange : v.InRange) :
    readText v.pretty = ⟨v.reading, none⟩ := by
  have hread := readText_pretty_append hrange (List.forall_mem_nil _)
  rwa [String.ofList_nil, String.append_empty] at hread

theorem decode_of_readText {α : Type} (read : Nat → Manner → Reading → Except Error α)
    {text : String} {v : Json} (h : readText text = ⟨v.reading, none⟩) :
    decode read text = read nestingLimit .direct v.reading := by
  rw [decode, h]
  cases read nestingLimit .direct v.reading <;> rfl

theorem decode_pretty {α : Type} (read : Nat → Manner → Reading → Except Error α) {v : Json}
    (hrange : v.InRange) : decode read v.pretty = read nestingLimit .direct v.reading :=
  decode_of_readText read (readText_pretty hrange)

end SafeCalls.Json
