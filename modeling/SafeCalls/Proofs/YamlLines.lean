import SafeCalls.Proofs.YamlScalarSteps

namespace SafeCalls.Yaml

/-!
# The tokens of written lines

Every entry of a record or a map is written on lines of its own, and its tokens are a key and a
value. The first entry opens the collection, and the line after the last one closes it.
-/

open Relation (ReflTransGen)
open TextStyle (isPrintable isAtGap)
open Writing (spaces)

namespace Progress

/-- What the first or another key at a column does to the open collections and to the tokens. -/
inductive Opens (column : Nat) (tokens : List Token) : List Nat → List Nat → List Token → Prop
  | first (indents : List Nat) (h : ∀ i ∈ indents.head?, i < column) :
      Opens column tokens indents (column :: indents) (.blockMappingStart :: tokens)
  | another (indents : List Nat) :
      Opens column tokens (column :: indents) (column :: indents) tokens

variable {k n : Nat} {candidate : Option Candidate} {a : Bool}
variable {tokens tokens' : List Token} {indents indents' : List Nat}
variable {later : List Token} {indents'' : List Nat}
variable {p : Position} {s : Stream} {cs rest tail : List Char} {style : TextStyle}

namespace Opens

theorem le (h : Opens k tokens indents indents' tokens') : ∀ i ∈ indents.head?, i ≤ k := by
  intro i hi
  cases h with
  | first indents h => exact Nat.le_of_lt (h i hi)
  | another indents =>
      cases hi
      exact Nat.le_refl k

theorem head? (h : Opens k tokens indents indents' tokens') : indents'.head? = some k := by
  cases h <;> rfl

theorem openAt (h : Opens k tokens indents indents' tokens') (before : List Token) (s : Stream) :
    (inBlock candidate a (before ++ tokens) indents s).openAt k tokens.length .blockMappingStart =
      inBlock candidate a (before ++ tokens') indents' s := by
  cases h with
  | first indents h =>
      have hmargin : (inBlock candidate a (before ++ tokens) indents s).margin ≤ k := by
        cases indents with
        | nil => exact Nat.zero_le k
        | cons i indents => exact Nat.succ_le_of_lt (h i rfl)
      have hopens : (!(inBlock candidate a (before ++ tokens) indents s).inFlow &&
          decide ((inBlock candidate a (before ++ tokens) indents s).margin ≤ k)) = true := by
        rw [decide_eq_true hmargin]
        rfl
      rw [Progress.openAt, if_pos hopens]
      simp [insert, inBlock, count]
  | another indents =>
      have hmargin : ¬ (inBlock candidate a (before ++ tokens) (k :: indents) s).margin ≤ k :=
        Nat.not_succ_le_self k
      simp [Progress.openAt, hmargin]

end Opens

/-- A key is one because of the colon after it. -/
theorem value?_key (h : Opens k tokens indents indents' tokens') {isRequired : Bool}
    (hcolumn : p.column = k) {token : Token} {s : Stream} :
    (inBlock (some ⟨tokens.length, p, isRequired⟩) a (token :: tokens) indents s).value? =
      some (inBlock none false (.value :: token :: .key :: tokens') indents' s.tail) := by
  have hinsert : (inBlock (some ⟨tokens.length, p, isRequired⟩) a (token :: tokens) indents s).insert
      tokens.length .key =
        inBlock (some ⟨tokens.length, p, isRequired⟩) a ([token, .key] ++ tokens) indents s := by
    simp [insert, inBlock, count]
  subst hcolumn
  change some ((({ Progress.openAt ((inBlock (some ⟨tokens.length, p, isRequired⟩) a (token :: tokens)
    indents s).insert tokens.length .key) p.column tokens.length .blockMappingStart
      with candidate := none }).allowKey false).take 1 .value) = _
  rw [hinsert, h.openAt]
  rfl

theorem char?_ofChars_cons {c : Char} (h : IsPrintable (c :: cs)) :
    (Stream.ofChars p (c :: cs)).char? 0 = some c := Stream.char?_ofChars h 0

theorem indicated?_colon (hprint : IsPrintable rest) (hgap : isAtGap rest) :
    (inBlock candidate a tokens indents (.ofChars p (':' :: rest))).indicated? ':' =
      some (inBlock candidate a tokens indents (.ofChars p (':' :: rest))).value? := by
  have hgap' : (Stream.ofChars p (':' :: rest)).isGap 1 := by
    rw [Stream.isGap_ofChars (IsPrintable.cons_iff.2 ⟨by decide, hprint⟩), List.drop_one,
      List.tail_cons, hgap]
  simp [indicated?, inBlock, hgap']

/-- From the place of a token it goes on to the first one of a line. -/
def StepsToLine (q : Progress) (tokens : List Token) (indents : List Nat) (column : Nat)
    (rest : List Char) : Prop :=
  ∃ p' : Position, p'.column = column ∧ ReflTransGen Next q (lineStart tokens indents p' rest)

/-- The same from a state before the place of a token. -/
def ReachesLine (s : Progress) (tokens : List Token) (indents : List Nat) (column : Nat)
    (rest : List Char) : Prop :=
  ∃ q, s.ready? = some q ∧ q.ahead.length ≤ s.ahead.length ∧
    StepsToLine q tokens indents column rest

theorem StepsToLine.of_next {p q : Progress} (h : Next p q)
    (hq : StepsToLine q tokens indents n rest) : StepsToLine p tokens indents n rest := by
  obtain ⟨p', hcolumn, hsteps⟩ := hq
  exact ⟨p', hcolumn, .head h hsteps⟩

theorem StepsToLine.of_token {q : Progress} {next : Option Progress} (hcut : q.isCut = false)
    (htoken : q.token? = next) (hnext : next = some (inBlock none a tokens indents (.ofChars p cs)))
    (hlength : (inBlock none a tokens indents (.ofChars p cs)).ahead.length < q.ahead.length)
    (h : ReachesLine (inBlock none a tokens indents (.ofChars p cs)) tokens' indents' n rest) :
    StepsToLine q tokens' indents' n rest := by
  obtain ⟨r, hready, hle, hsteps⟩ := h
  exact .of_next (.of_inBlock hcut (htoken.trans hnext) rfl hready (Nat.lt_of_le_of_lt hle hlength))
    hsteps

theorem StepsToLine.trans {q : Progress} (h : StepsToLine q tokens indents k cs)
    (hline : ∀ p' : Position, p'.column = k →
      StepsToLine (lineStart tokens indents p' cs) tokens' indents' n rest) :
    StepsToLine q tokens' indents' n rest := by
  obtain ⟨p', hcolumn, hsteps⟩ := h
  obtain ⟨p'', hcolumn', hsteps'⟩ := hline p' hcolumn
  exact ⟨p'', hcolumn', hsteps.trans hsteps'⟩

theorem isPrintable_scalarLine (h : style.Suits cs) (hprint : IsPrintable rest) :
    IsPrintable (' ' :: (Value.endLine (Writing.text style (k + 2) cs) ++ (spaces n ++ rest))) := by
  simp only [IsPrintable.cons_iff, IsPrintable.append_iff]
  exact ⟨by decide, Value.isPrintable_endLine (Writing.isPrintable_text h), isPrintable_spaces n,
    hprint⟩

/-- A text after a space. -/
theorem reachesLine_scalar (hstream : tokens.head? ≠ some .streamEnd) (h : style.Suits cs)
    (hindents : indents.head? = some k) (hk : k < p.column) (hn : n ≤ k) (hprint : IsPrintable rest)
    (htoken : StartsToken rest) :
    ReachesLine (inBlock none a tokens indents (.ofChars p
        (' ' :: (Value.endLine (Writing.text style (k + 2) cs) ++ (spaces n ++ rest)))))
      (.scalar (String.ofList cs) style.scalarStyle :: tokens) indents n rest := by
  have hall : IsPrintable (Value.endLine (Writing.text style (k + 2) cs) ++ (spaces n ++ rest)) :=
    IsPrintable.append_iff.2 ⟨Value.isPrintable_endLine (Writing.isPrintable_text h),
      IsPrintable.append_iff.2 ⟨isPrintable_spaces n, hprint⟩⟩
  have hle : ∀ i ∈ indents.head?, i ≤ p.column := by
    intro i hi
    rw [hindents] at hi
    cases hi
    exact Nat.le_of_lt hk
  have hk' : k < (p.past ' ').column := Nat.lt_succ_of_lt hk
  obtain ⟨p', hcolumn, hnext⟩ := next_scalar h hindents hk' hn hprint htoken
  refine ⟨_, ready?_space hstream hall (Value.startsToken_endLine h _) hle, ?_, p', hcolumn,
    .single hnext⟩
  rw [length_ahead_inBlock hall, length_ahead_inBlock (IsPrintable.cons_iff.2 ⟨by decide, hall⟩)]
  exact Nat.le_succ _

/-- The place after the bracket of an empty mapping. -/
def inBrackets (tokens : List Token) (indents : List Nat) (s : Stream) : Progress :=
  ⟨s, tokens, indents, none, [none], true, false⟩

theorem length_ahead_inBrackets (h : IsPrintable cs) :
    (inBrackets tokens indents (.ofChars p cs)).ahead.length = cs.length := Stream.length_ofChars h

theorem startsToken_cons {c : Char} (h : ¬ TextStyle.isGapChar c ∧ c ≠ '#') :
    StartsToken (c :: cs) := by
  intro d hd
  cases hd
  exact h

theorem next_openFlow (hprint : IsPrintable cs) :
    Next (inBlock none false tokens indents (.ofChars p ('\x7b' :: '\x7d' :: cs)))
      (inBrackets (.flowMappingStart :: tokens) indents (.ofChars (p.past '\x7b') ('\x7d' :: cs))) := by
  have hclose : IsPrintable ('\x7d' :: cs) := IsPrintable.cons_iff.2 ⟨by decide, hprint⟩
  have hopen : IsPrintable ('\x7b' :: '\x7d' :: cs) := IsPrintable.cons_iff.2 ⟨by decide, hclose⟩
  refine ⟨rfl, ?_, inBrackets (.flowMappingStart :: tokens) indents
    (.ofChars (p.past '\x7b') ('\x7d' :: cs)), ?_, rfl, inBrackets (.flowMappingStart :: tokens)
      indents (.ofChars (p.past '\x7b') ('\x7d' :: cs)), rfl, ?_⟩
  · rw [length_ahead_inBlock hopen]
    rw [length_ahead_inBrackets hclose]
    exact Nat.lt_succ_self _
  · rw [token?_of_indicated (c := '\x7b') (char?_ofChars_cons hopen) (by decide) (by decide)
      (by decide) rfl, ← Stream.tail_ofChars (by decide)]
    rfl
  · have hskip : skipGap true true false (.ofChars (p.past '\x7b') ('\x7d' :: cs)) =
        (.ofChars (p.past '\x7b') ('\x7d' :: cs), true) :=
      skipGap_token hclose (startsToken_cons (by decide))
    have htoken : (inBrackets (.flowMappingStart :: tokens) indents
        (.ofChars (p.past '\x7b') ('\x7d' :: cs))).toToken =
          inBrackets (.flowMappingStart :: tokens) indents
            (.ofChars (p.past '\x7b') ('\x7d' :: cs)) := by
      simp [toToken, inBrackets, inFlow, hskip]
    rw [ready?, if_neg (by simp [inBrackets]), htoken]
    rfl

theorem next_closeFlow (hprint : IsPrintable rest) (htoken : StartsToken rest) :
    Next (inBrackets tokens indents (.ofChars p ('\x7d' :: '\n' :: (spaces n ++ rest))))
      (lineStart (.flowMappingEnd :: tokens) indents ((p.past '\x7d').nextLine n) rest) := by
  have hclose : IsPrintable ('\x7d' :: '\n' :: (spaces n ++ rest)) :=
    IsPrintable.cons_iff.2 ⟨by decide, isPrintable_feed hprint⟩
  refine .of_feed (c := none) (a := false) rfl ?_ ?_ (by simp) hprint htoken (by simp)
  · rw [token?_of_indicated (c := '\x7d') (char?_ofChars_cons hclose) (by decide) (by decide)
      (by decide) rfl, ← Stream.tail_ofChars (by decide)]
    rfl
  · rw [length_ahead_inBrackets hclose]
    simp only [List.length_cons, List.length_append]
    omega

/-- An empty record or map. -/
theorem reachesLine_empty (hstream : tokens.head? ≠ some .streamEnd)
    (hindents : indents.head? = some k) (hk : k < p.column) (hprint : IsPrintable rest)
    (htoken : StartsToken rest) :
    ReachesLine (inBlock none false tokens indents
        (.ofChars p (' ' :: '\x7b' :: '\x7d' :: '\n' :: (spaces n ++ rest))))
      (.flowMappingEnd :: .flowMappingStart :: tokens) indents n rest := by
  have hfeed := isPrintable_feed (n := n) hprint
  have hopen : IsPrintable ('\x7b' :: '\x7d' :: '\n' :: (spaces n ++ rest)) :=
    IsPrintable.cons_iff.2 ⟨by decide, IsPrintable.cons_iff.2 ⟨by decide, hfeed⟩⟩
  have hle : ∀ i ∈ indents.head?, i ≤ p.column := by
    intro i hi
    rw [hindents] at hi
    cases hi
    exact Nat.le_of_lt hk
  refine ⟨_, ready?_space hstream hopen (startsToken_cons (by decide)) hle, ?_, _, column_nextLine,
    .head (next_openFlow hfeed) (.single (next_closeFlow hprint htoken))⟩
  rw [length_ahead_inBlock hopen, length_ahead_inBlock (IsPrintable.cons_iff.2 ⟨by decide, hopen⟩)]
  exact Nat.le_succ _

theorem indicated?_question (hprint : IsPrintable rest) (hgap : isAtGap rest) :
    (inBlock candidate a tokens indents (.ofChars p ('?' :: rest))).indicated? '?' =
      some (inBlock candidate a tokens indents (.ofChars p ('?' :: rest))).key? := by
  have hgap' : (Stream.ofChars p ('?' :: rest)).isGap 1 := by
    rw [Stream.isGap_ofChars (IsPrintable.cons_iff.2 ⟨by decide, hprint⟩), List.drop_one,
      List.tail_cons, hgap]
  simp [indicated?, inBlock, hgap']

section

variable (hopens : Opens k tokens indents indents' tokens') (hcolumn : p.column = k)
variable (hprint : IsPrintable rest)

include hopens hcolumn hprint

/-- What may be a key is kept in mind up to the colon after it. -/
theorem next_key (h : style.Suits cs) (hstyle : style ≠ .literal) (hbreak : ∀ c ∈ cs, ¬ isBreak c)
    (hsize : (cs.map Char.utf8Size).sum ≤ 128) (hgap : isAtGap rest) :
    Next (lineStart tokens indents p (Writing.text style (k + 2) cs ++ ':' :: rest))
      (inBlock (saved true tokens indents p) false
        (.scalar (String.ofList cs) style.scalarStyle :: tokens) indents
        (.ofChars (p.pastAll (Writing.text style (k + 2) cs)) (':' :: rest))) := by
  obtain ⟨hline, hshort⟩ := Writing.isShort_text (k + 2) hstyle h hbreak
  obtain ⟨hsame, hright⟩ := Position.pastAll_of_not_isBreak (p := p) hline
  have hoffset := Position.offset_pastAll p (Writing.text style (k + 2) cs)
  have hle : ∀ i ∈ indents.head?, i ≤ p.column := by
    rw [hcolumn]
    exact hopens.le
  have hcolon : IsPrintable (':' :: rest) := IsPrintable.cons_iff.2 ⟨by decide, hprint⟩
  have hall : IsPrintable (Writing.text style (k + 2) cs ++ ':' :: rest) :=
    IsPrintable.append_iff.2 ⟨Writing.isPrintable_text h, hcolon⟩
  have hstarts : StartsToken (':' :: rest) := by
    intro c hc
    cases hc
    decide
  have hcurrent : current? (p.pastAll (Writing.text style (k + 2) cs)) (saved true tokens indents p) =
      some (saved true tokens indents p) := by
    have hfresh : ¬ p.line < (p.pastAll (Writing.text style (k + 2) cs)).line := by omega
    have hnear : ¬ p.offset + 1024 < (p.pastAll (Writing.text style (k + 2) cs)).offset := by omega
    simp [current?, saved, isStale, hfresh, hnear]
  rw [lineStart_eq hle]
  refine .of_inBlock rfl (token?_key h hstyle (Nat.succ_pos _) hle hprint hgap) hcurrent ?_ ?_
  · rw [ready?_inBlock (by simp) (skipGap_token hcolon hstarts) (by rwa [Stream.position_ofChars]),
      close_eq_self]
    intro i hi
    have hi := hle i hi
    rw [Stream.column_ofChars, hright]
    omega
  · have hpos := List.length_pos_iff.2 (Writing.text_ne_nil (k + 2) h)
    rw [length_ahead_inBlock hall, length_ahead_inBlock hcolon, List.length_append]
    omega

/-- A short key and its value. -/
theorem stepsToLine_key (h : style.Suits cs) (hstyle : style ≠ .literal)
    (hbreak : ∀ c ∈ cs, ¬ isBreak c) (hsize : (cs.map Char.utf8Size).sum ≤ 128) (hgap : isAtGap rest)
    (hvalue : ∀ p' : Position, k < p'.column → ReachesLine
      (inBlock none false (.value :: .scalar (String.ofList cs) style.scalarStyle :: .key :: tokens')
        indents' (.ofChars p' rest)) later indents'' n tail) :
    StepsToLine (lineStart tokens indents p (Writing.text style (k + 2) cs ++ ':' :: rest))
      later indents'' n tail := by
  have hcolon : IsPrintable (':' :: rest) := IsPrintable.cons_iff.2 ⟨by decide, hprint⟩
  have hright : k < ((p.pastAll (Writing.text style (k + 2) cs)).past ':').column := by
    obtain ⟨hline, -⟩ := Writing.isShort_text (k + 2) hstyle h hbreak
    have hcount := (Position.pastAll_of_not_isBreak (p := p) hline).2
    have hpast : ((p.pastAll (Writing.text style (k + 2) cs)).past ':').column =
        (p.pastAll (Writing.text style (k + 2) cs)).column + 1 := rfl
    omega
  refine .of_next (next_key hopens hcolumn hprint h hstyle hbreak hsize hgap)
    (.of_token rfl (token?_of_indicated (char?_ofChars_cons hcolon) (by decide) (by decide)
      (by decide) (indicated?_colon hprint hgap)) ?_ ?_ (hvalue _ hright))
  · simp only [saved, if_true]
    rw [value?_key hopens hcolumn, Stream.tail_ofChars (by decide)]
  · rw [length_ahead_inBlock hprint, length_ahead_inBlock hcolon]
    exact Nat.lt_succ_self _

omit hcolumn hprint

theorem openHere?_inBlock (hs : s.column = k) :
    (inBlock none true tokens indents s).openHere? .blockMappingStart =
      some (inBlock none true tokens' indents' s) := by
  subst hs
  exact congrArg some (hopens.openAt [] s)

theorem key?_inBlock (hs : s.column = k) :
    (inBlock none true tokens indents s).key? =
      some (inBlock none true (.key :: tokens') indents' s.tail) := by
  rw [key?, openHere?_inBlock hopens hs]
  rfl

theorem value?_inBlock (hs : s.column = k) :
    (inBlock none true tokens indents s).value? =
      some (inBlock none true (.value :: tokens') indents' s.tail) := by
  have hnone : (inBlock none true tokens indents s).candidate = none := rfl
  simp only [value?, hnone, openHere?_inBlock hopens hs, Option.bind_eq_bind, Option.bind_some]
  rfl

/-- A text after a mark of its own. -/
theorem stepsToLine_mark {mark : Char} {token : Token} (hmark : isPrintable mark ∧ ¬ isBreak mark)
    (hstream : token ≠ .streamEnd)
    (hread : ∀ cs : List Char, IsPrintable cs → isAtGap cs →
      (inBlock none true tokens indents (.ofChars p (mark :: cs))).token? =
        some (inBlock none true (token :: tokens') indents' (Stream.ofChars p (mark :: cs)).tail))
    (h : style.Suits cs) (hcolumn : p.column = k) (hn : n ≤ k) (hprint : IsPrintable rest)
    (htoken : StartsToken rest) :
    StepsToLine (lineStart tokens indents p (mark :: ' ' ::
        (Value.endLine (Writing.text style (k + 2) cs) ++ (spaces n ++ rest))))
      (.scalar (String.ofList cs) style.scalarStyle :: token :: tokens') indents' n rest := by
  have hline := isPrintable_scalarLine (n := n) (k := k) h hprint
  have hright : k < (p.past mark).column := by
    rw [Position.past_of_not_isBreak hmark.2, Position.afterChar, hcolumn]
    exact Nat.lt_succ_self k
  have hle : ∀ i ∈ indents.head?, i ≤ p.column := by
    rw [hcolumn]
    exact hopens.le
  rw [lineStart_eq hle]
  refine .of_token rfl (hread _ hline rfl) (by rw [Stream.tail_ofChars hmark.1]) ?_
    (reachesLine_scalar (by simpa using hstream) h hopens.head? hright hn hprint htoken)
  rw [length_ahead_inBlock hline, length_ahead_inBlock (IsPrintable.cons_iff.2 ⟨hmark.1, hline⟩)]
  exact Nat.lt_succ_self _

theorem stepsToLine_question (h : style.Suits cs) (hcolumn : p.column = k) (hn : n ≤ k)
    (hprint : IsPrintable rest) (htoken : StartsToken rest) :
    StepsToLine (lineStart tokens indents p ('?' :: ' ' ::
        (Value.endLine (Writing.text style (k + 2) cs) ++ (spaces n ++ rest))))
      (.scalar (String.ofList cs) style.scalarStyle :: .key :: tokens') indents' n rest := by
  refine stepsToLine_mark hopens (by decide) (by decide) (fun ds hds hgap => ?_) h hcolumn hn hprint
    htoken
  rw [token?_of_indicated (char?_ofChars_cons (IsPrintable.cons_iff.2 ⟨by decide, hds⟩)) (by decide)
    (by decide) (by decide) (indicated?_question hds hgap)]
  exact key?_inBlock hopens (by rwa [Stream.column_ofChars])

theorem stepsToLine_colon (h : style.Suits cs) (hcolumn : p.column = k) (hn : n ≤ k)
    (hprint : IsPrintable rest) (htoken : StartsToken rest) :
    StepsToLine (lineStart tokens indents p (':' :: ' ' ::
        (Value.endLine (Writing.text style (k + 2) cs) ++ (spaces n ++ rest))))
      (.scalar (String.ofList cs) style.scalarStyle :: .value :: tokens') indents' n rest := by
  refine stepsToLine_mark hopens (by decide) (by decide) (fun ds hds hgap => ?_) h hcolumn hn hprint
    htoken
  rw [token?_of_indicated (char?_ofChars_cons (IsPrintable.cons_iff.2 ⟨by decide, hds⟩)) (by decide)
    (by decide) (by decide) (indicated?_colon hds hgap)]
  exact value?_inBlock hopens (by rwa [Stream.column_ofChars])

/-- A key that is not short, and the value on lines of its own. -/
theorem stepsToLine_longKey {style' : TextStyle} {ds : List Char} (h : style.Suits cs)
    (h' : style'.Suits ds) (hcolumn : p.column = k) (hn : n ≤ k) (hprint : IsPrintable rest)
    (htoken : StartsToken rest) :
    StepsToLine (lineStart tokens indents p ('?' :: ' ' ::
        (Value.endLine (Writing.text style (k + 2) cs) ++ (spaces k ++ (':' :: ' ' ::
          (Value.endLine (Writing.text style' (k + 2) ds) ++ (spaces n ++ rest)))))))
      (.scalar (String.ofList ds) style'.scalarStyle :: .value ::
        .scalar (String.ofList cs) style.scalarStyle :: .key :: tokens') indents' n rest := by
  obtain ⟨outer, rfl⟩ := List.head?_eq_some_iff.1 hopens.head?
  refine (stepsToLine_question hopens h hcolumn (Nat.le_refl k) ?_ (startsToken_cons (by decide))).trans
    fun p' hp' => stepsToLine_colon (.another outer) h' hp' hn hprint htoken
  exact IsPrintable.cons_iff.2 ⟨by decide, isPrintable_scalarLine h' hprint⟩

end

end Progress

end SafeCalls.Yaml
