import SafeCalls.Whitelist.Document

namespace SafeCalls

/-!
# The text form of a whitelist

A text form is read line by line, and its header is one line only as long as the name of the
project is. Every further line of the name is read like a line that holds a key. Apart from that
the keys come back as they are, if each of them fits on a line of its own.
-/

open Time (Timestamp)

namespace Text

theorem lines_lineFeed (rest : List Char) : lines ('\n' :: rest) = [] :: lines rest := by
  rw [lines]

theorem lines_cons_of_ne {c : Char} (h : c ≠ '\n') (rest : List Char) :
    lines (c :: rest) =
      match lines rest with
      | [] => [[c]]
      | line :: more => (c :: line) :: more :=
  lines.eq_3 c rest h

theorem lines_ne_nil {cs : List Char} (h : cs ≠ []) : lines cs ≠ [] := by
  cases cs with
  | nil => exact absurd rfl h
  | cons c rest =>
      by_cases hc : c = '\n'
      · subst hc
        simp [lines_lineFeed]
      · rw [lines_cons_of_ne hc]
        split <;> simp

theorem lines_append_of_eq_cons {xs ys line : List Char} {more : List (List Char)}
    (hxs : '\n' ∉ xs) (hys : lines ys = line :: more) :
    lines (xs ++ ys) = (xs ++ line) :: more := by
  induction xs with
  | nil => exact hys
  | cons c xs ih =>
      rw [List.mem_cons, not_or] at hxs
      rw [List.cons_append, lines_cons_of_ne (Ne.symm hxs.1), ih hxs.2]
      rfl

theorem lines_append_lineFeed {line : List Char} (h : '\n' ∉ line) (rest : List Char) :
    lines (line ++ '\n' :: rest) = line :: lines rest := by
  rw [lines_append_of_eq_cons h (lines_lineFeed rest), List.append_nil]

theorem lines_append (xs ys : List Char) :
    lines (xs ++ '\n' :: ys) = lines (xs ++ ['\n']) ++ lines ys := by
  induction xs with
  | nil => simp [lines]
  | cons c xs ih =>
      by_cases hc : c = '\n'
      · subst hc
        simp [lines_lineFeed, ih]
      · rw [List.cons_append, List.cons_append, lines_cons_of_ne hc, lines_cons_of_ne hc, ih]
        have hne : lines (xs ++ ['\n']) ≠ [] := lines_ne_nil (by simp)
        cases hlines : lines (xs ++ ['\n']) with
        | nil => exact absurd hlines hne
        | cons line more => rfl

/-- A line feed at the end opens no line, except that it makes one after another line feed or in an
empty text. -/
theorem lines_concat_lineFeed (xs : List Char) :
    lines (xs ++ ['\n']) = lines xs ∨ lines (xs ++ ['\n']) = lines xs ++ [[]] := by
  induction xs with
  | nil => exact .inr rfl
  | cons c xs ih =>
      by_cases hc : c = '\n'
      · subst hc
        rw [List.cons_append, lines_lineFeed, lines_lineFeed]
        exact ih.imp (fun h => by rw [h]) (fun h => by rw [h]; rfl)
      · rw [List.cons_append, lines_cons_of_ne hc, lines_cons_of_ne hc]
        cases xs with
        | nil => exact .inl rfl
        | cons d xs =>
            obtain ⟨line, more, hlines⟩ := List.exists_cons_of_ne_nil
              (lines_ne_nil (List.cons_ne_nil d xs))
            rw [hlines] at ih ⊢
            exact ih.imp (fun h => by rw [h]) (fun h => by rw [h]; rfl)

theorem trimStart_eq_self {cs : List Char} (h : ∀ c ∈ cs.head?, isBlank c = false) :
    trimStart cs = cs := by
  cases cs with
  | nil => rfl
  | cons c rest =>
      have hc : isBlank c = false := h c rfl
      rw [trimStart, List.dropWhile_cons_of_neg (by simp [hc])]

theorem trim_eq_self {cs : List Char} (hhead : ∀ c ∈ cs.head?, isBlank c = false)
    (hlast : ∀ c ∈ cs.getLast?, isBlank c = false) : trim cs = cs := by
  rw [trim, trimStart_eq_self hhead, trimEnd, trimStart_eq_self, List.reverse_reverse]
  rwa [List.head?_reverse]

theorem exists_trim_cons_eq {c : Char} (hc : isBlank c = false) (rest : List Char) :
    ∃ kept, trim (c :: rest) = c :: kept := by
  have hstart : trimStart (c :: rest) = c :: rest :=
    trimStart_eq_self fun d hd => by
      obtain rfl : c = d := Option.some.inj hd
      exact hc
  refine ⟨(rest.reverse.dropWhile isBlank).reverse, ?_⟩
  rw [trim, hstart, trimEnd, trimStart, List.reverse_cons, List.dropWhile_append]
  split
  · next hnil =>
      rw [List.isEmpty_iff.1 hnil]
      simp [hc]
  · simp

end Text

/-- A key that a line can hold: it is not empty, has no line feed and no blank at its ends, and
does not look like a comment. -/
structure CanonicalKey.FitsLine (k : CanonicalKey) : Prop where
  ne_empty : k.text ≠ ""
  lineFeed_not_mem : '\n' ∉ k.text.toList
  head_not_blank : ∀ c ∈ k.text.toList.head?, Text.isBlank c = false
  last_not_blank : ∀ c ∈ k.text.toList.getLast?, Text.isBlank c = false
  not_comment : k.text.toList.head? ≠ some '#'

namespace Whitelist

/-- The keys that lines hold. -/
def ofLines (lines : List (List Char)) : Whitelist :=
  ofTexts (((lines.map Text.trim).filter isKeyLine).map String.ofList)

theorem parseText_eq_ofLines (text : String) : parseText text = ofLines (Text.lines text.toList) :=
  rfl

theorem mem_ofLines {lines : List (List Char)} {k : CanonicalKey} : k ∈ ofLines lines ↔
    ∃ line ∈ lines, Text.trim line = k.text.toList ∧ isKeyLine k.text.toList = true := by
  simp only [ofLines, ofTexts, SortedSet.mem_ofList, List.mem_map, List.mem_filter]
  constructor
  · rintro ⟨_, ⟨_, ⟨⟨line, hline, rfl⟩, hkey⟩, rfl⟩, rfl⟩
    refine ⟨line, hline, ?_, ?_⟩
    · rw [String.toList_ofList]
    · rwa [String.toList_ofList]
  · rintro ⟨line, hline, htrim, hkey⟩
    refine ⟨k.text, ⟨_, ⟨⟨line, hline, htrim⟩, hkey⟩, String.ofList_toList⟩, rfl⟩

theorem not_mem_ofLines_nil (k : CanonicalKey) : k ∉ ofLines [] := by
  intro h
  obtain ⟨line, hline, -⟩ := mem_ofLines.1 h
  cases hline

theorem mem_ofLines_append {xs ys : List (List Char)} {k : CanonicalKey} :
    k ∈ ofLines (xs ++ ys) ↔ k ∈ ofLines xs ∨ k ∈ ofLines ys := by
  simp only [mem_ofLines, List.mem_append, or_and_right, exists_or]

theorem mem_ofLines_cons {line : List Char} {more : List (List Char)} {k : CanonicalKey} :
    k ∈ ofLines (line :: more) ↔
      (Text.trim line = k.text.toList ∧ isKeyLine k.text.toList = true) ∨ k ∈ ofLines more := by
  simp only [mem_ofLines, List.mem_cons, or_and_right, exists_or, exists_eq_left]

theorem mem_ofLines_comment {rest : List Char} {more : List (List Char)} {k : CanonicalKey} :
    k ∈ ofLines (('#' :: rest) :: more) ↔ k ∈ ofLines more := by
  rw [mem_ofLines_cons]
  refine ⟨fun h => h.resolve_left ?_, .inr⟩
  rintro ⟨htrim, hkey⟩
  obtain ⟨kept, hkept⟩ := Text.exists_trim_cons_eq (c := '#') (by decide) rest
  rw [← htrim, hkept] at hkey
  cases hkey

theorem mem_ofLines_concat_nil {lines : List (List Char)} {k : CanonicalKey} :
    k ∈ ofLines (lines ++ [[]]) ↔ k ∈ ofLines lines := by
  rw [mem_ofLines_append, mem_ofLines_cons]
  refine ⟨fun h => h.resolve_right ?_, .inl⟩
  rintro (⟨htrim, hkey⟩ | hnil)
  · rw [← htrim] at hkey
    cases hkey
  · exact not_mem_ofLines_nil k hnil

end Whitelist

namespace CanonicalKey.FitsLine

variable {k : CanonicalKey}

theorem trim_eq (h : k.FitsLine) : Text.trim k.text.toList = k.text.toList :=
  Text.trim_eq_self h.head_not_blank h.last_not_blank

theorem isKeyLine (h : k.FitsLine) : Whitelist.isKeyLine k.text.toList = true := by
  cases htext : k.text.toList with
  | nil => exact absurd (String.toList_eq_nil_iff.1 htext) h.ne_empty
  | cons c rest =>
      have hc : c ≠ '#' := fun e => h.not_comment (by rw [htext, e, List.head?_cons])
      simpa [Whitelist.isKeyLine] using hc

end CanonicalKey.FitsLine

namespace WhitelistDocument

/-- The lines of a project name after the first one, which the header does not cover. -/
def furtherLines (project : String) : List (List Char) := (Text.lines project.toList).drop 1

theorem furtherLines_eq_nil {project : String} (h : '\n' ∉ project.toList) :
    furtherLines project = [] := by
  have hone : Text.lines (project.toList ++ ['\n']) = [project.toList] :=
    Text.lines_append_lineFeed h []
  have hlength : (Text.lines project.toList).length ≤ 1 := by
    have heq := congrArg List.length hone
    rcases Text.lines_concat_lineFeed project.toList with hsame | hempty
    · rw [hsame] at heq
      exact Nat.le_of_eq heq
    · rw [hempty, List.length_append] at heq
      simp only [List.length_singleton] at heq
      omega
  exact List.drop_eq_nil_of_le hlength

theorem header_toList (project : String) : ∃ words, '\n' ∉ words ∧
    (header project).toList = '#' :: words ++ (project.toList ++ ['\n']) := by
  have hstart : "# hot-path allocation whitelist: ".toList =
      '#' :: " hot-path allocation whitelist: ".toList := by
    simp only [String.reduceToList]
  have heq : header project = "# hot-path allocation whitelist: " ++ project ++ "\n" := rfl
  refine ⟨" hot-path allocation whitelist: ".toList, by simp, ?_⟩
  rw [heq, String.toList_append, String.toList_append, hstart, List.append_assoc]
  simp only [String.reduceToList]

/-- The header holds the keys of the further lines of the name, and no other. -/
theorem mem_ofLines_header {project : String} {k : CanonicalKey} :
    k ∈ Whitelist.ofLines (Text.lines (header project).toList) ↔
      k ∈ Whitelist.ofLines (furtherLines project) := by
  obtain ⟨words, hwords, htext⟩ := header_toList project
  obtain ⟨line, more, hlines⟩ : ∃ line more,
      Text.lines (project.toList ++ ['\n']) = line :: more :=
    List.exists_cons_of_ne_nil (Text.lines_ne_nil (by simp))
  have hheader : Text.lines (header project).toList = ('#' :: words ++ line) :: more := by
    rw [htext]
    exact Text.lines_append_of_eq_cons (by simpa using hwords) hlines
  have hcomment : k ∈ Whitelist.ofLines (Text.lines (header project).toList) ↔
      k ∈ Whitelist.ofLines more := by
    rw [hheader]
    exact Whitelist.mem_ofLines_comment
  rw [hcomment, furtherLines]
  rcases Text.lines_concat_lineFeed project.toList with hsame | hempty
  · rw [← hsame, hlines]
    rfl
  · -- The header has one more line than the name, which is empty and may be the first one.
    rw [hlines] at hempty
    cases hname : Text.lines project.toList with
    | nil =>
        rw [hname, List.nil_append, List.cons.injEq] at hempty
        rw [hempty.2]
        rfl
    | cons first others =>
        rw [hname, List.cons_append, List.cons.injEq] at hempty
        rw [hempty.2, Whitelist.mem_ofLines_concat_nil]
        rfl

theorem lines_join_keys {keys : List CanonicalKey} (h : ∀ k ∈ keys, k.FitsLine) :
    Text.lines (String.join (keys.map fun key => key.text ++ "\n")).toList =
      keys.map fun key => key.text.toList := by
  induction keys with
  | nil => rfl
  | cons key more ih =>
      have hkey := h key List.mem_cons_self
      have hmore := ih fun k hk => h k (List.mem_cons_of_mem _ hk)
      rw [String.toList_join] at hmore ⊢
      rw [List.map_cons, List.flatMap_cons, String.toList_append, List.append_assoc]
      rw [List.map_cons, ← hmore]
      exact Text.lines_append_lineFeed hkey.lineFeed_not_mem _

theorem mem_ofLines_keys {keys : List CanonicalKey} (h : ∀ k ∈ keys, k.FitsLine)
    {k : CanonicalKey} :
    k ∈ Whitelist.ofLines (keys.map fun key => key.text.toList) ↔ k ∈ keys := by
  rw [Whitelist.mem_ofLines]
  constructor
  · rintro ⟨_, hline, htrim, -⟩
    obtain ⟨key, hkey, rfl⟩ := List.mem_map.1 hline
    rw [(h key hkey).trim_eq] at htrim
    obtain rfl : key = k := by
      cases key
      cases k
      exact congrArg CanonicalKey.mk (String.toList_injective htrim)
    exact hkey
  · intro hk
    exact ⟨_, List.mem_map_of_mem hk, (h k hk).trim_eq, (h k hk).isKeyLine⟩

/-- What comes back from a text form: the keys, and those that the name of the project spells. -/
theorem mem_parseText_renderText {d : WhitelistDocument} (h : ∀ k ∈ d.keys, k.FitsLine)
    {k : CanonicalKey} : k ∈ Whitelist.parseText d.renderText ↔
      k ∈ d.keys ∨ k ∈ Whitelist.ofLines (furtherLines d.project) := by
  obtain ⟨words, -, htext⟩ := header_toList d.project
  have hlines : Text.lines d.renderText.toList = Text.lines (header d.project).toList ++
      Text.lines (String.join (d.keys.map fun key => key.text ++ "\n")).toList := by
    rw [renderText, String.toList_append, htext, ← List.append_assoc, List.append_assoc,
      List.singleton_append, Text.lines_append]
  rw [Whitelist.parseText_eq_ofLines, hlines, Whitelist.mem_ofLines_append, mem_ofLines_header,
    lines_join_keys h, mem_ofLines_keys h, or_comm]

/-- The keys come back exactly when every key that the name of the project spells, in a line of its
own after the first one, is among them; a name that is one line spells none. -/
theorem parseText_renderText (project : String) (now : Timestamp) (w : Whitelist)
    (h : ∀ k ∈ w, k.FitsLine) :
    let loaded := Whitelist.parseText (ofWhitelist project now w).renderText
    loaded = w.union (Whitelist.ofLines (furtherLines project)) ∧
      (loaded = w ↔ ∀ k ∈ Whitelist.ofLines (furtherLines project), k ∈ w) ∧
      ('\n' ∉ project.toList → loaded = w) := by
  intro loaded
  have hloaded : ∀ k, k ∈ loaded ↔ k ∈ w ∨ k ∈ Whitelist.ofLines (furtherLines project) :=
    fun k => mem_parseText_renderText (d := ofWhitelist project now w) h
  have hiff : loaded = w ↔ ∀ k ∈ Whitelist.ofLines (furtherLines project), k ∈ w := by
    constructor
    · intro heq k hk
      rw [← heq]
      exact (hloaded k).2 (.inr hk)
    · intro hsub
      apply SortedSet.eq_of_mem_iff
      intro k
      rw [hloaded]
      exact ⟨fun hk => hk.elim id (hsub k), .inl⟩
  refine ⟨SortedSet.eq_of_mem_iff fun k => ?_, hiff, fun hname => hiff.2 fun k hk => ?_⟩
  · rw [hloaded, SortedSet.mem_union]
  · rw [furtherLines_eq_nil hname] at hk
    exact absurd hk (Whitelist.not_mem_ofLines_nil k)

/-- A comment in the name does no harm. -/
theorem parseText_renderText_commented :
    let w := Whitelist.ofTexts ["Foo.Compute()"]
    (∀ k ∈ w, k.FitsLine) ∧
      Whitelist.parseText (ofWhitelist "Acme\n# nightly" (.ofUnix 0 0) w).renderText = w := by
  intro w
  have hfits : ∀ k ∈ w, k.FitsLine := by
    intro k hk
    obtain rfl : k = ⟨"Foo.Compute()"⟩ := by simpa [w, Whitelist.ofTexts] using hk
    refine ⟨by decide, by decide, ?_, ?_, by decide⟩
    · rintro c ⟨⟩
      decide
    · rintro c ⟨⟩
      decide
  refine ⟨hfits, ((parseText_renderText "Acme\n# nightly" (.ofUnix 0 0) w hfits).2.1).2 ?_⟩
  have hlines : furtherLines "Acme\n# nightly" = ["# nightly".toList] := by rfl
  intro k hk
  rw [hlines] at hk
  exact absurd (Whitelist.mem_ofLines_comment.1 hk) (Whitelist.not_mem_ofLines_nil k)

/-- A name of two lines makes its second line a key, even of a whitelist without keys. -/
theorem parseText_renderText_ne_of_lineFeed :
    Whitelist.parseText
        (ofWhitelist "Acme\nEvil.Run()" (.ofUnix 0 0) SortedSet.empty).renderText ≠
      SortedSet.empty := by
  intro heq
  have hmem : ⟨"Evil.Run()"⟩ ∈ Whitelist.ofLines (furtherLines "Acme\nEvil.Run()") :=
    Whitelist.mem_ofLines.2 ⟨"Evil.Run()".toList, by decide, by decide, by decide⟩
  have hloaded := (mem_parseText_renderText
    (d := ofWhitelist "Acme\nEvil.Run()" (.ofUnix 0 0) SortedSet.empty)
    (fun k hk => absurd hk (SortedSet.not_mem_empty k))).2 (.inr hmem)
  rw [heq] at hloaded
  exact SortedSet.not_mem_empty _ hloaded

end WhitelistDocument

end SafeCalls
