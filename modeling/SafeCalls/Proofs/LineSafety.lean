import SafeCalls.Proofs.TextForm

namespace SafeCalls

/-!
# Whitelists that text files hold

A text file holds a whitelist exactly if each key can stand on a line: reading a text gives no
other keys, and such keys are read back from the text that is written of them. So what has been
read from a text stays as it is when it is written and read once more.
-/

open Time (Timestamp)

namespace Text

variable {cs : List Char}

theorem lineFeed_not_mem_of_mem_lines {line : List Char} (h : line ∈ lines cs) : '\n' ∉ line := by
  induction cs generalizing line with
  | nil => cases h
  | cons c rest ih =>
      by_cases hc : c = '\n'
      · subst hc
        rw [lines_lineFeed] at h
        rcases List.mem_cons.1 h with rfl | h
        · exact List.not_mem_nil
        · exact ih h
      · rw [lines_cons_of_ne hc] at h
        cases hlines : lines rest with
        | nil =>
            rw [hlines] at h
            obtain rfl := List.mem_singleton.1 h
            simpa using Ne.symm hc
        | cons first more =>
            rw [hlines] at h ih
            rcases List.mem_cons.1 h with rfl | h
            · have hfirst : '\n' ∉ first := ih List.mem_cons_self
              rw [List.mem_cons, not_or]
              exact ⟨Ne.symm hc, hfirst⟩
            · exact ih (List.mem_cons_of_mem first h)

theorem not_isBlank_of_mem_head?_trimStart {c : Char} (h : c ∈ (trimStart cs).head?) :
    isBlank c = false := by
  have hnot := List.head?_dropWhile_not isBlank cs
  rw [← trimStart, Option.mem_def.1 h] at hnot
  exact hnot

theorem trim_isPrefix (cs : List Char) : trim cs <+: trimStart cs := by
  rw [← List.reverse_suffix, trim, trimEnd, List.reverse_reverse]
  exact List.dropWhile_suffix isBlank

theorem not_isBlank_of_mem_head?_trim {c : Char} (h : c ∈ (trim cs).head?) :
    isBlank c = false := by
  obtain ⟨rest, hrest⟩ := trim_isPrefix cs
  have hstart : c ∈ (trimStart cs).head? := by
    rw [← hrest, List.head?_append, Option.mem_def.1 h]
    rfl
  exact not_isBlank_of_mem_head?_trimStart hstart

theorem not_isBlank_of_mem_getLast?_trim {c : Char} (h : c ∈ (trim cs).getLast?) :
    isBlank c = false := by
  rw [trim, trimEnd, List.getLast?_reverse] at h
  exact not_isBlank_of_mem_head?_trimStart h

theorem trim_trim (cs : List Char) : trim (trim cs) = trim cs := by
  apply trim_eq_self
  · intro c hc
    exact not_isBlank_of_mem_head?_trim hc
  · intro c hc
    exact not_isBlank_of_mem_getLast?_trim hc

theorem mem_of_mem_trim {c : Char} (h : c ∈ trim cs) : c ∈ cs :=
  (List.dropWhile_suffix isBlank).subset ((trim_isPrefix cs).subset h)

end Text

/-- A key that can stand on a line of its own: it is not empty, has no line feed, is the same when
it is trimmed, and does not look like a comment. -/
structure CanonicalKey.IsLineSafe (k : CanonicalKey) : Prop where
  ne_empty : k.text ≠ ""
  lineFeed_not_mem : '\n' ∉ k.text.toList
  trim_eq : Text.trim k.text.toList = k.text.toList
  not_comment : k.text.toList.head? ≠ some '#'

namespace CanonicalKey

variable {k : CanonicalKey}

theorem isLineSafe_iff : k.IsLineSafe ↔ k.text ≠ "" ∧ '\n' ∉ k.text.toList ∧
    Text.trim k.text.toList = k.text.toList ∧ k.text.toList.head? ≠ some '#' :=
  ⟨fun ⟨hempty, hfeed, htrim, hcomment⟩ => ⟨hempty, hfeed, htrim, hcomment⟩,
    fun ⟨hempty, hfeed, htrim, hcomment⟩ => ⟨hempty, hfeed, htrim, hcomment⟩⟩

instance : Decidable k.IsLineSafe := decidable_of_iff _ isLineSafe_iff.symm

theorem IsLineSafe.fitsLine (h : k.IsLineSafe) : k.FitsLine := by
  refine ⟨h.ne_empty, h.lineFeed_not_mem, ?_, ?_, h.not_comment⟩
  · intro c hc
    rw [← h.trim_eq] at hc
    exact Text.not_isBlank_of_mem_head?_trim hc
  · intro c hc
    rw [← h.trim_eq] at hc
    exact Text.not_isBlank_of_mem_getLast?_trim hc

end CanonicalKey

namespace Whitelist

theorem isLineSafe_of_mem_parseText {text : String} {k : CanonicalKey} (h : k ∈ parseText text) :
    k.IsLineSafe := by
  rw [parseText_eq_ofLines] at h
  obtain ⟨line, hline, htrim, hkey⟩ := mem_ofLines.1 h
  refine ⟨?_, ?_, ?_, ?_⟩
  · intro hempty
    rw [hempty] at hkey
    cases hkey
  · intro hfeed
    rw [← htrim] at hfeed
    exact Text.lineFeed_not_mem_of_mem_lines hline (Text.mem_of_mem_trim hfeed)
  · rw [← htrim]
    exact Text.trim_trim line
  · intro hcomment
    obtain ⟨rest, hrest⟩ := List.head?_eq_some_iff.1 hcomment
    rw [hrest] at hkey
    cases hkey

end Whitelist

namespace WhitelistDocument

theorem mem_whitelist {d : WhitelistDocument} {k : CanonicalKey} : k ∈ d.whitelist ↔ k ∈ d.keys :=
  SortedSet.mem_ofList

/-- A document comes back from its text form exactly if its keys can stand on lines. -/
theorem parseText_renderText_eq_whitelist_iff {d : WhitelistDocument}
    (hproject : '\n' ∉ d.project.toList) :
    Whitelist.parseText d.renderText = d.whitelist ↔ ∀ k ∈ d.keys, k.IsLineSafe := by
  constructor
  · intro heq k hk
    have hread : k ∈ Whitelist.parseText d.renderText := by
      rw [heq]
      exact mem_whitelist.2 hk
    exact Whitelist.isLineSafe_of_mem_parseText hread
  · intro hsafe
    apply SortedSet.eq_of_mem_iff
    intro k
    have hfits : ∀ k ∈ d.keys, k.FitsLine := fun k hk => (hsafe k hk).fitsLine
    rw [mem_parseText_renderText hfits, furtherLines_eq_nil hproject, mem_whitelist]
    exact or_iff_left (Whitelist.not_mem_ofLines_nil k)

theorem parseText_renderText_ofWhitelist {project : String} (hproject : '\n' ∉ project.toList)
    (now : Timestamp) {w : Whitelist} (h : ∀ k ∈ w, k.IsLineSafe) :
    Whitelist.parseText (ofWhitelist project now w).renderText = w := by
  have hkeys : (ofWhitelist project now w).whitelist = w :=
    SortedSet.eq_of_mem_iff fun k => mem_whitelist.trans SortedSet.mem_toList
  rw [(parseText_renderText_eq_whitelist_iff hproject).2, hkeys]
  intro k hk
  exact h k (SortedSet.mem_toList.1 hk)

end WhitelistDocument

namespace Whitelist

open WhitelistDocument

/-- Texts hold the whitelists whose keys can all stand on lines, and no others. Below a project
name of one line, such keys are the only ones that come back from a document, and those that have
been read from a text always do. -/
theorem texts_hold_line_safe_keys :
    (∀ text : String, ∀ k ∈ parseText text, k.IsLineSafe) ∧
    (∀ d : WhitelistDocument, '\n' ∉ d.project.toList →
      (parseText d.renderText = d.whitelist ↔ ∀ k ∈ d.keys, k.IsLineSafe)) ∧
    (∀ (text project : String) (now : Timestamp), '\n' ∉ project.toList →
      parseText (ofWhitelist project now (parseText text)).renderText = parseText text) ∧
    ∀ w : Whitelist, (∃ text, parseText text = w) ↔ ∀ k ∈ w, k.IsLineSafe := by
  have hsafe : ∀ text : String, ∀ k ∈ parseText text, k.IsLineSafe :=
    fun text k hk => isLineSafe_of_mem_parseText hk
  refine ⟨hsafe, fun d => parseText_renderText_eq_whitelist_iff, ?_, fun w => ⟨?_, fun h => ?_⟩⟩
  · intro text project now hproject
    exact parseText_renderText_ofWhitelist hproject now (hsafe text)
  · rintro ⟨text, rfl⟩
    exact hsafe text
  · have hname : '\n' ∉ "".toList := List.not_mem_nil
    exact ⟨_, parseText_renderText_ofWhitelist hname (.ofUnix 0 0) h⟩

/-- A carriage return within a key comes back, and so do keys out of order and with repeats. One
key that looks like a comment is enough for the text to hold another whitelist. -/
theorem texts_hold_acme_keys :
    let keys : List CanonicalKey := [⟨"b\rc"⟩, ⟨"a b"⟩, ⟨"b\rc"⟩]
    let document (keys : List CanonicalKey) : WhitelistDocument :=
      ⟨currentVersion, "Acme", .ofUnix 0 0, keys⟩
    parseText (document keys).renderText = (document keys).whitelist ∧
      parseText (document (⟨"#a"⟩ :: keys)).renderText ≠ (document (⟨"#a"⟩ :: keys)).whitelist ∧
      (∃ k ∈ parseText "b\rc\r\n# a\n", k.IsLineSafe) ∧
      ∃ text, parseText text = ofTexts ["b\rc", "a b"] := by
  intro keys document
  obtain ⟨hread, hdocument, -, hheld⟩ := texts_hold_line_safe_keys
  have hname : '\n' ∉ "Acme".toList := by decide
  refine ⟨?_, ?_, ?_, ?_⟩
  · apply (hdocument (document keys) hname).2
    decide
  · rw [Ne, hdocument (document (⟨"#a"⟩ :: keys)) hname]
    decide
  · have hmem : ⟨"b\rc"⟩ ∈ parseText "b\rc\r\n# a\n" := by
      rw [parseText_eq_ofLines]
      exact mem_ofLines.2 ⟨"b\rc\r".toList, by decide, by decide, by decide⟩
    exact ⟨_, hmem, hread _ _ hmem⟩
  · apply (hheld _).2
    decide

end Whitelist

end SafeCalls
