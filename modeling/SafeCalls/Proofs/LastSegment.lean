import Mathlib.Data.List.Basic
import Mathlib.Data.List.Induction
import Mathlib.Data.List.TakeWhile
import SafeCalls.Extraction.Marker
import SafeCalls.Settings.Validation
import SafeCalls.Text.Offset

namespace SafeCalls

/-!
# The last segment of a name

A qualified name is cut behind its last dot outside angle brackets. There is one such cut, and a
single pass over the characters finds it. Names that are allowed in settings hold no brackets, so
that for them every dot counts.
-/

/-- How many angle brackets are open behind a text. -/
def openBrackets (cs : List Char) : Nat := cs.foldl angleDepth 0

theorem openBrackets_concat (cs : List Char) (c : Char) :
    openBrackets (cs ++ [c]) = angleDepth (openBrackets cs) c := by
  simp [openBrackets]

theorem openBrackets_of_not_mem {cs : List Char} (h : '<' ∉ cs) : openBrackets cs = 0 := by
  induction cs with
  | nil => rfl
  | cons c cs ih =>
      obtain ⟨hc, hcs⟩ := not_or.1 (mt List.mem_cons.2 h)
      have hdepth : angleDepth 0 c = 0 := by simp [angleDepth, Ne.symm hc]
      rw [openBrackets, List.foldl_cons, hdepth]
      exact ih hcs

/-- A text in two parts, of which the second is the last segment. -/
structure IsLastSegment (before last : List Char) : Prop where
  cut : before = [] ∨ ∃ outer, before = outer ++ ['.'] ∧ openBrackets outer = 0
  inside : ∀ inner more, last = inner ++ '.' :: more → openBrackets (before ++ inner) ≠ 0

namespace IsLastSegment

variable {before last before' last' : List Char}

/-- A later cut would be at a dot that is inside the last segment of the earlier one. -/
theorem eq_nil_of_append (h : IsLastSegment before last) {between : List Char}
    (h' : IsLastSegment (before ++ between) last') (hlast : last = between ++ last') :
    between = [] := by
  obtain rfl | ⟨inner, c, rfl⟩ := List.eq_nil_or_concat' between
  · rfl
  · obtain hnil | ⟨outer, houter, hdepth⟩ := h'.cut
    · simp at hnil
    · rw [← List.append_assoc] at houter
      obtain ⟨rfl, hdot⟩ := List.append_inj' houter rfl
      obtain rfl : c = '.' := List.singleton_inj.1 hdot
      refine absurd hdepth (h.inside inner last' ?_)
      rw [hlast, List.append_assoc]
      rfl

/-- Of the two cuts of one text one is not after the other, and then they are the same. -/
theorem unique (h : IsLastSegment before last) (h' : IsLastSegment before' last')
    (hsame : before ++ last = before' ++ last') : before = before' ∧ last = last' := by
  obtain ⟨between, rfl, hlast⟩ | ⟨between, rfl, hlast⟩ := List.append_eq_append_iff.1 hsame
  · obtain rfl := h.eq_nil_of_append h' hlast
    exact ⟨(List.append_nil before).symm, hlast⟩
  · obtain rfl := h'.eq_nil_of_append h hlast
    exact ⟨List.append_nil before', hlast.symm⟩

theorem nil : IsLastSegment [] [] := ⟨.inl rfl, by simp⟩

theorem dot (h : openBrackets before = 0) : IsLastSegment (before ++ ['.']) [] :=
  ⟨.inr ⟨before, rfl, h⟩, by simp⟩

theorem concat (h : IsLastSegment before last) {c : Char}
    (hc : ¬ (openBrackets (before ++ last) = 0 ∧ c = '.')) : IsLastSegment before (last ++ [c]) := by
  refine ⟨h.cut, fun inner more hlast => ?_⟩
  obtain rfl | ⟨more, d, rfl⟩ := List.eq_nil_or_concat' more
  · obtain ⟨rfl, hdot⟩ := List.append_inj' hlast rfl
    exact fun hdepth => hc ⟨hdepth, List.singleton_inj.1 hdot⟩
  · rw [← List.cons_append, ← List.append_assoc] at hlast
    exact h.inside inner more (List.append_inj' hlast rfl).1

theorem of_not_mem (h : '.' ∉ last) : IsLastSegment [] last := by
  refine ⟨.inl rfl, fun inner more hlast => absurd ?_ h⟩
  rw [hlast]
  exact List.mem_append_right inner List.mem_cons_self

end IsLastSegment

/-! ### One pass -/

/-- How far a pass over a name has come. Offsets count bytes. -/
structure SegmentScan where
  depth : Nat
  offset : Nat
  /-- Where the last segment starts, as far as the name is known. -/
  start : Nat

namespace SegmentScan

def step (s : SegmentScan) (c : Char) : SegmentScan where
  depth := angleDepth s.depth c
  offset := s.offset + c.utf8Size
  start := if s.depth = 0 ∧ c = '.' then s.offset + 1 else s.start

def run (cs : List Char) : SegmentScan := cs.foldl step ⟨0, 0, 0⟩

theorem run_concat (cs : List Char) (c : Char) : run (cs ++ [c]) = (run cs).step c := by
  simp [run]

/-- What a pass knows of the characters behind it: the brackets that are open, their size, and where
they are to be cut. -/
structure Knows (s : SegmentScan) (before last : List Char) : Prop where
  depth : s.depth = openBrackets (before ++ last)
  offset : s.offset = (String.ofList (before ++ last)).utf8ByteSize
  start : s.start = (String.ofList before).utf8ByteSize
  isLast : IsLastSegment before last

theorem utf8ByteSize_concat (cs : List Char) (c : Char) :
    (String.ofList (cs ++ [c])).utf8ByteSize =
      (String.ofList cs).utf8ByteSize + c.utf8Size := by
  rw [String.ofList_append, String.utf8ByteSize_append, Text.utf8ByteSize_cons]
  rfl

theorem Knows.step {s : SegmentScan} {before last : List Char} (h : s.Knows before last)
    (c : Char) : ∃ before' last', before' ++ last' = before ++ last ++ [c] ∧
      (s.step c).Knows before' last' := by
  have hdepth : (s.step c).depth = openBrackets (before ++ last ++ [c]) := by
    rw [openBrackets_concat, ← h.depth]
    rfl
  have hoffset : (s.step c).offset = (String.ofList (before ++ last ++ [c])).utf8ByteSize := by
    rw [utf8ByteSize_concat, ← h.offset]
    rfl
  by_cases hc : s.depth = 0 ∧ c = '.'
  · obtain ⟨hzero, rfl⟩ := hc
    refine ⟨before ++ last ++ ['.'], [], List.append_nil _, ?_, ?_, ?_, ?_⟩
    · rw [List.append_nil]
      exact hdepth
    · rw [List.append_nil]
      exact hoffset
    · rw [← hoffset]
      exact if_pos ⟨hzero, rfl⟩
    · exact .dot (h.depth ▸ hzero)
  · refine ⟨before, last ++ [c], (List.append_assoc _ _ _).symm, ?_, ?_, ?_, ?_⟩
    · rw [← List.append_assoc]
      exact hdepth
    · rw [← List.append_assoc]
      exact hoffset
    · rw [← h.start]
      exact if_neg hc
    · exact h.isLast.concat (h.depth ▸ hc)

theorem exists_knows (cs : List Char) :
    ∃ before last, before ++ last = cs ∧ (run cs).Knows before last := by
  -- The pass goes on at the end of what it has read.
  induction cs using List.reverseRecOn with
  | nil => exact ⟨[], [], rfl, rfl, rfl, rfl, .nil⟩
  | append_singleton cs c ih =>
      obtain ⟨before, last, rfl, hknows⟩ := ih
      rw [run_concat]
      exact hknows.step c

end SegmentScan

/-! ### Simple names -/

section

variable {cs last : List Char}

theorem openBrackets_ne_zero_of_afterLastDot? (pre : List Char)
    (h : afterLastDot? (openBrackets pre) cs = none) :
    ∀ inner more, cs = inner ++ '.' :: more → openBrackets (pre ++ inner) ≠ 0 := by
  induction cs generalizing pre with
  | nil => simp
  | cons c rest ih =>
      rw [afterLastDot?, ← openBrackets_concat] at h
      cases hrest : afterLastDot? (openBrackets (pre ++ [c])) rest with
      | some name => simp [hrest] at h
      | none =>
          intro inner more hcs
          cases inner with
          | nil =>
              obtain ⟨rfl, -⟩ := List.cons.inj hcs
              intro hdepth
              rw [List.append_nil] at hdepth
              simp [hrest, hdepth] at h
          | cons d inner =>
              obtain ⟨rfl, hrest'⟩ := List.cons.inj hcs
              rw [List.append_cons]
              exact ih _ hrest inner more hrest'

theorem exists_isLastSegment_of_afterLastDot? (pre : List Char)
    (h : afterLastDot? (openBrackets pre) cs = some last) :
    ∃ before, before ++ last = pre ++ cs ∧ IsLastSegment before last := by
  induction cs generalizing pre with
  | nil => cases h
  | cons c rest ih =>
      rw [afterLastDot?, ← openBrackets_concat] at h
      cases hrest : afterLastDot? (openBrackets (pre ++ [c])) rest with
      | some name =>
          obtain rfl : name = last := by simpa [hrest] using h
          obtain ⟨before, hsame, hlast⟩ := ih _ hrest
          exact ⟨before, hsame.trans (List.append_cons pre c rest).symm, hlast⟩
      | none =>
          obtain ⟨⟨hdepth, rfl⟩, rfl⟩ : (openBrackets pre = 0 ∧ c = '.') ∧ rest = last := by
            simpa [hrest] using h
          exact ⟨pre ++ ['.'], (List.append_cons _ _ _).symm, .inr ⟨pre, rfl, hdepth⟩,
            openBrackets_ne_zero_of_afterLastDot? _ hrest⟩

end

theorem exists_isLastSegment_simpleName (q : String) :
    ∃ before, before ++ (simpleName q).toList = q.toList ∧
      IsLastSegment before (simpleName q).toList := by
  rw [simpleName, String.toList_ofList]
  cases hdot : afterLastDot? 0 q.toList with
  | some last => exact exists_isLastSegment_of_afterLastDot? [] hdot
  | none =>
      exact ⟨[], rfl, .inl rfl, openBrackets_ne_zero_of_afterLastDot? [] hdot⟩

theorem simpleName_eq_of_isLastSegment {q : String} {before last : List Char}
    (hparts : before ++ last = q.toList) (h : IsLastSegment before last) :
    simpleName q = String.ofList last := by
  obtain ⟨before', hparts', h'⟩ := exists_isLastSegment_simpleName q
  rw [(h.unique h' (hparts.trans hparts'.symm)).2, String.ofList_toList]

theorem simpleName_eq_self {q : String} (h : '.' ∉ q.toList) : simpleName q = q := by
  rw [simpleName_eq_of_isLastSegment (List.nil_append _) (.of_not_mem h), String.ofList_toList]

namespace Marker

/-- Without brackets every dot separates segments. -/
theorem exists_isLastSegment_lastSegment {cs : List Char} (h : '<' ∉ cs) :
    ∃ before, before ++ lastSegment cs = cs ∧ IsLastSegment before (lastSegment cs) := by
  have hparts : (cs.reverse.dropWhile (· != '.')).reverse ++ lastSegment cs = cs := by
    rw [lastSegment, ← List.reverse_append, List.takeWhile_append_dropWhile, List.reverse_reverse]
  refine ⟨_, hparts, ?_, fun inner more hlast => ?_⟩
  · cases hdrop : cs.reverse.dropWhile (· != '.') with
    | nil => exact .inl rfl
    | cons c outer =>
        have hc := List.head_dropWhile_not (p := (· != '.')) (l := cs.reverse) (by simp [hdrop])
        obtain rfl : c = '.' := by simpa [hdrop] using hc
        refine .inr ⟨outer.reverse, List.reverse_cons, openBrackets_of_not_mem fun hmem => h ?_⟩
        rw [← hparts, hdrop]
        simp [List.mem_reverse.1 hmem]
  · have hmem : '.' ∈ lastSegment cs := by simp [hlast]
    rw [lastSegment, List.mem_reverse] at hmem
    exact absurd (List.mem_takeWhile_imp hmem) (by decide)

theorem simpleName_eq_of_not_mem {q : String} (h : '<' ∉ q.toList) :
    simpleName ⟨q⟩ = SafeCalls.simpleName q := by
  obtain ⟨before, hparts, hlast⟩ := exists_isLastSegment_lastSegment h
  exact (simpleName_eq_of_isLastSegment hparts hlast).symm

end Marker

namespace Validation

theorem isNamePart_of_isNameStart {c : Char} (h : isNameStart c = true) : isNamePart c = true := by
  simp only [isNameStart, isNamePart, Char.isAlphanum, Bool.or_eq_true] at h ⊢
  exact h.imp_left .inl

theorem isNamePart_of_mem_of_isIdentifier {cs : List Char} {c : Char} (h : isIdentifier cs = true)
    (hc : c ∈ cs) : isNamePart c = true := by
  cases cs with
  | nil => cases h
  | cons d rest =>
      obtain ⟨hstart, hrest⟩ := (Bool.and_eq_true _ _).mp h
      rcases List.mem_cons.1 hc with rfl | hc
      · exact isNamePart_of_isNameStart hstart
      · exact List.all_eq_true.1 hrest c hc

theorem isNamePart_of_mem_of_isQualifiedName {cs : List Char} {c : Char}
    (h : isQualifiedName cs = true) (hc : c ∈ cs) (hdot : c ≠ '.') : isNamePart c = true := by
  obtain ⟨part, hpart, hmem⟩ := Text.exists_part_of_mem hc hdot
  exact isNamePart_of_mem_of_isIdentifier (List.all_eq_true.1 h part hpart) hmem

theorem isQualifiedName_of_checkQualifiedName {field value : String}
    (h : checkQualifiedName field value = .ok ()) : isQualifiedName value.toList = true := by
  rw [checkQualifiedName] at h
  split at h
  · assumption
  · cases h

end Validation

/-- The simple name of a text is what follows its last dot outside angle brackets, or the whole text
if there is no such dot. One pass finds the offset of its first byte, which is never inside a
character. For every name that settings may have for a marker, the simple name of the marker is the
same. -/
theorem simpleName_is_last_segment (q : String) :
    (∃ before, q.toList = before ++ (simpleName q).toList ∧
      (before = [] ∨ ∃ outer, before = outer ++ ['.'] ∧ openBrackets outer = 0) ∧
      (∀ inner more, (simpleName q).toList = inner ++ '.' :: more →
        openBrackets (before ++ inner) ≠ 0) ∧
      Text.cutAt? (SegmentScan.run q.toList).start q.toList =
        some (before, (simpleName q).toList)) ∧
    ∀ field, Validation.checkQualifiedName field q = .ok () →
      (Marker.mk q).simpleName = simpleName q := by
  refine ⟨?_, fun field hchecked => ?_⟩
  · obtain ⟨before, hparts, hlast⟩ := exists_isLastSegment_simpleName q
    obtain ⟨before', last', hparts', hknows⟩ := SegmentScan.exists_knows q.toList
    obtain ⟨rfl, rfl⟩ := hknows.isLast.unique hlast (hparts'.trans hparts.symm)
    refine ⟨before', hparts.symm, hlast.cut, hlast.inside, ?_⟩
    rw [hknows.start]
    exact Text.cutAt?_eq_some_iff.2 ⟨hparts.symm, rfl⟩
  · refine Marker.simpleName_eq_of_not_mem fun hmem => ?_
    have hqualified := Validation.isQualifiedName_of_checkQualifiedName hchecked
    have hpart := Validation.isNamePart_of_mem_of_isQualifiedName hqualified hmem (by decide)
    exact absurd hpart (by decide)

/-- The marker that is looked for unless the settings name another. -/
theorem default_marker_has_one_simple_name :
    let q := Conventions.default.trustAllMarker
    Validation.checkQualifiedName "conventions.trust_all_marker" q = .ok () ∧
    (Marker.mk q).simpleName = simpleName q ∧ simpleName q = "MakeSafeAttribute" := by
  have hchecked : Validation.checkQualifiedName "conventions.trust_all_marker"
      Conventions.default.trustAllMarker = .ok () := rfl
  exact ⟨hchecked, (simpleName_is_last_segment _).2 _ hchecked, by decide⟩

example : simpleName "System.Dictionary<System.String, Acme.Bar>" =
    "Dictionary<System.String, Acme.Bar>" := by decide

end SafeCalls
