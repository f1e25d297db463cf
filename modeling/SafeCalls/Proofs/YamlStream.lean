import Mathlib
import SafeCalls.Yaml.Scalar.Writing

namespace SafeCalls.Yaml

/-!
# Streams of printable text

What is written consists of printable characters only. A stream of such characters is nothing but
the characters with their positions: none of them is changed, left out or unreadable.
-/

open TextStyle (isPrintable isGapChar isAtGap)
open Writing (spaces)

theorem isReadable_of_isPrintable {c : Char} (h : isPrintable c) : isReadable c := by
  simp only [isPrintable, isReadable, Bool.or_eq_true, Bool.and_eq_true] at h ⊢
  rcases h with (hfeed | hascii) | ⟨⟨⟨hlow, -⟩, hlast⟩, hlast'⟩
  · exact .inl (.inl (.inl (.inl (.inr hfeed))))
  · exact .inl (.inl (.inr hascii))
  · exact .inr ⟨⟨hlow, hlast⟩, hlast'⟩

theorem ne_return_of_isPrintable {c : Char} (h : isPrintable c) : c ≠ '\r' := by
  rintro rfl
  exact absurd h (by decide)

theorem ne_nextLine_of_isPrintable {c : Char} (h : isPrintable c) : c ≠ '\u0085' := by
  rintro rfl
  exact absurd h (by decide)

theorem ne_mark_of_isPrintable {c : Char} (h : isPrintable c) : c ≠ byteOrderMark := by
  rintro rfl
  exact absurd h (by decide)

theorem ne_tab_of_isPrintable {c : Char} (h : isPrintable c) : c ≠ '\t' := by
  rintro rfl
  exact absurd h (by decide)

theorem isBlank_iff_of_isPrintable {c : Char} (h : isPrintable c) : isBlank c ↔ c = ' ' := by
  simp [isBlank, ne_tab_of_isPrintable h]

/-- Printable text. -/
def IsPrintable (cs : List Char) : Prop := ∀ c ∈ cs, isPrintable c

instance : DecidablePred IsPrintable := fun cs =>
  List.decidableBAll (fun c => isPrintable c) cs

namespace IsPrintable

variable {c : Char} {cs ds : List Char}

theorem nil : IsPrintable [] := List.forall_mem_nil _

theorem cons_iff : IsPrintable (c :: cs) ↔ isPrintable c ∧ IsPrintable cs := List.forall_mem_cons

theorem append_iff : IsPrintable (cs ++ ds) ↔ IsPrintable cs ∧ IsPrintable ds :=
  List.forall_mem_append

end IsPrintable

/-! ### Positions -/

namespace Position

/-- The position after a character that stands for itself. -/
def past (p : Position) (c : Char) : Position :=
  if isBreak c then p.afterBreak c.utf8Size else p.afterChar c

def pastAll (p : Position) (cs : List Char) : Position := cs.foldl past p

variable {p : Position} {cs ds : List Char}

@[simp] theorem pastAll_nil : p.pastAll [] = p := rfl

@[simp] theorem pastAll_cons (c : Char) : p.pastAll (c :: cs) = (p.past c).pastAll cs := rfl

@[simp] theorem pastAll_append : p.pastAll (cs ++ ds) = (p.pastAll cs).pastAll ds :=
  List.foldl_append

theorem past_of_isBreak {c : Char} (h : isBreak c) : p.past c = p.afterBreak c.utf8Size :=
  if_pos h

theorem past_of_not_isBreak {c : Char} (h : ¬ isBreak c) : p.past c = p.afterChar c := if_neg h

theorem line_le_line_pastAll : p.line ≤ (p.pastAll cs).line := by
  induction cs generalizing p with
  | nil => exact Nat.le_refl _
  | cons c cs ih =>
      refine Nat.le_trans ?_ ih
      by_cases h : isBreak c
      · simp [past_of_isBreak h, afterBreak]
      · simp [past_of_not_isBreak h, afterChar]

theorem offset_pastAll (p : Position) (cs : List Char) :
    (p.pastAll cs).offset = p.offset + (cs.map Char.utf8Size).sum := by
  induction cs generalizing p with
  | nil => rfl
  | cons c cs ih =>
      rw [pastAll_cons, ih, List.map_cons, List.sum_cons, ← Nat.add_assoc]
      by_cases h : isBreak c
      · simp [past_of_isBreak h, afterBreak]
      · simp [past_of_not_isBreak h, afterChar]

/-- Without line breaks the line stays and the column counts the characters. -/
theorem pastAll_of_not_isBreak (h : ∀ c ∈ cs, ¬ isBreak c) :
    (p.pastAll cs).line = p.line ∧ (p.pastAll cs).column = p.column + cs.length := by
  induction cs generalizing p with
  | nil => exact ⟨rfl, rfl⟩
  | cons c cs ih =>
      obtain ⟨hc, hcs⟩ := List.forall_mem_cons.1 h
      obtain ⟨hline, hcolumn⟩ := ih (p := p.past c) hcs
      rw [past_of_not_isBreak hc] at hline hcolumn
      rw [pastAll_cons, past_of_not_isBreak hc]
      refine ⟨hline, ?_⟩
      rw [hcolumn, List.length_cons, afterChar]
      exact Nat.succ_add_eq_add_succ p.column cs.length

end Position

/-! ### Streams -/

namespace Stream

variable {p : Position} {c : Char} {cs : List Char}

theorem ofChars_cons (h : isPrintable c) :
    ofChars p (c :: cs) = next c p (ofChars (p.past c) cs) := by
  have hreturn := ne_return_of_isPrintable h
  rw [ofChars.eq_def]
  split
  · simp_all
  · simp_all
  · next c' rest _ heq =>
      obtain ⟨rfl, rfl⟩ := List.cons.inj heq
      by_cases hbreak : isBreak c
      · rw [if_pos hbreak, Position.past_of_isBreak hbreak]
        by_cases hsep : isSeparator c
        · rw [if_pos hsep]
        · have hfeed : c = '\n' := by
            simpa [isBreak, hsep, hreturn, ne_nextLine_of_isPrintable h] using hbreak
          rw [if_neg hsep, hfeed]
      · rw [if_neg hbreak, Position.past_of_not_isBreak hbreak]

@[simp] theorem position_ofChars : (ofChars p cs).position = p := by
  rw [ofChars.eq_def]
  split
  · rfl
  · rfl
  · split <;> rfl

@[simp] theorem column_ofChars : (ofChars p cs).column = p.column := by
  rw [column, position_ofChars]

theorem length_ofChars (h : IsPrintable cs) : (ofChars p cs).length = cs.length := by
  induction cs generalizing p with
  | nil => rfl
  | cons c cs ih =>
      obtain ⟨hc, hcs⟩ := IsPrintable.cons_iff.1 h
      rw [ofChars_cons hc, length, ih hcs, List.length_cons]

theorem char?_ofChars (h : IsPrintable cs) (n : Nat) : (ofChars p cs).char? n = cs[n]? := by
  induction cs generalizing p n with
  | nil => rfl
  | cons c cs ih =>
      obtain ⟨hc, hcs⟩ := IsPrintable.cons_iff.1 h
      rw [ofChars_cons hc]
      cases n with
      | zero => rfl
      | succ n => exact ih hcs n

theorem tail_ofChars (h : isPrintable c) :
    (ofChars p (c :: cs)).tail = ofChars (p.past c) cs := by
  rw [ofChars_cons h]
  rfl

theorem flatten_blocks (room : Nat) (text : List Char) : (blocks room text).flatten = text := by
  induction text generalizing room with
  | nil => rfl
  | cons c text ih =>
      rw [blocks]
      split
      · have h := ih (room - c.utf8Size)
        split
        · next heq => rw [heq] at h; simpa using h
        · next heq => rw [heq] at h; simpa using h
      · have h := ih (blockSize - c.utf8Size)
        split
        · next heq => rw [heq] at h; simpa using h
        · next heq => rw [heq] at h; simpa using h

theorem ofText_eq (h : IsPrintable cs) : ofText cs = (ofChars .start cs, false) := by
  have hblocks : ∀ block ∈ blocks blockSize cs, block.all isReadable := by
    intro block hblock
    refine List.all_eq_true.2 fun c hc => isReadable_of_isPrintable (h c ?_)
    rw [← flatten_blocks blockSize cs]
    exact List.mem_flatten.2 ⟨block, hblock, hc⟩
  have hmark : withoutMark cs = cs := by
    cases cs with
    | nil => rfl
    | cons c cs => exact if_neg (ne_mark_of_isPrintable (IsPrintable.cons_iff.1 h).1)
  have hall : (blocks blockSize cs).takeWhile (·.all isReadable) = blocks blockSize cs := by
    rw [List.takeWhile_eq_self_iff]
    exact hblocks
  simp only [ofText, hall, flatten_blocks, hmark]
  simp

end Stream

/-! ### Gaps and indentation -/

theorem isGapChar_iff {c : Char} (h : isPrintable c) : isGapChar c ↔ c = ' ' ∨ isBreak c := by
  rw [isGapChar, Bool.or_eq_true, isBlank_iff_of_isPrintable h]

@[simp] theorem isBreak_space : isBreak ' ' = false := rfl

theorem Stream.isGap_ofChars {p : Position} {cs : List Char} (h : IsPrintable cs) (n : Nat) :
    (Stream.ofChars p cs).isGap n = isAtGap (cs.drop n) := by
  rw [isGap, char?_ofChars h, ← List.head?_drop]
  cases cs.drop n <;> rfl

/-- What starts with a token if it is not empty. -/
def StartsToken (cs : List Char) : Prop := ∀ c ∈ cs.head?, ¬ isGapChar c ∧ c ≠ '#'

theorem isPrintable_spaces (n : Nat) : IsPrintable (spaces n) := by
  intro c hc
  rw [List.eq_of_mem_replicate hc]
  decide

namespace Position

/-- The place in the next line that many columns to the right. -/
def nextLine (p : Position) (column : Nat) : Position :=
  (p.past '\n').pastAll (spaces column)

theorem column_pastAll_spaces (p : Position) (n : Nat) :
    (p.pastAll (spaces n)).column = p.column + n := by
  have hbreak : ∀ c ∈ spaces n, ¬ isBreak c := by
    intro c hc
    rw [List.eq_of_mem_replicate hc]
    decide
  rw [(pastAll_of_not_isBreak hbreak).2, spaces, List.length_replicate]

end Position

end SafeCalls.Yaml
