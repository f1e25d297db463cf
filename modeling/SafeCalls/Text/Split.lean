namespace SafeCalls.Text

/-!
# Splitting at a separator

The parts of a text between the occurrences of a character. There is always at least one part, and
parts may be empty.
-/

def splitAt (separator : Char) : List Char → List (List Char)
  | [] => [[]]
  | c :: rest =>
      if c = separator then [] :: splitAt separator rest
      else
        match splitAt separator rest with
        | [] => [[c]]
        | part :: more => (c :: part) :: more

theorem splitAt_ne_nil (separator : Char) (cs : List Char) : splitAt separator cs ≠ [] := by
  cases cs with
  | nil => simp [splitAt]
  | cons c rest =>
      rw [splitAt]
      split
      · simp
      · split <;> simp

theorem splitAt_of_not_mem {separator : Char} {cs : List Char} (h : separator ∉ cs) :
    splitAt separator cs = [cs] := by
  induction cs with
  | nil => rfl
  | cons c rest ih =>
      rw [List.mem_cons, not_or] at h
      rw [splitAt, if_neg (Ne.symm h.1), ih h.2]

theorem splitAt_append (separator : Char) (xs ys : List Char) :
    splitAt separator (xs ++ separator :: ys) =
      splitAt separator xs ++ splitAt separator ys := by
  induction xs with
  | nil => simp [splitAt]
  | cons c xs ih =>
      rw [List.cons_append, splitAt, splitAt, ih]
      by_cases hc : c = separator
      · rw [if_pos hc, if_pos hc, List.cons_append]
      · rw [if_neg hc, if_neg hc]
        cases hxs : splitAt separator xs with
        | nil => exact absurd hxs (splitAt_ne_nil separator xs)
        | cons part more => rfl

/-- Splitting loses nothing but separators. -/
theorem exists_part_of_mem {separator c : Char} {cs : List Char} (h : c ∈ cs)
    (hne : c ≠ separator) : ∃ part ∈ splitAt separator cs, c ∈ part := by
  -- The cases are those of the definition; a text is never split into nothing at all.
  fun_induction splitAt separator cs with
  | case1 => cases h
  | case2 rest ih =>
      obtain ⟨part, hpart, hc⟩ := ih ((List.mem_cons.1 h).resolve_left hne)
      exact ⟨part, List.mem_cons_of_mem _ hpart, hc⟩
  | case3 d rest hd hnil ih => exact absurd hnil (splitAt_ne_nil separator rest)
  | case4 d rest hd part more hsplit ih =>
      rcases List.mem_cons.1 h with rfl | hrest
      · exact ⟨_, List.mem_cons_self, List.mem_cons_self⟩
      · obtain ⟨other, hother, hc⟩ := ih hrest
        rw [hsplit] at hother
        rcases List.mem_cons.1 hother with rfl | hmore
        · exact ⟨_, List.mem_cons_self, List.mem_cons_of_mem _ hc⟩
        · exact ⟨other, List.mem_cons_of_mem _ hmore, hc⟩

end SafeCalls.Text
