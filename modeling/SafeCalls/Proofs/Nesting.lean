namespace SafeCalls

/-!
# Nested brackets

Texts in which brackets are nested, and in which certain separators stand inside brackets only.
Such a text can be told from what stands before it by the bracket in front of it, and a list of
such texts can be told from its joined form.
-/

namespace Nesting

def opens (c : Char) : Bool := c == '<' || c == '(' || c == '['

def closes (c : Char) : Bool := c == '>' || c == ')' || c == ']'

/-- Whether a text that follows on `depth` open brackets closes only what is open, and all of it
in the end, with no separator outside of brackets. Brackets of different shapes are not told
apart. -/
def nests (separates : Char → Bool) : Nat → List Char → Bool
  | depth, [] => depth == 0
  | depth, c :: rest =>
      if opens c then nests separates (depth + 1) rest
      else if closes c then 0 < depth && nests separates (depth - 1) rest
      else (0 < depth || !separates c) && nests separates depth rest

variable {sep sep' : Char → Bool} {depth k : Nat} {u v w : List Char} {c : Char}

theorem nests_cons_of_opens (hc : opens c = true) :
    nests sep depth (c :: w) = nests sep (depth + 1) w := by
  rw [nests, if_pos hc]

theorem nests_cons_of_closes (hopens : opens c = false) (hc : closes c = true) :
    nests sep depth (c :: w) = true ↔ 0 < depth ∧ nests sep (depth - 1) w = true := by
  simp [nests, hopens, hc]

theorem nests_cons_of_neither (hopens : opens c = false) (hcloses : closes c = false) :
    nests sep depth (c :: w) = true ↔
      (0 < depth ∨ sep c = false) ∧ nests sep depth w = true := by
  simp [nests, hopens, hcloses]

/-- The brackets that a text closes without opening them are as many as have to be open. -/
theorem nests_depth_eq (h : nests sep depth w = true) (h' : nests sep' k w = true) :
    depth = k := by
  induction w generalizing depth k with
  | nil =>
      have h₁ : depth = 0 := by simpa [nests] using h
      have h₂ : k = 0 := by simpa [nests] using h'
      rw [h₁, h₂]
  | cons c w ih =>
      cases hopens : opens c with
      | true =>
          rw [nests_cons_of_opens hopens] at h h'
          have heq := ih h h'
          omega
      | false =>
          cases hcloses : closes c with
          | true =>
              rw [nests_cons_of_closes hopens hcloses] at h h'
              have heq := ih h.2 h'.2
              omega
          | false =>
              rw [nests_cons_of_neither hopens hcloses] at h h'
              exact ih h.2 h'.2

theorem exists_nests_of_append (h : nests sep depth (u ++ v) = true) :
    ∃ k, nests sep k v = true := by
  induction u generalizing depth with
  | nil => exact ⟨depth, h⟩
  | cons c u ih =>
      rw [List.cons_append] at h
      cases hopens : opens c with
      | true =>
          rw [nests_cons_of_opens hopens] at h
          exact ih h
      | false =>
          cases hcloses : closes c with
          | true =>
              rw [nests_cons_of_closes hopens hcloses] at h
              exact ih h.2
          | false =>
              rw [nests_cons_of_neither hopens hcloses] at h
              exact ih h.2

theorem nests_of_append (hu : nests sep depth u = true)
    (h : nests sep' (depth + k) (u ++ v) = true) : nests sep' k v = true := by
  induction u generalizing depth with
  | nil =>
      have hdepth : depth = 0 := by simpa [nests] using hu
      simpa [hdepth] using h
  | cons c u ih =>
      rw [List.cons_append] at h
      cases hopens : opens c with
      | true =>
          rw [nests_cons_of_opens hopens] at hu h
          apply ih hu
          rwa [Nat.add_right_comm]
      | false =>
          cases hcloses : closes c with
          | true =>
              rw [nests_cons_of_closes hopens hcloses] at hu h
              apply ih hu.2
              rw [← Nat.sub_add_comm hu.1]
              exact h.2
          | false =>
              rw [nests_cons_of_neither hopens hcloses] at hu h
              exact ih hu.2 h.2

theorem nests_append (hu : nests sep depth u = true) (hv : nests sep k v = true) :
    nests sep (depth + k) (u ++ v) = true := by
  induction u generalizing depth with
  | nil =>
      have hdepth : depth = 0 := by simpa [nests] using hu
      simpa [hdepth] using hv
  | cons c u ih =>
      rw [List.cons_append]
      cases hopens : opens c with
      | true =>
          rw [nests_cons_of_opens hopens] at hu ⊢
          have h := ih hu
          rwa [Nat.add_right_comm] at h
      | false =>
          cases hcloses : closes c with
          | true =>
              rw [nests_cons_of_closes hopens hcloses] at hu ⊢
              refine ⟨Nat.add_pos_left hu.1 k, ?_⟩
              rw [Nat.sub_add_comm hu.1]
              exact ih hu.2
          | false =>
              rw [nests_cons_of_neither hopens hcloses] at hu ⊢
              exact ⟨hu.1.imp_left fun hpos => Nat.add_pos_left hpos k, ih hu.2⟩

theorem nests_mono (hsep : ∀ c, sep' c = true → sep c = true) (h : nests sep depth w = true) :
    nests sep' depth w = true := by
  induction w generalizing depth with
  | nil => exact h
  | cons c w ih =>
      cases hopens : opens c with
      | true =>
          rw [nests_cons_of_opens hopens] at h ⊢
          exact ih h
      | false =>
          cases hcloses : closes c with
          | true =>
              rw [nests_cons_of_closes hopens hcloses] at h ⊢
              exact ⟨h.1, ih h.2⟩
          | false =>
              rw [nests_cons_of_neither hopens hcloses] at h ⊢
              refine ⟨h.1.imp_right fun hc => ?_, ih h.2⟩
              cases hc' : sep' c with
              | false => rfl
              | true => exact absurd (hsep c hc') (by simp [hc])

/-- The place where a text is cut before `c` or `d` is one and the same if neither rest occurs at
the end of what follows the other cut. -/
theorem cut_unique {α : Type} {xs ys u v : List α} {c d : α} (hu : ¬ (d :: v) <:+ u)
    (hv : ¬ (c :: u) <:+ v) (h : xs ++ c :: u = ys ++ d :: v) : xs = ys ∧ c = d ∧ u = v := by
  obtain ⟨as, hys, hcut⟩ | ⟨as, hxs, hcut⟩ := List.append_eq_append_iff.1 h
  · cases as with
    | nil => exact ⟨by simpa using hys.symm, by simpa using hcut⟩
    | cons a as =>
        rw [List.cons_append, List.cons.injEq] at hcut
        exact absurd ⟨as, hcut.2.symm⟩ hu
  · cases as with
    | nil =>
        have hcut' : d = c ∧ v = u := by simpa using hcut
        exact ⟨by simpa using hxs, hcut'.1.symm, hcut'.2.symm⟩
    | cons a as =>
        rw [List.cons_append, List.cons.injEq] at hcut
        exact absurd ⟨as, hcut.2.symm⟩ hv

theorem not_suffix_of_nests (hc : opens c = true) (hu : nests sep 0 u = true)
    (hv : nests sep' 0 v = true) : ¬ (c :: u) <:+ v := by
  rintro ⟨w, rfl⟩
  obtain ⟨k, hk⟩ := exists_nests_of_append hv
  rw [nests_cons_of_opens hc] at hk
  have hdepth := nests_depth_eq hk hu
  omega

/-- The last bracket that is left open shows where a nested text begins. -/
theorem cut_before_nested {xs ys : List Char} {d : Char} (hc : opens c = true)
    (hd : opens d = true) (hu : nests sep 0 u = true) (hv : nests sep' 0 v = true)
    (h : xs ++ c :: u = ys ++ d :: v) : xs = ys ∧ c = d ∧ u = v :=
  cut_unique (not_suffix_of_nests hd hv hu) (not_suffix_of_nests hc hu hv) h

theorem not_nests_of_append (hopens : opens c = false) (hcloses : closes c = false)
    (hc : sep c = true) (hu : nests sep 0 u = true) : ¬ nests sep 0 (u ++ c :: v) = true := by
  intro h
  have hrest : nests sep 0 (c :: v) = true := nests_of_append hu (by simpa using h)
  rw [nests_cons_of_neither hopens hcloses] at hrest
  simp [hc] at hrest

/-- A nested text ends where the first separator outside of brackets stands. -/
theorem cut_before_separator {s t : List Char} (hopens : opens c = false)
    (hcloses : closes c = false) (hc : sep c = true) (hu : nests sep 0 u = true)
    (hv : nests sep 0 v = true) (hs : ∀ d ∈ s.head?, d = c) (ht : ∀ d ∈ t.head?, d = c)
    (h : u ++ s = v ++ t) : u = v ∧ s = t := by
  obtain ⟨as, rfl, hst⟩ | ⟨as, rfl, hst⟩ := List.append_eq_append_iff.1 h
  · cases as with
    | nil => exact ⟨by simp, by simpa using hst⟩
    | cons d as =>
        obtain rfl : d = c := hs d (by simp [hst])
        exact absurd hv (not_nests_of_append hopens hcloses hc hu)
  · cases as with
    | nil => exact ⟨by simp, by simpa using hst.symm⟩
    | cons d as =>
        obtain rfl : d = c := ht d (by simp [hst])
        exact absurd hu (not_nests_of_append hopens hcloses hc hv)

end Nesting

end SafeCalls
