namespace SafeCalls.Text

/-!
# Cutting at an offset

Offsets count the bytes of the UTF-8 form of a text. A text can be cut only between characters.
-/

/-- What stands before an offset and what stands from it on, unless the offset is inside a
character or behind the end. -/
def cutAt? : Nat → List Char → Option (List Char × List Char)
  | 0, cs => some ([], cs)
  | _ + 1, [] => none
  | offset + 1, c :: rest =>
      if offset + 1 < c.utf8Size then none
      else
        (cutAt? (offset + 1 - c.utf8Size) rest).map fun (before, after) => (c :: before, after)

theorem utf8ByteSize_cons (c : Char) (cs : List Char) :
    (String.ofList (c :: cs)).utf8ByteSize = c.utf8Size + (String.ofList cs).utf8ByteSize := by
  rw [String.ofList_cons, String.utf8ByteSize_append, String.utf8ByteSize_singleton]

theorem cutAt?_append (before after : List Char) :
    cutAt? (String.ofList before).utf8ByteSize (before ++ after) = some (before, after) := by
  induction before with
  | nil => simp [cutAt?]
  | cons c before ih =>
      have hpos := c.utf8Size_pos
      have hsize := utf8ByteSize_cons c before
      obtain ⟨offset, hoffset⟩ :
          ∃ offset, (String.ofList (c :: before)).utf8ByteSize = offset + 1 :=
        Nat.exists_eq_add_one.2 (by omega)
      have hrest : offset + 1 - c.utf8Size = (String.ofList before).utf8ByteSize := by omega
      rw [hoffset, List.cons_append, cutAt?, if_neg (by omega), hrest, ih]
      rfl

/-- Nothing of a text is lost when it is cut, and the offset is the size of the first part. -/
theorem cutAt?_eq_some_iff {offset : Nat} {cs before after : List Char} :
    cutAt? offset cs = some (before, after) ↔
      cs = before ++ after ∧ offset = (String.ofList before).utf8ByteSize := by
  refine ⟨fun h => ?_, ?_⟩
  · induction cs generalizing offset before with
    | nil =>
        cases offset with
        | zero =>
            obtain ⟨rfl, rfl⟩ := Prod.mk.inj (Option.some.inj h)
            exact ⟨rfl, rfl⟩
        | succ offset => cases h
    | cons c rest ih =>
        cases offset with
        | zero =>
            obtain ⟨rfl, rfl⟩ := Prod.mk.inj (Option.some.inj h)
            exact ⟨rfl, rfl⟩
        | succ offset =>
            rw [cutAt?] at h
            split at h
            · cases h
            · next hinside =>
                obtain ⟨⟨first, second⟩, hrest, heq⟩ := Option.map_eq_some_iff.1 h
                obtain ⟨rfl, rfl⟩ := Prod.mk.inj heq
                obtain ⟨rfl, hoffset⟩ := ih hrest
                refine ⟨rfl, ?_⟩
                rw [utf8ByteSize_cons, ← hoffset]
                omega
  · rintro ⟨rfl, rfl⟩
    exact cutAt?_append before after

end SafeCalls.Text
