import SafeCalls.Proofs.RecordParts

namespace SafeCalls.Json

/-!
# What can be read can be passed over

A reader that passes over a value asks less of it than one that reads it in full. For strings the
induction is on the escapes; for whole values it is on the steps of the reader.
-/

theorem exists_passString {cs s : List Char} (h : unescape cs = .ok s) :
    ∃ passed, passString cs = .ok passed := by
  -- The cases left are those in which unescaping goes on; in the others it fails.
  fun_induction unescape cs generalizing s with
  | case2 rest => exact ⟨_, rfl⟩
  | case9 a b c d high hhigh _ _ e f g k more low hlow _ ih =>
      obtain ⟨_, hmore, -⟩ := map_eq_ok.1 h
      obtain ⟨passed, hpassed⟩ := ih hmore
      rw [passString, hhigh]
      dsimp only
      rw [passString, hlow, hpassed]
      exact ⟨_, rfl⟩
  | case13 a b c d rest unit hunit _ _ ih =>
      obtain ⟨_, hrest, -⟩ := map_eq_ok.1 h
      obtain ⟨passed, hpassed⟩ := ih hrest
      rw [passString, hunit, hpassed]
      exact ⟨_, rfl⟩
  | case15 c rest hlong hshort e he ih =>
      obtain ⟨_, hrest, -⟩ := map_eq_ok.1 h
      obtain ⟨passed, hpassed⟩ := ih hrest
      rw [passString, he, hpassed]
      · exact ⟨_, rfl⟩
      · exact hlong
      · exact hshort
  | case18 c rest hquote hlone hlong hshort hescape hplain ih =>
      obtain ⟨_, hrest, -⟩ := map_eq_ok.1 h
      obtain ⟨passed, hpassed⟩ := ih hrest
      rw [passString, if_neg hplain, hpassed]
      · exact ⟨_, rfl⟩
      · exact hquote
      · exact hlone
      · exact hlong
      · exact hshort
      · exact hescape
  | _ => cases h

theorem passing_readString {cs : List Char} (h : (readString cs).1.token.fault? = none) :
    (readString cs).1.token.passing = none := by
  cases hpass : passString cs with
  | ok passed => simp [readString, hpass]
  | error fault =>
      cases hvalue : unescape cs with
      | error e => simp [readString, hpass, hvalue, Token.fault?, Except.map] at h
      | ok s =>
          obtain ⟨passed, hpassed⟩ := exists_passString hvalue
          cases hpass.symm.trans hpassed

theorem passing_token (parts : Numeral.Parts) : parts.token.passing = none := by
  rw [Numeral.Parts.token]
  cases parts.numeral? <;> rfl

theorem fault?_missingDigit (cs : List Char) : (Numeral.missingDigit cs).fault? ≠ none := by
  cases cs <;> simp [Numeral.missingDigit, Token.fault?]

theorem passing_readNumber {cs : List Char} (h : (Numeral.read cs).1.fault? = none) :
    (Numeral.read cs).1.passing = none := by
  revert h
  rw [Numeral.read.eq_def]
  split
  all_goals
    dsimp only
    split
    · intro _
      exact passing_token _
    · intro h
      exact absurd h (fault?_missingDigit _)

/-- A value that can be passed over if it can be read in full with whatever room. -/
def Reading.IsPassable (r : Reading) : Prop :=
  ∀ room, r.loadingFault? room = none → r.passingFault? = none

namespace Reading

theorem isPassable_absent (fault : Fault) : (absent fault).IsPassable := by
  intro room h
  cases room <;> cases h

theorem isPassable_list {items : List Reading} (ending : ListEnd)
    (hitems : ∀ item ∈ items, item.IsPassable) : (list items ending).IsPassable := by
  intro room h
  cases room with
  | zero => cases h
  | succ room =>
      rw [loadingFault?, Option.or_eq_none_iff, List.findSome?_eq_none_iff] at h
      have hpass : itemsPassingFault? items = none := by
        induction items with
        | nil => rfl
        | cons item more ih =>
            obtain ⟨hfirst, hmore⟩ := List.forall_mem_cons.1 hitems
            obtain ⟨hload, hrest⟩ := List.forall_mem_cons.1 h.1
            rw [itemsPassingFault?, hfirst room hload, ih hmore ⟨hrest, h.2⟩]
            rfl
      rw [passingFault?, hpass, h.2]
      rfl

theorem isPassable_object {members : List Member} (ending : ObjectEnd)
    (hmembers : ∀ m ∈ members, m.value.IsPassable ∧
      (m.name.token.fault? = none → m.name.token.passing = none)) :
    (object members ending).IsPassable := by
  intro room h
  cases room with
  | zero => cases h
  | succ room =>
      rw [loadingFault?, Option.or_eq_none_iff, List.findSome?_eq_none_iff] at h
      have hpass : membersPassingFault? members = none := by
        induction members with
        | nil => rfl
        | cons m more ih =>
            obtain ⟨name, value⟩ := m
            obtain ⟨⟨hvalue, hname⟩, hmore⟩ := List.forall_mem_cons.1 hmembers
            obtain ⟨hload, hrest⟩ := List.forall_mem_cons.1 h.1
            rw [Option.or_eq_none_iff] at hload
            rw [membersPassingFault?, hname hload.1, hvalue room hload.2, ih hmore ⟨hrest, h.2⟩]
            rfl
      rw [passingFault?, hpass, h.2]
      rfl

theorem isPassable_readWord {word : List Char} {meaning : Reading} {cs : List Char}
    (h : meaning.IsPassable) : (readWord word meaning cs).part.IsPassable := by
  fun_induction readWord word meaning cs with
  | case1 rest => exact h
  | case3 w word rest ih => exact ih
  | _ =>
    intro room hload
    cases room <;> cases hload

end Reading

open Reading

mutual

theorem isPassable_readValue : ∀ (fuel : Nat) (cs : List Char),
    (readValue fuel cs).part.IsPassable
  | 0, _ => isPassable_absent _
  | fuel + 1, cs => by
      rw [readValue]
      split
      · exact isPassable_absent _
      · exact isPassable_readWord fun _ _ => rfl
      · exact isPassable_readWord fun _ _ => rfl
      · exact isPassable_readWord fun _ _ => rfl
      · next rest _ =>
          intro room h
          exact passing_readString (by cases room <;> exact h)
      · next rest _ =>
          split
          · exact isPassable_list _ (List.forall_mem_nil _)
          · exact isPassable_list _ (List.forall_mem_nil _)
          · exact isPassable_list _ (isPassable_readItems fuel _)
      · next rest _ =>
          split
          · exact isPassable_object _ (List.forall_mem_nil _)
          · exact isPassable_object _ (List.forall_mem_nil _)
          · exact isPassable_object _ (isPassable_readMembers fuel _)
      · next c rest _ _ _ _ _ _ _ =>
          split
          · intro room h
            exact passing_readNumber (by cases room <;> exact h)
          · exact isPassable_absent _

theorem isPassable_readItems : ∀ (fuel : Nat) (cs : List Char),
    ∀ item ∈ (readItems fuel cs).part.1, item.IsPassable
  | 0, _ => by simp [readItems]
  | fuel + 1, cs => by
      have hitem := isPassable_readValue fuel cs
      rw [readItems]
      dsimp only
      split
      · simpa using hitem
      · split
        · simpa using hitem
        · simpa using hitem
        · exact List.forall_mem_cons.2 ⟨hitem, isPassable_readItems fuel _⟩
        · simpa using hitem

theorem isPassable_readMembers : ∀ (fuel : Nat) (cs : List Char),
    ∀ m ∈ (readMembers fuel cs).part.1, m.value.IsPassable ∧
      (m.name.token.fault? = none → m.name.token.passing = none)
  | 0, _ => by simp [readMembers]
  | fuel + 1, cs => by
      rw [readMembers]
      split
      · next rest _ =>
          have hname : (readString rest).1.token.fault? = none →
              (readString rest).1.token.passing = none := passing_readString
          dsimp only
          split
          · simpa using ⟨isPassable_absent _, hname⟩
          · next after _ =>
              split
              · simpa using ⟨isPassable_absent _, hname⟩
              · next text _ =>
                  have hvalue := isPassable_readValue fuel text
                  split
                  · simpa using ⟨hvalue, hname⟩
                  · split
                    · simpa using ⟨hvalue, hname⟩
                    · simpa using ⟨hvalue, hname⟩
                    · exact List.forall_mem_cons.2 ⟨⟨hvalue, hname⟩, isPassable_readMembers fuel _⟩
                    · simpa using ⟨hvalue, hname⟩
      · simp

end

/-- What a text spells can be passed over as soon as it can be read in full. -/
theorem isPassable_readText (text : String) : (readText text).content.IsPassable := by
  have hvalue := isPassable_readValue (2 * text.toList.length + 2) text.toList
  rw [readText]
  split
  · exact hvalue
  · exact hvalue

end SafeCalls.Json
