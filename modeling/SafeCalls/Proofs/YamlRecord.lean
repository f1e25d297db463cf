import SafeCalls.Proofs.JsonText
import SafeCalls.Proofs.SnapshotForm
import SafeCalls.Proofs.YamlNodes
import SafeCalls.Yaml.Decode

namespace SafeCalls.Yaml

/-!
# Written records are read back

Whatever a text looks like, a field of type text has it literally. Numbers and truth values are read
from words, and a record is read from the mapping with its fields.
-/

namespace Value

/-! ### Words -/

theorem isWord_of_allowsPlain {s : String} (hne : s.toList ≠ []) (h : TextStyle.allowsPlain s.toList) :
    IsWord s := by
  obtain ⟨c, rest, hs⟩ := List.exists_cons_of_ne_nil hne
  exact ⟨c, rest, hs, Plain.isAllowed_of_allowsPlain (hs ▸ h)⟩

theorem ne_of_isDigit {c d : Char} (hc : c.isDigit) (hd : d.isDigit = false) : c ≠ d := by
  rintro rfl
  rw [hc] at hd
  cases hd

theorem isPrintable_of_isDigit {c : Char} (h : c.isDigit) : TextStyle.isPrintable c := by
  simp only [Char.isDigit, Bool.and_eq_true, decide_eq_true_eq] at h
  have hlow : ' ' ≤ c := UInt32.le_trans (by decide) h.1
  have hhigh : c ≤ '~' := UInt32.le_trans h.2 (by decide)
  simp [TextStyle.isPrintable, hlow, hhigh]

theorem hasMark_of_isDigit {cs : List Char} (h : ∀ c ∈ cs, c.isDigit) (before : Char) :
    TextStyle.hasMark before cs = false := by
  induction cs generalizing before with
  | nil => rfl
  | cons c cs ih =>
      obtain ⟨hc, hcs⟩ := List.forall_mem_cons.1 h
      have hcolon : (c == ':') = false := beq_eq_false_iff_ne.2 (ne_of_isDigit hc rfl)
      have hcomment : (c == '#') = false := beq_eq_false_iff_ne.2 (ne_of_isDigit hc rfl)
      rw [TextStyle.hasMark, hcolon, hcomment, ih hcs]
      rfl

theorem isAllowed_of_isDigit {c : Char} {rest : List Char} (h : ∀ d ∈ c :: rest, d.isDigit) :
    Plain.IsAllowed c rest := by
  have hc := h c List.mem_cons_self
  have hnot (ds : List Char) (hds : ds.all fun d => !d.isDigit) : ds.contains c = false := by
    refine Bool.eq_false_iff.2 fun hmem => ?_
    have hnone := List.all_eq_true.1 hds c (List.contains_iff_mem.1 hmem)
    rw [hc] at hnone
    cases hnone
  refine ⟨fun d hd => isPrintable_of_isDigit (h d hd), fun d hd hbreak => ?_, ne_of_isDigit hc rfl,
    fun hlast => ?_, ?_, ?_, hasMark_of_isDigit (List.forall_mem_cons.1 h).2 c⟩
  · have hd := h d hd
    simp only [isBreak, isSeparator, Bool.or_eq_true, beq_iff_eq] at hbreak
    rcases hbreak with ((rfl | rfl) | rfl) | rfl | rfl <;> cases hd
  · exact absurd (h ' ' (List.mem_cons_of_mem c (List.mem_of_mem_getLast? hlast))) (by decide)
  · unfold TextStyle.startsDocument
    split
    · next heq => exact absurd (List.cons.inj heq).1 (ne_of_isDigit hc rfl)
    · next heq => exact absurd (List.cons.inj heq).1 (ne_of_isDigit hc rfl)
    · rfl
  · rw [TextStyle.isIndicator, hnot _ (by decide), hnot _ (by decide)]
    rfl

theorem isWord_toString (n : Nat) : IsWord (toString n) := by
  obtain ⟨d, ds, heq, -⟩ := Json.exists_toDigits_eq_cons n
  refine ⟨d, ds, ?_, isAllowed_of_isDigit fun c hc => ?_⟩
  · rw [Nat.toString_eq_ofList_toDigits, String.toList_ofList, heq]
  · rw [← heq] at hc
    exact Json.isDigit_of_mem_toDigits hc

end Value

namespace Schema

theorem digitsFrom?_of_isDigit {cs : List Char} (h : ∀ c ∈ cs, c.isDigit) (n : Nat) :
    digitsFrom? 10 n cs = some (Nat.ofDigitChars 10 cs n) := by
  induction cs generalizing n with
  | nil => rfl
  | cons c cs ih =>
      obtain ⟨hc, hcs⟩ := List.forall_mem_cons.1 h
      simp only [Char.isDigit, Bool.and_eq_true, decide_eq_true_eq] at hc
      have hdigit : digit? c = some (c.toNat - '0'.toNat) := if_pos hc
      have hsmall : c.toNat - '0'.toNat < 10 := by
        have hle : c.toNat ≤ 57 := UInt32.le_iff_toNat_le.1 hc.2
        change c.toNat - 48 < 10
        omega
      rw [digitsFrom?, hdigit]
      dsimp only
      rw [if_pos hsmall, ih hcs, Nat.ofDigitChars_cons, Nat.mul_comm]

theorem natural?_toDigits (n : Nat) : natural? (Nat.toDigits 10 n) = some n := by
  obtain ⟨d, ds, heq, hd, hzero⟩ := Json.exists_toDigits_eq_cons n
  have hdigits : ∀ c ∈ d :: ds, c.isDigit := by
    intro c hc
    rw [← heq] at hc
    exact Json.isDigit_of_mem_toDigits hc
  have hvalue : digits? 10 (d :: ds) = some n := by
    rw [digits?, List.isEmpty_cons, if_neg Bool.false_ne_true, digitsFrom?_of_isDigit hdigits, ← heq,
      Nat.ofDigitChars_ten_toDigits]
  have hlong (c : Char) (cs : List Char) : d :: ds ≠ '0' :: c :: cs := by
    intro h
    obtain ⟨hd, hds⟩ := List.cons.inj h
    rw [hzero hd] at hds
    cases hds
  have hlead : isZeroLed (d :: ds) = false := by
    unfold isZeroLed
    split
    · next h => exact absurd h (hlong _ _)
    · rfl
  have hmagnitude : magnitude? (d :: ds) = some n := by
    unfold magnitude?
    split
    · next h => exact absurd h (hlong _ _)
    · next h => exact absurd h (hlong _ _)
    · next h => exact absurd h (hlong _ _)
    · rw [hlead, if_neg Bool.false_ne_true, hvalue]
  rw [heq]
  unfold natural?
  split
  · next h => exact absurd (List.cons.inj h).1 (Value.ne_of_isDigit hd rfl)
  · exact hmagnitude

end Schema

namespace Located

variable {l : Located} {α : Type}

theorem content_of_node {v : Value} (h : l.node = v.node) : l.content = v.node := by
  rw [content, h]
  cases v <;> rfl

theorem text_of_node {s : String} (h : l.node = (Value.text s).node) : l.text = .ok s := by
  rw [text, textAs, content_of_node h]
  rfl

theorem boolean_of_node {b : Bool} (h : l.node = (Value.word (if b then "true" else "false")).node) :
    l.boolean = .ok b := by
  rw [boolean, content_of_node h]
  cases b <;> rfl

theorem naturalAs_of_node {n : Nat} (expected : String) (h : l.node = (Value.word (toString n)).node)
    (hn : n < UInt64.size) : l.naturalAs expected = .ok n := by
  rw [naturalAs, content_of_node h]
  simp [Value.node, Value.wordNode, Schema.natural?_toDigits, Scalar.isTypeable, hn]

theorem count_of_node {n : UInt64} (h : l.node = (Value.word (toString n.toNat)).node) :
    l.count = .ok n := by
  rw [count, naturalAs_of_node "usize" h n.toNat_lt]
  exact congrArg Except.ok (UInt64.ofNat_toNat)

theorem word_of_node {n : UInt32} (h : l.node = (Value.word (toString n.toNat)).node) :
    l.word = .ok n := by
  have hn : n.toNat < UInt32.size := n.toNat_lt
  have hn' : n.toNat < UInt64.size := Nat.lt_trans hn (by decide)
  rw [word, naturalAs_of_node "u32" h hn']
  change (if n.toNat < UInt32.size then Except.ok n.toNat.toUInt32 else _) = _
  rw [if_pos hn]
  exact congrArg Except.ok UInt32.ofNat_toNat

theorem named_of_node {κ : Type} {names : Names κ} {name : String} {k : κ}
    (hname : names.lookup name = some k) (h : l.node = (Value.text name).node) :
    l.named names = .ok k := by
  rw [named, content_of_node h]
  simp [Value.node, Value.scalarNode, tagName?, hname]

theorem optional_of_record {fields : List (String × Value)} (h : l.node = (Value.record fields).node)
    (decode : Located → Except Error α) : optional decode l = (decode l).map some := by
  rw [optional, content_of_node h]
  rfl

theorem optional_of_word {spelling : String} (h : l.node = (Value.word spelling).node)
    (hsome : (spelling.isEmpty || Schema.isNothing spelling) = false) (decode : Located → Except Error α) :
    optional decode l = (decode l).map some := by
  rw [optional, content_of_node h]
  simp [Value.node, Value.wordNode, hsome]

/-- A map with one more entry. -/
def insertEntry (l : Located) (map : SortedMap String String) (entry : Node × Node) :
    Except Error (SortedMap String String) := do
  pure (map.insert (← (l.key entry).text) (← (l.value entry).text))

theorem foldlM_insertEntry (entries : List (String × String)) (map : SortedMap String String) :
    (entries.map Value.entryNodes).foldlM l.insertEntry map =
      .ok (entries.foldl (fun map e => map.insert e.1 e.2) map) := by
  induction entries generalizing map with
  | nil => rfl
  | cons e entries ih => exact ih (map.insert e.1 e.2)

theorem textMap_of_node {m : SortedMap String String} (h : l.node = (Value.map m.entries).node) :
    l.textMap = .ok m := by
  have hentries : l.entries "a map" = .ok (m.entries.map Value.entryNodes, false) := by
    rw [entries, content_of_node h]
    rfl
  have hsame : m.entries.foldl (fun map e => map.insert e.1 e.2) SortedMap.empty = m :=
    SortedMap.ofList_eq_of_perm (.refl m.entries)
  have hmap := foldlM_insertEntry (l := l) m.entries SortedMap.empty
  rw [hsame] at hmap
  rw [textMap, hentries]
  change ((m.entries.map Value.entryNodes).foldlM l.insertEntry SortedMap.empty >>= fun map =>
    if false then .error .malformed else pure map) = _
  rw [hmap]
  rfl

end Located

/-! ### Records -/

/-- What a record that was written says about its fields: nothing is wrong, and each field has its
value. -/
structure KeepsFields (slots : Slots Error Located) (fields : List (String × Value)) : Prop where
  stop? : slots.stop? = none
  slot : ∀ field value, fields.lookup field = some value →
    ∃ place l, slots.slot field = .filled place l ∧ l.node = value.node

namespace Located

variable {l : Located} {fields : List (String × Value)}

theorem find?_fieldNodes {field : String} {value : Value} (h : fields.lookup field = some value) :
    ∃ place l', l.find? field (Value.fieldNodes fields) = some (place, l') ∧ l'.node = value.node := by
  induction fields with
  | nil => cases h
  | cons f more ih =>
      obtain ⟨name, v⟩ := f
      have hkey : (l.key (Value.wordNode name, v.node)).text.toOption = some name := rfl
      rw [Value.fieldNodes, find?, hkey]
      by_cases hname : name = field
      · subst hname
        obtain rfl : v = value := by simpa using h
        exact ⟨0, l.value (Value.wordNode name, v.node), by rw [if_pos rfl], rfl⟩
      · rw [List.lookup_cons, beq_eq_false_iff_ne.2 (Ne.symm hname)] at h
        obtain ⟨place, l', hfind, hnode⟩ := ih h
        exact ⟨place + 1, l', by simp [hname, hfind], hnode⟩

theorem stopFrom?_fieldNodes (layout : Layout) (place : Nat) (seen : List String)
    (hfields : ∀ f ∈ fields, f.1 ∈ layout.fields) (hnodup : (fields.map Prod.fst).Nodup)
    (hseen : ∀ f ∈ fields, f.1 ∉ seen) :
    l.stopFrom? layout false place seen (Value.fieldNodes fields) = none := by
  induction fields generalizing place seen with
  | nil => rfl
  | cons f more ih =>
      obtain ⟨name, v⟩ := f
      obtain ⟨hfirst, hmore⟩ := List.forall_mem_cons.1 hfields
      obtain ⟨hnew, hrest⟩ := List.forall_mem_cons.1 hseen
      rw [List.map_cons, List.nodup_cons] at hnodup
      have hkey : (l.key (Value.wordNode name, v.node)).textAs "field identifier" = .ok name := rfl
      have hfine : l.keyError? layout seen (Value.wordNode name, v.node) = none := by
        simp [keyError?, hkey, hfirst, hnew]
      rw [Value.fieldNodes, stopFrom?, hfine]
      refine ih (place + 1) _ hmore hnodup.2 fun f hf => ?_
      have hother : f.1 ≠ name := fun h => hnodup.1 (List.mem_map.2 ⟨f, hf, h⟩)
      rw [List.mem_cons, not_or]
      exact ⟨hother, hrest f hf⟩

/-- A mapping with the names of the fields is read as the record, whatever is made of it. -/
theorem slots_bind {β : Type} (layout : Layout) (h : l.node = (Value.record fields).node)
    (hnames : fields.map Prod.fst = layout.fields) (hnodup : layout.fields.Nodup)
    {make : Slots Error Located → Except Error β} {b : β}
    (hmake : ∀ slots : Slots Error Located, KeepsFields slots fields → make slots = .ok b) :
    (l.slots layout >>= make) = .ok b := by
  have hentries : l.entries ("struct " ++ layout.name) = .ok (Value.fieldNodes fields, false) := by
    rw [entries, content_of_node h]
    rfl
  rw [slots, hentries]
  refine hmake _ ⟨?_, fun field value hvalue => ?_⟩
  · refine stopFrom?_fieldNodes layout 0 [] (fun f hf => ?_) (hnames ▸ hnodup) (by simp)
    rw [← hnames]
    exact List.mem_map_of_mem hf
  · obtain ⟨place, l', hfind, hnode⟩ := find?_fieldNodes (l := l) hvalue
    exact ⟨place, l', by simp [hfind], hnode⟩

end Located

namespace KeepsFields

variable {slots : Slots Error Located} {fields : List (String × Value)} {value : Value} {α : Type}
variable {decode : Located → Except Error α} {a : α}

theorem fill (h : KeepsFields slots fields) (make : α) : slots.fill make = .ok make := by
  rw [Slots.fill, h.stop?]

theorem defaulted (h : KeepsFields slots fields) (field : String)
    (hfield : fields.lookup field = some value) (default : α)
    (hread : ∀ l : Located, l.node = value.node → decode l = .ok a) :
    slots.defaulted field default decode = .ok a := by
  obtain ⟨place, l, hslot, hnode⟩ := h.slot field value hfield
  rw [Slots.defaulted, hslot]
  change (decode l).mapError _ = _
  rw [hread l hnode]
  rfl

end KeepsFields

end SafeCalls.Yaml
