import SafeCalls.Proofs.RecordEdits
import SafeCalls.Yaml.Decode

namespace SafeCalls.Yaml

/-!
# What a YAML record was read from

A mapping is a record when its keys are fields, each of them at most once. The value of a field is
then that of the only entry with this key. The induction is on the entries, with the keys that have
been seen before them.
-/

namespace Located

variable {l : Located} {α : Type} {entries : List (Node × Node)} {entry : Node × Node}
  {names seen : List String} {field : String} {layout : Layout} {isCut : Bool}

theorem refuseKind_ne_ok (expected : String) (a : α) : l.refuseKind expected ≠ .ok a := by
  unfold refuseKind refuse
  split <;> nofun

theorem textAs_eq_ok {expected s : String} :
    l.textAs expected = .ok s ↔ ∃ scalar, l.content = .scalar scalar ∧ scalar.text = s := by
  rw [textAs]
  split
  · next scalar hscalar => simp [hscalar]
  · next hother =>
      constructor
      · exact fun h => absurd h (refuseKind_ne_ok _ _)
      · rintro ⟨scalar, hscalar, -⟩
        exact absurd hscalar (hother scalar)

theorem text_eq_ok_iff_textAs (expected : String) {s : String} :
    l.text = .ok s ↔ l.textAs expected = .ok s := by
  rw [text, textAs_eq_ok, textAs_eq_ok]

theorem keyError?_eq_none : l.keyError? layout seen entry = none ↔
    ∃ name, (l.key entry).text = .ok name ∧ name ∈ layout.fields ∧ name ∉ seen := by
  rw [keyError?]
  cases hkey : (l.key entry).textAs "field identifier" with
  | error e => simp [text_eq_ok_iff_textAs "field identifier", hkey]
  | ok name =>
      simp only [text_eq_ok_iff_textAs "field identifier", hkey, Except.ok.injEq,
        exists_eq_left', List.contains_iff_mem]
      by_cases hfield : name ∈ layout.fields <;> simp [hfield]

/-- Whether the keys of a mapping are these names. -/
def HasKeys (l : Located) (entries : List (Node × Node)) (names : List String) : Prop :=
  entries.map (fun entry => (l.key entry).text) = names.map .ok

theorem hasKeys_cons {name : String} {more : List (Node × Node)} :
    l.HasKeys (entry :: more) (name :: names) ↔
      (l.key entry).text = .ok name ∧ l.HasKeys more names := by
  simp [HasKeys]

theorem mem_of_hasKeys (hkeys : l.HasKeys entries names) (hentry : entry ∈ entries)
    (hfield : (l.key entry).text = .ok field) : field ∈ names := by
  have hmem := List.mem_map_of_mem (f := fun entry => (l.key entry).text) hentry
  rw [hkeys, hfield] at hmem
  simpa using hmem

/-- The first entry is right if its key is the name of a field that has not been seen. -/
theorem stopFrom?_cons_eq_none {place : Nat} :
    l.stopFrom? layout isCut place seen (entry :: entries) = none ↔
      ∃ name, ((l.key entry).text = .ok name ∧ name ∈ layout.fields ∧ name ∉ seen) ∧
        l.stopFrom? layout isCut (place + 1) (name :: seen) entries = none := by
  rw [stopFrom?]
  cases hkey : l.keyError? layout seen entry with
  | some e =>
      refine iff_of_false (by simp) ?_
      rintro ⟨name, hname, -⟩
      cases hkey.symm.trans (keyError?_eq_none.2 ⟨name, hname⟩)
  | none =>
      obtain ⟨name, hname, hfield⟩ := keyError?_eq_none.1 hkey
      simp [hname, hfield, Except.toOption]

theorem stopFrom?_eq_none {place : Nat} : l.stopFrom? layout isCut place seen entries = none ↔
    isCut = false ∧ ∃ names, l.HasKeys entries names ∧ names.Nodup ∧
      ∀ name ∈ names, name ∈ layout.fields ∧ name ∉ seen := by
  induction entries generalizing place seen with
  | nil => cases isCut <;> simp [stopFrom?, HasKeys]
  | cons entry more ih =>
      rw [stopFrom?_cons_eq_none]
      constructor
      · rintro ⟨name, ⟨hname, hfield, hseen⟩, hmore⟩
        obtain ⟨hcut, names, hkeys, hnodup, hnames⟩ := ih.1 hmore
        refine ⟨hcut, name :: names, hasKeys_cons.2 ⟨hname, hkeys⟩,
          List.nodup_cons.2 ⟨fun hmem => ?_, hnodup⟩,
          List.forall_mem_cons.2 ⟨⟨hfield, hseen⟩, fun other hother => ?_⟩⟩
        · exact (hnames name hmem).2 List.mem_cons_self
        · exact (hnames other hother).imp_right (mt (List.mem_cons_of_mem name))
      · rintro ⟨hcut, names, hkeys, hnodup, hnames⟩
        cases names with
        | nil => cases hkeys
        | cons name names =>
            obtain ⟨hname, hkeys⟩ := hasKeys_cons.1 hkeys
            obtain ⟨hnew, hnodup⟩ := List.nodup_cons.1 hnodup
            obtain ⟨hfirst, hnames⟩ := List.forall_mem_cons.1 hnames
            refine ⟨name, ⟨hname, hfirst⟩, ih.2 ⟨hcut, names, hkeys, hnodup, fun other hother => ?_⟩⟩
            refine ⟨(hnames other hother).1, fun hmem => ?_⟩
            rcases List.mem_cons.1 hmem with rfl | hseen
            · exact hnew hother
            · exact (hnames other hother).2 hseen

theorem exists_of_find? {found : Nat × Located} (h : l.find? field entries = some found) :
    ∃ entry ∈ entries, (l.key entry).text = .ok field := by
  induction entries generalizing found with
  | nil => cases h
  | cons entry more ih =>
      rw [find?] at h
      split at h
      · next hkey => exact ⟨entry, List.mem_cons_self, toOption_eq_some.1 hkey⟩
      · obtain ⟨_, hmore, -⟩ := Option.map_eq_some_iff.1 h
        obtain ⟨other, hother, hkey⟩ := ih hmore
        exact ⟨other, List.mem_cons_of_mem _ hother, hkey⟩

/-- With no key twice, the entry that is found for a field is the one that there is. -/
theorem find?_of_hasKeys (hkeys : l.HasKeys entries names) (hnodup : names.Nodup)
    (hentry : entry ∈ entries) (hfield : (l.key entry).text = .ok field) :
    (l.find? field entries).map Prod.snd = some (l.value entry) := by
  induction entries generalizing names with
  | nil => cases hentry
  | cons first more ih =>
      cases names with
      | nil => cases hkeys
      | cons name names =>
          obtain ⟨hname, hmore⟩ := hasKeys_cons.1 hkeys
          obtain ⟨hnew, hnodup⟩ := List.nodup_cons.1 hnodup
          rw [find?]
          rcases List.mem_cons.1 hentry with rfl | hrest
          · rw [if_pos (toOption_eq_some.2 hfield)]
            rfl
          · have hother : (l.key first).text.toOption ≠ some field := by
              rw [hname]
              rintro ⟨⟩
              exact hnew (mem_of_hasKeys hmore hrest hfield)
            rw [if_neg hother, Option.map_map, ← ih hmore hnodup hrest]
            rfl

/-- Whether the keys of a mapping are fields of a record, each at most once. -/
def IsRecord (l : Located) (entries : List (Node × Node)) (layout : Layout) : Prop :=
  ∃ names, l.HasKeys entries names ∧ names.Nodup ∧ ∀ name ∈ names, name ∈ layout.fields

/-- Whether whatever a mapping holds for a field can be decoded. -/
def Holds (l : Located) (entries : List (Node × Node)) (field : String)
    (decode : Located → Except Error α) : Prop :=
  ∀ entry ∈ entries, (l.key entry).text = .ok field → ∃ a, decode (l.value entry) = .ok a

/-- The slots of a mapping stand for its entries. -/
structure Stands (l : Located) (entries : List (Node × Node)) (layout : Layout)
    (slots : Slots Error Located) : Prop where
  stop? : slots.stop? = none ↔ l.IsRecord entries layout
  slot : ∀ field, (slots.slot field).value? = (l.find? field entries).map Prod.snd

theorem exists_slots (layout : Layout) {tag : Option Tag}
    (h : l.content = .mapping tag entries false) :
    ∃ slots, l.slots layout = .ok slots ∧ l.Stands entries layout slots := by
  have hentries : l.entries ("struct " ++ layout.name) = .ok (entries, false) := by
    rw [Located.entries, h]
  rw [slots, hentries]
  refine ⟨_, rfl, ?_, fun field => ?_⟩
  · simp [stopFrom?_eq_none, IsRecord]
  · dsimp only
    cases l.find? field entries <;> rfl

namespace Stands

variable {slots : Slots Error Located} {decode : Located → Except Error α} {default : α}

theorem defaulted_eq_ok_iff (h : l.Stands entries layout slots) (hrecord : l.IsRecord entries layout)
    (hentry : entry ∈ entries) (hfield : (l.key entry).text = .ok field) {a : α} :
    slots.defaulted field default decode = .ok a ↔ decode (l.value entry) = .ok a := by
  obtain ⟨names, hkeys, hnodup, -⟩ := hrecord
  rw [Slots.defaulted_eq_ok_iff, h.slot, find?_of_hasKeys hkeys hnodup hentry hfield]
  simp

theorem exists_defaulted_eq_ok_iff (h : l.Stands entries layout slots)
    (hrecord : l.IsRecord entries layout) (default : α) :
    (∃ a, slots.defaulted field default decode = .ok a) ↔ l.Holds entries field decode := by
  constructor
  · rintro ⟨a, ha⟩ entry hentry hfield
    exact ⟨a, (h.defaulted_eq_ok_iff hrecord hentry hfield).1 ha⟩
  · intro hholds
    cases hfind : l.find? field entries with
    | none => exact ⟨default, Slots.defaulted_eq_ok_iff.2 (.inr ⟨by rw [h.slot, hfind]; rfl, rfl⟩)⟩
    | some found =>
        obtain ⟨entry, hentry, hfield⟩ := exists_of_find? hfind
        obtain ⟨a, ha⟩ := hholds entry hentry hfield
        exact ⟨a, (h.defaulted_eq_ok_iff hrecord hentry hfield).2 ha⟩

end Stands

/-- A text as a node at the root. -/
def ofText (text : String) : Located :=
  ⟨(Document.ofText text).root, [], (Document.ofText text).root⟩

end Located

theorem decode_eq_ok {α : Type} {read : Located → Except Error α} {text : String} {a : α} :
    decode read text = .ok a ↔
      read (.ofText text) = .ok a ∧ (Document.ofText text).isComplete = true := by
  rw [decode, bind_eq_ok]
  cases (Document.ofText text).isComplete <;> simp [Located.ofText, pure, Except.pure]

/-- A text that is one mapping without any fault. -/
structure IsMapping (text : String) (entries : List (Node × Node)) : Prop where
  content : ∃ tag, (Located.ofText text).content = .mapping tag entries false
  isComplete : (Document.ofText text).isComplete = true

end SafeCalls.Yaml
