import SafeCalls.Proofs.DocumentKeys
import SafeCalls.Proofs.PassingOver
import SafeCalls.Proofs.SettingsForm
import SafeCalls.Proofs.YamlParts

namespace SafeCalls

/-!
# Files of other versions

The version of a file is looked at when everything else has been decoded in the form of the only
version there is. A file of another version is therefore reported as such if it has this form, and
is otherwise refused for the first thing that it spells in another way. It is never accepted.
-/

open Json (Error Member Reading)
open Time (Timestamp)
open Yaml (Located Node Value)

/-! ### Objects -/

namespace Json

/-- A text that is one object without any fault. -/
structure IsObject (text : String) (members : List Member) : Prop where
  content : (readText text).content = .object members .closed
  trailing : (readText text).trailing = none
  passing : Reading.membersPassingFault? members = none

theorem skipError?_eq_none_of_mem {members : List Member} {m : Member}
    (h : Reading.membersPassingFault? members = none) (hm : m ∈ members) (manner : Manner) :
    m.value.skipError? manner = none := by
  have hpassing : m.value.passingFault? = none := by
    induction members with
    | nil => cases hm
    | cons first more ih =>
        obtain ⟨name, value⟩ := first
        rw [Reading.membersPassingFault?, Option.or_eq_none_iff, Option.or_eq_none_iff] at h
        rcases List.mem_cons.1 hm with rfl | hmore
        · exact h.1.2
        · exact ih h.2 hmore
  cases manner with
  | direct => rw [Reading.skipError?, hpassing]; rfl
  | loaded => rfl

theorem isObject_pretty {members : List (String × Json)} (hrange : (Json.object members).InRange) :
    IsObject (Json.object members).pretty (readingMembers members) := by
  have htext := readText_pretty hrange
  have hcontent : (readText (Json.object members).pretty).content =
      .object (readingMembers members) .closed := by
    rw [htext]
    rfl
  refine ⟨hcontent, by rw [htext], ?_⟩
  have hload := loadingFault?_reading (.object members) _ (Nat.le_refl _)
  have hpass := isPassable_readText (Json.object members).pretty _
    ((congrArg (Reading.loadingFault? _) hcontent).trans hload)
  rw [hcontent, Reading.passingFault?, Option.or_eq_none_iff] at hpass
  exact hpass.1

namespace Member

variable {name : String} {members : List Member} {m : Member} {value : Reading}

theorem mem_values : value ∈ values name members ↔
    ∃ m ∈ members, m.isNamed name ∧ m.value = value := by
  simp [values, and_assoc]

theorem values_eq_singleton (hm : m ∈ members) (hname : m.isNamed name)
    (honce : (values name members).length ≤ 1) : values name members = [m.value] := by
  have hmem : m.value ∈ values name members := mem_values.2 ⟨m, hm, hname, rfl⟩
  match hvalues : values name members with
  | [] => simp [hvalues] at hmem
  | [only] => simp_all
  | _ :: _ :: _ => simp [hvalues] at honce

end Member

end Json

/-- What is required for a field is the value of the only member with its name. -/
theorem Layout.required_ofObject_eq_ok {α : Type} {layout : Layout} {manner : Json.Manner}
    {members : List Member} {ending : Json.ObjectEnd} {field : String}
    {decode : Reading → Except Error α} {a : α}
    (honce : (Member.values field members).length ≤ 1) :
    (layout.ofObject manner members ending).required field decode = .ok a ↔
      ∃ m ∈ members, m.isNamed field ∧ decode m.value = .ok a := by
  rw [Slots.required_eq_ok_iff, value?_slot_ofObject]
  constructor
  · rintro ⟨value, hvalue, hdecode⟩
    obtain ⟨m, hm, hname, rfl⟩ := Member.mem_values.1 (List.mem_of_mem_head? hvalue)
    exact ⟨m, hm, hname, hdecode⟩
  · rintro ⟨m, hm, hname, hdecode⟩
    exact ⟨m.value, by rw [Member.values_eq_singleton hm hname honce]; rfl, hdecode⟩

namespace WhitelistDocument

/-- Whether a member gives this version. -/
def IsOfVersion (members : List Member) (v : UInt32) : Prop :=
  ∃ m ∈ members, m.isNamed "version" ∧ m.value.word = .ok v

/-- The form of the first version, apart from the version: the other three fields are there once
with a value of their type, and whatever else is there has a readable name. -/
structure HasShape (members : List Member) : Prop where
  named : ∀ m ∈ members, ∃ name, m.name.token.value = .ok name
  once : ∀ field ∈ layout.fields, (Member.values field members).length ≤ 1
  project : ∃ m ∈ members, m.isNamed "project" ∧ ∃ project, m.value.string = .ok project
  generatedAt : ∃ m ∈ members, m.isNamed "generated_at" ∧
    ∃ text moment, m.value.string = .ok text ∧ Timestamp.parse text = .ok moment
  keys : ∃ m ∈ members, m.isNamed "keys" ∧
    ∃ items, m.value = .list items .closed ∧ ∀ item ∈ items, ∃ key, item.string = .ok key

theorem readTimestamp_eq_ok {reading : Reading} {moment : Timestamp} :
    readTimestamp reading = .ok moment ↔
      ∃ text, reading.string = .ok text ∧ Timestamp.parse text = .ok moment := by
  cases reading with
  | text token =>
      rw [readTimestamp, bind_eq_ok]
      refine exists_congr fun text => and_congr_right fun _ => ?_
      cases Timestamp.parse text <;> simp
  | _ => simp [readTimestamp, Reading.string]

theorem exists_forall₂ {α β : Type} {R : α → β → Prop} {as : List α} :
    (∃ bs, List.Forall₂ R as bs) ↔ ∀ a ∈ as, ∃ b, R a b := by
  induction as with
  | nil => simp
  | cons a as ih =>
      rw [List.forall_mem_cons, ← ih]
      constructor
      · rintro ⟨_, _ | ⟨ha, has⟩⟩
        exact ⟨⟨_, ha⟩, _, has⟩
      · rintro ⟨⟨b, hb⟩, bs, hbs⟩
        exact ⟨b :: bs, .cons hb hbs⟩

theorem exists_strings_eq_ok {reading : Reading} {room : Nat} :
    (∃ keys, reading.strings (room + 1) = .ok keys) ↔
      ∃ items, reading = .list items .closed ∧ ∀ item ∈ items, ∃ key, item.string = .ok key := by
  constructor
  · rintro ⟨keys, h⟩
    obtain ⟨_, items, ending, -, rfl, hend, hitems⟩ := Reading.listOf_eq_ok.1 h
    cases ending with
    | closed => exact ⟨items, rfl, exists_forall₂.1 ⟨keys, hitems⟩⟩
    | cut fault => cases hend
  · rintro ⟨items, rfl, hitems⟩
    obtain ⟨keys, hkeys⟩ := exists_forall₂.2 hitems
    exact ⟨keys, Reading.listOf_eq_ok.2 ⟨room, items, .closed, rfl, rfl, rfl, hkeys⟩⟩

section

variable {text : String} {members : List Member} {v : UInt32} {d : WhitelistDocument}

theorem hasShape_of_decode (hobject : Json.IsObject text members)
    (h : Json.decode read text = .ok d) : HasShape members := by
  have hread := (Json.decode_eq_ok.1 h).1
  rw [hobject.content] at hread
  obtain ⟨_, ⟨⟩, hstop, -, hproject, hmoment, keys, hkeys, -⟩ := read_eq_ok.1 hread
  obtain ⟨-, hadmits, honce⟩ := Layout.stop?_ofObject_eq_none.1 hstop
  obtain ⟨project, hm, hname, hvalue⟩ :=
    (Layout.required_ofObject_eq_ok (honce "project" (by decide))).1 hproject
  obtain ⟨moment, hm', hname', hvalue'⟩ :=
    (Layout.required_ofObject_eq_ok (honce "generated_at" (by decide))).1 hmoment
  obtain ⟨list, hm'', hname'', hvalue''⟩ :=
    (Layout.required_ofObject_eq_ok (honce "keys" (by decide))).1 hkeys
  refine ⟨fun m hm => ?_, honce, ⟨project, hm, hname, _, hvalue⟩, ⟨moment, hm', hname', ?_⟩,
    ⟨list, hm'', hname'', exists_strings_eq_ok.1 ⟨keys, hvalue''⟩⟩⟩
  · obtain ⟨name, hname, -⟩ := hadmits m hm
    exact ⟨name, hname⟩
  · obtain ⟨text, htext, hparse⟩ := readTimestamp_eq_ok.1 hvalue'
    exact ⟨text, _, htext, hparse⟩

theorem version_of_decode (hobject : Json.IsObject text members)
    (h : Json.decode read text = .ok d) (hversion : IsOfVersion members v) : d.version = v := by
  have honce := (hasShape_of_decode hobject h).once "version" (by decide)
  have hread := (Json.decode_eq_ok.1 h).1
  rw [hobject.content] at hread
  obtain ⟨_, ⟨⟩, -, hd, -⟩ := read_eq_ok.1 hread
  have hv : (layout.ofObject .direct members .closed).required "version" Reading.word = .ok v :=
    (Layout.required_ofObject_eq_ok honce).2 hversion
  exact Except.ok.inj (hd.symm.trans hv)

theorem exists_decode_of_hasShape (hobject : Json.IsObject text members) (h : HasShape members)
    (hversion : IsOfVersion members v) : ∃ d, Json.decode read text = .ok d := by
  have hstop : (layout.ofObject .direct members .closed).stop? = none := by
    refine Layout.stop?_ofObject_eq_none.2 ⟨rfl, fun m hm => ?_, h.once⟩
    obtain ⟨name, hname⟩ := h.named m hm
    exact ⟨name, hname, .inr ⟨rfl, Json.skipError?_eq_none_of_mem hobject.passing hm _⟩⟩
  have hrequired {α : Type} {field : String} {decode : Reading → Except Error α} {a : α}
      (hfield : field ∈ layout.fields) {m : Member} (hm : m ∈ members) (hname : m.isNamed field)
      (hvalue : decode m.value = .ok a) :
      (layout.ofObject .direct members .closed).required field decode = .ok a :=
    (Layout.required_ofObject_eq_ok (h.once field hfield)).2 ⟨m, hm, hname, hvalue⟩
  obtain ⟨version, hm, hname, hword⟩ := hversion
  obtain ⟨project, hproject, hprojectName, name, hprojectValue⟩ := h.project
  obtain ⟨moment, hmoment, hmomentName, momentText, t, htext, hparse⟩ := h.generatedAt
  obtain ⟨list, hlist, hlistName, hlistValue⟩ := h.keys
  obtain ⟨keys, hkeys⟩ : ∃ keys, list.value.strings 126 = .ok keys :=
    exists_strings_eq_ok.2 hlistValue
  refine ⟨⟨v, name, t, keys.map CanonicalKey.mk⟩, Json.decode_eq_ok.2 ⟨?_, hobject.trailing⟩⟩
  rw [hobject.content]
  exact read_eq_ok.2 ⟨_, rfl, hstop, hrequired (by decide) hm hname hword,
    hrequired (by decide) hproject hprojectName hprojectValue,
    hrequired (by decide) hmoment hmomentName (readTimestamp_eq_ok.2 ⟨momentText, htext, hparse⟩),
    keys, hrequired (by decide) hlist hlistName hkeys, rfl⟩

/-- An object of another version is refused for its version or, where it has not the form of the
first version, for that. -/
theorem parseJson_of_other_version (hobject : Json.IsObject text members)
    (hversion : IsOfVersion members v) (hv : v ≠ currentVersion) :
    (HasShape members → parseJson text = .error (.unsupportedVersion v currentVersion)) ∧
      (¬ HasShape members → ∃ e, parseJson text = .error (.json e)) := by
  cases hdecode : Json.decode read text with
  | ok d =>
      have hd := version_of_decode hobject hdecode hversion
      refine ⟨fun _ => ?_, fun h => absurd (hasShape_of_decode hobject hdecode) h⟩
      rw [parseJson, hdecode]
      dsimp only
      rw [hd, if_neg hv]
  | error e =>
      refine ⟨fun h => ?_, fun _ => ⟨e, by rw [parseJson, hdecode]⟩⟩
      obtain ⟨d, hd⟩ := exists_decode_of_hasShape hobject h hversion
      cases hd.symm.trans hdecode

end

end WhitelistDocument

/-! ### Mappings -/

theorem Yaml.isMapping_document {fields : List (String × Value)} (h : Value.AreWritable fields)
    (hne : fields ≠ []) : IsMapping (Value.document fields) (Value.fieldNodes fields) := by
  have htext := Value.ofText_document h hne
  have hnode : (Located.ofText (Value.document fields)).node = (Value.record fields).node := by
    rw [Located.ofText, htext]
  exact ⟨⟨none, Located.content_of_node hnode⟩, by rw [htext]⟩

namespace SettingsFile

/-- Whether an entry gives this version. -/
def IsOfVersion (l : Located) (entries : List (Node × Node)) (v : UInt32) : Prop :=
  ∃ entry ∈ entries, (l.key entry).text = .ok "version" ∧
    Located.optional Located.word (l.value entry) = .ok (some v)

/-- The form of the first version, apart from the version: nothing is there but the fields, each at
most once, and every section is null or has its form. -/
structure HasShape (l : Located) (entries : List (Node × Node)) : Prop where
  isRecord : l.IsRecord entries layout
  conventions : l.Holds entries "conventions" (Located.optional Conventions.ofYaml)
  project : l.Holds entries "project" (Located.optional ProjectSettings.ofYaml)
  parallel : l.Holds entries "parallel" (Located.optional ParallelSettings.ofYaml)
  output : l.Holds entries "output" (Located.optional OutputFormat.ofYaml)

theorem ofYaml_eq_ok {l : Located} {f : SettingsFile} : ofYaml l = .ok f ↔ ∃ slots,
    l.slots layout = .ok slots ∧ slots.stop? = none ∧
    slots.defaulted "version" none (Located.optional Located.word) = .ok f.version ∧
    slots.defaulted "conventions" none (Located.optional Conventions.ofYaml) = .ok f.conventions ∧
    slots.defaulted "project" none (Located.optional ProjectSettings.ofYaml) = .ok f.project ∧
    slots.defaulted "parallel" none (Located.optional ParallelSettings.ofYaml) = .ok f.parallel ∧
    slots.defaulted "output" none (Located.optional OutputFormat.ofYaml) = .ok f.output := by
  rw [ofYaml, bind_eq_ok]
  refine exists_congr fun slots => and_congr_right fun _ => ?_
  simp only [Placed.result_eq_ok, Placed.part_eq_ok, Slots.fill_eq_ok]
  constructor
  · rintro ⟨_, output, ⟨_, parallel, ⟨_, project, ⟨_, conventions, ⟨_, version, ⟨hstop, rfl⟩,
      hversion, rfl⟩, hconventions, rfl⟩, hproject, rfl⟩, hparallel, rfl⟩, houtput, rfl⟩
    exact ⟨hstop, hversion, hconventions, hproject, hparallel, houtput⟩
  · rintro ⟨hstop, hversion, hconventions, hproject, hparallel, houtput⟩
    exact ⟨_, _, ⟨_, _, ⟨_, _, ⟨_, _, ⟨_, _, ⟨hstop, rfl⟩, hversion, rfl⟩, hconventions, rfl⟩,
      hproject, rfl⟩, hparallel, rfl⟩, houtput, rfl⟩

section

variable {text : String} {entries : List (Node × Node)} {v : UInt32} {f : SettingsFile}

theorem hasShape_of_decode (hmapping : Yaml.IsMapping text entries)
    (h : Yaml.decode ofYaml text = .ok f) : HasShape (.ofText text) entries := by
  obtain ⟨tag, hcontent⟩ := hmapping.content
  obtain ⟨_, hslots, hstands⟩ := Located.exists_slots layout hcontent
  obtain ⟨slots, hslots', hstop, -, hconventions, hproject, hparallel, houtput⟩ :=
    ofYaml_eq_ok.1 (Yaml.decode_eq_ok.1 h).1
  obtain rfl := Except.ok.inj (hslots'.symm.trans hslots)
  have hrecord := hstands.stop?.1 hstop
  exact ⟨hrecord, (hstands.exists_defaulted_eq_ok_iff hrecord none).1 ⟨_, hconventions⟩,
    (hstands.exists_defaulted_eq_ok_iff hrecord none).1 ⟨_, hproject⟩,
    (hstands.exists_defaulted_eq_ok_iff hrecord none).1 ⟨_, hparallel⟩,
    (hstands.exists_defaulted_eq_ok_iff hrecord none).1 ⟨_, houtput⟩⟩

theorem version_of_decode (hmapping : Yaml.IsMapping text entries)
    (h : Yaml.decode ofYaml text = .ok f) (hversion : IsOfVersion (.ofText text) entries v) :
    f.version = some v := by
  obtain ⟨entry, hentry, hkey, hword⟩ := hversion
  obtain ⟨tag, hcontent⟩ := hmapping.content
  obtain ⟨_, hslots, hstands⟩ := Located.exists_slots layout hcontent
  obtain ⟨slots, hslots', hstop, hf, -⟩ := ofYaml_eq_ok.1 (Yaml.decode_eq_ok.1 h).1
  obtain rfl := Except.ok.inj (hslots'.symm.trans hslots)
  have hv := (hstands.defaulted_eq_ok_iff (hstands.stop?.1 hstop) hentry hkey).1 hf
  exact Except.ok.inj (hv.symm.trans hword)

theorem exists_decode_of_hasShape (hmapping : Yaml.IsMapping text entries)
    (h : HasShape (.ofText text) entries) (hversion : IsOfVersion (.ofText text) entries v) :
    ∃ f, Yaml.decode ofYaml text = .ok f := by
  obtain ⟨entry, hentry, hkey, hword⟩ := hversion
  obtain ⟨tag, hcontent⟩ := hmapping.content
  obtain ⟨slots, hslots, hstands⟩ := Located.exists_slots layout hcontent
  obtain ⟨conventions, hconventions⟩ :=
    (hstands.exists_defaulted_eq_ok_iff h.isRecord none).2 h.conventions
  obtain ⟨project, hproject⟩ :=
    (hstands.exists_defaulted_eq_ok_iff h.isRecord none).2 h.project
  obtain ⟨parallel, hparallel⟩ :=
    (hstands.exists_defaulted_eq_ok_iff h.isRecord none).2 h.parallel
  obtain ⟨output, houtput⟩ :=
    (hstands.exists_defaulted_eq_ok_iff h.isRecord none).2 h.output
  refine ⟨⟨some v, conventions, project, parallel, output⟩,
    Yaml.decode_eq_ok.2 ⟨?_, hmapping.isComplete⟩⟩
  exact ofYaml_eq_ok.2 ⟨slots, hslots, hstands.stop?.2 h.isRecord,
    (hstands.defaulted_eq_ok_iff h.isRecord hentry hkey).2 hword, hconventions, hproject,
    hparallel, houtput⟩

/-- A mapping of another version is refused for its version or, where it has not the form of the
first version, for that. -/
theorem parse_of_other_version (hmapping : Yaml.IsMapping text entries)
    (hversion : IsOfVersion (.ofText text) entries v) (hv : v ≠ currentVersion) :
    (HasShape (.ofText text) entries →
      Settings.parse text = .error (.unsupportedVersion v [currentVersion])) ∧
    (¬ HasShape (.ofText text) entries → ∃ e, Settings.parse text = .error (.yaml e)) := by
  cases hdecode : Yaml.decode ofYaml text with
  | ok f =>
      have hf := version_of_decode hmapping hdecode hversion
      refine ⟨fun _ => ?_, fun h => absurd (hasShape_of_decode hmapping hdecode) h⟩
      have hsettings : f.settings = .error (.unsupportedVersion v [currentVersion]) := by
        rw [settings, hf]
        exact if_neg hv
      rw [Settings.parse, hdecode]
      change (f.settings >>= _) = _
      rw [hsettings]
      rfl
  | error e =>
      refine ⟨fun h => ?_, fun _ => ⟨e, by rw [Settings.parse, hdecode]; rfl⟩⟩
      obtain ⟨f, hf⟩ := exists_decode_of_hasShape hmapping h hversion
      cases hf.symm.trans hdecode

end

end SettingsFile

/-! ### Both files -/

/-- Texts of another version are never taken. A settings text is refused for its version just if no
other keys than the sections stand in it, each of them at most once and with the form that it has in
the first version, whether or not its values are allowed. A whitelist text is refused for its
version just if the project, the moment and the keys stand in it once and with their types, whatever
other members there are. All others are refused as no text of the first version. -/
theorem other_version_is_refused (v : UInt32) (hv : v ≠ 1) :
    (∀ text entries, Yaml.IsMapping text entries →
      SettingsFile.IsOfVersion (.ofText text) entries v →
      (SettingsFile.HasShape (.ofText text) entries →
        Settings.parse text = .error (.unsupportedVersion v [1])) ∧
      (¬ SettingsFile.HasShape (.ofText text) entries →
        ∃ e, Settings.parse text = .error (.yaml e))) ∧
    (∀ text members, Json.IsObject text members → WhitelistDocument.IsOfVersion members v →
      (WhitelistDocument.HasShape members →
        WhitelistDocument.parseJson text = .error (.unsupportedVersion v 1)) ∧
      (¬ WhitelistDocument.HasShape members →
        ∃ e, WhitelistDocument.parseJson text = .error (.json e))) :=
  ⟨fun _ _ hmapping hversion => SettingsFile.parse_of_other_version hmapping hversion hv,
    fun _ _ hobject hversion => WhitelistDocument.parseJson_of_other_version hobject hversion hv⟩

/-- A section with some of its values, and a member that the first version has not, are no
obstacle. -/
theorem version_two_is_refused :
    let fields : List (String × Value) :=
      [("version", .word "2"), ("output", .record [("format", .text "json")])]
    let members : List (String × Json) :=
      [("version", .number 2), ("digest", .null), ("project", .text "Acme"),
        ("generated_at", .text "2026-01-02T03:04:05Z"), ("keys", Json.texts ["Foo.Compute()"])]
    (2 : UInt32) ≠ 1 ∧
    Settings.parse (Value.document fields) = .error (.unsupportedVersion 2 [1]) ∧
    WhitelistDocument.parseJson (Json.object members).pretty =
      .error (.unsupportedVersion 2 1) := by
  intro fields members
  have hv : (2 : UInt32) ≠ 1 := by decide
  obtain ⟨hsettings, hdocument⟩ := other_version_is_refused 2 hv
  refine ⟨hv, ?_, ?_⟩
  · have hwritable : Value.AreWritable fields :=
      ⟨Settings.isName, Value.isWord_of_allowsPlain (by decide) (by decide),
        Settings.isName, ⟨Settings.isName, trivial, trivial⟩, trivial⟩
    have hmapping := Yaml.isMapping_document hwritable (List.cons_ne_nil _ _)
    have hdecode : Yaml.decode SettingsFile.ofYaml (Value.document fields) =
        .ok ⟨some 2, none, none, none, some .json⟩ := by
      rw [Yaml.decode, Value.ofText_document hwritable (List.cons_ne_nil _ _)]
      rfl
    exact (hsettings _ _ hmapping ⟨_, List.mem_cons_self, rfl, rfl⟩).1
      (SettingsFile.hasShape_of_decode hmapping hdecode)
  · have hrange : (Json.object members).InRange := by simp [members, Json.maxNatural]
    have hobject := Json.isObject_pretty hrange
    have hdecode : Json.decode WhitelistDocument.read (Json.object members).pretty =
        .ok ⟨2, "Acme", .ofUnix 1767323045 0, [⟨"Foo.Compute()"⟩]⟩ := by
      rw [Json.decode_pretty WhitelistDocument.read hrange]
      decide
    exact (hdocument _ _ hobject ⟨_, List.mem_cons_self, rfl, rfl⟩).1
      (WhitelistDocument.hasShape_of_decode hobject hdecode)

/-- A version that adds a section to the settings, or renames a field of the document, is not
reported. -/
theorem later_form_is_not_reported :
    (∃ entries, Yaml.IsMapping "version: 2\nlimits: 3\n" entries ∧
      SettingsFile.IsOfVersion (.ofText "version: 2\nlimits: 3\n") entries 2 ∧
      Settings.parse "version: 2\nlimits: 3\n" =
        .error (.yaml (.refused [] (.unknownField "limits" SettingsFile.layout.fields)))) ∧
    ∃ members,
      Json.IsObject "\x7b\n  \"version\": 2,\n  \"entries\": []\n\x7d" members ∧
      WhitelistDocument.IsOfVersion members 2 ∧
      WhitelistDocument.parseJson "\x7b\n  \"version\": 2,\n  \"entries\": []\n\x7d" =
        .error (.json (.refused (.missingField "project"))) := by
  constructor
  · let fields : List (String × Value) := [("version", .word "2"), ("limits", .word "3")]
    have htext : Value.document fields = "version: 2\nlimits: 3\n" := by decide
    have hwritable : Value.AreWritable fields :=
      ⟨Settings.isName, Value.isWord_of_allowsPlain (by decide) (by decide),
        Settings.isName, Value.isWord_of_allowsPlain (by decide) (by decide), trivial⟩
    rw [← htext]
    refine ⟨_, Yaml.isMapping_document hwritable (List.cons_ne_nil _ _),
      ⟨_, List.mem_cons_self, rfl, rfl⟩, ?_⟩
    rw [Settings.parse, Yaml.decode, Value.ofText_document hwritable (List.cons_ne_nil _ _)]
    rfl
  · let members : List (String × Json) := [("version", .number 2), ("entries", .list [])]
    have htext : (Json.object members).pretty =
        "\x7b\n  \"version\": 2,\n  \"entries\": []\n\x7d" := by decide
    have hrange : (Json.object members).InRange := by simp [members, Json.maxNatural]
    rw [← htext]
    refine ⟨_, Json.isObject_pretty hrange, ⟨_, List.mem_cons_self, rfl, rfl⟩, ?_⟩
    rw [WhitelistDocument.parseJson, Json.decode_pretty WhitelistDocument.read hrange]
    rfl

end SafeCalls
