import SafeCalls.CommandLine.Basic
import SafeCalls.Proofs.RecordParts
import SafeCalls.Proofs.SavedFile
import SafeCalls.Proofs.YamlRecord

namespace SafeCalls

/-!
# The YAML form of settings

Settings with allowed values are read back from their YAML text, with every property, and a run with
that text in its settings file goes by the same settings.
-/

open Yaml (Located Value KeepsFields)
open Yaml.Located (text_of_node boolean_of_node count_of_node word_of_node named_of_node
  textMap_of_node optional_of_word optional_of_record slots_bind)

variable {l : Located}

/-! ### Sections -/

namespace Conventions

theorem ofYaml_of_node {c : Conventions} (h : l.node = c.toYaml.node) : ofYaml l = .ok c := by
  rw [ofYaml]
  refine slots_bind layout h rfl (by decide) fun slots hslots => ?_
  have hentryPoint := hslots.defaulted "entry_point" rfl default.entryPoint
    fun _ => text_of_node (s := c.entryPoint)
  have htrustAllMarker := hslots.defaulted "trust_all_marker" rfl default.trustAllMarker
    fun _ => text_of_node (s := c.trustAllMarker)
  have hbaseType := hslots.defaulted "configuration_base_type" rfl default.configurationBaseType
    fun _ => text_of_node (s := c.configurationBaseType)
  rw [hslots.fill, hentryPoint, htrustAllMarker, hbaseType]
  rfl

end Conventions

namespace ProjectSettings

theorem ofYaml_of_node {p : ProjectSettings} (h : l.node = p.toYaml.node) : ofYaml l = .ok p := by
  rw [ofYaml]
  refine slots_bind layout h rfl (by decide) fun slots hslots => ?_
  have hdescriptor := hslots.defaulted "descriptor_extension" rfl default.descriptorExtension
    fun _ => text_of_node (s := p.descriptorExtension)
  have hunit := hslots.defaulted "unit_extension" rfl default.unitExtension
    fun _ => text_of_node (s := p.unitExtension)
  have hproperties := hslots.defaulted "global_properties" rfl default.globalProperties
    fun _ => textMap_of_node (m := p.globalProperties)
  rw [hslots.fill, hdescriptor, hunit, hproperties]
  rfl

end ProjectSettings

namespace ParallelSettings

theorem ofYaml_of_node {p : ParallelSettings} (h : l.node = p.toYaml.node) : ofYaml l = .ok p := by
  rw [ofYaml]
  refine slots_bind layout h rfl (by decide) fun slots hslots => ?_
  have henabled := hslots.defaulted "enabled" rfl default.isEnabled
    fun _ => boolean_of_node (b := p.isEnabled)
  have hworkers := hslots.defaulted "num_workers" rfl default.workers
    fun _ => count_of_node (n := p.workers)
  rw [hslots.fill, henabled, hworkers]
  rfl

end ParallelSettings

namespace OutputFormat

theorem ofYaml_of_node {format : OutputFormat} (h : l.node = format.toYaml.node) :
    ofYaml l = .ok format := by
  rw [ofYaml]
  refine slots_bind layout h rfl (by decide) fun slots hslots => ?_
  have hname : names.lookup format.name = some format := by cases format <;> rfl
  have hformat := hslots.defaulted "format" rfl text fun _ => named_of_node hname
  rw [hslots.fill, hformat]
  rfl

end OutputFormat

/-! ### Settings -/

namespace Settings

/-- What is written of settings. -/
def fields (s : Settings) : List (String × Value) :=
  [("version", .word (toString SettingsFile.currentVersion.toNat)),
    ("conventions", s.conventions.toYaml), ("project", s.project.toYaml),
    ("parallel", s.parallel.toYaml), ("output", s.output.toYaml)]

theorem isName {name : String} (hne : name.toList ≠ [] := by decide)
    (hplain : Yaml.TextStyle.allowsPlain name.toList := by decide)
    (hsize : name.utf8ByteSize ≤ 128 := by decide) : Value.IsWord name ∧ name.utf8ByteSize ≤ 128 :=
  ⟨Value.isWord_of_allowsPlain hne hplain, hsize⟩

theorem areWritable_fields (s : Settings) : Value.AreWritable s.fields := by
  have henabled : Value.IsWord (if s.parallel.isEnabled then "true" else "false") := by
    cases s.parallel.isEnabled <;> exact Value.isWord_of_allowsPlain (by decide) (by decide)
  have hcount {n : Nat} : Value.IsWord (toString n) := Value.isWord_toString n
  exact ⟨isName, hcount,
    isName, ⟨isName, trivial, isName, trivial, isName, trivial, trivial⟩,
    isName, ⟨isName, trivial, isName, trivial, isName, trivial, trivial⟩,
    isName, ⟨isName, henabled, isName, hcount, trivial⟩,
    isName, ⟨isName, trivial, trivial⟩, trivial⟩

/-- The contents of the file that holds the settings. -/
def file (s : Settings) : SettingsFile :=
  ⟨some SettingsFile.currentVersion, some s.conventions, some s.project, some s.parallel,
    some s.output⟩

theorem ofYaml_of_node {s : Settings} (h : l.node = (Value.record s.fields).node) :
    SettingsFile.ofYaml l = .ok s.file := by
  rw [SettingsFile.ofYaml]
  refine slots_bind SettingsFile.layout h rfl (by decide) fun slots hslots => ?_
  have hversion : slots.defaulted "version" none (Located.optional Located.word) =
      .ok (some SettingsFile.currentVersion) := by
    refine hslots.defaulted "version" rfl none fun l hl => ?_
    rw [optional_of_word hl (by decide), word_of_node hl]
    rfl
  have hconventions : slots.defaulted "conventions" none (Located.optional Conventions.ofYaml) =
      .ok (some s.conventions) := by
    refine hslots.defaulted "conventions" rfl none fun l hl => ?_
    rw [optional_of_record hl, Conventions.ofYaml_of_node hl]
    rfl
  have hproject : slots.defaulted "project" none (Located.optional ProjectSettings.ofYaml) =
      .ok (some s.project) := by
    refine hslots.defaulted "project" rfl none fun l hl => ?_
    rw [optional_of_record hl, ProjectSettings.ofYaml_of_node hl]
    rfl
  have hparallel : slots.defaulted "parallel" none (Located.optional ParallelSettings.ofYaml) =
      .ok (some s.parallel) := by
    refine hslots.defaulted "parallel" rfl none fun l hl => ?_
    rw [optional_of_record hl, ParallelSettings.ofYaml_of_node hl]
    rfl
  have houtput : slots.defaulted "output" none (Located.optional OutputFormat.ofYaml) =
      .ok (some s.output) := by
    refine hslots.defaulted "output" rfl none fun l hl => ?_
    rw [optional_of_record hl, OutputFormat.ofYaml_of_node hl]
    rfl
  rw [hslots.fill, hversion, hconventions, hproject, hparallel, houtput]
  rfl

theorem decode_render (s : Settings) :
    Yaml.decode SettingsFile.ofYaml s.render = .ok s.file := by
  have hdocument : Yaml.Document.ofText s.render = ⟨(Value.record s.fields).node, true⟩ :=
    Value.ofText_document s.areWritable_fields (List.cons_ne_nil _ _)
  have hroot := ofYaml_of_node (s := s)
    (l := ⟨(Value.record s.fields).node, [], (Value.record s.fields).node⟩) rfl
  rw [Yaml.decode, hdocument]
  dsimp only
  rw [hroot]
  rfl

/-- Reading is the only thing that may refuse settings, and only for their values. -/
theorem parse_render_eq (s : Settings) : parse s.render = s.validate.map fun _ => s := by
  rw [parse, s.decode_render]
  change (s.validate >>= fun _ => pure s) = _
  cases s.validate <;> rfl

/-! ### Loading -/

variable {t : FileTree}

theorem validate_of_parse {text : String} {s : Settings} (h : parse text = .ok s) :
    s.validate = .ok () := by
  obtain ⟨file, -, h⟩ := bind_eq_ok.1 h
  obtain ⟨settings, -, h⟩ := bind_eq_ok.1 h
  obtain ⟨⟨⟩, hvalid, hsame⟩ := bind_eq_ok.1 h
  obtain rfl : settings = s := Except.ok.inj hsame
  exact hvalid

theorem run_load {p : FilePath} {text : String} (h : t.read p = .ok text) :
    (load (m := StateM FileTree) (some p)).run t = (parse text, t) := by
  have hfile : (Files.read (m := StateM FileTree) p).run t = (t.read p, t) := rfl
  rw [load, StateT.run_bind, hfile, h]
  rfl

/-- There is no need to check settings that are loaded: the defaults are allowed too. -/
theorem validate_of_load {first : Option FilePath} {s : Settings}
    (h : (load (m := StateM FileTree) first).run t = (.ok s, t)) : s.validate = .ok () := by
  cases first with
  | none =>
      obtain rfl : default = s := Except.ok.inj (Prod.mk.inj h).1
      rfl
  | some p =>
      cases hread : t.read p with
      | ok text =>
          rw [run_load hread] at h
          exact validate_of_parse (Prod.mk.inj h).1
      | error e =>
          have hfile : (Files.read (m := StateM FileTree) p).run t = (t.read p, t) := rfl
          rw [load, StateT.run_bind, hfile, hread] at h
          cases (Prod.mk.inj h).1

theorem run_withSettings {path : Option FilePath} {s : Settings}
    {go : Settings → StateM FileTree CommandOutcome}
    (h : (load (m := StateM FileTree) path).run t = (.ok s, t)) :
    (Command.withSettings path go).run t = (go s).run t := by
  rw [Command.withSettings, StateT.run_bind, h]
  rfl

/-- Settings are read back from their text if their values are allowed, and are otherwise refused
for the same reason as before. What a command shows of its settings makes, in a settings file, every
command go by the same settings, and shows the same again. -/
theorem yaml_form_keeps_settings :
    (∀ s : Settings, s.validate = .ok () → parse s.render = .ok s) ∧
    (∀ (s : Settings) (e : SettingsError), s.validate = .error e → parse s.render = .error e) ∧
    ∀ (now : StateM FileTree Time.Timestamp) (first : Option FilePath) (t : FileTree)
      (s : Settings),
      (load (m := StateM FileTree) first).run t = (.ok s, t) →
      (Command.run now (.showConfig first)).run t = (.success s.render, t) ∧
      ∀ (t' : FileTree) (p : FilePath), t'.read p = .ok s.render →
        (load (m := StateM FileTree) (some p)).run t' = (.ok s, t') ∧
        (Command.run now (.showConfig (some p))).run t' = (.success s.render, t') ∧
        ∀ options : GenerateOptions, options.settings = some p →
          (Command.run now (.generate options)).run t' =
            (Command.runGenerate now options s).run t' := by
  have hkept : ∀ s : Settings, s.validate = .ok () → parse s.render = .ok s := by
    intro s hvalid
    rw [s.parse_render_eq, hvalid]
    rfl
  refine ⟨hkept, fun s e hinvalid => ?_, fun now first t s hfirst =>
    ⟨run_withSettings hfirst, fun t' p hread => ?_⟩⟩
  · rw [s.parse_render_eq, hinvalid]
    rfl
  · have hload : (load (m := StateM FileTree) (some p)).run t' = (.ok s, t') := by
      rw [run_load hread, hkept s (validate_of_load hfirst)]
    refine ⟨hload, run_withSettings hload, fun options hoptions => ?_⟩
    rw [Command.run, hoptions]
    exact run_withSettings hload

/-- Properties may be empty, look like words of the language or like numbers, have several lines and
hold marks and characters that are not printed. -/
theorem unusual_properties_are_kept :
    let properties : SortedMap String String :=
      ⟨[("A", ""), ("B", "true"), ("C", "null"), ("D", "0x1f"), ("E", "1e3"), ("F", "a: b # c"),
        ("G", "say \"hi\" and 'bye'"), ("H", "one\n\n two\n"), ("I", "\n"), ("J", "\u0000\t\u001b"),
        ("_", "- é𝄞"), ("null", "~")], by decide⟩
    let s : Settings := ⟨.default, ⟨"csproj", "unit.json", properties⟩, .sequential, .json⟩
    let now : StateM FileTree Time.Timestamp := pure ⟨⟨2026, 1, 2⟩, 3, 4, 5, 0⟩
    let t : FileTree := ⟨.directory [("a.yaml", .file s.render.toUTF8)]⟩
    s.validate = .ok () ∧ parse s.render = .ok s ∧
    (load (m := StateM FileTree) (some ⟨"a.yaml"⟩)).run t = (.ok s, t) ∧
    (Command.run now (.showConfig (some ⟨"a.yaml"⟩))).run t = (.success s.render, t) := by
  intro properties s now t
  have hvalid : s.validate = .ok () := by
    simp only [s, properties]
    rfl
  obtain ⟨hkept, -, hshown⟩ := yaml_form_keeps_settings
  have hread : t.read ⟨"a.yaml"⟩ = .ok s.render := by
    have hparts : FilePath.parts ⟨"a.yaml"⟩ = ["a.yaml"] := by decide
    refine FileTree.read_of_node (FileTree.node_eq_ok.2 ⟨by decide, ["a.yaml"], ?_, rfl⟩)
    simp [hparts, FileTree.locate, FileNode.get?, t]
  have hload : (load (m := StateM FileTree) (some ⟨"a.yaml"⟩)).run t = (.ok s, t) := by
    rw [run_load hread, hkept s hvalid]
  obtain ⟨-, hagain⟩ := hshown now _ t s hload
  exact ⟨hvalid, hkept s hvalid, hload, (hagain t ⟨"a.yaml"⟩ hread).2.1⟩

end Settings

end SafeCalls
