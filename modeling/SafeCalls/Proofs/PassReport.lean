import Mathlib.Data.Set.Card
import SafeCalls.Proofs.Agreement
import SafeCalls.Proofs.ProjectFiles

namespace SafeCalls

/-!
# What a pass reports

A pass that is not cancelled reports what is on disk: it counts the snapshots below its directory
and those of them that are skipped, and its whitelist is the union of what the complete units
contribute. A skipped snapshot therefore counts and does nothing else.
-/

theorem encard_setOf_mem {α : Type} {l : List α} (h : l.Nodup) :
    {a | a ∈ l}.encard = l.length := by
  classical
  rw [← List.toFinset_card_of_nodup h, ← Set.encard_coe_eq_coe_finsetCard, List.coe_toFinset]

namespace SnapshotDocument

theorem run_load (t : FileTree) (d : SnapshotDocument) :
    (d.load (m := StateM FileTree)).run t = (d.fill (t.read d.file), t) := by
  obtain ⟨file, parts⟩ := d
  cases parts <;> rfl

theorem run_mapM_load (t : FileTree) (documents : List SnapshotDocument) :
    (documents.mapM fun d : SnapshotDocument =>
      (do pure (← d.load).unit : StateM FileTree ConfigurationUnit)).run t =
      (documents.map (unitIn t), t) := by
  induction documents with
  | nil => rfl
  | cons d documents ih =>
      rw [List.mapM_cons, StateT.run_bind, StateT.run_bind, run_load]
      show StateT.run (_ >>= _) t = _
      rw [StateT.run_bind, ih]
      rfl

end SnapshotDocument

namespace GeneratedWhitelist

/-- Whether a report is right about a directory: the numbers are those of the places in question,
every complete unit is extracted, and the keys are those of complete units. -/
structure Reports (g : GeneratedWhitelist) (s : Settings) (directory : FilePath)
    (node : FileNode) : Prop where
  units : {names | ∃ content, s.project.SnapshotAt node names content}.encard = g.units
  skipped : {names | s.project.SkippedAt directory node names}.encard = g.skipped
  complete : {names | ∃ unit, s.project.CompleteAt directory node names unit}.encard + g.skipped =
    g.units
  extracts : ∀ names unit, s.project.CompleteAt directory node names unit →
    ∃ keys, (s.extractor.unitKeys unit).outcome .never = .ok keys ∧
      ∀ key ∈ keys, key ∈ g.whitelist
  only : ∀ key ∈ g.whitelist, ∃ names unit keys,
    s.project.CompleteAt directory node names unit ∧
      (s.extractor.unitKeys unit).outcome .never = .ok keys ∧ key ∈ keys

end GeneratedWhitelist

namespace ProjectSettings

/-- Whether what is in a directory differs at one place at most, where there is no complete snapshot
before and none after: one that is skipped, or none at all. -/
structure DiffersAt (p : ProjectSettings) (directory : FilePath) (before after : FileNode)
    (changed : List String) : Prop where
  others : ∀ names, names ≠ changed → ∀ content,
    before.get? names = some (.file content) ↔ after.get? names = some (.file content)
  incomplete_before : ∀ unit, ¬ p.CompleteAt directory before changed unit
  incomplete_after : ∀ unit, ¬ p.CompleteAt directory after changed unit

end ProjectSettings

theorem Extractor.hasParts_of_mem_contribution {x : Extractor} {unit : ConfigurationUnit}
    {key : CanonicalKey} (h : key ∈ x.contribution unit) : unit.hasParts = true := by
  rw [contribution] at h
  rw [ConfigurationUnit.hasParts]
  cases hparts : unit.parts? with
  | none =>
      rw [hparts] at h
      exact absurd h (SortedSet.not_mem_empty key)
  | some parts => rfl

namespace Settings

variable (s : Settings) (directory : FilePath)

section

variable {t : FileTree}

theorem run_runPass_of_error {e : ProjectError}
    (h : s.project.findDescriptor directory (t.list? directory) = .error e) :
    (s.runPass (m := StateM FileTree) directory .never).run t =
      (.error (.configuration e), t) := by
  have hload : (s.project.load (m := StateM FileTree) directory).run t = (.error e, t) := by
    refine congrArg (·, t) ?_
    rw [ProjectSettings.project, h]
    rfl
  rw [Settings.runPass, SafeCalls.runPass, if_neg (by decide), StateT.run_bind, hload]
  rfl

/-- What the units of the snapshots come to once the descriptor is found. -/
def report (descriptor : FilePath) (units : List ConfigurationUnit) : GeneratedWhitelist :=
  ⟨(descriptor.fileName?.bind s.project.descriptorStem?).getD "", descriptor,
    s.extractor.whitelist units, units.length, (units.filter fun unit => !unit.hasParts).length⟩

/-- The unit that a pass resolves from the file at a place. -/
def unitAt (t : FileTree) (names : List String) : ConfigurationUnit :=
  (SnapshotDocument.ofFile (directory.descend names)).unitIn t

theorem run_runPass_of_ok {descriptor : FilePath} {listing : Listing}
    (hlist : t.list? directory = some listing)
    (hfind : s.project.findDescriptor directory (t.list? directory) = .ok descriptor) :
    (s.runPass (m := StateM FileTree) directory .never).run t =
      (.ok (.completed (s.report descriptor
        ((s.project.snapshotPlaces directory listing).map (unitAt directory t)))), t) := by
  have hload : (s.project.load (m := StateM FileTree) directory).run t =
      (.ok ⟨descriptor, (descriptor.fileName?.bind s.project.descriptorStem?).getD "",
        s.project.globalProperties, ((s.project.snapshotPlaces directory listing).map
          directory.descend).map SnapshotDocument.ofFile⟩, t) := by
    refine congrArg (·, t) ?_
    rw [ProjectSettings.project, hfind, hlist]
    rfl
  rw [Settings.runPass, SafeCalls.runPass, if_neg (by decide), StateT.run_bind, hload]
  show StateT.run (if _ then _ else _) t = _
  rw [if_neg (by decide), StateT.run_bind, SnapshotDocument.run_mapM_load]
  show (Except.ok (Project.outcome _ _ _ _), t) = _
  rw [Project.outcome, PassSignal.never, Extractor.extract_never, List.map_map, List.map_map]
  rfl

end

section

variable {t : FileTree} {entries : List (String × FileNode)}
  (hproper : (FileNode.directory entries).IsProper)
  (hnode : t.node true directory = .ok (.directory entries))

include hproper hnode

theorem read_of_snapshotAt {names : List String} {content : ByteArray}
    (h : s.project.SnapshotAt (.directory entries) names content) :
    t.read (directory.descend names) =
      FileTree.readContent (directory.descend names) content :=
  FileTree.read_descend hnode (hproper.get? h.1).2 h.1

theorem completeAt_iff (names : List String) (unit : ConfigurationUnit) :
    s.project.CompleteAt directory (.directory entries) names unit ↔
      names ∈ s.project.snapshotPlaces directory (FileNode.directory entries).listing ∧
        unit = unitAt directory t names ∧ (unitAt directory t names).hasParts = true := by
  rw [s.project.mem_snapshotPlaces directory hproper]
  constructor
  · rintro ⟨content, hat, hcomplete⟩
    have hread := s.read_of_snapshotAt directory hproper hnode hat
    exact ⟨⟨content, hat⟩, (SnapshotDocument.complete_iff hread).1 hcomplete⟩
  · rintro ⟨⟨content, hat⟩, hunit⟩
    have hread := s.read_of_snapshotAt directory hproper hnode hat
    exact ⟨content, hat, (SnapshotDocument.complete_iff hread).2 hunit⟩

theorem skippedAt_iff (names : List String) :
    s.project.SkippedAt directory (.directory entries) names ↔
      names ∈ s.project.snapshotPlaces directory (FileNode.directory entries).listing ∧
        (unitAt directory t names).hasParts = false := by
  rw [s.project.mem_snapshotPlaces directory hproper]
  constructor
  · rintro ⟨content, hat, hdefect⟩
    have hread := s.read_of_snapshotAt directory hproper hnode hat
    exact ⟨⟨content, hat⟩, (SnapshotDocument.defect_iff hread).1 hdefect⟩
  · rintro ⟨⟨content, hat⟩, hparts⟩
    have hread := s.read_of_snapshotAt directory hproper hnode hat
    exact ⟨content, hat, (SnapshotDocument.defect_iff hread).2 hparts⟩

theorem reports_report (descriptor : FilePath) :
    (s.report descriptor ((s.project.snapshotPlaces directory
      (FileNode.directory entries).listing).map (unitAt directory t))).Reports s directory
        (.directory entries) := by
  have hnodup := s.project.nodup_snapshotPlaces directory hproper
  have hcomplete := s.completeAt_iff directory hproper hnode
  have hskipped := s.skippedAt_iff directory hproper hnode
  have hmem := s.project.mem_snapshotPlaces directory hproper
  -- From here on the places are any list without repeats that has just the snapshots.
  generalize s.project.snapshotPlaces directory (FileNode.directory entries).listing = places at *
  have hlength : (s.report descriptor (places.map (unitAt directory t))).skipped =
      (places.filter fun names => !(unitAt directory t names).hasParts).length := by
    show ((places.map (unitAt directory t)).filter _).length = _
    rw [List.filter_map, List.length_map]
    rfl
  constructor
  case units =>
    simp only [← hmem]
    rw [encard_setOf_mem hnodup, report, List.length_map]
  case skipped =>
    have hplaces : {names | s.project.SkippedAt directory (.directory entries) names} =
        {names | names ∈ places.filter fun names => !(unitAt directory t names).hasParts} := by
      ext names
      simp [hskipped]
    rw [hplaces, encard_setOf_mem (hnodup.filter _), hlength]
  case complete =>
    have hplaces :
        {names | ∃ unit, s.project.CompleteAt directory (.directory entries) names unit} =
          {names | names ∈ places.filter fun names => (unitAt directory t names).hasParts} := by
      ext names
      simp [hcomplete]
    rw [hplaces, encard_setOf_mem (hnodup.filter _), hlength, report, List.length_map,
      places.length_eq_length_filter_add fun names => (unitAt directory t names).hasParts]
    rfl
  case extracts =>
    intro names unit h
    obtain ⟨hplace, rfl, -⟩ := (hcomplete names unit).1 h
    refine ⟨_, (s.extractor.gives_unitKeys _).outcome_never, fun key hkey => ?_⟩
    exact Extractor.mem_whitelist.2 ⟨_, List.mem_map_of_mem hplace, hkey⟩
  case only =>
    intro key hkey
    obtain ⟨unit, hunit, hkey⟩ := Extractor.mem_whitelist.1 hkey
    obtain ⟨names, hplace, rfl⟩ := List.mem_map.1 hunit
    have hparts := Extractor.hasParts_of_mem_contribution hkey
    exact ⟨names, _, _, (hcomplete names _).2 ⟨hplace, rfl, hparts⟩,
      (s.extractor.gives_unitKeys _).outcome_never, hkey⟩

end

end Settings

namespace ProjectSettings

variable {p : ProjectSettings} {directory : FilePath} {before after : FileNode}
  {changed : List String}

theorem DiffersAt.symm (h : p.DiffersAt directory before after changed) :
    p.DiffersAt directory after before changed :=
  ⟨fun names hne content => (h.others names hne content).symm, h.incomplete_after,
    h.incomplete_before⟩

theorem DiffersAt.completeAt_iff (h : p.DiffersAt directory before after changed)
    (names : List String) (unit : ConfigurationUnit) :
    p.CompleteAt directory before names unit ↔ p.CompleteAt directory after names unit := by
  by_cases hchanged : names = changed
  · subst hchanged
    exact iff_of_false (h.incomplete_before unit) (h.incomplete_after unit)
  · simp only [CompleteAt, SnapshotAt, h.others names hchanged]

section

variable {entries entries' : List (String × FileNode)} {name name' : String}
  (hproper : (FileNode.directory entries).IsProper)
  (hproper' : (FileNode.directory entries').IsProper)
  (hdiffers : p.DiffersAt directory (.directory entries) (.directory entries') changed)
  (hnames : p.descriptorNames (FileNode.directory entries).listing = [name])

include hproper hproper' hdiffers hnames

theorem DiffersAt.mem_descriptorNames (hne : [name] ≠ changed) :
    name ∈ p.descriptorNames (FileNode.directory entries').listing := by
  have hname : name ∈ p.descriptorNames (FileNode.directory entries).listing := by simp [hnames]
  obtain ⟨hstem, content, hcontent⟩ := (p.mem_descriptorNames hproper).1 hname
  exact (p.mem_descriptorNames hproper').2
    ⟨hstem, content, (hdiffers.others _ hne content).1 hcontent⟩

theorem DiffersAt.descriptorNames_eq
    (hother : ∀ other, changed = [other] → p.descriptorStem? other = none) :
    p.descriptorNames (FileNode.directory entries').listing = [name] := by
  have hne : ∀ other, (p.descriptorStem? other).isSome = true → [other] ≠ changed := by
    intro other hstem h
    simp [hother other h.symm] at hstem
  have hmem : ∀ other, other ∈ p.descriptorNames (FileNode.directory entries').listing ↔
      other ∈ p.descriptorNames (FileNode.directory entries).listing := by
    intro other
    rw [p.mem_descriptorNames hproper, p.mem_descriptorNames hproper']
    exact and_congr_right fun hstem =>
      exists_congr fun content => (hdiffers.others _ (hne other hstem) content).symm
  rw [← List.perm_singleton, ← hnames]
  exact (List.perm_ext_iff_of_nodup (p.nodup_descriptorNames hproper')
    (p.nodup_descriptorNames hproper)).2 hmem

theorem DiffersAt.descriptor_eq
    (hnames' : p.descriptorNames (FileNode.directory entries').listing = [name']) :
    name = name' := by
  by_cases hchanged : [name] = changed
  · by_cases hchanged' : [name'] = changed
    · exact List.singleton_inj.1 (hchanged.trans hchanged'.symm)
    · have hmem := hdiffers.symm.mem_descriptorNames hproper' hproper hnames' hchanged'
      rw [hnames] at hmem
      exact (List.mem_singleton.1 hmem).symm
  · have hmem := hdiffers.mem_descriptorNames hproper hproper' hnames hchanged
    rw [hnames'] at hmem
    exact List.mem_singleton.1 hmem

end

end ProjectSettings

namespace GeneratedWhitelist

/-- Whether two reports differ in their two numbers at most, and in both by the same. -/
structure SameBesideCounts (g g' : GeneratedWhitelist) : Prop where
  project : g'.project = g.project
  descriptor : g'.descriptor = g.descriptor
  whitelist : g'.whitelist = g.whitelist
  counts : g'.units + g.skipped = g.units + g'.skipped

theorem Reports.whitelist_subset {g g' : GeneratedWhitelist} {s : Settings} {directory : FilePath}
    {before after : FileNode} (h : g.Reports s directory before)
    (h' : g'.Reports s directory after)
    (hsame : ∀ names unit, s.project.CompleteAt directory before names unit ↔
      s.project.CompleteAt directory after names unit) {key : CanonicalKey}
    (hkey : key ∈ g.whitelist) : key ∈ g'.whitelist := by
  obtain ⟨names, unit, keys, hcomplete, hkeys, hmem⟩ := h.only key hkey
  obtain ⟨keys', hkeys', hsub⟩ := h'.extracts names unit ((hsame names unit).1 hcomplete)
  obtain rfl := Except.ok.inj (hkeys.symm.trans hkeys')
  exact hsub key hmem

theorem Reports.counts_eq {g g' : GeneratedWhitelist} {s : Settings} {directory : FilePath}
    {before after : FileNode} (h : g.Reports s directory before)
    (h' : g'.Reports s directory after)
    (hsame : ∀ names unit, s.project.CompleteAt directory before names unit ↔
      s.project.CompleteAt directory after names unit) :
    g'.units + g.skipped = g.units + g'.skipped := by
  have hbefore := h.complete
  have hafter := h'.complete
  simp only [hsame] at hbefore
  apply Nat.cast_injective (R := ℕ∞)
  rw [Nat.cast_add, Nat.cast_add, ← hbefore, ← hafter, add_right_comm]

end GeneratedWhitelist

namespace Settings

variable {s : Settings} {directory : FilePath}

theorem exists_report {t : FileTree} {descriptor : FilePath} (hproper : t.root.IsProper)
    (hfind : s.project.findDescriptor directory (t.list? directory) = .ok descriptor) :
    ∃ entries name units, t.node true directory = .ok (.directory entries) ∧
      s.project.descriptorNames (FileNode.directory entries).listing = [name] ∧
      descriptor = directory.join name ∧
      (s.runPass (m := StateM FileTree) directory .never).run t =
        (.ok (.completed (s.report descriptor units)), t) ∧
      (s.report descriptor units).Reports s directory (.directory entries) := by
  obtain ⟨entries, name, hnode, hlist, hnames, hjoin⟩ :=
    s.project.exists_of_findDescriptor_eq_ok directory hfind
  exact ⟨entries, name, _, hnode, hnames, hjoin, s.run_runPass_of_ok directory hlist hfind,
    s.reports_report directory (FileTree.isProper_of_node hproper hnode) hnode descriptor⟩

theorem exists_of_runPass_eq_completed {t : FileTree} {g : GeneratedWhitelist}
    (h : (s.runPass (m := StateM FileTree) directory .never).run t = (.ok (.completed g), t)) :
    ∃ descriptor, s.project.findDescriptor directory (t.list? directory) = .ok descriptor := by
  cases hfind : s.project.findDescriptor directory (t.list? directory) with
  | ok descriptor => exact ⟨descriptor, rfl⟩
  | error e =>
      rw [s.run_runPass_of_error directory hfind] at h
      cases congrArg Prod.fst h

theorem sameBesideCounts_of_differsAt {t t' : FileTree} {node node' : FileNode}
    {g g' : GeneratedWhitelist} {changed : List String} (hproper : t.root.IsProper)
    (hproper' : t'.root.IsProper) (hnode : t.node true directory = .ok node)
    (hnode' : t'.node true directory = .ok node')
    (hrun : (s.runPass (m := StateM FileTree) directory .never).run t = (.ok (.completed g), t))
    (hrun' : (s.runPass (m := StateM FileTree) directory .never).run t' =
      (.ok (.completed g'), t'))
    (hdiffers : s.project.DiffersAt directory node node' changed) : g.SameBesideCounts g' := by
  obtain ⟨descriptor, hfind⟩ := exists_of_runPass_eq_completed hrun
  obtain ⟨descriptor', hfind'⟩ := exists_of_runPass_eq_completed hrun'
  obtain ⟨entries, name, units, hentries, hnames, rfl, hreport, hreports⟩ :=
    exists_report hproper hfind
  obtain ⟨entries', name', units', hentries', hnames', rfl, hreport', hreports'⟩ :=
    exists_report hproper' hfind'
  obtain rfl := Except.ok.inj (hentries.symm.trans hnode)
  obtain rfl := Except.ok.inj (hentries'.symm.trans hnode')
  obtain rfl := PassOutcome.completed.inj
    (Except.ok.inj (congrArg Prod.fst (hreport.symm.trans hrun)))
  obtain rfl := PassOutcome.completed.inj
    (Except.ok.inj (congrArg Prod.fst (hreport'.symm.trans hrun')))
  obtain rfl := hdiffers.descriptor_eq (FileTree.isProper_of_node hproper hnode)
    (FileTree.isProper_of_node hproper' hnode') hnames hnames'
  have hsame := hdiffers.completeAt_iff
  refine ⟨rfl, rfl, SortedSet.eq_of_mem_iff fun key => ⟨?_, ?_⟩,
    hreports.counts_eq hreports' hsame⟩
  · exact hreports'.whitelist_subset hreports fun names unit => (hsame names unit).symm
  · exact hreports.whitelist_subset hreports' hsame

theorem exists_run_of_differsAt {t t' : FileTree} {node node' : FileNode} {descriptor : FilePath}
    {changed : List String} (hproper : t.root.IsProper) (hproper' : t'.root.IsProper)
    (hnode : t.node true directory = .ok node) (hnode' : t'.node true directory = .ok node')
    (hfind : s.project.findDescriptor directory (t.list? directory) = .ok descriptor)
    (hdiffers : s.project.DiffersAt directory node node' changed)
    (hother : ∀ name, changed = [name] → s.project.descriptorStem? name = none) :
    ∃ g', (s.runPass (m := StateM FileTree) directory .never).run t' =
      (.ok (.completed g'), t') := by
  obtain ⟨entries, name, hentries, -, hnames, -⟩ :=
    s.project.exists_of_findDescriptor_eq_ok directory hfind
  obtain rfl := Except.ok.inj (hentries.symm.trans hnode)
  have hentries := FileTree.isProper_of_node hproper hnode
  obtain ⟨hstem, content, hcontent⟩ := (s.project.mem_descriptorNames hentries).1
    (hnames ▸ List.mem_singleton_self name)
  have hne : [name] ≠ changed := by
    intro h
    simp [hother name h.symm] at hstem
  -- The descriptor is still there, so what the path leads to is still a directory.
  obtain ⟨entries', -, rfl, -, -⟩ :=
    FileNode.get?_cons_eq_some ((hdiffers.others _ hne content).1 hcontent)
  have hnames' := hdiffers.descriptorNames_eq hentries
    (FileTree.isProper_of_node hproper' hnode') hnames hother
  have hlist' := FileTree.exists_list? hnode'
  exact ⟨_, s.run_runPass_of_ok directory hlist'
    ((s.project.findDescriptor_eq_ok directory).2 ⟨_, name, hlist', rfl, hnames', rfl⟩)⟩

/-- Without a cancellation, a pass over a directory with one descriptor comes to a report, which is
right about the directory, and a pass over any other directory comes to the error. Another tree with
a change at a place without a complete snapshot is reported the same, apart from the numbers, unless
the change takes the descriptor away or adds another one. -/
theorem runPass_reports_directory (s : Settings) (directory : FilePath) (t : FileTree)
    (hproper : t.root.IsProper) :
    (∀ e, s.project.findDescriptor directory (t.list? directory) = .error e →
      (s.runPass (m := StateM FileTree) directory .never).run t =
        (.error (.configuration e), t)) ∧
    ∀ descriptor, s.project.findDescriptor directory (t.list? directory) = .ok descriptor →
      ∃ node g, t.node true directory = .ok node ∧
        (s.runPass (m := StateM FileTree) directory .never).run t = (.ok (.completed g), t) ∧
        g.descriptor = descriptor ∧ g.Reports s directory node ∧
        ∀ (t' : FileTree) (node' : FileNode) (changed : List String), t'.root.IsProper →
          t'.node true directory = .ok node' →
          s.project.DiffersAt directory node node' changed →
            (∀ names unit, s.project.CompleteAt directory node names unit ↔
              s.project.CompleteAt directory node' names unit) ∧
            (∀ g', (s.runPass (m := StateM FileTree) directory .never).run t' =
              (.ok (.completed g'), t') → g.SameBesideCounts g') ∧
            ((∀ name, changed = [name] → s.project.descriptorStem? name = none) →
              ∃ g', (s.runPass (m := StateM FileTree) directory .never).run t' =
                (.ok (.completed g'), t')) := by
  refine ⟨fun e => s.run_runPass_of_error directory, fun descriptor hfind => ?_⟩
  obtain ⟨entries, name, units, hnode, -, -, hrun, hreports⟩ := exists_report hproper hfind
  refine ⟨_, _, hnode, hrun, rfl, hreports, fun t' node' changed hproper' hnode' hdiffers => ?_⟩
  exact ⟨hdiffers.completeAt_iff,
    fun g' hrun' => sameBesideCounts_of_differsAt hproper hproper' hnode hnode' hrun hrun' hdiffers,
    exists_run_of_differsAt hproper hproper' hnode hnode' hfind hdiffers⟩

/-- A working directory with a project in it, which has a descriptor and the given files. -/
def projectTree (files : List (String × FileNode)) : FileTree :=
  ⟨.directory [("conf", .directory (("Acme.csproj", .file .empty) :: files))]⟩

def emptySnapshot : String × FileNode := ("A.unit.json", .file .empty)

/-- The snapshot of a source document with nothing in it. -/
def bareSnapshot : UnitSnapshot := ⟨"B.cs", some ⟨"B.cs", ⟨0, []⟩⟩, some ⟨.empty, .empty⟩⟩

def savedSnapshot : String × FileNode := ("B.unit.json", .file bareSnapshot.render.toUTF8)

theorem node_projectTree (files : List (String × FileNode)) :
    (projectTree files).node true ⟨"conf"⟩ =
      .ok (.directory (("Acme.csproj", .file .empty) :: files)) := by
  refine FileTree.node_eq_ok.2 ⟨by decide, ["conf"], ?_, rfl⟩
  rw [show (⟨"conf"⟩ : FilePath).parts = ["conf"] by decide,
    FileTree.locate_directory _ _ _ _ _ (by decide) (by decide) rfl, FileTree.locate]
  rfl

theorem completeAt_savedSnapshot : Settings.default.project.CompleteAt ⟨"conf"⟩
    (.directory [("Acme.csproj", .file .empty), emptySnapshot, savedSnapshot]) ["B.unit.json"]
      bareSnapshot.unit := by
  refine ⟨_, ⟨rfl, "B.unit.json", rfl, by decide⟩, ?_⟩
  exact SnapshotDocument.complete_render (by decide) (by decide) rfl rfl

theorem differsAt_emptySnapshot : Settings.default.project.DiffersAt ⟨"conf"⟩
    (.directory [("Acme.csproj", .file .empty), emptySnapshot, savedSnapshot])
    (.directory [("Acme.csproj", .file .empty), savedSnapshot]) ["A.unit.json"] := by
  refine ⟨fun names hne content => ?_, ?_, ?_⟩
  · rcases names with _ | ⟨name, _ | ⟨next, rest⟩⟩
    · simp [FileNode.get?]
    · have hname : name ≠ "A.unit.json" := fun h => hne (by rw [h])
      simp [emptySnapshot, FileNode.get?, List.lookup_cons, beq_eq_false_iff_ne.2 hname]
    · simp only [emptySnapshot, savedSnapshot, FileNode.get?, List.lookup_cons, List.lookup_nil]
      cases name == "Acme.csproj" <;> cases name == "A.unit.json" <;>
        cases name == "B.unit.json" <;> simp [FileNode.get?]
  · rintro unit ⟨content, ⟨hcontent, -⟩, hcomplete⟩
    cases hcontent
    exact (SnapshotDocument.Defect.malformed rfl rfl).not_complete unit hcomplete
  · rintro unit ⟨content, ⟨hcontent, -⟩, -⟩
    cases hcontent

/-- An empty snapshot beside a complete one is skipped, and taking it away changes nothing but the
numbers. -/
theorem runPass_reports_empty_snapshot :
    (projectTree [emptySnapshot, savedSnapshot]).root.IsProper ∧
      (projectTree [savedSnapshot]).root.IsProper ∧
      Settings.default.project.findDescriptor ⟨"conf"⟩
        ((projectTree [emptySnapshot, savedSnapshot]).list? ⟨"conf"⟩) =
          .ok ⟨"conf/Acme.csproj"⟩ ∧
      ∃ g g' keys, (Settings.default.runPass (m := StateM FileTree) ⟨"conf"⟩ .never).run
          (projectTree [emptySnapshot, savedSnapshot]) =
            (.ok (.completed g), projectTree [emptySnapshot, savedSnapshot]) ∧
        (Settings.default.runPass (m := StateM FileTree) ⟨"conf"⟩ .never).run
          (projectTree [savedSnapshot]) = (.ok (.completed g'), projectTree [savedSnapshot]) ∧
        g.SameBesideCounts g' ∧
        (Settings.default.extractor.unitKeys bareSnapshot.unit).outcome .never = .ok keys ∧
        ∀ key ∈ keys, key ∈ g.whitelist := by
  have hproper : (projectTree [emptySnapshot, savedSnapshot]).root.IsProper := by
    simp [emptySnapshot, savedSnapshot, projectTree, FileNode.IsProper, FileNode.EntriesProper,
      IsFileName]
  have hproper' : (projectTree [savedSnapshot]).root.IsProper := by
    simp [savedSnapshot, projectTree, FileNode.IsProper, FileNode.EntriesProper, IsFileName]
  have hlist := FileTree.exists_list? (node_projectTree [emptySnapshot, savedSnapshot])
  have hnames : Settings.default.project.descriptorNames
      (FileNode.directory [("Acme.csproj", .file .empty), emptySnapshot, savedSnapshot]).listing =
        ["Acme.csproj"] := List.perm_singleton.1 (List.mergeSort_perm _ _)
  have hfind : Settings.default.project.findDescriptor ⟨"conf"⟩
      ((projectTree [emptySnapshot, savedSnapshot]).list? ⟨"conf"⟩) = .ok ⟨"conf/Acme.csproj"⟩ :=
    (ProjectSettings.findDescriptor_eq_ok _ _).2 ⟨_, _, hlist, rfl, hnames, by decide⟩
  obtain ⟨-, hreported⟩ := runPass_reports_directory Settings.default ⟨"conf"⟩ _ hproper
  obtain ⟨node, g, hnode, hrun, -, hreports, hisolated⟩ := hreported _ hfind
  obtain rfl := Except.ok.inj (hnode.symm.trans (node_projectTree _))
  obtain ⟨keys, hkeys, hextracted⟩ := hreports.extracts _ _ completeAt_savedSnapshot
  obtain ⟨-, hsame, hcompletes⟩ :=
    hisolated _ _ _ hproper' (node_projectTree [savedSnapshot]) differsAt_emptySnapshot
  obtain ⟨g', hrun'⟩ := hcompletes fun name hname => by
    obtain rfl := List.singleton_inj.1 hname
    decide
  exact ⟨hproper, hproper', hfind, g, g', keys, hrun, hrun', hsame g' hrun', hkeys, hextracted⟩

end Settings

end SafeCalls
