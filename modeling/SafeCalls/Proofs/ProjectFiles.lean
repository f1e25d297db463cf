import SafeCalls.Pass.Basic
import SafeCalls.Proofs.FileLookup
import SafeCalls.Proofs.SnapshotForm

namespace SafeCalls

/-!
# The files of a project

Which regular files of a directory are descriptors and snapshots, and which snapshots hold a
complete unit, all of it told from the directory itself. What a project finds in a listing and reads
by paths is exactly that.
-/

namespace SnapshotDocument

/-- The unit of the document when its file is read from the tree, if it has not been before. -/
def unitIn (t : FileTree) (d : SnapshotDocument) : ConfigurationUnit :=
  (d.fill (t.read d.file)).unit

/-- The units of the complete snapshots that a file with a path and a content can be read as. -/
inductive Complete (path : FilePath) (content : ByteArray) : ConfigurationUnit → Prop where
  | intro {text : String} {snapshot : UnitSnapshot}
      (hread : FileTree.readContent path content = .ok text)
      (hparse : UnitSnapshot.parse text = .ok snapshot) (htree : snapshot.tree.isSome = true)
      (hmodel : snapshot.model.isSome = true) : Complete path content snapshot.unit

/-- What keeps a file with a path and a content from being read as a complete snapshot. -/
inductive Defect (path : FilePath) (content : ByteArray) : Prop where
  | unreadable {e : FileError} (hread : FileTree.readContent path content = .error e)
  | malformed {text : String} {e : Json.Error}
      (hread : FileTree.readContent path content = .ok text)
      (hparse : UnitSnapshot.parse text = .error e)
  | incomplete {text : String} {snapshot : UnitSnapshot}
      (hread : FileTree.readContent path content = .ok text)
      (hparse : UnitSnapshot.parse text = .ok snapshot)
      (hmissing : snapshot.tree = none ∨ snapshot.model = none)

theorem hasParts_unit (s : UnitSnapshot) :
    s.unit.hasParts = (s.tree.isSome && s.model.isSome) := by
  rw [ConfigurationUnit.hasParts, ConfigurationUnit.parts?, UnitSnapshot.unit]
  cases s.tree <;> cases s.model <;> rfl

section

variable {t : FileTree} {path : FilePath} {content : ByteArray}
  (hread : t.read path = FileTree.readContent path content)

theorem unitIn_of_parse {text : String} {snapshot : UnitSnapshot} (htext : t.read path = .ok text)
    (hparse : UnitSnapshot.parse text = .ok snapshot) :
    (ofFile path).unitIn t = snapshot.unit := by
  simp [unitIn, ofFile, fill, DocumentParts.ofContent, htext, hparse, unit, SnapshotDocument.path,
    UnitSnapshot.unit]

theorem unitIn_of_missing (hmissing : DocumentParts.ofContent (t.read path) = .missing) :
    ((ofFile path).unitIn t).hasParts = false := by
  simp [unitIn, ofFile, fill, hmissing, unit, DocumentParts.missing, ConfigurationUnit.hasParts,
    ConfigurationUnit.parts?]

include hread

/-- A document gives the unit of the complete snapshot in its file, or else a unit that lacks a
part. -/
theorem complete_or_defect :
    (Complete path content ((ofFile path).unitIn t) ∧ ((ofFile path).unitIn t).hasParts = true) ∨
      (Defect path content ∧ ((ofFile path).unitIn t).hasParts = false) := by
  cases htext : FileTree.readContent path content with
  | error e =>
      refine .inr ⟨.unreadable htext, unitIn_of_missing ?_⟩
      rw [hread, htext, DocumentParts.ofContent]
  | ok text =>
      cases hparse : UnitSnapshot.parse text with
      | error e =>
          refine .inr ⟨.malformed htext hparse, unitIn_of_missing ?_⟩
          simp only [hread, htext, DocumentParts.ofContent, hparse]
      | ok snapshot =>
          rw [unitIn_of_parse (hread.trans htext) hparse, hasParts_unit]
          cases htree : snapshot.tree with
          | none => exact .inr ⟨.incomplete htext hparse (.inl htree), rfl⟩
          | some tree =>
              cases hmodel : snapshot.model with
              | none => exact .inr ⟨.incomplete htext hparse (.inr hmodel), rfl⟩
              | some model =>
                  exact .inl ⟨.intro htext hparse (by rw [htree]; rfl) (by rw [hmodel]; rfl), rfl⟩

end

theorem Complete.unique {path : FilePath} {content : ByteArray} {unit unit' : ConfigurationUnit}
    (h : Complete path content unit) (h' : Complete path content unit') : unit = unit' := by
  obtain ⟨hread, hparse, -, -⟩ := h
  obtain ⟨hread', hparse', -, -⟩ := h'
  obtain rfl := Except.ok.inj (hread.symm.trans hread')
  obtain rfl := Except.ok.inj (hparse.symm.trans hparse')
  rfl

theorem Defect.not_complete {path : FilePath} {content : ByteArray} (h : Defect path content)
    (unit : ConfigurationUnit) : ¬ Complete path content unit := by
  rintro ⟨hread, hparse, htree, hmodel⟩
  cases h with
  | unreadable herror => cases hread.symm.trans herror
  | malformed htext herror =>
      obtain rfl := Except.ok.inj (hread.symm.trans htext)
      cases hparse.symm.trans herror
  | incomplete htext hsame hmissing =>
      obtain rfl := Except.ok.inj (hread.symm.trans htext)
      obtain rfl := Except.ok.inj (hparse.symm.trans hsame)
      obtain hnone | hnone := hmissing
      · simp [hnone] at htree
      · simp [hnone] at hmodel

theorem complete_render {path : FilePath} (hpath : FileTree.pathError? path = none)
    {s : UnitSnapshot} (hnesting : s.toJson.nesting ≤ Json.nestingLimit)
    (htree : s.tree.isSome = true) (hmodel : s.model.isSome = true) :
    Complete path s.render.toUTF8 s.unit :=
  .intro (FileTree.readContent_toUTF8 hpath s.render)
    (UnitSnapshot.parse_of_writes s.writes_toJson hnesting) htree hmodel

section

variable {t : FileTree} {path : FilePath} {content : ByteArray}
  (hread : t.read path = FileTree.readContent path content)

include hread

theorem complete_iff {unit : ConfigurationUnit} : Complete path content unit ↔
    unit = (ofFile path).unitIn t ∧ ((ofFile path).unitIn t).hasParts = true := by
  obtain ⟨hcomplete, hparts⟩ | ⟨hdefect, hparts⟩ := complete_or_defect hread
  · exact ⟨fun h => ⟨h.unique hcomplete, hparts⟩, fun h => h.1 ▸ hcomplete⟩
  · refine ⟨fun h => absurd h (hdefect.not_complete unit), fun h => ?_⟩
    simp [hparts] at h

theorem defect_iff : Defect path content ↔ ((ofFile path).unitIn t).hasParts = false := by
  obtain ⟨hcomplete, hparts⟩ | ⟨hdefect, hparts⟩ := complete_or_defect hread
  · refine ⟨fun h => absurd hcomplete (h.not_complete _), fun h => ?_⟩
    simp [hparts] at h
  · exact ⟨fun _ => hparts, fun _ => hdefect⟩

end

end SnapshotDocument

namespace ProjectSettings

variable (p : ProjectSettings) (directory : FilePath)

/-- Whether names lead to a regular file with the content, and the last of them is that of a
snapshot. -/
def SnapshotAt (node : FileNode) (names : List String) (content : ByteArray) : Prop :=
  node.get? names = some (.file content) ∧
    ∃ name, names.getLast? = some name ∧ '.' :: p.unitExtension.toList <:+ name.toList

def CompleteAt (node : FileNode) (names : List String) (unit : ConfigurationUnit) : Prop :=
  ∃ content, p.SnapshotAt node names content ∧
    SnapshotDocument.Complete (directory.descend names) content unit

def SkippedAt (node : FileNode) (names : List String) : Prop :=
  ∃ content, p.SnapshotAt node names content ∧
    SnapshotDocument.Defect (directory.descend names) content

theorem mem_descriptorNames_iff {listing : Listing} {name : String} :
    name ∈ p.descriptorNames listing ↔
      (p.descriptorStem? name).isSome ∧ (name, .file) ∈ listing.entries := by
  simp only [descriptorNames, List.mem_mergeSort, List.mem_map, List.mem_filter, Bool.and_eq_true]
  constructor
  · rintro ⟨⟨_, entry⟩, ⟨he, hstem, hfile⟩, rfl⟩
    cases entry with
    | file => exact ⟨hstem, he⟩
    | link => cases hfile
    | directory entries => cases hfile
  · rintro ⟨hstem, he⟩
    exact ⟨_, ⟨he, hstem, rfl⟩, rfl⟩

theorem nodup_descriptorNames_of_nodup {listing : Listing}
    (hnodup : (listing.entries.map Prod.fst).Nodup) : (p.descriptorNames listing).Nodup := by
  rw [descriptorNames, (List.mergeSort_perm _ _).nodup_iff]
  exact hnodup.sublist (List.filter_sublist.map _)

section

variable {entries : List (String × FileNode)}

theorem nodup_snapshotPlaces (hproper : (FileNode.directory entries).IsProper) :
    (p.snapshotPlaces directory (FileNode.directory entries).listing).Nodup := by
  rw [snapshotPlaces, (List.mergeSort_perm _ _).nodup_iff]
  exact (FileNode.nodup_files _ hproper).filter _

theorem mem_snapshotPlaces (hproper : (FileNode.directory entries).IsProper)
    (names : List String) :
    names ∈ p.snapshotPlaces directory (FileNode.directory entries).listing ↔
      ∃ content, p.SnapshotAt (.directory entries) names content := by
  rw [snapshotPlaces, List.mem_mergeSort, List.mem_filter, FileNode.mem_files hproper]
  constructor
  · rintro ⟨⟨content, hcontent⟩, hname⟩
    refine ⟨content, hcontent, ?_⟩
    cases hlast : names.getLast? with
    | none =>
        rw [List.getLast?_eq_none_iff.1 hlast] at hcontent
        simp [FileNode.get?] at hcontent
    | some name =>
        rw [hlast] at hname
        exact ⟨name, rfl, List.isSuffixOf_iff_suffix.1 hname⟩
  · rintro ⟨content, hcontent, name, hlast, hsuffix⟩
    refine ⟨⟨content, hcontent⟩, ?_⟩
    rw [hlast]
    exact List.isSuffixOf_iff_suffix.2 hsuffix

theorem nodup_descriptorNames (hproper : (FileNode.directory entries).IsProper) :
    (p.descriptorNames (FileNode.directory entries).listing).Nodup := by
  refine p.nodup_descriptorNames_of_nodup ?_
  rw [FileNode.entries_directory, List.map_map]
  exact hproper.1

theorem mem_descriptorNames (hproper : (FileNode.directory entries).IsProper) {name : String} :
    name ∈ p.descriptorNames (FileNode.directory entries).listing ↔
      (p.descriptorStem? name).isSome ∧
        ∃ content, (FileNode.directory entries).get? [name] = some (.file content) := by
  have hget : ∀ node, (FileNode.directory entries).get? [name] = some node ↔
      (name, node) ∈ entries := by
    intro node
    rw [← lookup_eq_some_iff_mem hproper.1, FileNode.get?]
    cases entries.lookup name <;> simp [FileNode.get?]
  simp only [hget, mem_descriptorNames_iff, FileNode.entries_directory, List.mem_map]
  refine and_congr_right fun _ => ?_
  constructor
  · rintro ⟨⟨_, node⟩, he, heq⟩
    obtain ⟨rfl, hfile⟩ := Prod.mk.inj heq
    cases node with
    | file content => exact ⟨content, he⟩
    | directory entries => cases hfile
    | link target => cases hfile
  · rintro ⟨content, he⟩
    exact ⟨_, he, rfl⟩

end

theorem findDescriptor_eq_ok {listing : Option Listing} {descriptor : FilePath} :
    p.findDescriptor directory listing = .ok descriptor ↔
      ∃ l name, listing = some l ∧ l.isDirectory = true ∧ p.descriptorNames l = [name] ∧
        descriptor = directory.join name := by
  cases listing with
  | none => simp [findDescriptor]
  | some l =>
      rw [findDescriptor]
      cases hdirectory : l.isDirectory with
      | false => simp [hdirectory]
      | true =>
          rcases hnames : p.descriptorNames l with _ | ⟨name, _ | ⟨other, more⟩⟩
          · simp [hdirectory, hnames]
          · simp [hdirectory, hnames, @eq_comm _ descriptor]
          · simp [hdirectory, hnames]

theorem exists_of_findDescriptor_eq_ok {t : FileTree} {descriptor : FilePath}
    (h : p.findDescriptor directory (t.list? directory) = .ok descriptor) :
    ∃ entries name, t.node true directory = .ok (.directory entries) ∧
      t.list? directory = some (FileNode.directory entries).listing ∧
      p.descriptorNames (FileNode.directory entries).listing = [name] ∧
      descriptor = directory.join name := by
  obtain ⟨listing, name, hlist, hdirectory, hnames, rfl⟩ := (p.findDescriptor_eq_ok directory).1 h
  obtain ⟨entries, hnode, rfl⟩ := FileTree.list?_eq_some hlist hdirectory
  exact ⟨entries, name, hnode, hlist, hnames, rfl⟩

end ProjectSettings

end SafeCalls
