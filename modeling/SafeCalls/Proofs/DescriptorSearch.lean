import Mathlib.Data.List.Sort
import SafeCalls.Proofs.ProjectFiles

namespace SafeCalls

/-!
# The search for the descriptor

A descriptor is an entry of the directory itself, a regular file, and its name is a stem, a dot and
the extension in any case. The cut of a name at an offset finds exactly that, because a letter has
the same size in both cases. The names found are listed in strictly ascending order, and only one
such list has the same members, so the order in which the system lists a directory does not count.
-/

namespace Text

/-- Only ASCII letters have another lower case. -/
theorem toLower_eq_or (c : Char) : c.toLower = c ∨
    65 ≤ c.toNat ∧ c.toNat ≤ 90 ∧ c.toLower.toNat = c.toNat + 32 := by
  by_cases h : c.val ≥ 'A'.val ∧ c.val ≤ 'Z'.val
  · have hbounds : 65 ≤ c.toNat ∧ c.toNat ≤ 90 := h
    refine .inr ⟨hbounds.1, hbounds.2, ?_⟩
    rw [show c.toLower = _ from dif_pos h]
    show (c.val + 32).toNat = c.toNat + 32
    rw [UInt32.toNat_add]
    show (c.toNat + 32) % 2 ^ 32 = c.toNat + 32
    omega
  · exact .inl (dif_neg h)

theorem utf8Size_toLower (c : Char) : c.toLower.utf8Size = c.utf8Size := by
  obtain hsame | ⟨-, hle, hlower⟩ := toLower_eq_or c
  · rw [hsame]
  · have hone (d : Char) (hd : d.toNat ≤ 127) : d.utf8Size = 1 :=
      Char.utf8Size_eq_one_iff.2 (UInt32.le_iff_toNat_le.2 hd)
    rw [hone c (by omega), hone c.toLower (by omega)]

theorem utf8ByteSize_map_toLower (cs : List Char) :
    (String.ofList (cs.map Char.toLower)).utf8ByteSize = (String.ofList cs).utf8ByteSize := by
  induction cs with
  | nil => rfl
  | cons c cs ih => rw [List.map_cons, utf8ByteSize_cons, utf8ByteSize_cons, utf8Size_toLower, ih]

theorem utf8ByteSize_eq_of_map_toLower {a b : String}
    (h : a.toList.map Char.toLower = b.toList.map Char.toLower) :
    a.utf8ByteSize = b.utf8ByteSize := by
  have hsize := utf8ByteSize_map_toLower a.toList
  rw [h, utf8ByteSize_map_toLower, String.ofList_toList, String.ofList_toList] at hsize
  exact hsize.symm

theorem toList_dotted (a b : String) : (a ++ "." ++ b).toList = a.toList ++ '.' :: b.toList := by
  rw [String.toList_append, String.toList_append, List.append_assoc]
  rfl

end Text

/-- Whether a name consists of a stem, a dot and an extension in any case. -/
def HasExtension (name stem extension : String) : Prop :=
  stem ≠ "" ∧ ∃ spelled : String, name = stem ++ "." ++ spelled ∧
    spelled.toList.map Char.toLower = extension.toList.map Char.toLower

namespace FilePath

theorem names_join (directory : FilePath) {name : String} (hname : IsFileName name) :
    (directory.join name).names = directory.names ++ [name] := by
  obtain ⟨hempty, hdot, -, hslash⟩ := hname
  obtain ⟨before, hbefore, hjoin⟩ := directory.parts_join hslash
  rw [names, hjoin, List.filter_append, names]
  obtain rfl | hparts := hbefore
  · simp [hempty, hdot]
  · simp [← hparts, hempty, hdot]

theorem fileName?_join (directory : FilePath) {name : String} (hname : IsFileName name) :
    (directory.join name).fileName? = some name := by
  rw [fileName?, directory.names_join hname, List.getLast?_concat]
  exact if_neg hname.2.2.1

theorem names_join_lt (directory : FilePath) {a b : String} (ha : IsFileName a)
    (hb : IsFileName b) (hlt : a < b) :
    (directory.join a).names < (directory.join b).names := by
  rw [directory.names_join ha, directory.names_join hb]
  exact List.append_left_lt (List.Lex.rel hlt)

end FilePath

namespace Listing

/-- What a system may list as the entries of one directory, in whatever order. -/
structure AreEntries (entries : List (String × Listing)) : Prop where
  nodup : (entries.map Prod.fst).Nodup
  names : ∀ e ∈ entries, IsFileName e.1

theorem AreEntries.eq_of_fst_eq {entries : List (String × Listing)} (h : AreEntries entries)
    {e e' : String × Listing} (he : e ∈ entries) (he' : e' ∈ entries) (hname : e.1 = e'.1) :
    e = e' :=
  List.inj_on_of_nodup_map h.nodup he he' hname

end Listing

namespace ProjectSettings

variable (p : ProjectSettings) (directory : FilePath)

/-- Whether an entry of a directory is a regular file with the name of a descriptor. -/
def IsDescriptor (e : String × Listing) : Prop :=
  e.2 = .file ∧ ∃ stem, HasExtension e.1 stem p.descriptorExtension

def IsOnlyDescriptor (entries : List (String × Listing)) (e : String × Listing) : Prop :=
  e ∈ entries ∧ p.IsDescriptor e ∧ ∀ e' ∈ entries, p.IsDescriptor e' → e' = e

variable {p}

/-- The extension starts at the offset that is told from its length, however it is spelled. -/
theorem descriptorStem?_of_hasExtension {stem name : String}
    (h : HasExtension name stem p.descriptorExtension) :
    p.descriptorStem? name = some stem := by
  obtain ⟨hstem, extension, rfl, hextension⟩ := h
  have hsize : (stem ++ "." ++ extension).utf8ByteSize =
      stem.utf8ByteSize + (p.descriptorExtension.utf8ByteSize + 1) := by
    have hdot : ".".utf8ByteSize = 1 := rfl
    rw [String.utf8ByteSize_append, String.utf8ByteSize_append, hdot,
      Text.utf8ByteSize_eq_of_map_toLower hextension]
    omega
  rw [descriptorStem?, hsize]
  simp only [Nat.add_sub_cancel_right]
  have hcut := Text.cutAt?_append stem.toList ('.' :: extension.toList)
  rw [String.ofList_toList] at hcut
  rw [if_neg (by omega), Text.toList_dotted, hcut]
  simp [hstem, Validation.sameIgnoringCase, hextension]

theorem descriptorStem?_eq_some_iff {stem name : String} :
    p.descriptorStem? name = some stem ↔ HasExtension name stem p.descriptorExtension := by
  refine ⟨fun h => ?_, descriptorStem?_of_hasExtension⟩
  rw [descriptorStem?] at h
  split at h
  · cases h
  · split at h
    · next cs extension hcut =>
        obtain ⟨hname, -⟩ := Text.cutAt?_eq_some_iff.1 hcut
        split at h
        · next hboth =>
            obtain rfl := Option.some.inj h
            rw [Bool.and_eq_true] at hboth
            obtain ⟨hstem, hextension⟩ := hboth
            refine ⟨?_, String.ofList extension, ?_, ?_⟩
            · simpa [← String.toList_inj] using hstem
            · rw [← String.toList_inj, hname]
              simp
            · simpa [Validation.sameIgnoringCase] using hextension
        · cases h
    · cases h

theorem eq_of_hasExtension {stem other name : String}
    (h : HasExtension name stem p.descriptorExtension)
    (hother : HasExtension name other p.descriptorExtension) : other = stem := by
  rw [← descriptorStem?_eq_some_iff] at h hother
  exact Option.some.inj (hother.symm.trans h)

variable (p)

theorem mem_descriptorNames_directory {entries : List (String × Listing)} {name : String} :
    name ∈ p.descriptorNames (.directory entries) ↔
      ∃ e ∈ entries, p.IsDescriptor e ∧ e.1 = name := by
  rw [mem_descriptorNames_iff, Option.isSome_iff_exists]
  simp only [descriptorStem?_eq_some_iff]
  constructor
  · rintro ⟨hstem, he⟩
    exact ⟨_, he, ⟨rfl, hstem⟩, rfl⟩
  · rintro ⟨⟨_, _⟩, he, ⟨rfl, hstem⟩, rfl⟩
    exact ⟨hstem, he⟩

theorem findDescriptor_congr {entries entries' : List (String × Listing)}
    (h : p.descriptorNames (.directory entries') = p.descriptorNames (.directory entries)) :
    p.findDescriptor directory (some (.directory entries')) =
      p.findDescriptor directory (some (.directory entries)) := by
  simp only [findDescriptor, h]
  rfl

theorem descriptorNames_ascending {listing : Listing}
    (hnodup : (listing.entries.map Prod.fst).Nodup) :
    (p.descriptorNames listing).Pairwise (· < ·) := by
  have hle : (p.descriptorNames listing).Pairwise (· ≤ ·) := List.pairwise_mergeSort' _ _
  exact hle.imp₂ (fun _ _ => Std.lt_of_le_of_ne) (p.nodup_descriptorNames_of_nodup hnodup)

section

variable {p} {entries : List (String × Listing)} (hentries : Listing.AreEntries entries)

include hentries

/-- The names of descriptors are the only ascending list of them. -/
theorem descriptorNames_eq_iff {names : List String} :
    p.descriptorNames (.directory entries) = names ↔
      names.Pairwise (· < ·) ∧
        ∀ name, name ∈ names ↔ ∃ e ∈ entries, p.IsDescriptor e ∧ e.1 = name := by
  have hascending : (p.descriptorNames (.directory entries)).Pairwise (· < ·) :=
    p.descriptorNames_ascending hentries.nodup
  constructor
  · rintro rfl
    exact ⟨hascending, fun name => p.mem_descriptorNames_directory⟩
  · rintro ⟨hnames, hmem⟩
    refine hascending.eq_of_mem_iff hnames fun name => ?_
    rw [p.mem_descriptorNames_directory, hmem]

theorem descriptorNames_eq_of_perm {entries' : List (String × Listing)}
    (hperm : entries'.Perm entries) :
    p.descriptorNames (.directory entries') = p.descriptorNames (.directory entries) := by
  have hentries' : Listing.AreEntries entries' :=
    ⟨(hperm.map Prod.fst).nodup_iff.2 hentries.nodup, fun e he =>
      hentries.names e (hperm.mem_iff.1 he)⟩
  obtain ⟨hascending, hmem⟩ := (descriptorNames_eq_iff hentries).1 rfl
  refine (descriptorNames_eq_iff hentries').2 ⟨hascending, fun name => ?_⟩
  simp only [hmem, hperm.mem_iff]

theorem descriptorNames_eq_singleton_iff {name : String} :
    p.descriptorNames (.directory entries) = [name] ↔
      ∃ e, p.IsOnlyDescriptor entries e ∧ e.1 = name := by
  rw [descriptorNames_eq_iff hentries]
  constructor
  · rintro ⟨-, hmem⟩
    obtain ⟨e, he, hdescriptor, rfl⟩ := (hmem name).1 (List.mem_singleton_self name)
    refine ⟨e, ⟨he, hdescriptor, fun e' he' hdescriptor' => ?_⟩, rfl⟩
    have hname : e'.1 ∈ [e.1] := (hmem e'.1).2 ⟨e', he', hdescriptor', rfl⟩
    exact hentries.eq_of_fst_eq he' he (List.mem_singleton.1 hname)
  · rintro ⟨e, ⟨he, hdescriptor, honly⟩, rfl⟩
    refine ⟨List.pairwise_singleton _ _, fun other => ?_⟩
    rw [List.mem_singleton]
    constructor
    · rintro rfl
      exact ⟨e, he, hdescriptor, rfl⟩
    · rintro ⟨e', he', hdescriptor', rfl⟩
      rw [honly e' he' hdescriptor']

theorem findDescriptor_eq_of_perm {entries' : List (String × Listing)}
    (hperm : entries'.Perm entries) :
    p.findDescriptor directory (some (.directory entries')) =
      p.findDescriptor directory (some (.directory entries)) :=
  p.findDescriptor_congr directory (descriptorNames_eq_of_perm hentries hperm)

theorem findDescriptor_eq_ok_iff {path : FilePath} :
    p.findDescriptor directory (some (.directory entries)) = .ok path ↔
      ∃ e, p.IsOnlyDescriptor entries e ∧ path = directory.join e.1 := by
  rw [findDescriptor_eq_ok]
  constructor
  · rintro ⟨_, name, hlisting, -, hnames, rfl⟩
    obtain rfl := Option.some.inj hlisting
    obtain ⟨e, honly, rfl⟩ := (descriptorNames_eq_singleton_iff hentries).1 hnames
    exact ⟨e, honly, rfl⟩
  · rintro ⟨e, honly, rfl⟩
    exact ⟨_, e.1, rfl, rfl, (descriptorNames_eq_singleton_iff hentries).2 ⟨e, honly, rfl⟩, rfl⟩

theorem ascending_map_join :
    ((p.descriptorNames (.directory entries)).map directory.join).Pairwise
      fun a b => a.names < b.names := by
  obtain ⟨hascending, hmem⟩ := (descriptorNames_eq_iff hentries).1 rfl
  have hfileName : ∀ name ∈ p.descriptorNames (.directory entries), IsFileName name := by
    intro name hname
    obtain ⟨e, he, -, rfl⟩ := (hmem name).1 hname
    exact hentries.names e he
  rw [List.pairwise_map]
  exact hascending.imp_of_mem fun ha hb => directory.names_join_lt (hfileName _ ha) (hfileName _ hb)

theorem findDescriptor_of_two {e e' : String × Listing} (he : e ∈ entries) (he' : e' ∈ entries)
    (hdescriptor : p.IsDescriptor e) (hdescriptor' : p.IsDescriptor e') (hne : e ≠ e') :
    p.findDescriptor directory (some (.directory entries)) =
      .error (.severalDescriptors directory p.descriptorExtension
        ((p.descriptorNames (.directory entries)).map directory.join)) := by
  have hmem := p.mem_descriptorNames_directory.2 ⟨e, he, hdescriptor, rfl⟩
  have hmem' := p.mem_descriptorNames_directory.2 ⟨e', he', hdescriptor', rfl⟩
  rw [findDescriptor]
  rcases hnames : p.descriptorNames (.directory entries) with _ | ⟨name, _ | ⟨other, more⟩⟩
  · rw [hnames] at hmem
    cases hmem
  · rw [hnames, List.mem_singleton] at hmem hmem'
    exact absurd (hentries.eq_of_fst_eq he he' (hmem.trans hmem'.symm)) hne
  · rfl

theorem exists_project_of_findDescriptor {path : FilePath}
    (h : p.findDescriptor directory (some (.directory entries)) = .ok path) :
    ∃ stem name project, path = directory.join name ∧ HasExtension name stem p.descriptorExtension ∧
      path.fileName?.bind p.descriptorStem? = some stem ∧
      p.project directory (some (.directory entries)) = .ok project ∧
      project.descriptor = path ∧ project.name = stem := by
  obtain ⟨e, ⟨he, ⟨-, stem, hstem⟩, -⟩, rfl⟩ := (findDescriptor_eq_ok_iff directory hentries).1 h
  have hname : (directory.join e.1).fileName?.bind p.descriptorStem? = some stem := by
    rw [directory.fileName?_join (hentries.names e he)]
    exact descriptorStem?_of_hasExtension hstem
  have hproject : p.project directory (some (.directory entries)) =
      .ok ⟨directory.join e.1, ((directory.join e.1).fileName?.bind p.descriptorStem?).getD "",
        p.globalProperties, (p.findSnapshots directory (some (.directory entries))).map
          SnapshotDocument.ofFile⟩ := by
    rw [project, h]
    rfl
  refine ⟨stem, e.1, _, rfl, hstem, hname, hproject, rfl, ?_⟩
  rw [hname]
  rfl

end

theorem findDescriptor_eq_noDescriptor_iff {entries : List (String × Listing)} :
    p.findDescriptor directory (some (.directory entries)) =
        .error (.noDescriptor directory p.descriptorExtension) ↔
      ∀ e ∈ entries, ¬ p.IsDescriptor e := by
  have hnil : p.descriptorNames (.directory entries) = [] ↔ ∀ e ∈ entries, ¬ p.IsDescriptor e := by
    rw [List.eq_nil_iff_forall_not_mem]
    simp only [mem_descriptorNames_directory]
    exact ⟨fun h e he hdescriptor => h e.1 ⟨e, he, hdescriptor, rfl⟩,
      fun h _ ⟨e, he, hdescriptor, _⟩ => h e he hdescriptor⟩
  rw [← hnil, findDescriptor]
  rcases hnames : p.descriptorNames (.directory entries) with _ | ⟨name, _ | ⟨other, more⟩⟩
  · simp [Listing.isDirectory]
  · simp [Listing.isDirectory]
  · simp [Listing.isDirectory]

/-- The search for the descriptor of a directory depends only on which entries there are, and not on
the order in which they are listed. It finds the only entry that is a regular file and whose name
consists of a stem, a dot and the extension in any case, fails with no such entry, and fails with
two of them, listing all of them in ascending order. The name of a project is the stem of its
descriptor, which is never empty. -/
theorem descriptor_search_is_exact (p : ProjectSettings) (directory : FilePath)
    {entries : List (String × Listing)} (hentries : Listing.AreEntries entries) :
    (∀ name stem, p.descriptorStem? name = some stem ↔
      HasExtension name stem p.descriptorExtension) ∧
    (∀ entries', entries'.Perm entries →
      p.findDescriptor directory (some (.directory entries')) =
        p.findDescriptor directory (some (.directory entries))) ∧
    (∀ path, p.findDescriptor directory (some (.directory entries)) = .ok path ↔
      ∃ e, p.IsOnlyDescriptor entries e ∧ path = directory.join e.1) ∧
    (p.findDescriptor directory (some (.directory entries)) =
        .error (.noDescriptor directory p.descriptorExtension) ↔
      ∀ e ∈ entries, ¬ p.IsDescriptor e) ∧
    (∀ e ∈ entries, ∀ e' ∈ entries, p.IsDescriptor e → p.IsDescriptor e' → e ≠ e' →
      ∃ candidates, p.findDescriptor directory (some (.directory entries)) =
          .error (.severalDescriptors directory p.descriptorExtension candidates) ∧
        (∀ path, path ∈ candidates ↔
          ∃ e ∈ entries, p.IsDescriptor e ∧ path = directory.join e.1) ∧
        candidates.Pairwise fun a b => a.names < b.names) ∧
    ∀ t : FileTree, t.list? directory = some (.directory entries) →
      ∀ path, p.findDescriptor directory (t.list? directory) = .ok path →
        ∃ stem name project, path = directory.join name ∧
          (∀ other, HasExtension name other p.descriptorExtension ↔ other = stem) ∧ stem ≠ "" ∧
          path.fileName?.bind p.descriptorStem? = some stem ∧
          (p.load (m := StateM FileTree) directory).run t = (.ok project, t) ∧
          project.descriptor = path ∧ project.name = stem := by
  refine ⟨fun name stem => descriptorStem?_eq_some_iff,
    fun entries' hperm => findDescriptor_eq_of_perm directory hentries hperm,
    fun path => findDescriptor_eq_ok_iff directory hentries,
    p.findDescriptor_eq_noDescriptor_iff directory,
    fun e he e' he' hdescriptor hdescriptor' hne => ?_, fun t hlist path hpath => ?_⟩
  · refine ⟨_, findDescriptor_of_two directory hentries he he' hdescriptor hdescriptor' hne,
      fun path => ?_, ascending_map_join directory hentries⟩
    simp only [List.mem_map, mem_descriptorNames_directory]
    constructor
    · rintro ⟨_, ⟨e, he, hdescriptor, rfl⟩, rfl⟩
      exact ⟨e, he, hdescriptor, rfl⟩
    · rintro ⟨e, he, hdescriptor, rfl⟩
      exact ⟨e.1, ⟨e, he, hdescriptor, rfl⟩, rfl⟩
  · obtain ⟨stem, name, project, rfl, hstem, hname, hproject, hdescriptor, hprojectName⟩ :=
      exists_project_of_findDescriptor directory hentries (hlist ▸ hpath)
    refine ⟨stem, name, project, rfl,
      fun other => ⟨eq_of_hasExtension hstem, fun h => h ▸ hstem⟩, hstem.1, hname, ?_,
      hdescriptor, hprojectName⟩
    rw [← hproject, ← hlist]
    rfl

/-- The extension has two parts, and the stem has letters of two bytes. What has no stem, is no file
or differs in more than case is passed by, in whatever order it is listed. -/
theorem descriptor_search_in_mixed_directory :
    let p := { ProjectSettings.default with descriptorExtension := "config.csproj" }
    let entries : List (String × Listing) := [("Größe.Config.CSPROJ", .file),
      (".config.csproj", .file), ("Old.config.csproj", .link), ("New.config.csproj", .directory []),
      ("Größe.cönfig.csproj", .file)]
    Listing.AreEntries entries ∧
      p.findDescriptor ⟨"proj"⟩ (some (.directory entries.reverse)) =
        .ok ⟨"proj/Größe.Config.CSPROJ"⟩ ∧
      ∃ t project, (p.load (m := StateM FileTree) ⟨"proj"⟩).run t = (.ok project, t) ∧
        project.name = "Größe" := by
  intro p entries
  have hentries : Listing.AreEntries entries :=
    ⟨by decide, by simp [entries, IsFileName]⟩
  obtain ⟨hstem, hperm, hfind, -, -, hload⟩ := descriptor_search_is_exact p ⟨"proj"⟩ hentries
  have hnone : ∀ name ∈ [".config.csproj", "Größe.cönfig.csproj"], ∀ stem,
      ¬ HasExtension name stem p.descriptorExtension := by
    intro name hname stem h
    have hmissing : ∀ name ∈ [".config.csproj", "Größe.cönfig.csproj"],
        p.descriptorStem? name = none := by decide
    exact Option.some_ne_none stem (((hstem name stem).2 h).symm.trans (hmissing name hname))
  have honly : p.IsOnlyDescriptor entries ("Größe.Config.CSPROJ", .file) := by
    refine ⟨List.mem_cons_self, ⟨rfl, "Größe", (hstem _ _).1 (by decide)⟩, ?_⟩
    rintro e he ⟨hfile, stem, hname⟩
    simp only [entries, List.mem_cons, List.not_mem_nil, or_false] at he
    rcases he with rfl | rfl | rfl | rfl | rfl
    · rfl
    · exact absurd hname (hnone _ (by simp) stem)
    · cases hfile
    · cases hfile
    · exact absurd hname (hnone _ (by simp) stem)
  have hfound := (hfind ⟨"proj/Größe.Config.CSPROJ"⟩).2 ⟨_, honly, by decide⟩
  let files : List (String × FileNode) := [("Größe.Config.CSPROJ", .file .empty),
    (".config.csproj", .file .empty), ("Old.config.csproj", .link ⟨"Größe.Config.CSPROJ"⟩),
    ("New.config.csproj", .directory []), ("Größe.cönfig.csproj", .file .empty)]
  let t : FileTree := ⟨.directory [("proj", .directory files)]⟩
  have hnode : t.node true ⟨"proj"⟩ = .ok (.directory files) := by
    refine FileTree.node_eq_ok.2 ⟨by decide, ["proj"], ?_, rfl⟩
    rw [show (⟨"proj"⟩ : FilePath).parts = ["proj"] by decide,
      FileTree.locate_directory _ _ _ _ _ (by decide) (by decide) rfl, FileTree.locate]
    rfl
  have hlist : t.list? ⟨"proj"⟩ = some (.directory entries) := FileTree.exists_list? hnode
  obtain ⟨stem, name, project, -, -, -, hname, hrun, -, hproject⟩ :=
    hload t hlist _ (hlist ▸ hfound)
  refine ⟨hentries, (hperm _ (List.reverse_perm entries)).trans hfound, t, project, hrun, ?_⟩
  rw [hproject]
  exact Option.some.inj (hname.symm.trans (by decide))

end ProjectSettings

end SafeCalls
