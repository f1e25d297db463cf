import SafeCalls.Proofs.DescriptorSearch
import SafeCalls.Proofs.RecordParts

namespace SafeCalls

/-!
# Descriptors beside snapshots

Two extensions at the end of one name overlap there, and as each follows a dot, they are the same in
any case or one of them has the other as its own extension. Validation refuses the first. The
second it accepts, and then a snapshot directly in a project can be taken for its descriptor.
-/

namespace Text

theorem eq_dot_of_toLower_eq {c : Char} (h : c.toLower = '.') : c = '.' := by
  obtain hsame | ⟨hge, -, hlower⟩ := toLower_eq_or c
  · exact hsame.symm.trans h
  · have hdot : c.toLower.toNat = 46 := congrArg Char.toNat h
    omega

end Text

namespace Validation

variable {cs : List Char}

theorem slash_not_mem_of_isExtension (h : isExtension cs = true) : '/' ∉ cs := by
  intro hslash
  obtain ⟨word, hword, hmem⟩ := Text.exists_part_of_mem hslash (show '/' ≠ '.' by decide)
  have hall := List.all_eq_true.1 h word hword
  rw [isExtensionWord, Bool.and_eq_true, List.all_eq_true] at hall
  exact absurd (hall.2 '/' hmem) (by decide)

theorem head?_ne_dot_of_isExtension (h : isExtension cs = true) : cs.head? ≠ some '.' := by
  intro hhead
  obtain ⟨rest, rfl⟩ := List.head?_eq_some_iff.1 hhead
  rw [isExtension, Text.splitAt, if_pos rfl] at h
  cases h

theorem isExtension_of_checkExtension {field value : String}
    (h : checkExtension field value = .ok ()) : isExtension value.toList = true := by
  rw [checkExtension] at h
  split at h
  · assumption
  · cases h

end Validation

namespace ProjectSettings

variable {p : ProjectSettings}

/-- What is checked about the extensions. -/
structure ExtensionsValid (p : ProjectSettings) : Prop where
  descriptor : Validation.isExtension p.descriptorExtension.toList = true
  unit : Validation.isExtension p.unitExtension.toList = true
  distinct : p.descriptorExtension.toList.map Char.toLower ≠ p.unitExtension.toList.map Char.toLower

theorem extensionsValid_of_validate (h : p.validate = .ok ()) : p.ExtensionsValid := by
  rw [validate] at h
  obtain ⟨_, hdescriptor, h⟩ := bind_eq_ok.1 h
  obtain ⟨_, hunit, h⟩ := bind_eq_ok.1 h
  obtain ⟨_, hdistinct, -⟩ := bind_eq_ok.1 h
  refine ⟨Validation.isExtension_of_checkExtension hdescriptor,
    Validation.isExtension_of_checkExtension hunit, fun hsame => ?_⟩
  rw [checkDistinct, if_pos (by simp [Validation.sameIgnoringCase, hsame])] at hdistinct
  cases hdistinct

end ProjectSettings

namespace HasExtension

variable {name stem extension : String}

theorem suffix (h : HasExtension name stem extension) :
    '.' :: extension.toList.map Char.toLower <:+ name.toList.map Char.toLower := by
  obtain ⟨-, spelled, rfl, hspelled⟩ := h
  rw [Text.toList_dotted, List.map_append, List.map_cons, hspelled]
  exact List.suffix_append _ _

theorem exists_of_suffix
    (h : '.' :: extension.toList.map Char.toLower <:+ name.toList.map Char.toLower)
    (hhead : name.toList.head? ≠ some '.') : ∃ stem, HasExtension name stem extension := by
  obtain ⟨front, hfront⟩ := h
  obtain ⟨before, after, hname, -, hafter⟩ := List.map_eq_append_iff.1 hfront.symm
  obtain ⟨dot, spelled, rfl, hdot, hspelled⟩ := List.map_eq_cons_iff.1 hafter
  obtain rfl := Text.eq_dot_of_toLower_eq hdot
  refine ⟨String.ofList before, fun hempty => hhead ?_, String.ofList spelled, ?_, ?_⟩
  · rw [hname, String.ofList_eq_empty_iff.1 hempty]
    rfl
  · rw [← String.toList_inj, Text.toList_dotted, String.toList_ofList, String.toList_ofList, hname]
  · rw [String.toList_ofList, hspelled]

end HasExtension

theorem isFileName_dotted {x : String} (h : '/' ∉ x.toList) : IsFileName ("a" ++ "." ++ x) := by
  have hchars : ("a" ++ "." ++ x).toList = 'a' :: '.' :: x.toList := Text.toList_dotted "a" x
  refine ⟨?_, ?_, ?_, ?_⟩
  · rw [ne_eq, ← String.toList_inj, hchars]
    exact List.cons_ne_nil _ _
  · rw [ne_eq, ← String.toList_inj, hchars]
    exact fun hsame => absurd (List.cons.inj hsame).1 (by decide)
  · rw [ne_eq, ← String.toList_inj, hchars]
    exact fun hsame => absurd (List.cons.inj hsame).1 (by decide)
  · rw [hchars]
    simp [h]

namespace ProjectSettings

variable {p : ProjectSettings}

/-- Whether one of the extensions has the other as an extension of its own. -/
def ExtensionsOverlap (p : ProjectSettings) : Prop :=
  (∃ stem, HasExtension p.unitExtension stem p.descriptorExtension) ∨
    ∃ stem, HasExtension p.descriptorExtension stem p.unitExtension

theorem isSnapshot_iff {name : String} :
    p.isSnapshot name = true ↔ '.' :: p.unitExtension.toList <:+ name.toList :=
  List.isSuffixOf_iff_suffix

namespace ExtensionsValid

variable (hvalid : p.ExtensionsValid)

include hvalid

theorem overlap_of_both {name stem : String}
    (hdescriptor : HasExtension name stem p.descriptorExtension)
    (hsnapshot : p.isSnapshot name = true) : p.ExtensionsOverlap := by
  have hends : '.' :: p.unitExtension.toList.map Char.toLower <:+ name.toList.map Char.toLower :=
    (isSnapshot_iff.1 hsnapshot).map Char.toLower
  rcases List.suffix_or_suffix_of_suffix hdescriptor.suffix hends with hunit | hdescriptor
  · rcases List.suffix_cons_iff.1 hunit with hsame | hinside
    · exact absurd (List.cons.inj hsame).2 hvalid.distinct
    · exact .inl (HasExtension.exists_of_suffix hinside
        (Validation.head?_ne_dot_of_isExtension hvalid.unit))
  · rcases List.suffix_cons_iff.1 hdescriptor with hsame | hinside
    · exact absurd (List.cons.inj hsame).2.symm hvalid.distinct
    · exact .inr (HasExtension.exists_of_suffix hinside
        (Validation.head?_ne_dot_of_isExtension hvalid.descriptor))

theorem exists_both_of_overlap (h : p.ExtensionsOverlap) :
    ∃ name stem, IsFileName name ∧ HasExtension name stem p.descriptorExtension ∧
      p.isSnapshot name = true := by
  have hunit := Validation.slash_not_mem_of_isExtension hvalid.unit
  have hdescriptor := Validation.slash_not_mem_of_isExtension hvalid.descriptor
  -- The longer extension behind one letter, its end spelled as snapshots have it.
  obtain ⟨stem, -, spelled, hname, hspelled⟩ | ⟨stem, -, spelled, hname, hspelled⟩ := h
  · refine ⟨"a" ++ "." ++ p.unitExtension, "a" ++ "." ++ stem, isFileName_dotted hunit,
      ⟨?_, spelled, ?_, hspelled⟩, ?_⟩
    · rw [ne_eq, ← String.toList_inj, Text.toList_dotted]
      exact List.cons_ne_nil _ _
    · rw [hname]
      simp only [String.append_assoc]
    · rw [isSnapshot_iff, Text.toList_dotted]
      exact List.suffix_append _ _
  · rw [hname, Text.toList_dotted] at hdescriptor
    refine ⟨"a" ++ "." ++ (stem ++ "." ++ p.unitExtension), "a", isFileName_dotted ?_,
      ⟨by decide, stem ++ "." ++ p.unitExtension, rfl, ?_⟩, ?_⟩
    · rw [Text.toList_dotted]
      simp only [List.mem_append, List.mem_cons, not_or] at hdescriptor ⊢
      exact ⟨hdescriptor.1, by decide, hunit⟩
    · rw [hname, Text.toList_dotted, Text.toList_dotted, List.map_append, List.map_append,
        List.map_cons, List.map_cons, hspelled]
    · rw [isSnapshot_iff, Text.toList_dotted, Text.toList_dotted]
      exact (List.suffix_append _ _).trans (List.suffix_append_of_suffix (List.suffix_cons _ _))

end ExtensionsValid

variable (p)

theorem findDescriptor_filter (h : ∀ name, p.isSnapshot name = true → p.descriptorStem? name = none)
    (directory : FilePath) (entries : List (String × Listing)) :
    p.findDescriptor directory (some (.directory (entries.filter fun e => !p.isSnapshot e.1))) =
      p.findDescriptor directory (some (.directory entries)) := by
  have hseen : ∀ e ∈ entries, ((p.descriptorStem? e.1).isSome && e.2.isFile &&
      !p.isSnapshot e.1) = ((p.descriptorStem? e.1).isSome && e.2.isFile) := by
    intro e _
    cases hsnapshot : p.isSnapshot e.1 with
    | false => simp
    | true => simp [h e.1 hsnapshot]
  refine p.findDescriptor_congr directory ?_
  simp only [descriptorNames, Listing.entries, List.filter_filter]
  rw [List.filter_congr hseen]

/-- If validation accepts the extensions of a project and neither has the other as an extension of
its own, then no name is that of a descriptor and of a snapshot, so that snapshots make no
difference to the search for the descriptor. Otherwise there is a name that is both, and a file with
this name is found as the descriptor. -/
theorem descriptors_apart_from_snapshots (hvalid : p.validate = .ok ()) :
    (¬ p.ExtensionsOverlap →
      (∀ name, ¬ ((p.descriptorStem? name).isSome = true ∧ p.isSnapshot name = true)) ∧
      ∀ (directory : FilePath) (entries : List (String × Listing)),
        p.findDescriptor directory
            (some (.directory (entries.filter fun e => !p.isSnapshot e.1))) =
          p.findDescriptor directory (some (.directory entries))) ∧
    (p.ExtensionsOverlap →
      ∃ name, IsFileName name ∧ (p.descriptorStem? name).isSome = true ∧
        p.isSnapshot name = true ∧
        ∀ directory : FilePath, p.findDescriptor directory (some (.directory [(name, .file)])) =
          .ok (directory.join name)) := by
  have hextensions := extensionsValid_of_validate hvalid
  refine ⟨fun hapart => ?_, fun hoverlap => ?_⟩
  · have hnone : ∀ name, p.isSnapshot name = true → p.descriptorStem? name = none := by
      intro name hsnapshot
      refine Option.eq_none_iff_forall_ne_some.2 fun stem hstem => hapart ?_
      exact hextensions.overlap_of_both (descriptorStem?_eq_some_iff.1 hstem) hsnapshot
    refine ⟨fun name ⟨hdescriptor, hsnapshot⟩ => ?_, p.findDescriptor_filter hnone⟩
    rw [hnone name hsnapshot] at hdescriptor
    cases hdescriptor
  · obtain ⟨name, stem, hname, hstem, hsnapshot⟩ := hextensions.exists_both_of_overlap hoverlap
    refine ⟨name, hname, ?_, hsnapshot, fun directory => ?_⟩
    · rw [descriptorStem?_eq_some_iff.2 hstem]
      rfl
    · have hentries : Listing.AreEntries [(name, .file)] :=
        ⟨List.nodup_singleton _, List.forall_mem_singleton.2 hname⟩
      exact (findDescriptor_eq_ok_iff directory hentries).2
        ⟨_, ⟨List.mem_singleton_self _, ⟨rfl, stem, hstem⟩, fun _ h _ => List.mem_singleton.1 h⟩,
          rfl⟩

/-- The extensions that projects have unless they are set do not overlap. -/
theorem default_descriptors_apart_from_snapshots :
    ProjectSettings.default.validate = .ok () ∧ ¬ ProjectSettings.default.ExtensionsOverlap ∧
      ∀ name, ¬ ((ProjectSettings.default.descriptorStem? name).isSome = true ∧
        ProjectSettings.default.isSnapshot name = true) := by
  have hvalid : ProjectSettings.default.validate = .ok () := rfl
  have hapart : ¬ ProjectSettings.default.ExtensionsOverlap := by
    rintro (⟨stem, h⟩ | ⟨stem, h⟩)
    · exact absurd h.suffix (by decide)
    · exact absurd h.suffix (by decide)
  exact ⟨hvalid, hapart,
    ((descriptors_apart_from_snapshots ProjectSettings.default hvalid).1 hapart).1⟩

/-- The extension of descriptors is that of the snapshots without its first part. -/
def jsonDescriptors : ProjectSettings :=
  { ProjectSettings.default with descriptorExtension := "json" }

theorem snapshot_found_as_descriptor :
    jsonDescriptors.validate = .ok () ∧
      jsonDescriptors.descriptorStem? "Hot.unit.json" = some "Hot.unit" ∧
      jsonDescriptors.isSnapshot "Hot.unit.json" = true ∧
      jsonDescriptors.findDescriptor ⟨"proj"⟩ (some (.directory [("Hot.unit.json", .file)])) =
        .ok ⟨"proj/Hot.unit.json"⟩ := by
  have hnames : jsonDescriptors.descriptorNames (.directory [("Hot.unit.json", .file)]) =
      ["Hot.unit.json"] := List.perm_singleton.1 (List.mergeSort_perm _ _)
  exact ⟨rfl, by decide, by decide,
    (jsonDescriptors.findDescriptor_eq_ok ⟨"proj"⟩).2 ⟨_, _, rfl, rfl, hnames, by decide⟩⟩

end ProjectSettings

end SafeCalls
