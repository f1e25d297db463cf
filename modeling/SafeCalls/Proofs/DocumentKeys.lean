import Mathlib.Data.List.Perm.Subperm
import SafeCalls.Proofs.DocumentForm
import SafeCalls.Proofs.RecordParts
import SafeCalls.Proofs.Regeneration

namespace SafeCalls

/-!
# The keys of a document

A document that is made from a whitelist has its keys in ascending order. A document that is read
has the keys that its text lists, as the text lists them, and then its keys may be out of order and
there may be more of them than the whitelist has members.
-/

open Json (Error Manner Reading)
open Time (Timestamp)

namespace SortedSet

variable {κ : Type} [KeyOrder κ] {members : List κ}

theorem nodup_toList (s : SortedSet κ) : s.toList.Nodup := s.ascending.imp KeyOrder.ne_of_lt

theorem toList_ofList_eq_iff : (ofList members).toList = members ↔ members.Pairwise (· < ·) := by
  constructor
  · intro h
    rw [← h]
    exact (ofList members).ascending
  · intro h
    apply eq_of_pairwise_of_mem_iff (ofList members).ascending h
    intro a
    rw [mem_toList, mem_ofList]

theorem size_ofList_eq_iff : (ofList members).size = members.length ↔ members.Nodup := by
  have hmem : ∀ a, a ∈ (ofList members).toList ↔ a ∈ members := fun a => mem_ofList
  constructor
  · intro h
    have hsub : (ofList members).toList ⊆ members := fun a ha => (hmem a).1 ha
    have hsubperm := List.subperm_of_subset (nodup_toList _) hsub
    have hperm := hsubperm.perm_of_length_le (Nat.le_of_eq h.symm)
    exact hperm.nodup_iff.1 (nodup_toList _)
  · intro h
    exact ((List.perm_ext_iff_of_nodup (nodup_toList _) h).2 hmem).length_eq

end SortedSet

namespace WhitelistDocument

def IsAscending (d : WhitelistDocument) : Prop := d.keys.Pairwise (· < ·)

/-- The list that a text has for its keys spells these keys one by one. -/
def Lists (text : String) (keys : List CanonicalKey) : Prop :=
  ∃ slots place items ending,
    layout.slots .direct (Json.readText text).content = .ok slots ∧
    slots.slot "keys" = .filled place (.list items ending) ∧
    List.Forall₂ (fun item key => ∃ token : Json.Token String,
      item = .text token ∧ token.value = .ok key.text) items keys

variable {d : WhitelistDocument} {text : String}

theorem isAscending_iff : d.IsAscending ↔ d.keys = d.whitelist.toList := by
  rw [IsAscending, ← SortedSet.toList_ofList_eq_iff]
  exact eq_comm

theorem read_eq_ok {reading : Reading} {room : Nat} :
    read (room + 1) .direct reading = .ok d ↔ ∃ slots,
      layout.slots .direct reading = .ok slots ∧ slots.stop? = none ∧
      slots.required "version" Reading.word = .ok d.version ∧
      slots.required "project" Reading.string = .ok d.project ∧
      slots.required "generated_at" readTimestamp = .ok d.generatedAt ∧
      ∃ keys, slots.required "keys" (Reading.strings room) = .ok keys ∧
        keys.map CanonicalKey.mk = d.keys := by
  rw [read, bind_eq_ok]
  refine exists_congr fun slots => and_congr_right fun _ => ?_
  simp only [Placed.result_eq_ok, Placed.part_eq_ok, Slots.fill_eq_ok]
  constructor
  · rintro ⟨_, keys, ⟨_, moment, ⟨_, project, ⟨_, version, ⟨hstop, rfl⟩, hversion, rfl⟩, hproject,
      rfl⟩, hmoment, rfl⟩, hkeys, rfl⟩
    exact ⟨hstop, hversion, hproject, hmoment, keys, hkeys, rfl⟩
  · rintro ⟨hstop, hversion, hproject, hmoment, keys, hkeys, hsame⟩
    obtain ⟨version, project, moment, _⟩ := d
    obtain rfl := hsame
    exact ⟨_, keys, ⟨_, moment, ⟨_, project, ⟨_, version, ⟨hstop, rfl⟩, hversion, rfl⟩, hproject,
      rfl⟩, hmoment, rfl⟩, hkeys, rfl⟩

theorem lists_of_read {room : Nat}
    (h : read room .direct (Json.readText text).content = .ok d) : Lists text d.keys := by
  cases room with
  | zero => cases h
  | succ room =>
      obtain ⟨slots, hslots, -, -, -, -, keys, hkeys, hsame⟩ := read_eq_ok.1 h
      obtain ⟨place, value, hslot, hvalue⟩ := Slots.required_eq_ok.1 hkeys
      obtain ⟨inside, items, ending, -, rfl, -, hitems⟩ := Reading.listOf_eq_ok.1 hvalue
      refine ⟨slots, place, items, ending, hslots, hslot, ?_⟩
      rw [← hsame, List.forall₂_map_right_iff]
      exact hitems.imp fun item key hkey => Reading.string_eq_ok.1 hkey

theorem parseJson_eq_ok (h : parseJson text = .ok d) :
    d.version = currentVersion ∧ Json.decode read text = .ok d := by
  rw [parseJson] at h
  split at h
  · cases h
  · next d' hdecode =>
      split at h
      · next hversion =>
          obtain rfl := Except.ok.inj h
          exact ⟨hversion, hdecode⟩
      · cases h

theorem lists_of_parseJson (h : parseJson text = .ok d) : Lists text d.keys :=
  lists_of_read (Json.decode_eq_ok.1 (parseJson_eq_ok h).2).1

end WhitelistDocument

namespace WhitelistStore

theorem loadDocument_eq_ok {location : FilePath} {t t' : FileTree} {d : WhitelistDocument}
    (h : (loadDocument (m := StateM FileTree) location).run t = (.ok d, t')) :
    t' = t ∧ ∃ text, t.read location = .ok text ∧ WhitelistDocument.parseJson text = .ok d := by
  cases hread : t.read location with
  | ok text =>
      rw [run_loadDocument hread] at h
      obtain ⟨hparse, rfl⟩ := Prod.mk.inj h
      exact ⟨rfl, text, rfl, hparse⟩
  | error e =>
      have hfile : (Files.read (m := StateM FileTree) location).run t = (t.read location, t) := rfl
      rw [loadDocument, readText, StateT.run_bind, StateT.run_bind, hfile, hread] at h
      cases (Prod.mk.inj h).1

end WhitelistStore

namespace WhitelistDocument

/-- A document that is made from a whitelist has the members of the whitelist for its keys, in
ascending order. A document that is parsed or loaded has the keys that the text lists, in the order
of the text and as often as there. Just if these ascend they are the list of the whitelist, and then
both forms of the document have this list. -/
theorem keys_of_document (d : WhitelistDocument) :
    (∀ (project : String) (moment : Timestamp) (w : Whitelist),
      (ofWhitelist project moment w).IsAscending ∧ (ofWhitelist project moment w).whitelist = w) ∧
    (∀ text, parseJson text = .ok d → Lists text d.keys) ∧
    (∀ (location : FilePath) (t t' : FileTree),
      (WhitelistStore.loadDocument (m := StateM FileTree) location).run t = (.ok d, t') →
      t' = t ∧ ∃ text, t.read location = .ok text ∧ parseJson text = .ok d) ∧
    (d.IsAscending ↔ d.keys = d.whitelist.toList) ∧
    (d.whitelist.size = d.keys.length ↔ d.keys.Nodup) ∧
    (d.IsAscending →
      d = { ofWhitelist d.project d.generatedAt d.whitelist with version := d.version } ∧
      d.whitelist.size = d.keys.length ∧
      d.renderText =
        header d.project ++ String.join (d.whitelist.texts.map fun key => key ++ "\n")) := by
  refine ⟨fun project moment w => ?_, fun text => lists_of_parseJson,
    fun location t t' => WhitelistStore.loadDocument_eq_ok, isAscending_iff,
      SortedSet.size_ofList_eq_iff, fun h => ?_⟩
  · refine ⟨w.ascending, ?_⟩
    apply SortedSet.eq_of_mem_iff
    intro key
    exact SortedSet.mem_ofList
  · have hkeys : d.keys = d.whitelist.toList := isAscending_iff.1 h
    refine ⟨?_, SortedSet.size_ofList_eq_iff.2 (h.imp KeyOrder.ne_of_lt), ?_⟩
    · rw [ofWhitelist, ← hkeys]
    · rw [renderText, Whitelist.texts, ← hkeys, List.map_map]
      rfl

/-- The whitelist was collected out of order and with a repeat. What is loaded after it was saved
ascends again. -/
theorem keys_of_saved_whitelist :
    let w := Whitelist.ofTexts ["b", "a", "b"]
    let d := ofWhitelist "Acme" ⟨⟨2026, 1, 2⟩, 3, 4, 5, 0⟩ w
    let t : FileTree := ⟨.directory [("a.json", .file d.renderJson.toUTF8)]⟩
    (WhitelistStore.loadDocument (m := StateM FileTree) ⟨"a.json"⟩).run t = (.ok d, t) ∧
    Lists d.renderJson [⟨"a"⟩, ⟨"b"⟩] ∧ d.whitelist.size = 2 ∧
    d.renderText = "# hot-path allocation whitelist: Acme\na\nb\n" := by
  intro w d t
  obtain ⟨hmade, hparsed, hloaded, -, -, hascends⟩ := keys_of_document d
  have hmoment : d.generatedAt.IsValid := by constructor <;> decide
  have hparse : parseJson d.renderJson = .ok d := parseJson_renderJson_of_isValid hmoment rfl
  have hread : t.read ⟨"a.json"⟩ = .ok d.renderJson := by
    have hparts : FilePath.parts ⟨"a.json"⟩ = ["a.json"] := by decide
    refine FileTree.read_of_node (FileTree.node_eq_ok.2 ⟨by decide, ["a.json"], ?_, rfl⟩)
    simp [hparts, FileTree.locate, FileNode.get?, t]
  have hload : (WhitelistStore.loadDocument (m := StateM FileTree) ⟨"a.json"⟩).run t =
      (.ok d, t) := by
    rw [WhitelistStore.run_loadDocument hread, hparse]
  obtain ⟨-, text, htext, htextParse⟩ := hloaded _ _ _ hload
  obtain rfl : d.renderJson = text := Except.ok.inj (hread.symm.trans htext)
  obtain ⟨-, hsize, htext⟩ := hascends (hmade _ _ w).1
  exact ⟨hload, hparsed _ htextParse, hsize.trans rfl, htext.trans rfl⟩

/-- A list that somebody merged by hand keeps its order and its repeat: there are three keys, two
of them in the whitelist, and writing the document lists them as they were. -/
theorem parseJson_keys_not_ascending :
    let d : WhitelistDocument :=
      ⟨1, "Acme", ⟨⟨2026, 1, 2⟩, 3, 4, 5, 0⟩, [⟨"b"⟩, ⟨"a"⟩, ⟨"a"⟩]⟩
    parseJson d.renderJson = .ok d ∧ ¬ d.IsAscending ∧ ¬ d.keys.Nodup ∧
    d.keys.length = 3 ∧ d.whitelist.size = 2 ∧
    d.renderText = "# hot-path allocation whitelist: Acme\nb\na\na\n" := by
  intro d
  have hmoment : d.generatedAt.IsValid := by constructor <;> decide
  refine ⟨parseJson_renderJson_of_isValid hmoment rfl, ?_, by decide, rfl, rfl, rfl⟩
  intro h
  have hsame := isAscending_iff.1 h
  revert hsame
  decide

end WhitelistDocument

end SafeCalls
