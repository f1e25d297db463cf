import SafeCalls.Proofs.JsonRecord
import SafeCalls.Proofs.JsonText
import SafeCalls.Proofs.SavedFile
import SafeCalls.Proofs.TimestampText
import SafeCalls.Whitelist.Store

namespace SafeCalls

/-!
# The JSON form of a whitelist

A document in its JSON form is read back with everything that it holds, and so is the document in a
file that was written. What is read is refused only if it is of another version.
-/

open Json (Error Manner Reading InRange string_reading word_reading strings_reading nesting_object
  nestingMembers nesting_texts_le exists_room_of_object)
open Time (Timestamp)

namespace WhitelistDocument

theorem inRange_toJson (d : WhitelistDocument) : d.toJson.InRange :=
  ⟨Json.toNat_le_maxNatural d.version, trivial, trivial, Json.inRange_texts _, trivial⟩

theorem nesting_toJson_le (d : WhitelistDocument) : d.toJson.nesting ≤ Json.nestingLimit := by
  have hkeys := nesting_texts_le (d.keys.map (·.text))
  have hlimit : 2 ≤ Json.nestingLimit := by decide
  simp only [toJson, nesting_object, nestingMembers, Json.nesting]
  omega

theorem read_toJson (d : WhitelistDocument)
    (hclock : Timestamp.parse d.generatedAt.render = .ok d.generatedAt) {room : Nat}
    (manner : Manner) (hroom : d.toJson.nesting ≤ room) :
    read room manner d.toJson.reading = .ok d := by
  obtain ⟨room, rfl, hmembers⟩ := exists_room_of_object hroom
  rw [read]
  refine Layout.slots_bind _ manner rfl (by decide) hmembers fun slots h => ?_
  have hversion := h.required "version" rfl fun _ => word_reading d.version
  have hproject := h.required "project" rfl fun _ => string_reading d.project
  have hgeneratedAt : slots.required "generated_at" readTimestamp = .ok d.generatedAt := by
    refine h.required "generated_at" rfl fun _ => ?_
    simp [Json.reading, readTimestamp, Json.Token.decode, Json.Token.of, hclock, bind, Except.bind]
  have hkeys := h.required "keys" rfl (strings_reading (d.keys.map (·.text)))
  have hsame : (d.keys.map (·.text)).map CanonicalKey.mk = d.keys := by
    rw [List.map_map]
    exact List.map_id d.keys
  rw [h.fill, hversion, hproject, hgeneratedAt, hkeys]
  change Except.ok (mk d.version d.project d.generatedAt
    ((d.keys.map (·.text)).map CanonicalKey.mk)) = _
  rw [hsame]

theorem decode_renderJson (d : WhitelistDocument)
    (hclock : Timestamp.parse d.generatedAt.render = .ok d.generatedAt) :
    Json.decode read d.renderJson = .ok d := by
  have hblank : ∀ c ∈ ['\n'], Json.isSpace c := by simp [Json.isSpace]
  have hend : "\n" = String.ofList ['\n'] := rfl
  have htext : Json.readText d.renderJson = ⟨d.toJson.reading, none⟩ := by
    rw [renderJson, hend]
    exact Json.readText_pretty_append d.inRange_toJson hblank
  rw [Json.decode_of_readText read htext]
  exact d.read_toJson hclock .direct d.nesting_toJson_le

theorem parseJson_renderJson_eq (d : WhitelistDocument)
    (hclock : Timestamp.parse d.generatedAt.render = .ok d.generatedAt) :
    parseJson d.renderJson = if d.version = currentVersion then .ok d
      else .error (.unsupportedVersion d.version currentVersion) := by
  rw [parseJson, d.decode_renderJson hclock]

theorem parseJson_renderJson_of_isValid {d : WhitelistDocument} (hmoment : d.generatedAt.IsValid)
    (hversion : d.version = currentVersion) : parseJson d.renderJson = .ok d := by
  rw [d.parseJson_renderJson_eq (Timestamp.parse_render_of_isValid hmoment), if_pos hversion]

end WhitelistDocument

namespace WhitelistStore

variable {location : FilePath} {t t' : FileTree}

theorem run_save {format : OutputFormat} {d : WhitelistDocument}
    (h : t.save location (d.render format) = .ok t') :
    (save (m := StateM FileTree) ⟨location, format⟩ d).run t = (.ok (), t') := by
  have hfile : (Files.save (m := StateM FileTree) location (d.render format)).run t =
      (.ok (), t') := by
    simp only [Files.save, StateT.run_bind, StateT.run_get, pure_bind, h]
    rfl
  rw [save, StateT.run_bind, hfile]
  rfl

theorem run_loadDocument {text : String} (h : t.read location = .ok text) :
    (loadDocument (m := StateM FileTree) location).run t =
      (WhitelistDocument.parseJson text, t) := by
  have hfile : (Files.read (m := StateM FileTree) location).run t = (t.read location, t) := rfl
  rw [loadDocument, readText, StateT.run_bind, StateT.run_bind, hfile, h]
  rfl

theorem run_load_json {text : String} (h : t.read location = .ok text) :
    (load (m := StateM FileTree) ⟨location, .json⟩).run t =
      ((WhitelistDocument.parseJson text).map WhitelistDocument.whitelist, t) := by
  simp only [load, StateT.run_bind, run_loadDocument h]
  rfl

end WhitelistStore

namespace WhitelistDocument

/-- A document keeps its version, its project, its moment and its keys in the JSON form, in the
order of the keys and with their repetitions, and a store loads the keys that were saved. Of another
version it is refused as such. -/
theorem json_form_keeps_document (d : WhitelistDocument)
    (hclock : Timestamp.parse d.generatedAt.render = .ok d.generatedAt) :
    (d.version = currentVersion → parseJson d.renderJson = .ok d) ∧
    (d.version ≠ currentVersion →
      parseJson d.renderJson = .error (.unsupportedVersion d.version currentVersion)) ∧
    ∀ (location : FilePath) (t t' : FileTree), t.IsRooted →
      t.save location d.renderJson = .ok t' →
      (WhitelistStore.save (m := StateM FileTree) ⟨location, .json⟩ d).run t = (.ok (), t') ∧
      (d.version = currentVersion →
        (WhitelistStore.loadDocument (m := StateM FileTree) location).run t' = (.ok d, t') ∧
        ∃ w, (WhitelistStore.load (m := StateM FileTree) ⟨location, .json⟩).run t' = (.ok w, t') ∧
          ∀ key, key ∈ w ↔ key ∈ d.keys) ∧
      (d.version ≠ currentVersion →
        (WhitelistStore.load (m := StateM FileTree) ⟨location, .json⟩).run t' =
          (.error (.unsupportedVersion d.version currentVersion), t')) := by
  have hparse := d.parseJson_renderJson_eq hclock
  refine ⟨fun hversion => ?_, fun hversion => ?_, fun location t t' hrooted hsave =>
    ⟨WhitelistStore.run_save hsave, fun hversion => ?_, fun hversion => ?_⟩⟩
  · rw [hparse, if_pos hversion]
  · rw [hparse, if_neg hversion]
  · have hread := FileTree.read_save hrooted hsave
    rw [if_pos hversion] at hparse
    refine ⟨?_, d.whitelist, ?_, fun key => SortedSet.mem_ofList⟩
    · rw [WhitelistStore.run_loadDocument hread, hparse]
    · rw [WhitelistStore.run_load_json hread, hparse]
      rfl
  · have hread := FileTree.read_save hrooted hsave
    rw [if_neg hversion] at hparse
    rw [WhitelistStore.run_load_json hread, hparse]
    rfl

/-- Keys may be empty, be repeated and hold any character, and the moment may be a leap second. -/
theorem unusual_keys_are_kept :
    let d : WhitelistDocument := ⟨1, "say \"hi\"\\", ⟨⟨2016, 12, 31⟩, 23, 59, 60, 1⟩,
      [⟨"b\u0000\n\t\u001f"⟩, ⟨""⟩, ⟨"\"\\/"⟩, ⟨"é𝄞"⟩, ⟨""⟩]⟩
    Timestamp.parse d.generatedAt.render = .ok d.generatedAt ∧
    parseJson d.renderJson = .ok d ∧
    ∃ t', (WhitelistStore.save (m := StateM FileTree) ⟨⟨"allowed.json"⟩, .json⟩ d).run .empty =
        (.ok (), t') ∧
      (WhitelistStore.loadDocument (m := StateM FileTree) ⟨"allowed.json"⟩).run t' =
        (.ok d, t') := by
  intro d
  have hclock : Timestamp.parse d.generatedAt.render = .ok d.generatedAt := by
    apply Timestamp.parse_render_of_isValid
    constructor <;> decide
  obtain ⟨t', hsave⟩ : ∃ t', FileTree.empty.save ⟨"allowed.json"⟩ d.renderJson = .ok t' := by
    have hpath : FileTree.pathError? ⟨"allowed.json"⟩ = none := by decide
    have hparts : FilePath.parts ⟨"allowed.json"⟩ = ["allowed.json"] := by decide
    have hnames : FilePath.names ⟨"allowed.json"⟩ = ["allowed.json"] := by decide
    simp [FileTree.save, FileTree.saveBytes, FileTree.writeBytes, FileTree.makeDirectories,
      FileTree.parent, FileTree.withoutSlashes, FileTree.locate, FileTree.empty, FileNode.get?,
      hpath, hparts, hnames, bind, Except.bind, pure, Except.pure]
  obtain ⟨hkept, -, hstore⟩ := json_form_keeps_document d hclock
  obtain ⟨hsaved, hloaded, -⟩ := hstore ⟨"allowed.json"⟩ .empty t' ⟨[], rfl⟩ hsave
  exact ⟨hclock, hkept rfl, t', hsaved, (hloaded rfl).1⟩

end WhitelistDocument

end SafeCalls
