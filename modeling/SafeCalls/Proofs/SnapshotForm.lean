import SafeCalls.Proofs.SourceForm
import SafeCalls.Proofs.SymbolForm
import SafeCalls.Symbol.Table
import SafeCalls.Snapshot.Basic

namespace SafeCalls

/-!
# Reading back snapshots

A snapshot that is written is read back, whatever it holds, unless its text nests too deep. A map of
symbols is written with its entries in any order, and the order in which they are read does not
matter either, since no id occurs twice.
-/

open Json (Manner Name Numeral Token Reading nestingMembers nestingMembers_le_iff nesting_object
  exists_room_of_object string_reading word_reading escaped)

/-! ### Sorted maps -/

section

variable {κ α : Type} [KeyOrder κ]

theorem insertEntry_perm {key : κ} {value : α} {entries : List (κ × α)}
    (hnew : ∀ e ∈ entries, e.1 ≠ key) :
    (insertEntry key value entries).Perm ((key, value) :: entries) := by
  induction entries with
  | nil => exact .refl _
  | cons head rest ih =>
      obtain ⟨k, v⟩ := head
      obtain ⟨hhead, hrest⟩ := List.forall_mem_cons.1 hnew
      rw [insertEntry]
      split
      · exact .refl _
      · next h =>
          split
          · exact ((ih hrest).cons _).trans (.swap _ _ _)
          · next h' => exact absurd (KeyOrder.connex h' h) hhead

theorem SortedMap.foldl_insert_perm (entries : List (κ × α)) (m : SortedMap κ α)
    (hnodup : (entries.map Prod.fst).Nodup) (hnew : ∀ e ∈ entries, ∀ e' ∈ m.entries, e'.1 ≠ e.1) :
    (entries.foldl (fun m e => m.insert e.1 e.2) m).entries.Perm (entries ++ m.entries) := by
  induction entries generalizing m with
  | nil => exact .refl _
  | cons e more ih =>
      obtain ⟨he, hmore⟩ := List.forall_mem_cons.1 hnew
      obtain ⟨hother, hnodup⟩ := List.nodup_cons.1 hnodup
      have hinsert : (m.insert e.1 e.2).entries.Perm (e :: m.entries) := insertEntry_perm he
      have hdisjoint : ∀ e' ∈ more, ∀ e'' ∈ (m.insert e.1 e.2).entries, e''.1 ≠ e'.1 := by
        intro e' he' e'' he''
        rcases List.mem_cons.1 (hinsert.mem_iff.1 he'') with rfl | hold
        · intro h
          exact hother (h ▸ List.mem_map_of_mem he')
        · exact hmore e' he' e'' hold
      have hrest := ih (m.insert e.1 e.2) hnodup hdisjoint
      exact hrest.trans ((hinsert.append_left more).trans List.perm_middle)

theorem SortedMap.ofList_eq_of_perm {m : SortedMap κ α} {entries : List (κ × α)}
    (h : entries.Perm m.entries) : SortedMap.ofList entries = m := by
  have hnodup : (entries.map Prod.fst).Nodup := by
    refine (h.map Prod.fst).nodup_iff.2 ?_
    rw [List.Nodup, List.pairwise_map]
    exact m.sorted.imp fun hlt => KeyOrder.ne_of_lt hlt
  have hperm : (SortedMap.ofList entries).entries.Perm m.entries := by
    have := SortedMap.foldl_insert_perm entries SortedMap.empty hnodup (by simp [SortedMap.empty])
    rw [SortedMap.empty, List.append_nil] at this
    exact this.trans h
  have hentries := hperm.eq_of_pairwise
    (fun e e' _ _ hlt hgt => absurd hgt (KeyOrder.asymm hlt)) (SortedMap.ofList entries).sorted
    m.sorted
  cases m
  cases hlist : SortedMap.ofList entries
  simp_all

end

/-! ### Ids as names -/

theorem escaped_of_isDigit {c : Char} (h : c.isDigit) : escaped c = [c] := by
  have hne : ∀ d : Char, d.isDigit = false → c ≠ d := by
    rintro d hd rfl
    simp [h] at hd
  have hlow : ¬ c.toNat < 0x20 := by
    simp only [Char.isDigit, Bool.and_eq_true, decide_eq_true_eq] at h
    have hzero : ('0' : Char).val.toNat ≤ c.val.toNat := UInt32.le_iff_toNat_le.1 h.1
    change ¬ c.val.toNat < 0x20
    change 48 ≤ c.val.toNat at hzero
    omega
  simp [escaped, hne, hlow]

theorem spelling_toString (n : Nat) :
    (Name.ofString (toString n)).spelling = Nat.toDigits 10 n := by
  have hdigits : ∀ cs : List Char, (∀ c ∈ cs, c.isDigit) → cs.flatMap escaped = cs := by
    intro cs hcs
    induction cs with
    | nil => rfl
    | cons c cs ih =>
        obtain ⟨hc, hcs⟩ := List.forall_mem_cons.1 hcs
        rw [List.flatMap_cons, escaped_of_isDigit hc, ih hcs]
        rfl
  rw [Name.ofString, Nat.toString_eq_ofList_toDigits, String.toList_ofList]
  exact hdigits _ fun c hc => Json.isDigit_of_mem_toDigits hc

theorem nodeId_toString (id : NodeId) : (Name.ofString (toString id.toNat)).nodeId = .ok id := by
  have hremainder : (Name.ofString (toString id.toNat)).remainder =
      Nat.toDigits 10 id.toNat ++ ['"'] := by
    rw [Name.remainder, spelling_toString]
    rfl
  have hquote : Json.EndsNumber ['"'] := by simp
  have hread := Numeral.read_digits (Json.toNat_le_maxNatural id) hquote
  obtain ⟨d, ds, heq, hd, -⟩ := Json.exists_toDigits_eq_cons id.toNat
  have hword := word_reading id
  rw [Json.reading] at hword
  rw [heq, List.cons_append] at hremainder hread
  rw [Name.nodeId, hremainder]
  simp [hd, hread, hword, bind, Except.bind]

/-! ### Symbol tables -/

/-- What is written of the entries of a map, in the given order. -/
def SymbolTable.entriesToJson (entries : List (NodeId × Symbol)) : Json :=
  .object (entries.map fun (id, symbol) => (toString id.toNat, symbol.toJson))

namespace SymbolTable

/-- What may be written of a table: the maps with their entries in any order. -/
def Writes (t : SymbolTable) (json : Json) : Prop :=
  ∃ bindings declarations, bindings.Perm t.bindings.entries ∧
    declarations.Perm t.declarations.entries ∧
    json = .object
      [("bindings", entriesToJson bindings), ("declarations", entriesToJson declarations)]

theorem writes_toJson (t : SymbolTable) : t.Writes t.toJson :=
  ⟨_, _, .refl _, .refl _, rfl⟩

theorem nesting_entriesToJson_le {entries entries' : List (NodeId × Symbol)}
    (h : ∀ e ∈ entries, e ∈ entries') :
    (entriesToJson entries).nesting ≤ (entriesToJson entries').nesting := by
  rw [entriesToJson, entriesToJson, nesting_object, nesting_object]
  refine Nat.succ_le_succ (nestingMembers_le_iff.2 fun m hm => ?_)
  obtain ⟨e, he, rfl⟩ := List.mem_map.1 hm
  exact nestingMembers_le_iff.1 (Nat.le_refl _) _ (List.mem_map_of_mem (h e he))

theorem nesting_of_writes {t : SymbolTable} {json : Json} (h : t.Writes json) :
    json.nesting ≤ t.toJson.nesting := by
  obtain ⟨bindings, declarations, hbindings, hdeclarations, rfl⟩ := h
  have hbound := nesting_entriesToJson_le fun e => (hbindings.mem_iff (a := e)).1
  have hdeclared := nesting_entriesToJson_le fun e => (hdeclarations.mem_iff (a := e)).1
  have hmaps : t.toJson = .object [("bindings", entriesToJson t.bindings.entries),
      ("declarations", entriesToJson t.declarations.entries)] := rfl
  simp only [hmaps, nesting_object, nestingMembers]
  omega

theorem inRange_of_writes {t : SymbolTable} {json : Json} (h : t.Writes json) : json.InRange := by
  have hentries : ∀ entries : List (NodeId × Symbol), (entriesToJson entries).InRange := by
    intro entries
    refine Json.inRange_object.2 fun m hm => ?_
    obtain ⟨e, -, rfl⟩ := List.mem_map.1 hm
    exact e.2.inRange_toJson
  obtain ⟨bindings, declarations, -, -, rfl⟩ := h
  exact ⟨hentries bindings, hentries declarations, trivial⟩

theorem entries_reading (entries : List (NodeId × Symbol)) {room : Nat} (manner : Manner)
    (hroom : ∀ e ∈ entries, e.2.toJson.nesting ≤ room) :
    Reading.entries Name.nodeId (Symbol.read room manner)
      (Json.readingMembers (entries.map fun (id, symbol) => (toString id.toNat, symbol.toJson))) =
      .ok entries := by
  induction entries with
  | nil => rfl
  | cons e more ih =>
      obtain ⟨id, symbol⟩ := e
      obtain ⟨hsymbol, hmore⟩ := List.forall_mem_cons.1 hroom
      rw [List.map_cons, Json.readingMembers, Reading.entries]
      simp only [nodeId_toString, symbol.read_toJson manner hsymbol, ih hmore]
      rfl

theorem readMap_entries {m : SortedMap NodeId Symbol} {entries : List (NodeId × Symbol)}
    (hperm : entries.Perm m.entries) (manner : Manner) {room : Nat}
    (hroom : (entriesToJson entries).nesting ≤ room) :
    readMap manner room (entriesToJson entries).reading = .ok m := by
  rw [entriesToJson] at hroom ⊢
  obtain ⟨room, rfl, hmembers⟩ := exists_room_of_object hroom
  have hsymbols : ∀ e ∈ entries, e.2.toJson.nesting ≤ room := fun e he =>
    nestingMembers_le_iff.1 hmembers _ (List.mem_map_of_mem he)
  rw [readMap, Json.reading, Reading.map, entries_reading entries manner hsymbols]
  exact congrArg Except.ok (SortedMap.ofList_eq_of_perm hperm)

theorem read_of_writes {t : SymbolTable} {json : Json} (hwrites : t.Writes json) {room : Nat}
    (manner : Manner) (hroom : json.nesting ≤ room) : read room manner json.reading = .ok t := by
  obtain ⟨bindings, declarations, hbindings, hdeclarations, rfl⟩ := hwrites
  obtain ⟨room, rfl, hmembers⟩ := exists_room_of_object hroom
  rw [SymbolTable.read]
  refine Layout.slots_bind _ manner rfl (by decide) hmembers fun slots h => ?_
  have hbound := h.defaulted "bindings" rfl SortedMap.empty (readMap_entries hbindings manner)
  have hdeclared := h.defaulted "declarations" rfl SortedMap.empty
    (readMap_entries hdeclarations manner)
  rw [h.fill, hbound, hdeclared]
  rfl

end SymbolTable

namespace UnitSnapshot

/-- What may be written of a snapshot: every field, and the maps of the symbol table with their
entries in any order. -/
def Writes (s : UnitSnapshot) (json : Json) : Prop :=
  ∃ model, (s.model = none → model = .null) ∧ (∀ t, s.model = some t → t.Writes model) ∧
    json = .object [("path", .text s.path), ("tree", Json.optional SyntaxTree.toJson s.tree),
      ("model", model)]

theorem writes_toJson (s : UnitSnapshot) : s.Writes s.toJson := by
  refine ⟨Json.optional SymbolTable.toJson s.model, fun h => ?_, fun t h => ?_, rfl⟩
  · rw [h, Json.optional]
  · rw [h]
    exact t.writes_toJson

theorem nesting_of_writes {s : UnitSnapshot} {json : Json} (h : s.Writes json) :
    json.nesting ≤ s.toJson.nesting := by
  obtain ⟨model, hnone, hsome, rfl⟩ := h
  have hmodel : model.nesting ≤ (Json.optional SymbolTable.toJson s.model).nesting := by
    cases hs : s.model with
    | none => simp [hnone hs, Json.optional]
    | some t => exact SymbolTable.nesting_of_writes (hsome t hs)
  simp only [toJson, nesting_object, nestingMembers]
  omega

theorem inRange_of_writes {s : UnitSnapshot} {json : Json} (h : s.Writes json) : json.InRange := by
  obtain ⟨model, hnone, hsome, rfl⟩ := h
  have hmodel : model.InRange := by
    cases hs : s.model with
    | none => simp [hnone hs]
    | some t => exact SymbolTable.inRange_of_writes (hsome t hs)
  exact ⟨trivial, Json.inRange_optional s.tree SyntaxTree.inRange_toJson, hmodel, trivial⟩

theorem read_of_writes {s : UnitSnapshot} {json : Json} (h : s.Writes json) {room : Nat}
    (manner : Manner) (hroom : json.nesting ≤ room) : read room manner json.reading = .ok s := by
  obtain ⟨model, hnone, hsome, rfl⟩ := h
  obtain ⟨room, rfl, hmembers⟩ := exists_room_of_object hroom
  rw [UnitSnapshot.read]
  refine Layout.slots_bind _ manner rfl (by decide) hmembers fun slots h => ?_
  have hpath := h.required "path" rfl fun _ => string_reading s.path
  have htree := h.optional "tree" rfl SyntaxTree.toJson_ne_null fun t => t.read_toJson manner
  have hmodel : slots.optional "model" (SymbolTable.read room manner) = .ok s.model := by
    refine h.defaulted "model" rfl none fun hroom => ?_
    cases hs : s.model with
    | none =>
        rw [hnone hs]
        rfl
    | some t =>
        have hread := SymbolTable.read_of_writes (hsome t hs) manner hroom
        obtain ⟨_, _, _, _, rfl⟩ := hsome t hs
        exact congrArg (Except.map some) hread
  rw [h.fill, hpath, htree, hmodel]
  rfl

theorem parse_of_writes {s : UnitSnapshot} {json : Json} (h : s.Writes json)
    (hnesting : s.toJson.nesting ≤ Json.nestingLimit) : parse json.pretty = .ok s := by
  rw [parse, Json.decode_pretty read (inRange_of_writes h)]
  exact read_of_writes h .direct (Nat.le_trans (nesting_of_writes h) hnesting)

/-- A snapshot whose text nests no deeper than texts may is read back as it is, in whichever order
its maps were written. -/
theorem parse_render (s : UnitSnapshot) (hnesting : s.toJson.nesting ≤ Json.nestingLimit) :
    parse s.render = .ok s ∧ ∀ json, s.Writes json → parse json.pretty = .ok s := by
  refine ⟨parse_of_writes s.writes_toJson hnesting, fun json h => ?_⟩
  exact parse_of_writes h hnesting

/-- A call with a lambda as its argument, and what its two names are bound to. -/
def singleCall : UnitSnapshot where
  path := "src/\"Startup\".cs"
  tree := some ⟨"Startup.cs", ⟨0, [.method ⟨1, "Run", [], some ⟨2, [.expression 3 (.invocation
    ⟨4, .identifier 5 "Register", [⟨6, none, .lambda ⟨7, .simple, ["x"],
      .expression (.identifier 8 "x")⟩⟩]⟩)]⟩, none, ⟨1, 0, 3, 1⟩⟩]⟩⟩
  model := some ⟨.ofList [(5, .parameter ⟨"Register", none⟩), (8, .localVariable ⟨"x", some "T"⟩)],
    .empty⟩

/-- The single call with the two bindings the other way round. -/
def singleCallReordered : Json :=
  .object [("path", .text singleCall.path),
    ("tree", Json.optional SyntaxTree.toJson singleCall.tree),
    ("model", .object [
      ("bindings", SymbolTable.entriesToJson
        [(8, .localVariable ⟨"x", some "T"⟩), (5, .parameter ⟨"Register", none⟩)]),
      ("declarations", SymbolTable.entriesToJson [])])]

theorem parse_singleCall :
    singleCall.toJson.nesting ≤ Json.nestingLimit ∧ parse singleCall.render = .ok singleCall ∧
      parse singleCallReordered.pretty = .ok singleCall := by
  have hnesting : singleCall.toJson.nesting ≤ Json.nestingLimit := by decide
  have hwrites : singleCall.Writes singleCallReordered := by
    refine ⟨_, by simp [singleCall], fun t ht => ?_, rfl⟩
    obtain rfl := Option.some.inj ht
    exact ⟨_, _, .swap _ _ _, .refl _, rfl⟩
  obtain ⟨hrender, hreordered⟩ := parse_render singleCall hnesting
  exact ⟨hnesting, hrender, hreordered _ hwrites⟩

end UnitSnapshot

end SafeCalls
