import SafeCalls.Proofs.YamlValues
import SafeCalls.Yaml.Document

namespace SafeCalls.Yaml

/-!
# The nodes of written values

The tokens of a value are put together to the node of that value: a mapping for a record or a map,
and a scalar for anything else.
-/

namespace Value

def scalarNode (isKey : Bool) (s : String) : Node :=
  .scalar ⟨s, (TextStyle.choose isKey s).scalarStyle, none⟩

def wordNode (s : String) : Node := .scalar ⟨s, .plain, none⟩

def entryNodes (entry : String × String) : Node × Node :=
  (scalarNode (isShortKey entry.1) entry.1, scalarNode false entry.2)

mutual

/-- The node of a value. -/
def node : Value → Node
  | word spelling => wordNode spelling
  | text value => scalarNode false value
  | record fields => .mapping none (fieldNodes fields) false
  | map entries => .mapping none (entries.map entryNodes) false

def fieldNodes : List (String × Value) → List (Node × Node)
  | [] => []
  | (name, value) :: more => (wordNode name, value.node) :: fieldNodes more

end

end Value

namespace Building

variable {fuel : Nat} {position : Building.Position} {t : Token} {ts ts' : List Token}
variable {handles : List (String × Tag)} {anchors : List (String × Nat)}

/-- The first token of a node without an anchor or a tag. -/
def isBare : Token → Bool
  | .alias _ => false
  | .anchor _ => false
  | .tag _ _ => false
  | _ => true

theorem node_succ (h : isBare t) : (node (fuel + 1) position).run ⟨t :: ts, handles, anchors⟩ =
    (content fuel position ⟨none, none⟩).run ⟨t :: ts, handles, anchors⟩ := by
  cases t <;> first | rfl | cases h

theorem content_scalar (text : String) (style : ScalarStyle) :
    (content (fuel + 1) position ⟨none, none⟩).run ⟨.scalar text style :: ts, handles, anchors⟩ =
      (.scalar ⟨text, style, none⟩, ⟨ts, handles, anchors⟩) := rfl

theorem content_block (hblock : position.isBlock) :
    (content (fuel + 1) position ⟨none, none⟩).run ⟨.blockMappingStart :: ts, handles, anchors⟩ =
      let entries := (blockEntries fuel).run ⟨ts, handles, anchors⟩
      (.mapping none entries.1.1 entries.1.2, entries.2) := by
  obtain ⟨isBlock, isItem⟩ := position
  obtain rfl : isBlock = true := hblock
  cases isItem <;> rfl

theorem blockEntries_key (ht : isLeftOut false t = false) :
    (blockEntries (fuel + 1)).run ⟨.key :: t :: ts, handles, anchors⟩ =
      let key := (node fuel ⟨true, true⟩).run ⟨t :: ts, handles, anchors⟩
      let value := (blockValue fuel).run key.2
      let entries := (blockEntries fuel).run value.2
      (((key.1, value.1) :: entries.1.1, entries.1.2), entries.2) := by
  have hrun : (blockEntries (fuel + 1)).run ⟨.key :: t :: ts, handles, anchors⟩ =
      (do
        let key ← if isLeftOut false t then pure Node.empty else node fuel ⟨true, true⟩
        let value ← blockValue fuel
        let entries ← blockEntries fuel
        pure ((key, value) :: entries.1, entries.2) : Building _).run ⟨t :: ts, handles, anchors⟩ :=
    rfl
  rw [hrun, ht]
  rfl

theorem blockValue_value (ht : isLeftOut false t = false) :
    (blockValue (fuel + 1)).run ⟨.value :: t :: ts, handles, anchors⟩ =
      (node fuel ⟨true, true⟩).run ⟨t :: ts, handles, anchors⟩ := by
  have hrun : (blockValue (fuel + 1)).run ⟨.value :: t :: ts, handles, anchors⟩ =
      (if isLeftOut false t then pure Node.empty else node fuel ⟨true, true⟩ : Building Node).run
        ⟨t :: ts, handles, anchors⟩ := rfl
  rw [hrun, ht]
  rfl

theorem node_scalar (text : String) (style : ScalarStyle) :
    (node (fuel + 2) position).run ⟨.scalar text style :: ts, handles, anchors⟩ =
      (.scalar ⟨text, style, none⟩, ⟨ts, handles, anchors⟩) := by
  rw [node_succ rfl, content_scalar]

theorem node_block (hblock : position.isBlock) {entries : List (Node × Node)} {isCut : Bool}
    {after : Pending}
    (hentries : (blockEntries fuel).run ⟨ts, handles, anchors⟩ = ((entries, isCut), after)) :
    (node (fuel + 2) position).run ⟨.blockMappingStart :: ts, handles, anchors⟩ =
      (.mapping none entries isCut, after) := by
  rw [node_succ rfl, content_block hblock, hentries]

theorem blockEntries_entry {key : String} {style : ScalarStyle} {v : Node}
    {entries : List (Node × Node)} {isCut : Bool} {after : Pending} (ht : isLeftOut false t = false)
    (hvalue : (node (fuel + 1) ⟨true, true⟩).run ⟨t :: ts, handles, anchors⟩ =
      (v, ⟨ts', handles, anchors⟩))
    (hmore : (blockEntries (fuel + 2)).run ⟨ts', handles, anchors⟩ = ((entries, isCut), after)) :
    (blockEntries (fuel + 3)).run ⟨.key :: .scalar key style :: .value :: t :: ts, handles, anchors⟩ =
      (((.scalar ⟨key, style, none⟩, v) :: entries, isCut), after) := by
  rw [blockEntries_key rfl, node_scalar]
  dsimp only
  rw [blockValue_value ht, hvalue]
  dsimp only
  rw [hmore]

end Building

namespace Value

open Building (isBare isLeftOut)

variable {ts : List Token} {handles : List (String × Tag)} {anchors : List (String × Nat)}

theorem exists_tokens_eq_cons (v : Value) :
    ∃ t ts, v.tokens = t :: ts ∧ isBare t ∧ isLeftOut false t = false := by
  cases v with
  | word spelling => rw [tokens]; exact ⟨_, _, rfl, rfl, rfl⟩
  | text value => rw [tokens]; exact ⟨_, _, rfl, rfl, rfl⟩
  | record fields => cases fields <;> rw [tokens] <;> exact ⟨_, _, rfl, rfl, rfl⟩
  | map entries => cases entries <;> rw [tokens] <;> exact ⟨_, _, rfl, rfl, rfl⟩

theorem blockEntries_entries (entries : List (String × String)) {fuel : Nat}
    (hfuel : 2 * (entries.flatMap entryTokens).length < fuel) :
    (Building.blockEntries fuel).run
        ⟨entries.flatMap entryTokens ++ .blockEnd :: ts, handles, anchors⟩ =
      ((entries.map entryNodes, false), ⟨ts, handles, anchors⟩) := by
  induction entries generalizing fuel with
  | nil =>
      obtain ⟨fuel, rfl⟩ := Nat.exists_eq_succ_of_ne_zero (Nat.ne_of_gt hfuel)
      rfl
  | cons entry entries ih =>
      obtain ⟨key, value⟩ := entry
      have hlength : (((key, value) :: entries).flatMap entryTokens).length =
          (entries.flatMap entryTokens).length + 4 := by
        rw [List.flatMap_cons, List.length_append, Nat.add_comm]
        rfl
      rw [hlength] at hfuel
      obtain ⟨fuel, rfl⟩ : ∃ n, fuel = n + 4 := ⟨fuel - 4, by omega⟩
      rw [List.flatMap_cons, List.append_assoc]
      exact Building.blockEntries_entry rfl (Building.node_scalar _ _) (ih (by omega))

mutual

/-- The tokens of a value are put together to its node. -/
theorem node_tokens : ∀ (v : Value) {fuel : Nat} {position : Building.Position} {ts : List Token}
    {handles : List (String × Tag)} {anchors : List (String × Nat)},
    2 * v.tokens.length ≤ fuel → position.isBlock →
    (Building.node fuel position).run ⟨v.tokens ++ ts, handles, anchors⟩ =
      (v.node, ⟨ts, handles, anchors⟩)
  | word spelling, fuel, position, ts, handles, anchors, hfuel, hblock => by
      rw [tokens] at hfuel ⊢
      -- A node takes a step to its content, and the content takes another.
      obtain ⟨fuel, rfl⟩ : ∃ n, fuel = n + 2 := ⟨fuel - 2, by simp at hfuel; omega⟩
      rw [node]
      exact Building.node_scalar spelling .plain
  | text value, fuel, position, ts, handles, anchors, hfuel, hblock => by
      rw [tokens] at hfuel ⊢
      obtain ⟨fuel, rfl⟩ : ∃ n, fuel = n + 2 := ⟨fuel - 2, by simp at hfuel; omega⟩
      rw [node]
      exact Building.node_scalar value (TextStyle.choose false value).scalarStyle
  | record [], fuel, position, ts, handles, anchors, hfuel, hblock => by
      rw [tokens] at hfuel ⊢
      obtain ⟨fuel, rfl⟩ : ∃ n, fuel = n + 3 := ⟨fuel - 3, by simp at hfuel; omega⟩
      rw [node]
      rfl
  | record (field :: more), fuel, position, ts, handles, anchors, hfuel, hblock => by
      rw [tokens] at hfuel ⊢
      simp only [List.length_cons, List.length_append, List.length_nil] at hfuel
      obtain ⟨fuel, rfl⟩ : ∃ n, fuel = n + 2 := ⟨fuel - 2, by omega⟩
      rw [node, List.cons_append, List.cons_append, List.append_assoc]
      exact Building.node_block hblock (blockEntries_fields (field :: more) (by omega))
  | map [], fuel, position, ts, handles, anchors, hfuel, hblock => by
      rw [tokens] at hfuel ⊢
      obtain ⟨fuel, rfl⟩ : ∃ n, fuel = n + 3 := ⟨fuel - 3, by simp at hfuel; omega⟩
      rw [node]
      rfl
  | map (first :: more), fuel, position, ts, handles, anchors, hfuel, hblock => by
      rw [tokens] at hfuel ⊢
      simp only [List.length_cons, List.length_append, List.length_nil] at hfuel
      obtain ⟨fuel, rfl⟩ : ∃ n, fuel = n + 2 := ⟨fuel - 2, by omega⟩
      rw [node, List.cons_append, List.cons_append, List.append_assoc]
      exact Building.node_block hblock (blockEntries_entries (first :: more) (by omega))

theorem blockEntries_fields : ∀ (fields : List (String × Value)) {fuel : Nat} {ts : List Token}
    {handles : List (String × Tag)} {anchors : List (String × Nat)},
    2 * (fieldTokens fields).length < fuel →
    (Building.blockEntries fuel).run ⟨fieldTokens fields ++ .blockEnd :: ts, handles, anchors⟩ =
      ((fieldNodes fields, false), ⟨ts, handles, anchors⟩)
  | [], fuel, ts, handles, anchors, hfuel => by
      obtain ⟨fuel, rfl⟩ := Nat.exists_eq_succ_of_ne_zero (Nat.ne_of_gt (Nat.zero_lt_of_lt hfuel))
      rfl
  | (name, value) :: more, fuel, ts, handles, anchors, hfuel => by
      rw [fieldTokens] at hfuel ⊢
      simp only [List.length_cons, List.length_append] at hfuel
      obtain ⟨fuel, rfl⟩ : ∃ n, fuel = n + 3 := ⟨fuel - 3, by omega⟩
      obtain ⟨t, rest, htokens, -, hleft⟩ := exists_tokens_eq_cons value
      have hvalue : (Building.node (fuel + 1) ⟨true, true⟩).run
          ⟨value.tokens ++ (fieldTokens more ++ .blockEnd :: ts), handles, anchors⟩ =
            (value.node, ⟨fieldTokens more ++ .blockEnd :: ts, handles, anchors⟩) :=
        node_tokens value (by omega) rfl
      have hmore : (Building.blockEntries (fuel + 2)).run
          ⟨fieldTokens more ++ .blockEnd :: ts, handles, anchors⟩ =
            ((fieldNodes more, false), ⟨ts, handles, anchors⟩) :=
        blockEntries_fields more (by omega)
      rw [htokens] at hvalue
      rw [htokens, fieldNodes]
      simpa [wordNode] using Building.blockEntries_entry hleft hvalue hmore

end

/-- The document that is read from what is written. -/
theorem ofText_document {fields : List (String × Value)} (h : AreWritable fields)
    (hne : fields ≠ []) :
    Document.ofText (document fields) = ⟨(record fields).node, true⟩ := by
  have hread : (Stream.ofText (document fields).toList).1.tokens
      (Stream.ofText (document fields).toList).2 = (record fields).tokens ++ [Token.streamEnd] := by
    obtain ⟨field, more, rfl⟩ := List.exists_cons_of_ne_nil hne
    rw [tokens_document h hne, tokens]
    simp
  have hstart : Document.ofTokens ((record fields).tokens ++ [Token.streamEnd]) =
      Document.ofRoot [] ((record fields).tokens ++ [Token.streamEnd]) := by
    obtain ⟨field, more, rfl⟩ := List.exists_cons_of_ne_nil hne
    rw [tokens]
    rfl
  have hroot : (Building.node (4 * ((record fields).tokens ++ [Token.streamEnd]).length + 4)
      ⟨true, false⟩).run ⟨(record fields).tokens ++ [.streamEnd], [] ++ knownHandles, []⟩ =
        ((record fields).node, ⟨[.streamEnd], [] ++ knownHandles, []⟩) := by
    apply node_tokens
    · rw [List.length_append]
      omega
    · rfl
  have hofText : Document.ofText (document fields) =
      Document.ofTokens ((Stream.ofText (document fields).toList).1.tokens
        (Stream.ofText (document fields).toList).2) := rfl
  rw [hofText, hread, hstart, Document.ofRoot, hroot]
  rfl

end Value

end SafeCalls.Yaml
