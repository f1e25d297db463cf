import SafeCalls.Proofs.Agreement
import SafeCalls.Proofs.Information
import SafeCalls.Proofs.JsonRecord
import SafeCalls.Proofs.JsonText
import SafeCalls.Whitelist.Document

namespace SafeCalls

/-!
# Regenerating a whitelist

Two runs over the same units end in the same bytes, in whatever order, how often and in which way
the units are gone through. A set of keys has only one ascending list without repeats, and this list
is all that a text of the whitelist depends on.
-/

open Json (Error Manner Reading)
open Time (Timestamp)

/-! ### The texts of a list of strings -/

namespace Json

theorem startsItem_quote (s : String) : StartsItem (quote s) := ⟨_, _, rfl, by decide, by decide⟩

theorem compactItems_texts (l : List String) : compactItems (l.map .text) = l.map quote := by
  induction l with
  | nil => rfl
  | cons s more ih => rw [List.map_cons, List.map_cons, compactItems, compactChars, ih]

theorem readItems_quotes : ∀ (l : List String) (fuel : Nat) (rest : List Char), l ≠ [] →
    (separated [','] (l.map quote)).length < fuel →
    readItems fuel (separated [','] (l.map quote) ++ ']' :: rest) =
      ⟨(readingItems (l.map .text), .closed), some rest⟩
  | [s], fuel + 1, rest, _, hfuel => by
      have hitem := readValue_prettyChars (.text s) 0 fuel (']' :: rest) trivial (by simp)
        (Nat.le_of_lt_succ hfuel)
      exact readItems_bracket hitem (skipSpace_cons rfl rest)
  | s :: next :: more, fuel + 1, rest, _, hfuel => by
      have hlength : (separated [','] ((s :: next :: more).map quote)).length =
          (quote s).length + 1 + (separated [','] ((next :: more).map quote)).length := by
        simp [separated]
        omega
      have hquote : (prettyChars 0 (.text s)).length = (quote s).length := rfl
      have hmore := readItems_quotes (next :: more) fuel rest (List.cons_ne_nil _ _) (by omega)
      have hitem := readValue_prettyChars (.text s) 0 fuel
        (',' :: (separated [','] ((next :: more).map quote) ++ ']' :: rest)) trivial (by simp)
        (by omega)
      have hread := readItems_comma hitem (skipSpace_cons rfl _)
      rw [hmore] at hread
      simpa [separated, prettyChars, readingItems] using hread

theorem readText_compact_texts (l : List String) :
    readText (texts l).compact = ⟨(texts l).reading, none⟩ := by
  have htext : (texts l).compactChars = '[' :: (separated [','] (l.map quote) ++ [']']) := by
    rw [texts, compactChars, compactItems_texts]
  cases l with
  | nil => rfl
  | cons s more =>
      have hstart : StartsItem (separated [','] ((s :: more).map quote) ++ [']']) := by
        obtain ⟨cs, heq⟩ := exists_separated_eq_append [','] (quote s) (more.map quote)
        rw [List.map_cons, heq]
        exact ((startsItem_quote s).append cs).append [']']
      have hread := readValue_list (List.forall_mem_nil _) hstart
        (2 * (texts (s :: more)).compactChars.length + 1)
      have hlength : (separated [','] ((s :: more).map quote)).length <
          2 * (texts (s :: more)).compactChars.length + 1 := by
        rw [htext, List.length_cons, List.length_append]
        omega
      rw [readItems_quotes (s :: more) _ [] (List.cons_ne_nil _ _) hlength, List.nil_append,
        ← htext] at hread
      rw [readText, compact]
      simp only [String.toList_ofList, hread]
      rfl

theorem decode_map {α β : Type} (f : α → β) (read : Nat → Manner → Reading → Except Error α)
    {text : String} {a : α} (h : decode read text = .ok a) :
    decode (fun room manner reading => (read room manner reading).map f) text = .ok (f a) := by
  unfold decode at h ⊢
  cases hread : read nestingLimit .direct (readText text).content with
  | error e => simp [hread, bind, Except.bind] at h
  | ok value =>
      simp only [hread, bind, Except.bind, Except.map] at h ⊢
      split at h
      · cases h
      · obtain rfl := Except.ok.inj h
        rfl

/-- A text that spells a list of strings and nothing else. -/
def decodeStrings : String → Except Error (List String) :=
  decode fun room _ reading => reading.strings room

theorem decodeStrings_texts (l : List String) :
    decodeStrings (texts l).compact = .ok l ∧ decodeStrings (texts l).pretty = .ok l := by
  have hroom : (texts l).nesting ≤ nestingLimit := Nat.le_trans (nesting_texts_le l) (by decide)
  have hreading := strings_reading l hroom
  rw [decodeStrings, decode_of_readText _ (readText_compact_texts l), decode_pretty _ (inRange_texts l)]
  exact ⟨hreading, hreading⟩

end Json

/-! ### The ascending list of a set -/

namespace Whitelist

theorem ascending_texts (w : Whitelist) : w.texts.Pairwise (· < ·) :=
  List.pairwise_map.2 w.ascending

theorem mem_texts {w : Whitelist} {s : String} : s ∈ w.texts ↔ ⟨s⟩ ∈ w := by
  rw [texts, List.mem_map]
  constructor
  · rintro ⟨k, hk, rfl⟩
    exact hk
  · intro h
    exact ⟨_, h, rfl⟩

theorem mem_texts_ofTexts {l : List String} {s : String} : s ∈ (ofTexts l).texts ↔ s ∈ l := by
  rw [mem_texts, ofTexts, SortedSet.mem_ofList, List.mem_map]
  constructor
  · rintro ⟨s', hs', heq⟩
    obtain rfl := CanonicalKey.mk.inj heq
    exact hs'
  · intro h
    exact ⟨s, h, rfl⟩

theorem texts_inj {w v : Whitelist} : w.texts = v.texts ↔ w = v := by
  constructor
  · intro h
    apply SortedSet.eq_of_mem_iff
    rintro ⟨s⟩
    rw [← mem_texts, ← mem_texts, h]
  · rintro rfl
    rfl

/-- However the members of a set happen to be listed, sorting the list in whatever way gives the
same. -/
theorem eq_texts_of_sorted {w : Whitelist} {listed sorted : List String} (hnodup : listed.Nodup)
    (hmem : ∀ s, s ∈ listed ↔ ⟨s⟩ ∈ w) (hperm : sorted.Perm listed)
    (hsorted : sorted.Pairwise (· ≤ ·)) : sorted = w.texts := by
  have hstrict : sorted.Pairwise (· < ·) := by
    refine (hsorted.and (hperm.nodup_iff.2 hnodup)).imp ?_
    rintro s t ⟨hle, hne⟩
    exact String.not_le.1 fun hge => hne (String.le_antisymm hle hge)
  apply eq_of_pairwise_of_mem_iff hstrict (ascending_texts w)
  intro s
  rw [hperm.mem_iff, hmem, mem_texts]

/-- A text of the ascending list is all that there is to know about a set. -/
theorem json_eq_iff {w v : Whitelist} {render : Json → String}
    (hdecode : ∀ l, Json.decodeStrings (render (Json.texts l)) = .ok l) :
    render w.toJson = render v.toJson ↔ w.texts = v.texts := by
  constructor
  · intro h
    apply Except.ok.inj (ε := Error)
    rw [← hdecode w.texts, ← hdecode v.texts]
    exact congrArg Json.decodeStrings h
  · intro h
    rw [toJson, toJson, h]

end Whitelist

/-! ### Two runs -/

namespace Extractor

/-- The whitelist comes out of a run over the units, in whatever mode, with whatever token, and
with the partial results of the units merged in whatever order. -/
inductive Yields (x : Extractor) (units : List ConfigurationUnit) (w : Whitelist) : Prop
  | extract (isParallel : Bool) (token : Token)
      (h : { x with isParallel }.extract units token = .ok w)
  | merge (plan : Reduction (ConfigurationUnit × Token)) (hplan : plan.leaves.map Prod.fst = units)
      (h : x.parallel plan = .ok w)

variable {x : Extractor} {us vs : List ConfigurationUnit} {w v : Whitelist}

theorem Yields.eq_whitelist (h : x.Yields us w) : w = x.whitelist us := by
  cases h with
  | extract isParallel token h => exact { x with isParallel }.extract_eq_ok h
  | merge plan hplan h => rw [x.parallel_eq_ok h, hplan]

theorem whitelist_congr (h : ∀ u, u ∈ us ↔ u ∈ vs) : x.whitelist us = x.whitelist vs := by
  apply SortedSet.eq_of_mem_iff
  intro k
  simp only [mem_whitelist, h]

end Extractor

namespace WhitelistDocument

/-- Runs over lists of the same units, with the units in any order and repeated at will, write the
same text, and apart from the moment also the same JSON. For a set of keys has one ascending list,
from which the set can be told and which is what a text spells. Reading any list of strings as a set
and writing the set again sorts the list and removes its repeats. -/
theorem regeneration_is_byte_identical :
    (∀ (x : Extractor) (us vs : List ConfigurationUnit), (∀ u, u ∈ us ↔ u ∈ vs) →
      (∃ w, ∀ isParallel, { x with isParallel }.extract us .never = .ok w ∧
        { x with isParallel }.extract vs .never = .ok w) ∧
      ∀ w v, x.Yields us w → x.Yields vs v → ∀ (project : String) (t t' : Timestamp),
        (ofWhitelist project t w).renderText = (ofWhitelist project t' v).renderText ∧
        { ofWhitelist project t w with generatedAt := t' }.renderJson =
          (ofWhitelist project t' v).renderJson) ∧
    (∀ w : Whitelist, w.texts.Pairwise (· < ·) ∧
      ∀ listed sorted : List String, listed.Nodup → (∀ s, s ∈ listed ↔ ⟨s⟩ ∈ w) →
        sorted.Perm listed → sorted.Pairwise (· ≤ ·) → sorted = w.texts) ∧
    (∀ w v : Whitelist, ((∀ k, k ∈ w ↔ k ∈ v) ↔ w.texts = v.texts) ∧
      (w.toJson.compact = v.toJson.compact ↔ w.texts = v.texts) ∧
      (w.toJson.pretty = v.toJson.pretty ↔ w.texts = v.texts)) ∧
    (∀ l : List String, Json.decodeStrings (Json.texts l).compact = .ok l ∧
      Json.decodeStrings (Json.texts l).pretty = .ok l) ∧
    ∀ (text : String) (l : List String), Json.decodeStrings text = .ok l →
      ∃ w, Json.decode Whitelist.read text = .ok w ∧ w.toJson = Json.texts w.texts ∧
        w.texts.Pairwise (· < ·) ∧ ∀ s, s ∈ w.texts ↔ s ∈ l := by
  refine ⟨?_, ?_, ?_, Json.decodeStrings_texts, ?_⟩
  · intro x us vs hmem
    have hsame : x.whitelist us = x.whitelist vs := Extractor.whitelist_congr hmem
    refine ⟨⟨x.whitelist us, fun isParallel => ?_⟩, ?_⟩
    · have hvs := { x with isParallel }.extract_never vs
      exact ⟨{ x with isParallel }.extract_never us, hvs.trans (congrArg Except.ok hsame.symm)⟩
    · intro w v hw hv project t t'
      obtain rfl : w = v := by rw [hw.eq_whitelist, hv.eq_whitelist, hsame]
      exact ⟨rfl, rfl⟩
  · intro w
    refine ⟨w.ascending_texts, ?_⟩
    intro listed sorted hnodup hmem hperm hsorted
    exact Whitelist.eq_texts_of_sorted hnodup hmem hperm hsorted
  · intro w v
    refine ⟨?_, Whitelist.json_eq_iff fun l => (Json.decodeStrings_texts l).1,
      Whitelist.json_eq_iff fun l => (Json.decodeStrings_texts l).2⟩
    rw [Whitelist.texts_inj]
    constructor
    · exact SortedSet.eq_of_mem_iff
    · rintro rfl k
      exact Iff.rfl
  · intro text l h
    refine ⟨Whitelist.ofTexts l, Json.decode_map Whitelist.ofTexts _ h, rfl,
      Whitelist.ascending_texts _, ?_⟩
    intro s
    exact Whitelist.mem_texts_ofTexts

theorem repeated_units_regenerate_same :
    let x := Settings.default.extractor
    let base := "HotPathAllocationAnalyzer.Support.AllocationConfiguration"
    let u : ConfigurationUnit :=
      ⟨"A.cs", some Extractor.halfMarkedTree, some (Extractor.halfMarkedTable [base] []).model⟩
    let v : ConfigurationUnit :=
      ⟨"B.cs", some Extractor.halfMarkedTree,
        some (Extractor.halfMarkedTable [base] [⟨"MakeSafe", []⟩]).model⟩
    (∃ w w', { x with isParallel := true }.extract [u, v] .never = .ok w ∧
      { x with isParallel := false }.extract [v, u, v] .never = .ok w' ∧
      (ofWhitelist "Acme" ⟨⟨2026, 1, 2⟩, 3, 4, 5, 0⟩ w).renderText =
        (ofWhitelist "Acme" ⟨⟨2027, 1, 2⟩, 3, 4, 5, 600⟩ w').renderText) ∧
    ∃ w, Json.decode Whitelist.read (Json.texts ["b", "a", "b"]).compact = .ok w ∧
      w.texts = ["a", "b"] := by
  intro x base u v
  obtain ⟨hruns, hlists, -, -, hread⟩ := regeneration_is_byte_identical
  have hmem : ∀ unit, unit ∈ [u, v] ↔ unit ∈ [v, u, v] := by
    intro unit
    simp only [List.mem_cons, List.not_mem_nil, or_false]
    grind
  obtain ⟨⟨w, hw⟩, hsame⟩ := hruns x [u, v] [v, u, v] hmem
  refine ⟨⟨w, w, (hw true).1, (hw false).2, ?_⟩, ?_⟩
  · exact (hsame w w (.extract true .never (hw true).1) (.extract false .never (hw false).2) _ _ _).1
  · obtain ⟨w, hw, -, -, hmem⟩ := hread _ _ (Json.decodeStrings_texts ["b", "a", "b"]).1
    refine ⟨w, hw, ?_⟩
    refine ((hlists w).2 ["b", "a"] ["a", "b"] (by decide) ?_ (by decide) (by decide)).symm
    intro s
    rw [← Whitelist.mem_texts, hmem]
    simp only [List.mem_cons, List.not_mem_nil, or_false]
    grind

end WhitelistDocument

end SafeCalls
