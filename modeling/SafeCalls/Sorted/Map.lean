import SafeCalls.Sorted.Order

namespace SafeCalls

/-!
# Sorted maps

A finite map whose entries are in strictly ascending order of their keys, so that equal maps have
equal entries.
-/

/-- Adds an entry, in place of an entry with the same key if there is one. -/
def insertEntry {κ α : Type} [KeyOrder κ] (key : κ) (value : α) : List (κ × α) → List (κ × α)
  | [] => [(key, value)]
  | (k, v) :: rest =>
      if key < k then (key, value) :: (k, v) :: rest
      else if k < key then (k, v) :: insertEntry key value rest
      else (key, value) :: rest

theorem mem_of_mem_insertEntry {κ α : Type} [KeyOrder κ] {key : κ} {value : α} {e : κ × α}
    {entries : List (κ × α)} (h : e ∈ insertEntry key value entries) :
    e = (key, value) ∨ e ∈ entries := by
  induction entries with
  | nil => simpa [insertEntry] using h
  | cons head rest ih =>
      rw [insertEntry] at h
      split at h
      · simpa using h
      · split at h
        · rcases List.mem_cons.1 h with rfl | h
          · exact .inr (List.mem_cons_self ..)
          · exact (ih h).imp_right (List.mem_cons_of_mem _)
        · rcases List.mem_cons.1 h with rfl | h
          · exact .inl rfl
          · exact .inr (List.mem_cons_of_mem _ h)

theorem pairwise_insertEntry {κ α : Type} [KeyOrder κ] (key : κ) (value : α)
    {entries : List (κ × α)} (sorted : entries.Pairwise fun e e' => e.1 < e'.1) :
    (insertEntry key value entries).Pairwise fun e e' => e.1 < e'.1 := by
  induction entries with
  | nil => simp [insertEntry]
  | cons head rest ih =>
      obtain ⟨k, v⟩ := head
      obtain ⟨below, above⟩ := List.pairwise_cons.1 sorted
      rw [insertEntry]
      split
      · next h =>
          refine List.pairwise_cons.2 ⟨fun e he => ?_, sorted⟩
          rcases List.mem_cons.1 he with rfl | he
          · exact h
          · exact KeyOrder.trans h (below e he)
      · next h =>
          split
          · next h' =>
              refine List.pairwise_cons.2 ⟨fun e he => ?_, ih above⟩
              rcases mem_of_mem_insertEntry he with rfl | he
              · exact h'
              · exact below e he
          · next h' =>
              obtain rfl := KeyOrder.connex h h'
              exact List.pairwise_cons.2 ⟨below, above⟩

theorem lookup_eq_some_iff_mem {κ α : Type} [BEq κ] [LawfulBEq κ] {entries : List (κ × α)}
    (hnodup : (entries.map Prod.fst).Nodup) {k : κ} {v : α} :
    entries.lookup k = some v ↔ (k, v) ∈ entries := by
  induction entries with
  | nil => simp
  | cons e more ih =>
      obtain ⟨k', v'⟩ := e
      obtain ⟨hnew, hmore⟩ := List.nodup_cons.1 hnodup
      by_cases hk : k = k'
      · subst hk
        have hother : (k, v) ∉ more := fun h => hnew (List.mem_map.2 ⟨_, h, rfl⟩)
        simp [hother, eq_comm]
      · rw [List.lookup_cons, beq_eq_false_iff_ne.2 hk]
        simp [ih hmore, hk]

structure SortedMap (κ α : Type) [KeyOrder κ] where
  entries : List (κ × α)
  sorted : entries.Pairwise fun e e' => e.1 < e'.1

namespace SortedMap

variable {κ α : Type} [KeyOrder κ]

def empty : SortedMap κ α := ⟨[], .nil⟩

def insert (m : SortedMap κ α) (key : κ) (value : α) : SortedMap κ α :=
  ⟨insertEntry key value m.entries, pairwise_insertEntry key value m.sorted⟩

/-- The map of the given entries, the last one with a key being the one that counts. -/
def ofList (entries : List (κ × α)) : SortedMap κ α :=
  entries.foldl (fun m e => m.insert e.1 e.2) empty

def get? [BEq κ] (m : SortedMap κ α) (key : κ) : Option α := m.entries.lookup key

theorem get?_eq_some_iff [BEq κ] [LawfulBEq κ] {m : SortedMap κ α} {key : κ} {value : α} :
    m.get? key = some value ↔ (key, value) ∈ m.entries := by
  apply lookup_eq_some_iff_mem
  rw [List.Nodup, List.pairwise_map]
  exact m.sorted.imp fun h => KeyOrder.ne_of_lt h

def size (m : SortedMap κ α) : Nat := m.entries.length

def keys (m : SortedMap κ α) : List κ := m.entries.map Prod.fst

instance [DecidableEq κ] [DecidableEq α] : DecidableEq (SortedMap κ α) := fun m n =>
  if h : m.entries = n.entries then
    .isTrue (by cases m; cases n; cases h; rfl)
  else .isFalse fun e => h (congrArg entries e)

end SortedMap

end SafeCalls
