import SafeCalls.Sorted.Order

namespace SafeCalls

/-!
# Sorted sets

A finite set, held as the strictly ascending list of its members, so that two sets with the same
members are equal.
-/

/-- Adds a member to an ascending list, unless it is there already. -/
def insertMember {κ : Type} [KeyOrder κ] (a : κ) : List κ → List κ
  | [] => [a]
  | b :: rest =>
      if a < b then a :: b :: rest
      else if b < a then b :: insertMember a rest
      else b :: rest

@[simp] theorem mem_insertMember {κ : Type} [KeyOrder κ] {a x : κ} {members : List κ} :
    x ∈ insertMember a members ↔ x = a ∨ x ∈ members := by
  induction members with
  | nil => simp [insertMember]
  | cons b rest ih =>
      rw [insertMember]
      split
      · simp
      · next h =>
          split
          · simp only [List.mem_cons, ih]
            exact ⟨fun
              | .inl e => .inr (.inl e)
              | .inr (.inl e) => .inl e
              | .inr (.inr e) => .inr (.inr e), fun
              | .inl e => .inr (.inl e)
              | .inr (.inl e) => .inl e
              | .inr (.inr e) => .inr (.inr e)⟩
          · next h' =>
              obtain rfl := KeyOrder.connex h h'
              simp

theorem pairwise_insertMember {κ : Type} [KeyOrder κ] (a : κ) {members : List κ}
    (ascending : members.Pairwise (· < ·)) : (insertMember a members).Pairwise (· < ·) := by
  induction members with
  | nil => simp [insertMember]
  | cons b rest ih =>
      obtain ⟨below, ascending⟩ := List.pairwise_cons.1 ascending
      rw [insertMember]
      split
      · next h =>
          refine List.pairwise_cons.2 ⟨fun x hx => ?_, List.pairwise_cons.2 ⟨below, ascending⟩⟩
          rcases List.mem_cons.1 hx with rfl | hx
          · exact h
          · exact KeyOrder.trans h (below x hx)
      · split
        · next h =>
            refine List.pairwise_cons.2 ⟨fun x hx => ?_, ih ascending⟩
            rcases mem_insertMember.1 hx with rfl | hx
            · exact h
            · exact below x hx
        · exact List.pairwise_cons.2 ⟨below, ascending⟩

/-- An ascending list is determined by its members. -/
theorem eq_of_pairwise_of_mem_iff {κ : Type} [KeyOrder κ] {xs ys : List κ}
    (hx : xs.Pairwise (· < ·)) (hy : ys.Pairwise (· < ·)) (h : ∀ a, a ∈ xs ↔ a ∈ ys) :
    xs = ys := by
  induction xs generalizing ys with
  | nil =>
      cases ys with
      | nil => rfl
      | cons y ys => exact absurd ((h y).2 (List.mem_cons_self ..)) (List.not_mem_nil)
  | cons x xs ih =>
      obtain ⟨belowX, hxs⟩ := List.pairwise_cons.1 hx
      cases ys with
      | nil => exact absurd ((h x).1 (List.mem_cons_self ..)) (List.not_mem_nil)
      | cons y ys =>
          obtain ⟨belowY, hys⟩ := List.pairwise_cons.1 hy
          have hxy : x = y := by
            rcases List.mem_cons.1 ((h x).1 (List.mem_cons_self ..)) with e | hm
            · exact e
            · rcases List.mem_cons.1 ((h y).2 (List.mem_cons_self ..)) with e | hm'
              · exact e.symm
              · exact absurd (belowX y hm') (KeyOrder.asymm (belowY x hm))
          subst hxy
          congr 1
          refine ih hxs hys fun a => ⟨fun ha => ?_, fun ha => ?_⟩
          · rcases List.mem_cons.1 ((h a).1 (List.mem_cons_of_mem _ ha)) with rfl | hm
            · exact absurd (belowX a ha) (KeyOrder.irrefl a)
            · exact hm
          · rcases List.mem_cons.1 ((h a).2 (List.mem_cons_of_mem _ ha)) with rfl | hm
            · exact absurd (belowY a ha) (KeyOrder.irrefl a)
            · exact hm

structure SortedSet (κ : Type) [KeyOrder κ] where
  toList : List κ
  ascending : toList.Pairwise (· < ·)

namespace SortedSet

variable {κ : Type} [KeyOrder κ]

instance : Membership κ (SortedSet κ) := ⟨fun s a => a ∈ s.toList⟩

def empty : SortedSet κ := ⟨[], .nil⟩

def insert (s : SortedSet κ) (a : κ) : SortedSet κ :=
  ⟨insertMember a s.toList, pairwise_insertMember a s.ascending⟩

def insertAll (s : SortedSet κ) (members : List κ) : SortedSet κ := members.foldl insert s

def ofList (members : List κ) : SortedSet κ := empty.insertAll members

def union (s t : SortedSet κ) : SortedSet κ := s.insertAll t.toList

def contains [BEq κ] (s : SortedSet κ) (a : κ) : Bool := s.toList.contains a

def size (s : SortedSet κ) : Nat := s.toList.length

def isEmpty (s : SortedSet κ) : Bool := s.toList.isEmpty

theorem mem_toList {s : SortedSet κ} {a : κ} : a ∈ s.toList ↔ a ∈ s := Iff.rfl

@[simp] theorem not_mem_empty (a : κ) : a ∉ (empty : SortedSet κ) := List.not_mem_nil

@[simp] theorem mem_insert {s : SortedSet κ} {a x : κ} : x ∈ s.insert a ↔ x = a ∨ x ∈ s :=
  mem_insertMember

@[simp] theorem mem_insertAll {s : SortedSet κ} {members : List κ} {x : κ} :
    x ∈ s.insertAll members ↔ x ∈ s ∨ x ∈ members := by
  induction members generalizing s with
  | nil => simp [insertAll]
  | cons a rest ih =>
      rw [insertAll, List.foldl_cons, ← insertAll, ih, mem_insert, List.mem_cons]
      exact ⟨fun
        | .inl (.inl e) => .inr (.inl e)
        | .inl (.inr e) => .inl e
        | .inr e => .inr (.inr e), fun
        | .inl e => .inl (.inr e)
        | .inr (.inl e) => .inl (.inl e)
        | .inr (.inr e) => .inr e⟩

@[simp] theorem mem_ofList {members : List κ} {x : κ} : x ∈ ofList members ↔ x ∈ members := by
  simp [ofList]

@[simp] theorem mem_union {s t : SortedSet κ} {x : κ} : x ∈ s.union t ↔ x ∈ s ∨ x ∈ t :=
  mem_insertAll

theorem eq_of_mem_iff {s t : SortedSet κ} (h : ∀ a, a ∈ s ↔ a ∈ t) : s = t := by
  obtain ⟨xs, hx⟩ := s
  obtain ⟨ys, hy⟩ := t
  obtain rfl : xs = ys := eq_of_pairwise_of_mem_iff hx hy h
  rfl

instance [DecidableEq κ] : DecidableEq (SortedSet κ) := fun s t =>
  if h : s.toList = t.toList then
    .isTrue (by cases s; cases t; cases h; rfl)
  else .isFalse fun e => h (congrArg toList e)

end SortedSet

end SafeCalls
