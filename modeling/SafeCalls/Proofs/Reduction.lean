import SafeCalls.Proofs.Contribution

namespace SafeCalls

/-!
# Merging partial results

Partial results that are merged in any tree, with empty results anywhere in it, give what a loop
over them gives that adds one set after another and ends at the first failure. Only the members
of a set matter for a merge, not which of two sets is the larger.
-/

open Watched

theorem Whitelist.merge_eq_union (a b : Whitelist) : a.merge b = a.union b := by
  unfold Whitelist.merge
  split
  · exact SortedSet.eq_of_mem_iff fun k => by simp [or_comm]
  · rfl

namespace Aggregator

theorem union_toList_union (a : Aggregator) (v w : Whitelist) :
    (a.union v.toList).union w.toList = a.union (v.union w).toList := by
  apply congrArg Aggregator.mk
  apply SortedSet.eq_of_mem_iff
  intro k
  simp [union, SortedSet.mem_toList, or_assoc]

/-- Adds the results one after another, until there is one without keys. -/
def gather (total : Aggregator) : List (Except Cancelled Whitelist) → Except Cancelled Whitelist
  | [] => .ok total.finish
  | result :: more => do
      let keys ← result
      gather (total.union keys.toList) more

theorem gather_cons_ok (total : Aggregator) (keys : Whitelist)
    (more : List (Except Cancelled Whitelist)) :
    total.gather (.ok keys :: more) = (total.union keys.toList).gather more := rfl

theorem gather_cons_error (total : Aggregator) (e : Cancelled)
    (more : List (Except Cancelled Whitelist)) : total.gather (.error e :: more) = .error e := rfl

theorem gather_eq_error_iff {total : Aggregator} {results : List (Except Cancelled Whitelist)} :
    total.gather results = .error .cancelled ↔ .error .cancelled ∈ results := by
  induction results generalizing total with
  | nil => simp [gather]
  | cons result more ih =>
      cases result with
      | error e => simp [gather_cons_error]
      | ok keys => simp [gather_cons_ok, ih]

theorem mem_of_gather_eq_ok {total : Aggregator} {results : List (Except Cancelled Whitelist)}
    {w : Whitelist} (h : total.gather results = .ok w) (k : CanonicalKey) :
    k ∈ w ↔ k ∈ total.keys ∨ ∃ keys, .ok keys ∈ results ∧ k ∈ keys := by
  induction results generalizing total with
  | nil =>
      obtain rfl : total.finish = w := Except.ok.inj h
      simp [finish]
  | cons result more ih =>
      cases result with
      | error e => cases h
      | ok keys =>
          rw [ih h]
          simp [union, SortedSet.mem_toList, or_assoc]

/-- Neither the order of the results nor their repeats matter. -/
theorem gather_congr {total : Aggregator} {xs ys : List (Except Cancelled Whitelist)}
    (h : ∀ result, result ∈ xs ↔ result ∈ ys) : total.gather xs = total.gather ys := by
  cases hx : total.gather xs with
  | error e =>
      have hmem := (h _).1 (gather_eq_error_iff.1 hx)
      exact (gather_eq_error_iff.2 hmem).symm
  | ok v =>
      cases hy : total.gather ys with
      | error e =>
          have hmem := (h _).2 (gather_eq_error_iff.1 hy)
          rw [gather_eq_error_iff.2 hmem] at hx
          cases hx
      | ok w =>
          apply congrArg Except.ok
          apply SortedSet.eq_of_mem_iff
          intro k
          simp only [mem_of_gather_eq_ok hx, mem_of_gather_eq_ok hy, h]

theorem gather_append (total : Aggregator) (xs ys : List (Except Cancelled Whitelist)) :
    total.gather (xs ++ ys) = (do
      let a ← total.gather xs
      gather ⟨a⟩ ys) := by
  induction xs generalizing total with
  | nil => rfl
  | cons result more ih =>
      cases result with
      | error e => rfl
      | ok keys => exact ih (total.union keys.toList)

theorem gather_eq_union (a : Whitelist) (results : List (Except Cancelled Whitelist)) :
    gather ⟨a⟩ results = (do
      let b ← Aggregator.empty.gather results
      pure (a.union b)) := by
  cases hb : Aggregator.empty.gather results with
  | error e => exact gather_eq_error_iff.2 (gather_eq_error_iff.1 hb)
  | ok b =>
      cases hw : gather ⟨a⟩ results with
      | error e =>
          rw [gather_eq_error_iff.2 (gather_eq_error_iff.1 hw)] at hb
          cases hb
      | ok w =>
          apply congrArg Except.ok
          apply SortedSet.eq_of_mem_iff
          intro k
          rw [mem_of_gather_eq_ok hw, SortedSet.mem_union, mem_of_gather_eq_ok hb]
          simp [empty]

end Aggregator

namespace Reduction

variable {α β : Type}

theorem leaves_map (f : α → β) (tree : Reduction α) : (tree.map f).leaves = tree.leaves.map f := by
  induction tree with
  | identity => rfl
  | leaf value => rfl
  | merge left right ihl ihr => rw [map, leaves, leaves, ihl, ihr, List.map_append]

theorem leaves_halved (depth : Nat) (values : List α) : (halved depth values).leaves = values := by
  fun_induction halved depth values with
  | case1 => rfl
  | case2 => rfl
  | case3 value more h ih => rw [leaves, leaves, ih, List.singleton_append]
  | case4 depth values h h' ihl ihr => rw [leaves, ihl, ihr, List.take_append_drop]

theorem leaves_balanced (values : List α) : (balanced values).leaves = values :=
  leaves_halved _ _

/-- The loop over the leaves of a tree, and over more results after them, goes on from the merged
result of the tree. -/
theorem gather_leaves (tree : Reduction (Except Cancelled Whitelist)) (total : Aggregator)
    (more : List (Except Cancelled Whitelist)) :
    total.gather (tree.leaves ++ more) = (do
      let keys ← tree.collect
      (total.union keys.toList).gather more) := by
  induction tree generalizing total more with
  | identity => rfl
  | leaf result => rfl
  | merge left right ihl ihr =>
      -- The right half, and what comes after it, are the further results of the left half.
      rw [leaves, List.append_assoc, ihl, collect]
      cases left.collect with
      | error e => rfl
      | ok v =>
          change (total.union v.toList).gather (right.leaves ++ more) = _
          rw [ihr]
          cases right.collect with
          | error e => rfl
          | ok w =>
              change ((total.union v.toList).union w.toList).gather more =
                (total.union (v.merge w).toList).gather more
              rw [Aggregator.union_toList_union, Whitelist.merge_eq_union]

theorem collect_eq_gather (tree : Reduction (Except Cancelled Whitelist)) :
    tree.collect = Aggregator.empty.gather tree.leaves := by
  have h := gather_leaves tree .empty []
  rw [List.append_nil] at h
  rw [h]
  cases tree.collect with
  | error e => rfl
  | ok keys =>
      have hkeys : (Aggregator.empty.union keys.toList).finish = keys :=
        SortedSet.eq_of_mem_iff fun k => by
          simp [Aggregator.empty, Aggregator.union, Aggregator.finish, SortedSet.mem_toList]
      exact congrArg Except.ok hkeys.symm

theorem collect_eq_error_iff (tree : Reduction (Except Cancelled Whitelist)) :
    tree.collect = .error .cancelled ↔ .error .cancelled ∈ tree.leaves := by
  rw [collect_eq_gather, Aggregator.gather_eq_error_iff]

end Reduction

end SafeCalls
