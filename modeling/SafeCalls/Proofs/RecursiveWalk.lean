import Mathlib.Logic.Function.Iterate
import SafeCalls.Proofs.Walk

namespace SafeCalls

/-!
# The walk as a recursion

A recursive walk visits a node and then walks the children one after another, and it returns as
soon as the visitor fails. The walk with a stack makes the same calls: what is on the stack are
the recursive calls that are still owed, and a turn of the loop leaves the outcome of these calls
as it is. Every turn takes one node off the stack for good, so there are no more turns than nodes.
-/

namespace SyntaxNode

variable {σ ε : Type} (visit : σ → SyntaxNode → σ × Except ε Unit)

theorem size_pos (node : SyntaxNode) : 0 < node.size := by
  rw [size_eq]
  exact Nat.succ_pos _

mutual

/-- Visits a node, and then walks its children in order, until the visitor fails. -/
def descend (state : σ) (node : SyntaxNode) : σ × Except ε Unit :=
  match visit state node with
  | (next, .error e) => (next, .error e)
  | (next, .ok ()) => descendAll next node.children
termination_by (node.size, 0)
decreasing_by
  rw [size_eq node]
  exact Prod.Lex.left _ _ (Nat.lt_succ_self _)

def descendAll (state : σ) (nodes : List SyntaxNode) : σ × Except ε Unit :=
  match nodes with
  | [] => (state, .ok ())
  | node :: more =>
      match descend state node with
      | (next, .error e) => (next, .error e)
      | (next, .ok ()) => descendAll next more
termination_by (totalSize nodes, 1)
decreasing_by
  · rw [totalSize]
    rcases Nat.eq_zero_or_pos (totalSize more) with hzero | hpos
    · rw [hzero, Nat.add_zero]
      exact Prod.Lex.right _ Nat.zero_lt_one
    · exact Prod.Lex.left _ _ (Nat.lt_add_of_pos_right hpos)
  · rw [totalSize]
    exact Prod.Lex.left _ _ (Nat.lt_add_of_pos_left node.size_pos)

end

theorem descendAll_nil (state : σ) : descendAll visit state [] = (state, .ok ()) := by
  rw [descendAll]

theorem descendAll_cons (state : σ) (node : SyntaxNode) (more : List SyntaxNode) :
    descendAll visit state (node :: more) =
      match descend visit state node with
      | (next, .error e) => (next, .error e)
      | (next, .ok ()) => descendAll visit next more := by
  rw [descendAll]

theorem descendAll_append (state : σ) (xs ys : List SyntaxNode) :
    descendAll visit state (xs ++ ys) =
      match descendAll visit state xs with
      | (next, .error e) => (next, .error e)
      | (next, .ok ()) => descendAll visit next ys := by
  induction xs generalizing state with
  | nil => rw [List.nil_append, descendAll_nil]
  | cons node more ih =>
      rw [List.cons_append, descendAll_cons, descendAll_cons]
      rcases descend visit state node with ⟨next, _ | _⟩
      · rfl
      · exact ih next

/-- The children of the first node may be walked in its place once it has been visited. -/
theorem descendAll_cons_eq (state : σ) (node : SyntaxNode) (stack : List SyntaxNode) :
    descendAll visit state (node :: stack) =
      match visit state node with
      | (next, .error e) => (next, .error e)
      | (next, .ok ()) => descendAll visit next (node.children ++ stack) := by
  rw [descendAll_cons, descend]
  rcases visit state node with ⟨next, _ | _⟩
  · rfl
  · exact (descendAll_append visit next node.children stack).symm

theorem walkStack_eq_descendAll (state : σ) (stack : List SyntaxNode) :
    walkStack visit state stack = descendAll visit state stack := by
  induction stack using stack_induction generalizing state with
  | nil => rw [walkStack_nil, descendAll_nil]
  | cons node stack ih =>
      rw [walkStack_cons, descendAll_cons_eq]
      rcases visit state node with ⟨next, _ | _⟩
      · rfl
      · exact ih next

theorem walk_eq_descend (root : SyntaxNode) (state : σ) :
    root.walk visit state = root.descend visit state := by
  rw [walk, walkStack_eq_descendAll, descendAll_cons]
  rcases descend visit state root with ⟨next, _ | _⟩
  · rfl
  · exact descendAll_nil visit next

/-! ## The turns of the loop -/

/-- Where the loop stands: it goes on with what is on the stack, or it has come to its end. -/
inductive Loop (σ ε : Type) where
  | running (state : σ) (stack : List SyntaxNode)
  | ended (outcome : σ × Except ε Unit)

namespace Loop

/-- One turn: the node on top is visited, and its children take its place. -/
def turn : Loop σ ε → Loop σ ε
  | running state [] => ended (state, .ok ())
  | running state (node :: stack) =>
      match visit state node with
      | (next, .error e) => ended (next, .error e)
      | (next, .ok ()) => running next (node.children ++ stack)
  | ended outcome => ended outcome

/-- What comes of the recursive calls that are still owed. -/
def owed : Loop σ ε → σ × Except ε Unit
  | running state stack => descendAll visit state stack
  | ended outcome => outcome

/-- A bound for the turns to come. -/
def remaining : Loop σ ε → Nat
  | running _ stack => totalSize stack + 1
  | ended _ => 0

theorem owed_turn (loop : Loop σ ε) : (loop.turn visit).owed visit = loop.owed visit := by
  match loop with
  | running state [] => exact (descendAll_nil visit state).symm
  | running state (node :: stack) =>
      rw [turn, owed, descendAll_cons_eq]
      rcases visit state node with ⟨next, _ | _⟩ <;> rfl
  | ended outcome => rfl

theorem owed_iterate_turn (turns : Nat) (loop : Loop σ ε) :
    ((turn visit)^[turns] loop).owed visit = loop.owed visit := by
  induction turns generalizing loop with
  | zero => rfl
  | succ turns ih => rw [Function.iterate_succ_apply, ih, owed_turn]

theorem remaining_turn_le (loop : Loop σ ε) : (loop.turn visit).remaining ≤ loop.remaining - 1 := by
  match loop with
  | running state [] => exact Nat.zero_le _
  | running state (node :: stack) =>
      rw [turn]
      rcases visit state node with ⟨next, _ | _⟩
      · exact Nat.zero_le _
      · have hsize := size_eq node
        simp only [remaining, totalSize, totalSize_append]
        omega
  | ended outcome => exact Nat.zero_le _

theorem remaining_iterate_turn_le (turns : Nat) (loop : Loop σ ε) :
    ((turn visit)^[turns] loop).remaining ≤ loop.remaining - turns := by
  induction turns generalizing loop with
  | zero => exact Nat.le_refl _
  | succ turns ih =>
      have hturn := remaining_turn_le visit loop
      have hmore := ih (loop.turn visit)
      rw [Function.iterate_succ_apply]
      omega

theorem eq_ended_of_remaining_eq_zero {loop : Loop σ ε} (h : loop.remaining = 0) :
    loop = ended (loop.owed visit) := by
  cases loop with
  | running state stack => exact absurd h (Nat.succ_ne_zero _)
  | ended outcome => rfl

/-- After as many turns as there are nodes, and one more that finds the stack empty, the loop is
at its end and nothing is owed any more. -/
theorem iterate_turn_eq_ended (turns : Nat) (state : σ) (root : SyntaxNode) :
    (turn visit)^[root.size + 1 + turns] (running state [root]) =
      ended (root.descend visit state) := by
  have hremaining := remaining_iterate_turn_le visit (root.size + 1 + turns) (running state [root])
  have howed := owed_iterate_turn visit (root.size + 1 + turns) (running state [root])
  have hstart : (running (ε := ε) state [root]).remaining = root.size + 1 := rfl
  have hended : ((turn visit)^[root.size + 1 + turns] (running state [root])).remaining = 0 := by
    rw [hstart] at hremaining
    omega
  rw [eq_ended_of_remaining_eq_zero visit hended, howed, owed, ← walkStack_eq_descendAll,
    ← walk_eq_descend]
  rfl

end Loop

/-! ## The calls of the visitor -/

/-- The state after calls for the given nodes, whatever their results. -/
def stateAfter (state : σ) (nodes : List SyntaxNode) : σ :=
  nodes.foldl (fun state node => (visit state node).1) state

/-- The visitor fails for none of the nodes when it is shown them one after another. -/
def Passes (state : σ) (nodes : List SyntaxNode) : Prop :=
  ∀ before node after, nodes = before ++ node :: after →
    (visit (stateAfter visit state before) node).2 = .ok ()

/-- The nodes that the visitor is called for out of a list, and the result: all of them if it
passes them, and else those up to the first one for which it fails. -/
inductive Calls (state : σ) (nodes : List SyntaxNode) :
    List SyntaxNode → Except ε Unit → Prop
  | all (h : Passes visit state nodes) : Calls state nodes nodes (.ok ())
  | upTo {before after : List SyntaxNode} {node : SyntaxNode} {e : ε}
      (hsplit : nodes = before ++ node :: after) (hpasses : Passes visit state before)
      (hfails : (visit (stateAfter visit state before) node).2 = .error e) :
      Calls state nodes (before ++ [node]) (.error e)

/-- The visitor with a record of the nodes that it is called for. -/
def recording (state : σ × List SyntaxNode) (node : SyntaxNode) :
    (σ × List SyntaxNode) × Except ε Unit :=
  let (next, result) := visit state.1 node
  ((next, state.2 ++ [node]), result)

variable {visit} {state : σ} {nodes : List SyntaxNode}

theorem Passes.cons {node : SyntaxNode} (h : (visit state node).2 = .ok ())
    (hmore : Passes visit (visit state node).1 nodes) : Passes visit state (node :: nodes) := by
  intro before next after hsplit
  cases before with
  | nil =>
      obtain ⟨rfl, -⟩ := List.cons.inj hsplit
      exact h
  | cons first before =>
      obtain ⟨rfl, hrest⟩ := List.cons.inj hsplit
      exact hmore before next after hrest

theorem Calls.cons {node : SyntaxNode} {called : List SyntaxNode} {result : Except ε Unit}
    (h : (visit state node).2 = .ok ())
    (hmore : Calls visit (visit state node).1 nodes called result) :
    Calls visit state (node :: nodes) (node :: called) result := by
  cases hmore with
  | all hpasses => exact .all (hpasses.cons h)
  | upTo hsplit hpasses hfails =>
      subst hsplit
      exact .upTo rfl (hpasses.cons h) hfails

/-- A list of nodes is visited by calls for the nodes in front of the first failure. -/
theorem exists_calls_visitAll (visit : σ → SyntaxNode → σ × Except ε Unit) (state : σ)
    (nodes : List SyntaxNode) :
    ∃ called, Calls visit state nodes called (visitAll visit state nodes).2 ∧
      (visitAll visit state nodes).1 = stateAfter visit state called ∧
      ∀ seen, visitAll (recording visit) (state, seen) nodes =
        ((stateAfter visit state called, seen ++ called), (visitAll visit state nodes).2) := by
  induction nodes generalizing state with
  | nil =>
      refine ⟨[], .all ?_, rfl, fun seen => ?_⟩
      · intro before node after hsplit
        exact absurd hsplit (by simp)
      · rw [List.append_nil]
        rfl
  | cons node more ih =>
      rw [visitAll]
      -- The calls end with the node if the visitor fails for it, and go on after it otherwise.
      rcases hvisit : visit state node with ⟨next, e | _⟩
      · have hsplit : node :: more = [] ++ node :: more := rfl
        refine ⟨[node], .upTo hsplit ?_ (congrArg Prod.snd hvisit), ?_, fun seen => ?_⟩
        · intro before node after hsplit
          exact absurd hsplit (by simp)
        · exact (congrArg Prod.fst hvisit).symm
        · rw [visitAll, recording, hvisit]
          simp [stateAfter, hvisit]
      · obtain ⟨called, hcalls, hstate, hrecord⟩ := ih next
        have hnext : (visit state node).1 = next := congrArg Prod.fst hvisit
        refine ⟨node :: called, ?_, ?_, fun seen => ?_⟩
        · apply Calls.cons (congrArg Prod.snd hvisit)
          rw [hnext]
          exact hcalls
        · rw [stateAfter, List.foldl_cons, hnext]
          exact hstate
        · rw [visitAll, recording, hvisit]
          simp only [hrecord, List.append_assoc, List.singleton_append]
          rw [stateAfter, stateAfter, List.foldl_cons, hnext]

/-- Whatever the visitor keeps and wherever it fails, the loop comes to its end, with the outcome
of the recursive walk. Its calls are those for the nodes of the pre-order list up to the first
failure, the last state is what these calls make of the first one, and the error is passed on. -/
theorem walk_makes_recursive_calls (root : SyntaxNode)
    (visit : σ → SyntaxNode → σ × Except ε Unit) (state : σ) :
    root.walk visit state = root.descend visit state ∧
    (∀ turns, (Loop.turn visit)^[root.size + 1 + turns] (.running state [root]) =
      .ended (root.walk visit state)) ∧
    root.preorder = root :: root.children.flatMap preorder ∧
    ∃ called, Calls visit state root.preorder called (root.walk visit state).2 ∧
      (root.walk visit state).1 = stateAfter visit state called ∧
      root.walk (recording visit) (state, []) =
        (((root.walk visit state).1, called), (root.walk visit state).2) := by
  have hwalk := walk_eq_descend visit root state
  obtain ⟨called, hcalls, hstate, hrecord⟩ := exists_calls_visitAll visit state root.preorder
  rw [← walk_eq_visitAll] at hcalls hstate
  refine ⟨hwalk, fun turns => ?_, preorder_eq root, called, hcalls, hstate, ?_⟩
  · rw [hwalk]
    exact Loop.iterate_turn_eq_ended visit turns state root
  · rw [walk_eq_visitAll root (recording visit), hrecord, List.nil_append,
      ← walk_eq_visitAll, hstate]

end SyntaxNode

end SafeCalls
