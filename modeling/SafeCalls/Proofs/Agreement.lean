import SafeCalls.Proofs.Reduction

namespace SafeCalls

/-!
# Agreement of the two ways to extract

Going through the units one after another and merging their partial results in any tree come to
the same whitelist. Both are the loop of `Aggregator.gather` over what the single units give, so
that only the set of these results counts: the units may be permuted, repeated and split at will.
-/

open Watched

/-- A token that is the same at every moment: it has fired beforehand, or never fires. -/
def Token.IsSteady (token : Token) : Prop :=
  ∀ moment moment', token.isFired moment = token.isFired moment'

theorem Token.IsSteady.eq_never_or_always {token : Token} (h : token.IsSteady) :
    token = .never ∨ token = .always := by
  have hconst : token.isFired = fun _ => token.isFired .start := funext fun moment => h moment _
  obtain ⟨isFired⟩ := token
  cases hstart : isFired .start with
  | false => exact .inl (congrArg Token.mk (hconst.trans (by simp [hstart])))
  | true => exact .inr (congrArg Token.mk (hconst.trans (by simp [hstart])))

namespace Extractor

variable (x : Extractor)

/-- What the units give when each has its turn after the one before it. -/
def turns (token : Token) : Moment → List ConfigurationUnit → List (Except Cancelled Whitelist)
  | _, [] => []
  | moment, unit :: more =>
      let run := (x.unitKeys unit).runFrom token moment
      run.1 :: turns token run.2 more

theorem sequential_eq_gather (total : Aggregator) (token : Token) (moment : Moment)
    (units : List ConfigurationUnit) :
    ((x.sequential total units).runFrom token moment).1 =
      total.gather (x.turns token moment units) := by
  induction units generalizing total moment with
  | nil => rfl
  | cons unit more ih =>
      rw [sequential, turns, runFrom_bind]
      rcases (x.unitKeys unit).runFrom token moment with ⟨e | keys, next⟩
      · rfl
      · exact ih (total.union keys.toList) next

theorem parallel_eq_gather (plan : Reduction (ConfigurationUnit × Token)) :
    x.parallel plan = Aggregator.empty.gather
      (plan.leaves.map fun leaf => (x.unitKeys leaf.1).outcome leaf.2) := by
  rw [parallel, Reduction.collect_eq_gather, Reduction.leaves_map]

theorem parallel_eq_error_iff {plan : Reduction (ConfigurationUnit × Token)} :
    x.parallel plan = .error .cancelled ↔
      ∃ leaf ∈ plan.leaves, (x.unitKeys leaf.1).outcome leaf.2 = .error .cancelled := by
  rw [parallel, Reduction.collect_eq_error_iff, Reduction.leaves_map, List.mem_map]

theorem unitKeys_of_isFired (unit : ConfigurationUnit) {token : Token} {moment : Moment}
    (h : token.isFired moment = true) :
    ((x.unitKeys unit).runFrom token moment).1 = .error .cancelled := by
  rw [unitKeys, runFrom_bind, runFrom_poll, if_pos h]

theorem unitKeys_steady {token : Token} (h : token.IsSteady) (unit : ConfigurationUnit)
    (moment : Moment) :
    ((x.unitKeys unit).runFrom token moment).1 = (x.unitKeys unit).outcome token := by
  rcases h.eq_never_or_always with rfl | rfl
  · rw [(x.gives_unitKeys unit).outcome_never]
    exact (x.gives_unitKeys unit).runFrom_never moment
  · rw [outcome, x.unitKeys_of_isFired unit rfl, x.unitKeys_of_isFired unit rfl]

theorem turns_steady {token : Token} (h : token.IsSteady) (moment : Moment)
    (units : List ConfigurationUnit) :
    x.turns token moment units = units.map fun unit => (x.unitKeys unit).outcome token := by
  induction units generalizing moment with
  | nil => rfl
  | cons unit more ih => rw [turns, List.map_cons, ih, x.unitKeys_steady h]

theorem extract_steady {token : Token} (h : token.IsSteady) (units : List ConfigurationUnit) :
    x.extract units token =
      Aggregator.empty.gather (units.map fun unit => (x.unitKeys unit).outcome token) := by
  rw [extract]
  split
  · rw [parallel_eq_gather, Reduction.leaves_balanced, List.map_map]
    rfl
  · rw [outcome, sequential_eq_gather, x.turns_steady h]

theorem extract_never (units : List ConfigurationUnit) :
    x.extract units .never = .ok (x.whitelist units) := by
  have hsteady : Token.never.IsSteady := fun _ _ => rfl
  rw [x.extract_steady hsteady, ← x.turns_steady hsteady .start, ← sequential_eq_gather]
  exact (x.gives_sequential units).outcome_never

theorem parallel_eq_ok {plan : Reduction (ConfigurationUnit × Token)} {w : Whitelist}
    (h : x.parallel plan = .ok w) : w = x.whitelist (plan.leaves.map Prod.fst) := by
  have hleaf : ∀ leaf ∈ plan.leaves,
      (x.unitKeys leaf.1).outcome leaf.2 = .ok (x.contribution leaf.1) := by
    intro leaf hleaf
    refine ((x.gives_unitKeys leaf.1).outcome_eq leaf.2).resolve_left fun hcancelled => ?_
    rw [x.parallel_eq_error_iff.2 ⟨leaf, hleaf, hcancelled⟩] at h
    cases h
  rw [parallel_eq_gather] at h
  apply SortedSet.eq_of_mem_iff
  intro k
  rw [Aggregator.mem_of_gather_eq_ok h, List.map_congr_left hleaf, mem_whitelist]
  constructor
  · rintro (hempty | ⟨keys, hkeys, hk⟩)
    · exact absurd hempty (SortedSet.not_mem_empty k)
    · obtain ⟨leaf, hmem, heq⟩ := List.mem_map.1 hkeys
      obtain rfl := Except.ok.inj heq
      exact ⟨leaf.1, List.mem_map_of_mem hmem, hk⟩
  · rintro ⟨unit, hunit, hk⟩
    obtain ⟨leaf, hmem, rfl⟩ := List.mem_map.1 hunit
    exact .inr ⟨_, List.mem_map.2 ⟨leaf, hmem, rfl⟩, hk⟩

theorem parallel_never (plan : Reduction ConfigurationUnit) :
    x.parallel (plan.map fun unit => (unit, .never)) = .ok (x.whitelist plan.leaves) := by
  have hsteady : Token.never.IsSteady := fun _ _ => rfl
  rw [parallel_eq_gather, Reduction.leaves_map, List.map_map, ← x.extract_never,
    x.extract_steady hsteady]
  rfl

/-- Whatever the token, there is no third outcome besides cancellation and the whole whitelist. -/
theorem extract_eq_cancelled_or_never (units : List ConfigurationUnit) (token : Token) :
    x.extract units token = .error .cancelled ∨ x.extract units token = x.extract units .never := by
  rw [x.extract_never, extract]
  split
  · cases h : x.parallel (Reduction.balanced (units.map fun unit => (unit, token))) with
    | error e => exact .inl rfl
    | ok w =>
        refine .inr (congrArg Except.ok ?_)
        rw [x.parallel_eq_ok h, Reduction.leaves_balanced, List.map_map]
        exact congrArg x.whitelist (List.map_id units)
  · exact (x.gives_sequential units).outcome_eq token

theorem extract_eq_ok {units : List ConfigurationUnit} {token : Token} {w : Whitelist}
    (h : x.extract units token = .ok w) : w = x.whitelist units := by
  rcases x.extract_eq_cancelled_or_never units token with hcancelled | hnever
  · rw [hcancelled] at h
    cases h
  · rw [hnever, x.extract_never] at h
    exact (Except.ok.inj h).symm

/-! ### The two modes -/

theorem methodKeys_inMode (isParallel : Bool) (model : SemanticModel)
    (methods : List MethodDeclaration) :
    { x with isParallel }.methodKeys model methods = x.methodKeys model methods := by
  induction methods with
  | nil => rfl
  | cons m more ih => rw [methodKeys, methodKeys, ih]

theorem unitKeys_inMode (isParallel : Bool) (unit : ConfigurationUnit) :
    { x with isParallel }.unitKeys unit = x.unitKeys unit := by
  simp only [unitKeys, methodKeys_inMode]

theorem sequential_inMode (isParallel : Bool) (total : Aggregator)
    (units : List ConfigurationUnit) :
    { x with isParallel }.sequential total units = x.sequential total units := by
  induction units generalizing total with
  | nil => rfl
  | cons unit more ih => simp only [sequential, unitKeys_inMode, ih]

theorem parallel_inMode (isParallel : Bool) (plan : Reduction (ConfigurationUnit × Token)) :
    { x with isParallel }.parallel plan = x.parallel plan := by
  simp only [parallel, unitKeys_inMode]

theorem extract_inMode_true {units : List ConfigurationUnit} {token : Token}
    {plan : Reduction (ConfigurationUnit × Token)}
    (hplan : plan.leaves = units.map fun unit => (unit, token)) :
    { x with isParallel := true }.extract units token = x.parallel plan := by
  rw [extract, if_pos rfl, parallel_inMode, parallel_eq_gather, parallel_eq_gather,
    Reduction.leaves_balanced, hplan]

theorem extract_inMode_false (units : List ConfigurationUnit) (token : Token) :
    { x with isParallel := false }.extract units token =
      (x.sequential .empty units).outcome token := by
  rw [extract, if_neg Bool.false_ne_true, sequential_inMode]

theorem extract_inMode {token : Token} (h : token.IsSteady) (isParallel : Bool)
    (units : List ConfigurationUnit) :
    { x with isParallel }.extract units token = x.extract units token := by
  rw [x.extract_steady h, extract_steady _ h]
  simp only [unitKeys_inMode]

/-! ### Failures and keys -/

theorem extract_inMode_true_eq_error_iff {units : List ConfigurationUnit} {token : Token} :
    { x with isParallel := true }.extract units token = .error .cancelled ↔
      ∃ unit ∈ units, (x.unitKeys unit).outcome token = .error .cancelled := by
  have hplan := Reduction.leaves_balanced (units.map fun unit => (unit, token))
  rw [x.extract_inMode_true hplan, parallel_eq_error_iff, hplan]
  constructor
  · rintro ⟨leaf, hleaf, herror⟩
    obtain ⟨unit, hunit, rfl⟩ := List.mem_map.1 hleaf
    exact ⟨unit, hunit, herror⟩
  · rintro ⟨unit, hunit, herror⟩
    exact ⟨_, List.mem_map_of_mem hunit, herror⟩

theorem extract_inMode_false_eq_error_iff {units : List ConfigurationUnit} {token : Token} :
    { x with isParallel := false }.extract units token = .error .cancelled ↔
      .error .cancelled ∈ x.turns token .start units := by
  rw [extract_inMode_false, outcome, sequential_eq_gather, Aggregator.gather_eq_error_iff]

theorem extract_eq_error_iff {token : Token} (h : token.IsSteady)
    {units : List ConfigurationUnit} : x.extract units token = .error .cancelled ↔
      ∃ unit ∈ units, (x.unitKeys unit).outcome token = .error .cancelled := by
  rw [x.extract_steady h, Aggregator.gather_eq_error_iff, List.mem_map]

/-- A whitelist has the keys of all units, whatever the token has cut off elsewhere. -/
theorem mem_of_extract_eq_ok {units : List ConfigurationUnit} {token : Token} {w : Whitelist}
    (h : x.extract units token = .ok w) (k : CanonicalKey) :
    k ∈ w ↔ ∃ unit ∈ units, ∃ keys, (x.unitKeys unit).outcome .never = .ok keys ∧ k ∈ keys := by
  simp only [x.extract_eq_ok h, mem_whitelist, (x.gives_unitKeys _).outcome_never,
    Except.ok.injEq, exists_eq_left']

theorem extract_congr {token : Token} (h : token.IsSteady) {us vs : List ConfigurationUnit}
    (hmem : ∀ unit, unit ∈ us ↔ unit ∈ vs) : x.extract us token = x.extract vs token := by
  rw [x.extract_steady h, x.extract_steady h]
  apply Aggregator.gather_congr
  intro result
  simp only [List.mem_map, hmem]

theorem extract_append {token : Token} (h : token.IsSteady) (us vs : List ConfigurationUnit) :
    x.extract (us ++ vs) token = (do
      let a ← x.extract us token
      let b ← x.extract vs token
      pure (a.union b)) := by
  simp only [x.extract_steady h, List.map_append, Aggregator.gather_append]
  exact bind_congr fun a => Aggregator.gather_eq_union a _

/-- Merging in any tree is the sequential loop, whatever the partial results are, and both fail
exactly when one of the results is a failure. The parallel mode is the merge of what the units give,
however they are split and merged, and the sequential mode is the loop over them. Each mode fails
exactly when one of its units does, and otherwise has the keys of all units. So with a token that
does not change in between, extraction depends neither on the mode nor on anything but which units
there are, and two lists of units give the union. Any other token leaves no choice but between this
whitelist and cancellation. -/
theorem merge_tree_agrees_with_loop :
    (∀ tree : Reduction (Except Cancelled Whitelist),
      tree.collect = Aggregator.empty.gather tree.leaves ∧
        (tree.collect = .error .cancelled ↔ .error .cancelled ∈ tree.leaves)) ∧
    (∀ (units : List ConfigurationUnit) (token : Token)
        (tree : Reduction (Except Cancelled Whitelist)),
      tree.leaves = x.turns token .start units →
        tree.collect = (x.sequential .empty units).outcome token) ∧
    (∀ plan : Reduction (ConfigurationUnit × Token),
      (x.parallel plan = .error .cancelled ↔
        ∃ leaf ∈ plan.leaves, (x.unitKeys leaf.1).outcome leaf.2 = .error .cancelled) ∧
      ∀ w, x.parallel plan = .ok w →
        (x.sequential .empty (plan.leaves.map Prod.fst)).outcome .never = .ok w) ∧
    (∀ (units : List ConfigurationUnit) (token : Token),
      (∀ plan : Reduction (ConfigurationUnit × Token),
        plan.leaves = units.map (fun unit => (unit, token)) →
          { x with isParallel := true }.extract units token = x.parallel plan) ∧
      { x with isParallel := false }.extract units token =
        (x.sequential .empty units).outcome token ∧
      ({ x with isParallel := true }.extract units token = .error .cancelled ↔
        ∃ unit ∈ units, (x.unitKeys unit).outcome token = .error .cancelled) ∧
      ({ x with isParallel := false }.extract units token = .error .cancelled ↔
        .error .cancelled ∈ x.turns token .start units) ∧
      (x.extract units token = .error .cancelled ∨
        x.extract units token = x.extract units .never) ∧
      ∀ w, x.extract units token = .ok w → ∀ k, k ∈ w ↔
        ∃ unit ∈ units, ∃ keys, (x.unitKeys unit).outcome .never = .ok keys ∧ k ∈ keys) ∧
    ∀ token : Token, token.IsSteady → ∀ us vs : List ConfigurationUnit,
      (∀ isParallel, { x with isParallel }.extract us token = x.extract us token) ∧
      (x.extract us token = .error .cancelled ↔
        ∃ unit ∈ us, (x.unitKeys unit).outcome token = .error .cancelled) ∧
      ((∀ unit, unit ∈ us ↔ unit ∈ vs) → x.extract us token = x.extract vs token) ∧
      x.extract (us ++ vs) token = (do
        let a ← x.extract us token
        let b ← x.extract vs token
        pure (a.union b)) := by
  refine ⟨fun tree => ⟨tree.collect_eq_gather, tree.collect_eq_error_iff⟩, ?_, ?_, ?_, ?_⟩
  · intro units token tree hleaves
    rw [tree.collect_eq_gather, hleaves, outcome, sequential_eq_gather]
  · intro plan
    refine ⟨x.parallel_eq_error_iff, fun w hw => ?_⟩
    rw [x.parallel_eq_ok hw, (x.gives_sequential _).outcome_never]
  · intro units token
    exact ⟨fun plan hplan => x.extract_inMode_true hplan, x.extract_inMode_false units token,
      x.extract_inMode_true_eq_error_iff, x.extract_inMode_false_eq_error_iff,
      x.extract_eq_cancelled_or_never units token, fun w hw => x.mem_of_extract_eq_ok hw⟩
  · intro token hsteady us vs
    exact ⟨fun isParallel => x.extract_inMode hsteady isParallel us,
      x.extract_eq_error_iff hsteady, x.extract_congr hsteady, x.extract_append hsteady us vs⟩

/-- A method that makes two calls. -/
def twoCalls : MethodDeclaration :=
  ⟨2, "M", [], some ⟨3, [.expression 4 (.invocation ⟨5, .identifier 6 "Clear", []⟩),
    .expression 7 (.invocation ⟨8, .identifier 9 "Reset", []⟩)]⟩, none, .zero⟩

/-- A model in which the method is marked and the given calls are resolved. -/
def twoCallsModel (resolved : List (NodeId × String)) : SemanticModel :=
  let bindings := resolved.map fun (id, name) =>
    (id, Symbol.method ⟨"Foo", name, [], [], [], false, none, none, []⟩)
  let declarations := [(1, .type ⟨"A", ["Base"], []⟩),
    (2, .method ⟨"A", "M", [], [], [], false, none, none, [⟨"Trusted", []⟩]⟩)]
  SymbolTable.model ⟨.ofList bindings, .ofList declarations⟩

def twoCallsClass : ClassDeclaration := ⟨1, "A", [], [.method twoCalls], .zero⟩

def twoCallsTree : SyntaxTree := ⟨"A.cs", 0, [.classType twoCallsClass]⟩

def twoCallsUnit (resolved : List (NodeId × String)) : ConfigurationUnit :=
  ⟨"A.cs", some twoCallsTree, some (twoCallsModel resolved)⟩

def trustingInterpreter : Interpreter := ⟨"MakeSafe", fun mark => mark.className == "Trusted"⟩

theorem acceptedClasses_twoCallsTree (resolved : List (NodeId × String)) :
    twoCallsTree.node.acceptedClasses (twoCallsModel resolved) (.derivedFrom "Base") =
      [twoCallsClass] := by
  simp only [SyntaxNode.acceptedClasses, SyntaxNode.preorder_eq, twoCallsTree, twoCallsClass,
    twoCalls, SyntaxTree.node, SyntaxNode.children, Declaration.children, Statement.children,
    Expression.children, List.map_cons, List.map_nil, List.flatMap_cons, List.flatMap_nil,
    List.append_nil, Option.toList_some, Option.toList_none]
  rfl

theorem contribution_twoCallsUnit (resolved : List (NodeId × String)) (isParallel : Bool) :
    contribution ⟨.derivedFrom "Base", trustingInterpreter, isParallel⟩ (twoCallsUnit resolved) =
      SortedSet.ofList
        (trustingInterpreter.registeredKeys (twoCallsModel resolved) twoCalls) := by
  simp only [contribution, twoCallsUnit, ConfigurationUnit.parts?, acceptedClasses_twoCallsTree,
    List.flatMap_singleton]
  exact congrArg SortedSet.ofList (List.flatMap_singleton _ twoCalls)

/-- The second unit gives the larger set, so that the merge starts from it. -/
theorem two_units_in_any_mode :
    let x : Extractor := ⟨.derivedFrom "Base", trustingInterpreter, true⟩
    let a := twoCallsUnit [(5, "Clear")]
    let b := twoCallsUnit [(5, "Clear"), (8, "Reset")]
    let keys : Whitelist := SortedSet.ofList [⟨"Foo.Clear()"⟩]
    let keys' : Whitelist := SortedSet.ofList [⟨"Foo.Clear()"⟩, ⟨"Foo.Reset()"⟩]
    (Reduction.merge (.merge (.leaf (.ok keys)) .identity) (.leaf (.ok keys'))).collect =
        (x.sequential .empty [a, b]).outcome .never ∧
      ∃ w, x.extract [a, b] .never = .ok w ∧
        { x with isParallel := false }.extract [b, a, b] .never = .ok w ∧
        x.parallel (.merge .identity (.merge (.leaf (a, .never)) (.leaf (b, .never)))) = .ok w ∧
        (x.sequential .empty [a, b]).outcome .never = .ok w ∧
        (∀ k, k ∈ w ↔ k = ⟨"Foo.Clear()"⟩ ∨ k = ⟨"Foo.Reset()"⟩) ∧
        x.extract [a, b] .always = .error .cancelled := by
  intro x a b keys keys'
  have ha : (x.unitKeys a).outcome .never = .ok keys := by
    rw [(x.gives_unitKeys a).outcome_never, contribution_twoCallsUnit]
    exact congrArg Except.ok (by decide)
  have hb : (x.unitKeys b).outcome .never = .ok keys' := by
    rw [(x.gives_unitKeys b).outcome_never, contribution_twoCallsUnit]
    exact congrArg Except.ok (by decide)
  have hnever : Token.never.IsSteady := fun _ _ => rfl
  have halways : Token.always.IsSteady := fun _ _ => rfl
  obtain ⟨-, hturns, hplan, hextract, hsteady⟩ := x.merge_tree_agrees_with_loop
  have hleaves : [.ok keys, .ok keys'] = x.turns .never .start [a, b] := by
    rw [x.turns_steady hnever, List.map_cons, List.map_cons, ha, hb, List.map_nil]
  let plan : Reduction (ConfigurationUnit × Token) :=
    .merge .identity (.merge (.leaf (a, .never)) (.leaf (b, .never)))
  obtain ⟨hparallel, -, -, -, -, hkeys⟩ := hextract [a, b] .never
  obtain ⟨-, herror, hmembers, -⟩ := hsteady .never hnever [a, b] [b, a, b]
  cases hw : x.extract [a, b] .never with
  | error e =>
      obtain ⟨unit, hunit, hcancelled⟩ := herror.1 hw
      simp only [List.mem_cons, List.not_mem_nil, or_false] at hunit
      rcases hunit with rfl | rfl
      · rw [ha] at hcancelled
        cases hcancelled
      · rw [hb] at hcancelled
        cases hcancelled
  | ok w =>
      have hw' : x.parallel plan = .ok w := (hparallel plan rfl).symm.trans hw
      refine ⟨hturns _ _ _ hleaves, w, rfl, ?_, hw', (hplan plan).2 w hw', ?_, ?_⟩
      · rw [(hsteady .never hnever _ []).1, ← hmembers (by simp), hw]
      · intro k
        rw [hkeys w hw]
        simp [ha, hb, keys, keys']
      · exact (hsteady .always halways [a, b] []).2.1.2 ⟨a, by simp, x.unitKeys_of_isFired a rfl⟩

end Extractor

end SafeCalls
