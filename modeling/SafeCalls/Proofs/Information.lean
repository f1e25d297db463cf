import SafeCalls.Extraction.Setup
import SafeCalls.Proofs.Footprint
import SafeCalls.Proofs.Registered

namespace SafeCalls

/-!
# More information, more keys

A model may leave much open: what a name is bound to, what a node declares, which attributes and
which base types the declared symbol has. A unit may lack its model or its tree. No gap of this kind
lets extraction find a key that it does not find once the gap is closed.
-/

namespace Symbol

def baseTypes : Symbol → List String
  | type t => t.baseTypes
  | _ => []

/-- A symbol of the same kind, of which more attributes and base types may be known. -/
structure Within (s s' : Symbol) : Prop where
  kind_eq : s.kind = s'.kind
  attributes_subset : s.attributes ⊆ s'.attributes
  baseTypes_subset : s.baseTypes ⊆ s'.baseTypes

theorem Within.refl (s : Symbol) : s.Within s := ⟨rfl, fun _ h => h, fun _ h => h⟩

theorem Within.exists_type {t : TypeSymbol} {s' : Symbol} (h : (type t).Within s') :
    ∃ t', s' = type t' ∧ t.baseTypes ⊆ t'.baseTypes := by
  have hkind : s'.kind = .type := h.kind_eq.symm
  cases s' with
  | type t' => exact ⟨t', rfl, h.baseTypes_subset⟩
  | method _ => cases hkind
  | property _ => cases hkind
  | field _ => cases hkind
  | event _ => cases hkind
  | localVariable _ => cases hkind
  | parameter _ => cases hkind
  | namespaceName _ => cases hkind

end Symbol

/-- Every binding is in the other table as it is, and every declaration with a symbol of which at
least as much is known. -/
structure SymbolTable.Within (t t' : SymbolTable) : Prop where
  bindings_subset : t.bindings.entries ⊆ t'.bindings.entries
  declarations_within : ∀ id s, (id, s) ∈ t.declarations.entries →
    ∃ s', (id, s') ∈ t'.declarations.entries ∧ s.Within s'

structure SemanticModel.Within (model model' : SemanticModel) : Prop where
  symbolAt : ∀ id s, model.symbolAt id = some s → model'.symbolAt id = some s
  declaredAt : ∀ id s, model.declaredAt id = some s →
    ∃ s', model'.declaredAt id = some s' ∧ s.Within s'

/-- The tree stays as it is if it is there, and at least as much is known about it. -/
structure ConfigurationUnit.Within (u u' : ConfigurationUnit) : Prop where
  tree : ∀ t, u.tree = some t → u'.tree = some t
  model : ∀ model, u.model = some model → ∃ model', u'.model = some model' ∧ model.Within model'

theorem SemanticModel.Within.refl (model : SemanticModel) : model.Within model :=
  ⟨fun _ _ h => h, fun _ s h => ⟨s, h, .refl s⟩⟩

theorem ConfigurationUnit.Within.refl (u : ConfigurationUnit) : u.Within u :=
  ⟨fun _ h => h, fun model h => ⟨model, h, .refl model⟩⟩

theorem SymbolTable.Within.model {t t' : SymbolTable} (h : t.Within t') :
    t.model.Within t'.model where
  symbolAt id s hs :=
    SortedMap.get?_eq_some_iff.2 (h.bindings_subset (SortedMap.get?_eq_some_iff.1 hs))
  declaredAt id s hs := by
    obtain ⟨s', hs', hwithin⟩ := h.declarations_within id s (SortedMap.get?_eq_some_iff.1 hs)
    exact ⟨s', SortedMap.get?_eq_some_iff.2 hs', hwithin⟩

namespace Classifier

theorem judge_eq_accepted_iff {baseType : String} {c d : ClassDeclaration} {s : Option Symbol} :
    judge baseType c s = .ok (some d) ↔
      d = c ∧ ∃ t, s = some (.type t) ∧ baseType ∈ t.baseTypes := by
  rcases s with _ | s
  · simp [judge]
  · cases s with
    | type t =>
        by_cases hbase : t.derivesFrom baseType = true
        · simp_all [judge, TypeSymbol.derivesFrom, eq_comm]
        · simp_all [judge, TypeSymbol.derivesFrom]
    | method _ => simp [judge]
    | property _ => simp [judge]
    | field _ => simp [judge]
    | event _ => simp [judge]
    | localVariable _ => simp [judge]
    | parameter _ => simp [judge]
    | namespaceName _ => simp [judge]

theorem accepts_mono {baseType : String} {model model' : SemanticModel} (h : model.Within model')
    {node : SyntaxNode} {c : ClassDeclaration}
    (haccepts : ((derivedFrom baseType).classify model node).answer = .ok (some c)) :
    ((derivedFrom baseType).classify model' node).answer = .ok (some c) := by
  unfold derivedFrom at haccepts ⊢
  dsimp only at haccepts ⊢
  split at haccepts
  · next d =>
      obtain ⟨rfl, t, hdeclared, hbase⟩ := judge_eq_accepted_iff.1 haccepts
      obtain ⟨s', hdeclared', hwithin⟩ := h.declaredAt _ _ hdeclared
      obtain ⟨t', rfl, hsubset⟩ := hwithin.exists_type
      exact judge_eq_accepted_iff.2 ⟨rfl, t', hdeclared', hsubset hbase⟩
  · cases haccepts

end Classifier

namespace Extractor

variable {x : Extractor} {model model' : SemanticModel} {u u' : ConfigurationUnit}
  {m : MethodDeclaration} {call : Invocation} {k : CanonicalKey}

theorem Registers.mono (h : x.Registers model m call k) (hwithin : model.Within model') :
    x.Registers model' m call k := by
  cases h with
  | explicit hinvoked hname harguments hlambda hbody htarget hkey =>
      exact .explicit (hwithin.symbolAt _ _ hinvoked) hname harguments hlambda hbody
        (hwithin.symbolAt _ _ htarget) hkey
  | trusted hdeclared hattribute hmarker htarget hkey =>
      obtain ⟨s', hdeclared', hs'⟩ := hwithin.declaredAt _ _ hdeclared
      exact .trusted hdeclared' (hs'.attributes_subset hattribute) hmarker
        (hwithin.symbolAt _ _ htarget) hkey

theorem contribution_mono {baseType : String} (hclassifier : x.classifier = .derivedFrom baseType)
    (h : u.Within u') (hk : k ∈ x.contribution u) : k ∈ x.contribution u' := by
  obtain ⟨model, m, call, hconsiders, hregisters⟩ := mem_contribution_iff.1 hk
  obtain ⟨htree, hmodel, hnode, hclass, hmethod, hbody, hstatement⟩ := hconsiders
  obtain ⟨model', hmodel', hwithin⟩ := h.model _ hmodel
  rw [hclassifier] at hclass
  have hclass' := Classifier.accepts_mono hwithin hclass
  rw [← hclassifier] at hclass'
  exact mem_contribution_iff.2 ⟨model', m, call,
    ⟨h.tree _ htree, hmodel', hnode, hclass', hmethod, hbody, hstatement⟩, hregisters.mono hwithin⟩

theorem whitelist_mono {baseType : String} (hclassifier : x.classifier = .derivedFrom baseType)
    {us us' : List ConfigurationUnit} (h : ∀ u ∈ us, ∃ u' ∈ us', u.Within u')
    (hk : k ∈ x.whitelist us) : k ∈ x.whitelist us' := by
  obtain ⟨u, hu, hk⟩ := mem_whitelist.1 hk
  obtain ⟨u', hu', hwithin⟩ := h u hu
  exact mem_whitelist.2 ⟨u', hu', contribution_mono hclassifier hwithin hk⟩

theorem eq_contribution_of_outcome_eq_ok {token : Token} {w : Whitelist}
    (h : (x.unitKeys u).outcome token = .ok w) : w = x.contribution u := by
  rcases (x.gives_unitKeys u).outcome_eq token with hcancelled | hgiven
  · rw [hcancelled] at h
    cases h
  · rw [hgiven] at h
    exact (Except.ok.inj h).symm

theorem mem_iff_of_footprint {baseType : String} (hclassifier : x.classifier = .derivedFrom baseType)
    {fs : List DeclarationFootprint} (hfs : u.footprint? baseType x.interpreter = some fs)
    {token : Token} {w : Whitelist} (hw : (x.unitKeys u).outcome token = .ok w) :
    k ∈ w ↔ k ∈ footprintKeys x.interpreter.entryPoint fs := by
  rw [eq_contribution_of_outcome_eq_ok hw, mem_contribution_iff_footprint hclassifier, hfs]
  constructor
  · rintro ⟨_, heq, hk⟩
    exact Option.some.inj heq ▸ hk
  · intro hk
    exact ⟨fs, rfl, hk⟩

/-- Whatever is missing in a model, its tree has no key for it that it does not have without the gap.
The same goes for all units, of which some may lack their tree or their model and others may be
missing as a whole. -/
theorem missing_information_adds_no_key (settings : Settings) :
    (∀ (path : String) (tree : SyntaxTree) (t t' : SymbolTable), t.Within t' →
      let run (t : SymbolTable) := settings.extractor.unitKeys ⟨path, some tree, some t.model⟩
      (∃ w w', (run t).outcome .never = .ok w ∧ (run t').outcome .never = .ok w') ∧
      ∀ (token token' : Token) (w w' : Whitelist),
        (run t).outcome token = .ok w → (run t').outcome token' = .ok w' → ∀ k ∈ w, k ∈ w') ∧
    ∀ us us' : List ConfigurationUnit, (∀ u ∈ us, ∃ u' ∈ us', u.Within u') →
      (∃ w w', settings.extractor.extract us .never = .ok w ∧
        settings.extractor.extract us' .never = .ok w') ∧
      ∀ (token token' : Token) (w w' : Whitelist),
        settings.extractor.extract us token = .ok w →
          settings.extractor.extract us' token' = .ok w' → ∀ k ∈ w, k ∈ w' := by
  have hclassifier : settings.extractor.classifier =
      .derivedFrom settings.conventions.configurationBaseType := rfl
  constructor
  · intro path tree t t' h run
    have hunit : ConfigurationUnit.Within ⟨path, some tree, some t.model⟩
        ⟨path, some tree, some t'.model⟩ := by
      refine ⟨fun _ htree => htree, ?_⟩
      rintro _ ⟨⟩
      exact ⟨_, rfl, h.model⟩
    refine ⟨⟨_, _, (settings.extractor.gives_unitKeys _).outcome_never,
      (settings.extractor.gives_unitKeys _).outcome_never⟩, ?_⟩
    intro token token' w w' hw hw' k hk
    rw [eq_contribution_of_outcome_eq_ok hw] at hk
    rw [eq_contribution_of_outcome_eq_ok hw']
    exact contribution_mono hclassifier hunit hk
  · intro us us' h
    refine ⟨⟨_, _, settings.extractor.extract_never us, settings.extractor.extract_never us'⟩, ?_⟩
    intro token token' w w' hw hw' k hk
    rw [settings.extractor.extract_eq_ok hw] at hk
    rw [settings.extractor.extract_eq_ok hw']
    exact whitelist_mono hclassifier h hk

/-- A method that registers one member by a lambda and another only if it is marked. -/
def halfMarkedTree : SyntaxTree :=
  ⟨"A.cs", 0, [.classType ⟨1, "A", [], [.method ⟨2, "M", [], some ⟨3,
    [.expression 4 (.invocation ⟨5, .identifier 6 "MakeSafe",
        [⟨7, none, .lambda ⟨8, .simple, ["x"], .expression (.identifier 9 "Compute")⟩⟩]⟩),
      .expression 10 (.invocation ⟨11, .identifier 12 "Reset", []⟩)]⟩, none, .zero⟩], .zero⟩]⟩

/-- A table for this tree, with some of the attributes of the method and of the base types of the
class. -/
def halfMarkedTable (baseTypes : List String) (attributes : List Attribute) : SymbolTable where
  bindings := .ofList [(5, .method ⟨"Base", "MakeSafe", [], [], [], false, none, none, []⟩),
    (9, .method ⟨"Foo", "Compute", [], [], [], false, none, none, []⟩),
    (11, .method ⟨"Foo", "Reset", [], [], [], false, none, none, []⟩)]
  declarations := .ofList [(1, .type ⟨"A", baseTypes, []⟩),
    (2, .method ⟨"A", "M", [], [], [], false, none, none, attributes⟩)]

theorem halfMarkedTable_within {baseTypes baseTypes' : List String}
    {attributes attributes' : List Attribute} (hbaseTypes : baseTypes ⊆ baseTypes')
    (hattributes : attributes ⊆ attributes') :
    (halfMarkedTable baseTypes attributes).Within (halfMarkedTable baseTypes' attributes') where
  bindings_subset := fun _ h => h
  declarations_within id s h := by
    rcases List.mem_cons.1 h with h | h
    · cases h
      exact ⟨_, List.mem_cons_self, rfl, fun _ h => h, hbaseTypes⟩
    · cases List.mem_singleton.1 h
      exact ⟨_, List.mem_cons_of_mem _ List.mem_cons_self, rfl, hattributes, fun _ h => h⟩

theorem unknown_marker_adds_no_key :
    let x := Settings.default.extractor
    let base := "HotPathAllocationAnalyzer.Support.AllocationConfiguration"
    let t := halfMarkedTable [base] []
    let t' := halfMarkedTable ["Base", base] [⟨"MakeSafe", []⟩]
    let unit (t : SymbolTable) : ConfigurationUnit := ⟨"A.cs", some halfMarkedTree, some t.model⟩
    ∃ w w', (x.unitKeys (unit t)).outcome .never = .ok w ∧
      (x.unitKeys (unit t')).outcome .never = .ok w' ∧ (∀ k ∈ w, k ∈ w') ∧
      (∀ k, k ∈ w ↔ k = ⟨"Foo.Compute()"⟩) ∧ ⟨"Foo.Reset()"⟩ ∈ w' ∧
      ∃ v v', x.extract [⟨"A.cs", some halfMarkedTree, none⟩, unit t] .never = .ok v ∧
        x.extract [unit t, unit t'] .never = .ok v' ∧ ∀ k ∈ v, k ∈ v' := by
  intro x base t t' unit
  have hwithin : t.Within t' := halfMarkedTable_within (by simp) (by simp)
  have hadds := missing_information_adds_no_key Settings.default
  obtain ⟨⟨w, w', hw, hw'⟩, hsubset⟩ := hadds.1 "A.cs" halfMarkedTree t t' hwithin
  have hunit : ∀ u ∈ [⟨"A.cs", some halfMarkedTree, none⟩, unit t],
      ∃ u' ∈ [unit t, unit t'], u.Within u' := by
    intro u hu
    rcases List.mem_cons.1 hu with rfl | hu
    · exact ⟨unit t', by simp, fun _ htree => htree, by simp⟩
    · obtain rfl := List.mem_singleton.1 hu
      exact ⟨unit t, by simp, .refl _⟩
  obtain ⟨⟨v, v', hv, hv'⟩, hadded⟩ := hadds.2 _ _ hunit
  have hkeys : ((unit t).footprint? base x.interpreter).map (footprintKeys "MakeSafe") =
      some [⟨"Foo.Compute()"⟩] := by decide
  have hkeys' : ((unit t').footprint? base x.interpreter).map (footprintKeys "MakeSafe") =
      some [⟨"Foo.Compute()"⟩, ⟨"Base.MakeSafe()"⟩, ⟨"Foo.Reset()"⟩] := by decide
  obtain ⟨fs, hfs, hkeys⟩ := Option.map_eq_some_iff.1 hkeys
  obtain ⟨fs', hfs', hkeys'⟩ := Option.map_eq_some_iff.1 hkeys'
  refine ⟨w, w', hw, hw', hsubset _ _ _ _ hw hw', ?_, ?_, v, v', hv, hv', hadded _ _ _ _ hv hv'⟩
  · intro k
    have hmem : k ∈ w ↔ k ∈ footprintKeys "MakeSafe" fs := mem_iff_of_footprint rfl hfs hw
    rw [hmem, hkeys, List.mem_singleton]
  · have hmem : ⟨"Foo.Reset()"⟩ ∈ footprintKeys "MakeSafe" fs' → ⟨"Foo.Reset()"⟩ ∈ w' :=
      (mem_iff_of_footprint rfl hfs' hw').2
    apply hmem
    rw [hkeys']
    simp

end Extractor

end SafeCalls
