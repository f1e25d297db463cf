import SafeCalls.Proofs.Agreement

namespace SafeCalls

/-!
# Extraction is sound and complete

The two rules by which a call registers a key, and the place where such a call has to stand, are
told here without the search, the passes and the merging that find it. Extraction finds exactly
the keys that they allow.
-/

namespace Extractor

/-- The key that a call in a method registers: by calling the entry point with a lambda, or
because the method carries the marker. -/
inductive Registers (x : Extractor) (model : SemanticModel) (m : MethodDeclaration)
    (call : Invocation) (k : CanonicalKey) : Prop
  | explicit {invoked target : Symbol} {a : Argument} {f : Lambda} {e : Expression}
      (hinvoked : model.symbolAt call.id = some invoked)
      (hname : invoked.name = x.interpreter.entryPoint)
      (harguments : call.arguments = [a])
      (hlambda : a.expression = .lambda f)
      (hbody : f.body = .expression e)
      (htarget : model.symbolAt e.id = some target)
      (hkey : target.canonicalKey? = some k)
  | trusted {declared target : Symbol} {a : Attribute}
      (hdeclared : model.declaredAt m.id = some declared)
      (hattribute : a ∈ declared.attributes)
      (hmarker : x.interpreter.isMarker a = true)
      (htarget : model.symbolAt call.id = some target)
      (hkey : target.canonicalKey? = some k)

/-- The call is a whole statement of the body of a method of a configuration class of the unit. -/
inductive Considers (x : Extractor) (unit : ConfigurationUnit) (model : SemanticModel)
    (m : MethodDeclaration) (call : Invocation) : Prop
  | intro {tree : SyntaxTree} {node : SyntaxNode} {c : ClassDeclaration} {body : Block}
      {id : NodeId}
      (htree : unit.tree = some tree)
      (hmodel : unit.model = some model)
      (hnode : tree.node.Reaches node)
      (hclass : (x.classifier.classify model node).answer = .ok (some c))
      (hmethod : .method m ∈ c.members)
      (hbody : m.body = some body)
      (hstatement : .expression id (.invocation call) ∈ body.statements)

/-- Some considered call in one of the units registers the key. -/
def Registered (x : Extractor) (units : List ConfigurationUnit) (k : CanonicalKey) : Prop :=
  ∃ unit ∈ units, ∃ model m call, x.Considers unit model m call ∧ x.Registers model m call k

end Extractor

theorem Block.mem_invocations {b : Block} {call : Invocation} :
    call ∈ b.invocations ↔ ∃ id, .expression id (.invocation call) ∈ b.statements := by
  rw [invocations, List.mem_filterMap]
  constructor
  · rintro ⟨s, hs, hcall⟩
    obtain ⟨id, rfl⟩ : ∃ id, s = .expression id (.invocation call) := by
      unfold Statement.invocation? at hcall
      split at hcall
      · next id inner =>
          obtain rfl := Option.some.inj hcall
          exact ⟨id, rfl⟩
      · cases hcall
    exact ⟨id, hs⟩
  · rintro ⟨id, hs⟩
    exact ⟨_, hs, rfl⟩

theorem ClassDeclaration.mem_methods {c : ClassDeclaration} {m : MethodDeclaration} :
    m ∈ c.methods ↔ .method m ∈ c.members := by
  rw [methods, List.mem_filterMap]
  constructor
  · rintro ⟨d, hd, hm⟩
    cases d with
    | method d =>
        obtain rfl : d = m := Option.some.inj hm
        exact hd
    | namespaceScope scope => cases hm
    | classType type => cases hm
    | member member => cases hm
  · intro hm
    exact ⟨_, hm, rfl⟩

theorem Invocation.lambdaBody?_eq_some_iff {call : Invocation} {e : Expression} :
    call.lambdaBody? = some e ↔ ∃ a f, call.arguments = [a] ∧ a.expression = .lambda f ∧
      f.body = .expression e := by
  constructor
  · intro h
    unfold lambdaBody? at h
    split at h
    · next id name f harguments =>
        unfold Lambda.bodyExpression? at h
        split at h
        · next body hbody =>
            obtain rfl := Option.some.inj h
            exact ⟨_, f, harguments, rfl, hbody⟩
        · cases h
    · cases h
  · rintro ⟨⟨id, name, _⟩, f, harguments, rfl, hbody⟩
    simp [lambdaBody?, harguments, Lambda.bodyExpression?, hbody]

namespace Interpreter

variable {i : Interpreter} {model : SemanticModel} {m : MethodDeclaration}

theorem keyAt?_eq_some_iff {id : NodeId} {k : CanonicalKey} :
    keyAt? model id = some k ↔ ∃ target, model.symbolAt id = some target ∧
      target.canonicalKey? = some k := by
  rw [keyAt?, Option.bind_eq_some_iff]

theorem target?_eq_some_iff {call : Invocation} {e : Expression} :
    i.target? model call = some e ↔ ∃ invoked, model.symbolAt call.id = some invoked ∧
      invoked.name = i.entryPoint ∧ call.lambdaBody? = some e := by
  unfold target?
  cases model.symbolAt call.id with
  | none => simp
  | some invoked =>
      by_cases hname : invoked.name = i.entryPoint <;> simp [hname]

theorem explicitKey?_eq_some_iff {call : Invocation} {k : CanonicalKey} :
    (i.explicitKey? model call).answer = some k ↔ ∃ e, i.target? model call = some e ∧
      keyAt? model e.id = some k := by
  unfold explicitKey?
  cases i.target? model call with
  | none => simp
  | some e => simp

theorem trust_eq_trustAllCalls_iff : (i.trust model m).answer = .trustAllCalls ↔
    ∃ declared, model.declaredAt m.id = some declared ∧
      ∃ a ∈ declared.attributes, i.isMarker a = true := by
  unfold trust
  cases model.declaredAt m.id with
  | none => simp
  | some declared => simp

theorem mem_registeredKeys {k : CanonicalKey} : k ∈ i.registeredKeys model m ↔
    ∃ body, m.body = some body ∧ ∃ call ∈ body.invocations,
      (i.explicitKey? model call).answer = some k ∨
        (i.trust model m).answer = .trustAllCalls ∧ keyAt? model call.id = some k := by
  unfold registeredKeys
  cases m.body with
  | none => simp
  | some body =>
      cases (i.trust model m).answer with
      | explicitOnly => simp
      | trustAllCalls => simp [trustedKey?, and_or_left, exists_or]

end Interpreter

namespace Extractor

variable {x : Extractor} {model : SemanticModel} {m : MethodDeclaration}

theorem registers_iff {call : Invocation} {k : CanonicalKey} : x.Registers model m call k ↔
    (x.interpreter.explicitKey? model call).answer = some k ∨
      (x.interpreter.trust model m).answer = .trustAllCalls ∧
        Interpreter.keyAt? model call.id = some k := by
  rw [Interpreter.explicitKey?_eq_some_iff, Interpreter.trust_eq_trustAllCalls_iff,
    Interpreter.keyAt?_eq_some_iff]
  constructor
  · intro h
    cases h with
    | explicit hinvoked hname harguments hlambda hbody htarget hkey =>
        have hcall := Invocation.lambdaBody?_eq_some_iff.2 ⟨_, _, harguments, hlambda, hbody⟩
        exact .inl ⟨_, Interpreter.target?_eq_some_iff.2 ⟨_, hinvoked, hname, hcall⟩,
          Interpreter.keyAt?_eq_some_iff.2 ⟨_, htarget, hkey⟩⟩
    | trusted hdeclared hattribute hmarker htarget hkey =>
        exact .inr ⟨⟨_, hdeclared, _, hattribute, hmarker⟩, _, htarget, hkey⟩
  · rintro (⟨e, he, hk⟩ | ⟨⟨declared, hdeclared, a, ha, hmarker⟩, target, htarget, hkey⟩)
    · obtain ⟨invoked, hinvoked, hname, hcall⟩ := Interpreter.target?_eq_some_iff.1 he
      obtain ⟨a, f, harguments, hlambda, hbody⟩ := Invocation.lambdaBody?_eq_some_iff.1 hcall
      obtain ⟨target, htarget, hkey⟩ := Interpreter.keyAt?_eq_some_iff.1 hk
      exact .explicit hinvoked hname harguments hlambda hbody htarget hkey
    · exact .trusted hdeclared ha hmarker htarget hkey

theorem mem_registeredKeys_iff {k : CanonicalKey} : k ∈ x.interpreter.registeredKeys model m ↔
    ∃ body id call, m.body = some body ∧ .expression id (.invocation call) ∈ body.statements ∧
      x.Registers model m call k := by
  rw [Interpreter.mem_registeredKeys]
  simp only [← registers_iff, Block.mem_invocations]
  constructor
  · rintro ⟨body, hbody, call, ⟨id, hstatement⟩, hregisters⟩
    exact ⟨body, id, call, hbody, hstatement, hregisters⟩
  · rintro ⟨body, id, call, hbody, hstatement, hregisters⟩
    exact ⟨body, hbody, call, ⟨id, hstatement⟩, hregisters⟩

theorem mem_contribution_iff {unit : ConfigurationUnit} {k : CanonicalKey} :
    k ∈ x.contribution unit ↔
      ∃ model m call, x.Considers unit model m call ∧ x.Registers model m call k := by
  obtain ⟨path, tree, model⟩ := unit
  constructor
  · intro h
    unfold contribution at h
    rcases tree with _ | tree
    · cases h
    rcases model with _ | model
    · cases h
    obtain ⟨m, hm, hk⟩ := List.mem_flatMap.1 (SortedSet.mem_ofList.1 h)
    obtain ⟨c, hc, hmethod⟩ := List.mem_flatMap.1 hm
    obtain ⟨node, hnode, hclass⟩ := (SyntaxNode.mem_acceptedClasses model x.classifier).1 hc
    obtain ⟨body, id, call, hbody, hstatement, hregisters⟩ := mem_registeredKeys_iff.1 hk
    exact ⟨model, m, call, ⟨rfl, rfl, hnode, hclass, ClassDeclaration.mem_methods.1 hmethod, hbody,
      hstatement⟩, hregisters⟩
  · rintro ⟨model, m, call, ⟨htree, hmodel, hnode, hclass, hmethod, hbody, hstatement⟩, hregisters⟩
    obtain rfl : tree = some _ := htree
    obtain rfl : _ = some model := hmodel
    have hkeys := mem_registeredKeys_iff.2 ⟨_, _, call, hbody, hstatement, hregisters⟩
    have hfound := (SyntaxNode.mem_acceptedClasses model x.classifier).2 ⟨_, hnode, hclass⟩
    have hm := List.mem_flatMap.2 ⟨_, hfound, ClassDeclaration.mem_methods.2 hmethod⟩
    exact SortedSet.mem_ofList.2 (List.mem_flatMap.2 ⟨m, hm, hkeys⟩)

/-- With a token that never fires there is a whitelist, the same in both modes and for every way
of merging, and it holds the keys that some considered call registers, and no other. -/
theorem extract_sound_and_complete (x : Extractor) (units : List ConfigurationUnit) :
    ∃ w, x.extract units .never = .ok w ∧
      (∀ plan : Reduction ConfigurationUnit, plan.leaves = units →
        x.parallel (plan.map fun unit => (unit, .never)) = .ok w) ∧
      ∀ k, k ∈ w ↔ x.Registered units k := by
  refine ⟨x.whitelist units, x.extract_never units, ?_, fun k => ?_⟩
  · rintro plan rfl
    exact x.parallel_never plan
  · simp only [mem_whitelist, mem_contribution_iff, Registered]

end Extractor

end SafeCalls
