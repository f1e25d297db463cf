import SafeCalls.Pass.Basic
import SafeCalls.Proofs.Interleaving

namespace SafeCalls

/-!
# Tokens that have fired beforehand

Every unit polls before it does anything else. A token that has fired before an extraction begins
therefore cancels it, whether the units are gone through one after another or are tasks whose polls
are interleaved. Without units nothing polls at all: the extraction ends with an empty whitelist,
and a pass over a project without documents completes.
-/

open Watched

namespace Extractor

variable (x : Extractor) {token : Token}

theorem sequential_of_isFired (total : Aggregator) {units : List ConfigurationUnit}
    (hunits : units ≠ []) (h : token.isFired .start = true) :
    (x.sequential total units).outcome token = .error .cancelled := by
  cases units with
  | nil => exact absurd rfl hunits
  | cons unit more =>
      have hunit := x.unitKeys_of_isFired unit h
      rw [outcome, sequential, runFrom_bind]
      rcases hrun : (x.unitKeys unit).runFrom token .start with ⟨e | keys, next⟩
      · rfl
      · rw [hrun] at hunit
        cases hunit

theorem parallel_of_isFired {plan : Reduction (ConfigurationUnit × Token)}
    {leaf : ConfigurationUnit × Token} (hleaf : leaf ∈ plan.leaves)
    (h : leaf.2.isFired .start = true) : x.parallel plan = .error .cancelled :=
  x.parallel_eq_error_iff.2 ⟨leaf, hleaf, x.unitKeys_of_isFired leaf.1 h⟩

theorem extract_of_isFired (units : List ConfigurationUnit) (h : token.isFired .start = true) :
    x.extract units token =
      if units = [] then .ok SortedSet.empty else .error .cancelled := by
  cases units with
  | nil =>
      rw [extract]
      split
      · rw [parallel_eq_gather, Reduction.leaves_balanced]
        rfl
      · rfl
  | cons unit more =>
      rw [extract]
      split
      · have hleaf : (unit, token) ∈
            (Reduction.balanced ((unit :: more).map fun unit => (unit, token))).leaves := by
          rw [Reduction.leaves_balanced]
          exact List.mem_cons_self
        exact x.parallel_of_isFired hleaf h
      · exact x.sequential_of_isFired .empty (List.cons_ne_nil unit more) h

end Extractor

/-! ## Interleaved tasks -/

/-- A run that a fired token cuts off polls at least once. -/
theorem Task.polls_pos {run : Watched Whitelist} {value : Whitelist} (h : run.Gives value)
    (hcancelled : run.outcome .always = .error .cancelled) : 0 < (Task.mk run []).polls := by
  obtain ⟨c, hcounts, hcourse⟩ := h .start
  have hnever : c.polled.find? (Token.showing []).isFired = none :=
    List.find?_eq_none.2 fun moment _ => by simp [Token.showing_eq_false List.not_mem_nil moment]
  have hpolls : (Task.mk run []).polls = c.polled.length := by
    rw [polls, replay, hcourse, Course.ending, hnever]
    exact hcounts.last_eq.trans (Nat.zero_add _)
  rw [hpolls, List.length_pos_iff]
  intro hnone
  rw [outcome, hcourse, Course.ending, hnone] at hcancelled
  cases hcancelled

namespace Situation

/-- The start of an extraction whose signal has been given before. -/
def startFired (runs : Reduction (Watched Whitelist)) : Situation :=
  ⟨true, (start runs).tasks⟩

/-- The signal has been given, and no poll has been made before that. -/
structure OnlyFired (s : Situation) : Prop where
  isFired : s.isFired = true
  seen : ∀ t ∈ s.tasks.leaves, false ∉ t.seen

variable {runs : Reduction (Watched Whitelist)} {s next : Situation}

theorem onlyFired_startFired : (startFired runs).OnlyFired := by
  refine ⟨rfl, fun t ht => ?_⟩
  rw [startFired, start, Reduction.leaves_map] at ht
  obtain ⟨run, -, rfl⟩ := List.mem_map.1 ht
  exact List.not_mem_nil

theorem OnlyFired.step (h : s.OnlyFired) (hstep : s.Step next) : next.OnlyFired := by
  cases hstep with
  | fire => cases h.isFired
  | @poll isFired _ _ hupdates =>
      refine ⟨h.isFired, fun t' ht' => ?_⟩
      rcases hupdates.exists_of_mem_leaves ht' with ht' | ⟨t, ht, hpoll⟩
      · exact h.seen t' ht'
      · have hfired : isFired = true := h.isFired
        cases hpoll
        rw [List.mem_append, List.mem_singleton, hfired, not_or]
        exact ⟨h.seen t ht, Bool.false_ne_true⟩

theorem OnlyFired.reaches (h : s.OnlyFired) (hreach : Relation.ReflTransGen Step s next) :
    next.OnlyFired := by
  induction hreach with
  | refl => exact h
  | tail _ hstep ih => exact ih.step hstep

/-- Where every run polls, no task can end without having seen the signal. -/
theorem Invariant.sawFired (h : s.Invariant runs) (honly : s.OnlyFired) (hover : s.IsOver)
    (hruns : runs.leaves ≠ [])
    (hcancelled : ∀ run ∈ runs.leaves, run.outcome .always = .error .cancelled) : s.SawFired := by
  have hrun : ∀ t ∈ s.tasks.leaves, t.run ∈ runs.leaves := by
    intro t ht
    rw [← h.runs_eq, Reduction.leaves_map]
    exact List.mem_map_of_mem ht
  obtain ⟨t, ht, hended⟩ : ∃ t ∈ s.tasks.leaves, ¬ t.IsWaiting := by
    rcases hover with hended | ⟨t, ht, hended, -⟩
    · rw [← h.runs_eq, Reduction.leaves_map, Ne, List.map_eq_nil_iff] at hruns
      obtain ⟨t, ht⟩ := List.exists_mem_of_ne_nil _ hruns
      exact ⟨t, ht, hended t ht⟩
    · exact ⟨t, ht, hended⟩
  obtain ⟨value, hgives, hsound⟩ := h.sound t ht
  cases hsound with
  | cut hseen _ _ => exact ⟨t, ht, hseen⟩
  | uncut hseen _ _ =>
      -- Such a task has not polled at all, and still has to.
      have hnone : t.seen = [] := by
        apply List.eq_nil_iff_forall_not_mem.2
        rintro (_ | _)
        · exact honly.seen t ht
        · exact hseen
      have hpos := Task.polls_pos hgives (hcancelled t.run (hrun t ht))
      obtain ⟨run, seen⟩ := t
      obtain rfl : seen = [] := hnone
      exact absurd hpos hended

end Situation

theorem Extractor.Arranges.outcome_always {x : Extractor} {units : List ConfigurationUnit}
    {runs : Reduction (Watched Whitelist)} (h : x.Arranges units runs) (hunits : units ≠ []) :
    runs.leaves ≠ [] ∧ ∀ run ∈ runs.leaves, run.outcome .always = .error .cancelled := by
  cases h with
  | sequential _ =>
      refine ⟨List.cons_ne_nil _ _, fun run hrun => ?_⟩
      obtain rfl := List.mem_singleton.1 hrun
      exact x.sequential_of_isFired .empty hunits rfl
  | parallel _ plan hplan =>
      rw [Reduction.leaves_map, hplan]
      refine ⟨fun hnone => hunits (List.map_eq_nil_iff.1 hnone), fun run hrun => ?_⟩
      obtain ⟨unit, -, rfl⟩ := List.mem_map.1 hrun
      exact x.unitKeys_of_isFired unit rfl

/-! ## Passes -/

section Pass

variable {ω δ : Type} (x : Extractor) (load : StateM ω (Except ProjectError (Project δ)))
  (resolve : δ → StateM ω ConfigurationUnit)

theorem length_run_mapM (documents : List δ) (world : ω) :
    ((documents.mapM resolve).run world).1.length = documents.length := by
  induction documents generalizing world with
  | nil => rfl
  | cons document more ih =>
      rw [List.mapM_cons, StateT.run_bind]
      exact congrArg (· + 1) (ih _)

theorem outcome_of_isFired (p : Project δ) {token : Token} (h : token.isFired .start = true)
    {units : List ConfigurationUnit} (hlength : units.length = p.documents.length) :
    p.outcome x units token =
      if p.documents = [] then .completed ⟨p.name, p.descriptor, SortedSet.empty, 0, 0⟩
      else .cancelled := by
  have hempty : units = [] ↔ p.documents = [] := by
    rw [← List.length_eq_zero_iff, hlength, List.length_eq_zero_iff]
  rw [Project.outcome, x.extract_of_isFired units h]
  by_cases hunits : units = []
  · rw [if_pos hunits, if_pos (hempty.1 hunits), hunits]
    rfl
  · rw [if_neg hunits, if_neg (mt hempty.2 hunits)]

variable {token : Token} (isEarly isInterrupting : Bool) (world : ω)

theorem run_runPass_of_isFired (h : token.isFired .start = true) :
    ((runPass x load resolve ⟨isEarly, isInterrupting, token⟩).run world).1 =
      if isEarly then .ok .cancelled
      else
        match (load.run world).1 with
        | .error e => .error (.configuration e)
        | .ok p =>
            if isInterrupting then .ok .cancelled
            else if p.documents = [] then
              .ok (.completed ⟨p.name, p.descriptor, SortedSet.empty, 0, 0⟩)
            else .ok .cancelled := by
  cases isEarly with
  | true => rfl
  | false =>
      rw [runPass, if_neg Bool.false_ne_true, if_neg Bool.false_ne_true, StateT.run_bind]
      rcases load.run world with ⟨e | p, next⟩
      · rfl
      · cases isInterrupting with
        | true => rfl
        | false =>
            have hlength := length_run_mapM resolve p.documents next
            have houtcome := outcome_of_isFired x p h hlength
            show Except.ok (p.outcome x ((p.documents.mapM resolve).run next).1 token) = _
            rw [houtcome]
            exact apply_ite Except.ok (p.documents = []) _ _

theorem run_runPass_eq_completed_iff (h : token.isFired .start = true) {g : GeneratedWhitelist} :
    ((runPass x load resolve ⟨isEarly, isInterrupting, token⟩).run world).1 =
        .ok (.completed g) ↔
      isEarly = false ∧ isInterrupting = false ∧ ∃ p, (load.run world).1 = .ok p ∧
        p.documents = [] ∧ g = ⟨p.name, p.descriptor, SortedSet.empty, 0, 0⟩ := by
  rw [run_runPass_of_isFired x load resolve isEarly isInterrupting world h]
  cases isEarly with
  | true => simp
  | false =>
      cases (load.run world).1 with
      | error e => simp
      | ok p =>
          cases isInterrupting with
          | true => simp
          | false => by_cases hnone : p.documents = [] <;> simp [hnone, eq_comm]

theorem run_runPass_eq_error_iff (h : token.isFired .start = true) {e : PassError} :
    ((runPass x load resolve ⟨isEarly, isInterrupting, token⟩).run world).1 = .error e ↔
      isEarly = false ∧ ∃ failure, (load.run world).1 = .error failure ∧
        e = .configuration failure := by
  rw [run_runPass_of_isFired x load resolve isEarly isInterrupting world h]
  cases isEarly with
  | true => simp
  | false =>
      cases (load.run world).1 with
      | error failure => simp [eq_comm]
      | ok p =>
          cases isInterrupting with
          | true => simp
          | false => by_cases hnone : p.documents = [] <;> simp [hnone]

end Pass

namespace Extractor

/-- A token that has fired before an extraction begins cancels it if there is any unit, in every
order in which tasks poll and are merged. Without units the extraction ends with an empty whitelist
all the same. So a pass whose signal comes before the extraction completes only if the project has
no documents and the signal is neither seen early nor while the documents are resolved. -/
theorem fired_token_cancels_units (x : Extractor) (token : Token)
    (h : token.isFired .start = true) :
    (∀ units : List ConfigurationUnit,
      x.extract units token = if units = [] then .ok SortedSet.empty else .error .cancelled) ∧
    (∀ (units : List ConfigurationUnit) (runs : Reduction (Watched Whitelist)) (s : Situation),
      units ≠ [] → x.Arranges units runs →
      Relation.ReflTransGen Situation.Step (.startFired runs) s →
      Acc (fun next s => Situation.Step s next) s ∧ (¬ s.IsOver → ∃ next, s.Step next) ∧
        (s.IsOver → s.result = .error .cancelled)) ∧
    ∀ (ω δ : Type) (load : StateM ω (Except ProjectError (Project δ)))
      (resolve : δ → StateM ω ConfigurationUnit) (isEarly isInterrupting : Bool) (world : ω),
      let outcome := ((runPass x load resolve ⟨isEarly, isInterrupting, token⟩).run world).1
      (∀ g, outcome = .ok (.completed g) ↔
        isEarly = false ∧ isInterrupting = false ∧ ∃ p, (load.run world).1 = .ok p ∧
          p.documents = [] ∧ g = ⟨p.name, p.descriptor, SortedSet.empty, 0, 0⟩) ∧
      ∀ e, outcome = .error e ↔
        isEarly = false ∧ ∃ failure, (load.run world).1 = .error failure ∧
          e = .configuration failure := by
  refine ⟨fun units => x.extract_of_isFired units h, ?_, ?_⟩
  · intro units runs s hunits hruns hreach
    have hstart : (Situation.startFired runs).Invariant runs := by
      have hfalse := Situation.invariant_start hruns.gives
      exact ⟨hfalse.runs_eq, hfalse.sound⟩
    have hinvariant := hstart.reaches hreach
    have honly := Situation.onlyFired_startFired.reaches hreach
    obtain ⟨hleaves, hcancelled⟩ := hruns.outcome_always hunits
    refine ⟨hinvariant.acc, Situation.exists_step, fun hover => ?_⟩
    exact hinvariant.result_of_sawFired (hinvariant.sawFired honly hover hleaves hcancelled)
  · intro ω δ load resolve isEarly isInterrupting world
    exact ⟨fun g => run_runPass_eq_completed_iff x load resolve isEarly isInterrupting world h,
      fun e => run_runPass_eq_error_iff x load resolve isEarly isInterrupting world h⟩

/-- Two units are cancelled either way, and so is a pass over a project with a document. -/
theorem fired_token_cancels_two_units :
    let x := Settings.default.extractor
    let project : Project ConfigurationUnit := ⟨⟨"P.csproj"⟩, "P", SortedMap.empty, [emptyUnit]⟩
    let load : StateM Unit (Except ProjectError (Project ConfigurationUnit)) := pure (.ok project)
    Token.always.isFired .start = true ∧
      x.extract [emptyUnit, missingUnit] .always = .error .cancelled ∧
      { x with isParallel := false }.extract [emptyUnit, missingUnit] .always =
        .error .cancelled ∧
      ∀ g, ((runPass x load pure ⟨false, false, .always⟩).run ()).1 ≠ .ok (.completed g) := by
  intro x project load
  have hall := fired_token_cancels_units x .always rfl
  have hsequential := fired_token_cancels_units { x with isParallel := false } .always rfl
  have hunits : [emptyUnit, missingUnit] ≠ [] := List.cons_ne_nil _ _
  refine ⟨rfl, ?_, ?_, fun g hcompleted => ?_⟩
  · rw [hall.1, if_neg hunits]
  · rw [hsequential.1, if_neg hunits]
  · obtain ⟨-, -, p, hload, hnone, -⟩ :=
      ((hall.2.2 Unit ConfigurationUnit load pure false false ()).1 g).1 hcompleted
    obtain rfl : project = p := Except.ok.inj hload
    cases hnone

/-- Nothing notices the fired token where there are no units. -/
theorem extract_no_units_ne_cancelled :
    let x := Settings.default.extractor
    let project : Project ConfigurationUnit := ⟨⟨"P.csproj"⟩, "P", SortedMap.empty, []⟩
    let load : StateM Unit (Except ProjectError (Project ConfigurationUnit)) := pure (.ok project)
    Token.always.isFired .start = true ∧
      x.extract [] .always = .ok SortedSet.empty ∧ x.extract [] .always ≠ .error .cancelled ∧
      { x with isParallel := false }.extract [] .always ≠ .error .cancelled ∧
      ((runPass x load pure ⟨false, false, .always⟩).run ()).1 =
        .ok (.completed ⟨"P", ⟨"P.csproj"⟩, SortedSet.empty, 0, 0⟩) := by
  intro x project load
  have hextract : ∀ y : Extractor, y.extract [] .always = .ok SortedSet.empty :=
    fun y => y.extract_of_isFired [] rfl
  refine ⟨rfl, hextract x, ?_, ?_, ?_⟩
  · rw [hextract]
    rintro ⟨⟩
  · rw [hextract]
    rintro ⟨⟩
  · apply (run_runPass_eq_completed_iff x load pure false false () rfl).2
    exact ⟨rfl, rfl, project, rfl, rfl, rfl⟩

end Extractor

end SafeCalls
