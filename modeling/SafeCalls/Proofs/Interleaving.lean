import Mathlib
import SafeCalls.Proofs.Agreement

namespace SafeCalls

/-!
# Cancellation while tasks are interleaved

The tasks of an extraction poll one signal in any order, and the signal may fire between any two
polls and then stays fired. A task is told by what its polls have seen: being deterministic, it
can be replayed under a token that shows it just that. An extraction of which no poll saw the
signal fired ends with the whitelist of an undisturbed one, and every other one ends cancelled.
-/

open Watched

namespace Reduction

variable {α β : Type}

/-- One leaf of a tree changes. -/
inductive Updates (R : α → α → Prop) : Reduction α → Reduction α → Prop
  | leaf {a b : α} (h : R a b) : Updates R (leaf a) (leaf b)
  | left {l l' r : Reduction α} (h : Updates R l l') : Updates R (merge l r) (merge l' r)
  | right {l r r' : Reduction α} (h : Updates R r r') : Updates R (merge l r) (merge l r')

def total (f : α → Nat) : Reduction α → Nat
  | identity => 0
  | leaf value => f value
  | merge left right => left.total f + right.total f

variable {R : α → α → Prop} {tree tree' : Reduction α}

theorem Updates.map_eq {f : α → β} (h : tree.Updates R tree')
    (hf : ∀ a b, R a b → f b = f a) : tree'.map f = tree.map f := by
  induction h with
  | leaf h => exact congrArg Reduction.leaf (hf _ _ h)
  | left h ih => exact congrArg (Reduction.merge · _) ih
  | right h ih => exact congrArg (Reduction.merge _) ih

theorem Updates.exists_of_mem_leaves (h : tree.Updates R tree') {b : α} (hb : b ∈ tree'.leaves) :
    b ∈ tree.leaves ∨ ∃ a ∈ tree.leaves, R a b := by
  induction h with
  | leaf h =>
      obtain rfl := List.mem_singleton.1 hb
      exact .inr ⟨_, List.mem_singleton_self _, h⟩
  | left h ih =>
      rcases List.mem_append.1 hb with hb | hb
      · rcases ih hb with hb | ⟨a, ha, hab⟩
        · exact .inl (List.mem_append_left _ hb)
        · exact .inr ⟨a, List.mem_append_left _ ha, hab⟩
      · exact .inl (List.mem_append_right _ hb)
  | right h ih =>
      rcases List.mem_append.1 hb with hb | hb
      · exact .inl (List.mem_append_left _ hb)
      · rcases ih hb with hb | ⟨a, ha, hab⟩
        · exact .inl (List.mem_append_right _ hb)
        · exact .inr ⟨a, List.mem_append_right _ ha, hab⟩

theorem Updates.total_lt {f : α → Nat} (h : tree.Updates R tree')
    (hf : ∀ a ∈ tree.leaves, ∀ b, R a b → f b < f a) : tree'.total f < tree.total f := by
  induction h with
  | leaf h => exact hf _ (List.mem_singleton_self _) _ h
  | left h ih =>
      have hlt := ih fun a ha => hf a (List.mem_append_left _ ha)
      exact Nat.add_lt_add_right hlt _
  | right h ih =>
      have hlt := ih fun a ha => hf a (List.mem_append_right _ ha)
      exact Nat.add_lt_add_left hlt _

theorem exists_updates {a b : α} (ha : a ∈ tree.leaves) (h : R a b) :
    ∃ tree', tree.Updates R tree' := by
  induction tree with
  | identity => exact absurd ha List.not_mem_nil
  | leaf value =>
      obtain rfl := List.mem_singleton.1 ha
      exact ⟨_, .leaf h⟩
  | merge left right ihl ihr =>
      rcases List.mem_append.1 ha with ha | ha
      · obtain ⟨left', hleft⟩ := ihl ha
        exact ⟨_, .left hleft⟩
      · obtain ⟨right', hright⟩ := ihr ha
        exact ⟨_, .right hright⟩

theorem map_congr {f g : α → β} (h : ∀ a ∈ tree.leaves, f a = g a) : tree.map f = tree.map g := by
  induction tree with
  | identity => rfl
  | leaf value => exact congrArg Reduction.leaf (h value (List.mem_singleton_self value))
  | merge left right ihl ihr =>
      rw [map, map, ihl fun a ha => h a (List.mem_append_left _ ha),
        ihr fun a ha => h a (List.mem_append_right _ ha)]

theorem map_id (tree : Reduction α) : (tree.map fun a => a) = tree := by
  induction tree with
  | identity => rfl
  | leaf value => rfl
  | merge left right ihl ihr => rw [map, ihl, ihr]

theorem map_map {γ : Type} (f : α → β) (g : β → γ) (tree : Reduction α) :
    (tree.map f).map g = tree.map fun a => g (f a) := by
  induction tree with
  | identity => rfl
  | leaf value => rfl
  | merge left right ihl ihr => rw [map, map, map, ihl, ihr]

end Reduction

/-- The token of a run whose polls see the given things one after another. -/
def Token.showing (seen : List Bool) : Token := ⟨fun moment => seen.getD moment.polls false⟩

/-- A run that is under way: what each of its polls so far has seen. -/
structure Task where
  run : Watched Whitelist
  seen : List Bool

namespace Task

def replay (t : Task) : Except Cancelled Whitelist × Moment :=
  t.run.runFrom (.showing t.seen) .start

/-- The polls that the run makes in all, if no further one sees the token fired. -/
def polls (t : Task) : Nat := t.replay.2.polls

/-- The run is not at its end but goes on to another poll. -/
def IsWaiting (t : Task) : Prop := t.seen.length < t.polls

instance (t : Task) : Decidable t.IsWaiting := inferInstanceAs (Decidable (_ < _))

/-- What a task has to be merged. One that was abandoned on its way has nothing. -/
def result (t : Task) : Except Cancelled Whitelist :=
  if t.IsWaiting then .ok SortedSet.empty else t.replay.1

inductive Polls (isFired : Bool) : Task → Task → Prop
  | intro {t : Task} (h : t.IsWaiting) : Polls isFired t ⟨t.run, t.seen ++ [isFired]⟩

end Task

/-- The signal and the tasks, in the tree in which their results are merged. -/
structure Situation where
  isFired : Bool
  tasks : Reduction Task

namespace Situation

def start (runs : Reduction (Watched Whitelist)) : Situation :=
  ⟨false, runs.map fun run => ⟨run, []⟩⟩

inductive Step : Situation → Situation → Prop
  | fire {tasks : Reduction Task} : Step ⟨false, tasks⟩ ⟨true, tasks⟩
  | poll {isFired : Bool} {tasks tasks' : Reduction Task}
      (h : tasks.Updates (Task.Polls isFired) tasks') : Step ⟨isFired, tasks⟩ ⟨isFired, tasks'⟩

/-- All tasks are at their end, or one of them was cancelled and the others are abandoned. -/
def IsOver (s : Situation) : Prop :=
  (∀ t ∈ s.tasks.leaves, ¬ t.IsWaiting) ∨
    ∃ t ∈ s.tasks.leaves, ¬ t.IsWaiting ∧ t.replay.1 = .error .cancelled

def SawFired (s : Situation) : Prop := ∃ t ∈ s.tasks.leaves, true ∈ t.seen

def result (s : Situation) : Except Cancelled Whitelist := (s.tasks.map Task.result).collect

end Situation

/-- The runs of an extraction: a single one that goes through all units, or one for each unit,
which are merged in any tree. -/
inductive Extractor.Arranges (x : Extractor) (units : List ConfigurationUnit) :
    Reduction (Watched Whitelist) → Prop
  | sequential (h : x.isParallel = false) : Arranges x units (.leaf (x.sequential .empty units))
  | parallel (h : x.isParallel = true) (plan : Reduction ConfigurationUnit)
      (hplan : plan.leaves = units) : Arranges x units (plan.map x.unitKeys)

/-! ## One task -/

theorem Token.showing_eq_false {seen : List Bool} (h : true ∉ seen) (moment : Moment) :
    (Token.showing seen).isFired moment = false := by
  change seen.getD moment.polls false = false
  rw [List.getD_eq_getElem?_getD]
  cases hget : seen[moment.polls]? with
  | none => rfl
  | some b =>
      cases b with
      | false => rfl
      | true => exact absurd (List.mem_of_getElem? hget) h

theorem Token.showing_append_eq_true_iff {before : List Bool} (h : true ∉ before)
    (moment : Moment) : (Token.showing (before ++ [true])).isFired moment = true ↔
      moment.polls = before.length := by
  change (before ++ [true]).getD moment.polls false = true ↔ _
  rcases Nat.lt_trichotomy moment.polls before.length with hlt | heq | hgt
  · have hfalse := Token.showing_eq_false h moment
    change before.getD moment.polls false = false at hfalse
    rw [List.getD_append _ _ _ _ hlt, hfalse]
    simp [Nat.ne_of_lt hlt]
  · simp [heq]
  · have hlength : (before ++ [true]).length ≤ moment.polls := by
      rw [List.length_append, List.length_singleton]
      exact hgt
    rw [List.getD_eq_default _ _ hlength]
    simp [Nat.ne_of_gt hgt]

namespace Watched

variable {α : Type}

/-- The number of polls of a course from the start on, as the length of what they see. -/
theorem Gives.exists_polls {run : Watched α} {value : α} (h : run.Gives value) :
    ∃ n, (∀ seen, true ∉ seen → ∃ last, run.runFrom (.showing seen) .start = (.ok value, last) ∧
        last.polls = n) ∧
      ∀ before, true ∉ before → before.length < n → ∃ last,
        run.runFrom (.showing (before ++ [true])) .start = (.error .cancelled, last) ∧
          last.polls = before.length + 1 := by
  obtain ⟨c, hcounts, hcourse⟩ := h .start
  refine ⟨c.polled.length, fun seen hseen => ?_, fun before hbefore hlength => ?_⟩
  · have hfind : c.polled.find? (Token.showing seen).isFired = none :=
      List.find?_eq_none.2 fun moment _ => by simp [Token.showing_eq_false hseen moment]
    refine ⟨c.last, ?_, ?_⟩
    · rw [hcourse, Course.ending, hfind]
    · rw [hcounts.last_eq]
      exact Nat.zero_add _
  · have hmem : before.length ∈ c.polled.map Moment.polls := by
      rw [hcounts.polled_eq, List.mem_range'_1]
      exact ⟨Nat.zero_le _, by simpa [Moment.start] using hlength⟩
    obtain ⟨moment, hmoment, hpolls⟩ := List.mem_map.1 hmem
    have hfired := (Token.showing_append_eq_true_iff hbefore moment).2 hpolls
    have hsome : (c.polled.find? (Token.showing (before ++ [true])).isFired).isSome :=
      List.find?_isSome.2 ⟨moment, hmoment, hfired⟩
    obtain ⟨found, hfound⟩ := Option.isSome_iff_exists.1 hsome
    have hcount := (Token.showing_append_eq_true_iff hbefore found).1 (List.find?_some hfound)
    refine ⟨{ found with polls := found.polls + 1 }, ?_, ?_⟩
    · rw [hcourse, Course.ending, hfound]
    · exact congrArg (· + 1) hcount

end Watched

namespace Task

/-- What has been seen is what the run can have seen: either nothing has fired and there may be
polls to come, or the last poll saw the token fired and cut the run off. -/
inductive Sound (t : Task) (value : Whitelist) : Prop
  | uncut (hseen : true ∉ t.seen) (hlength : t.seen.length ≤ t.polls)
      (hvalue : t.replay.1 = .ok value)
  | cut (hseen : true ∈ t.seen) (hlength : t.seen.length = t.polls)
      (hcut : t.replay.1 = .error .cancelled)

theorem sound_start {run : Watched Whitelist} {value : Whitelist} (h : run.Gives value) :
    (Task.mk run []).Sound value := by
  obtain ⟨n, hopen, -⟩ := h.exists_polls
  obtain ⟨last, hlast, -⟩ := hopen [] List.not_mem_nil
  exact .uncut List.not_mem_nil (Nat.zero_le _) (congrArg Prod.fst hlast)

/-- A poll keeps a task sound, and brings it nearer to its end. -/
theorem Sound.poll {t t' : Task} {value : Whitelist} {isFired : Bool} (h : t.Sound value)
    (hgives : t.run.Gives value) (hpoll : t.Polls isFired t') :
    t'.Sound value ∧ t'.polls - t'.seen.length < t.polls - t.seen.length := by
  obtain ⟨hwaiting⟩ := hpoll
  cases h with
  | cut _ hlength _ => exact absurd hlength (Nat.ne_of_lt hwaiting)
  | uncut hseen _ _ =>
      -- The run is uncut and has `n` polls in all, of which the next one is made here.
      obtain ⟨n, hopen, hcut⟩ := hgives.exists_polls
      obtain ⟨last, hlast, hpolls⟩ := hopen t.seen hseen
      have hn : t.polls = n := (congrArg (fun r => r.2.polls) hlast).trans hpolls
      have hlt : t.seen.length < n := hn ▸ hwaiting
      cases isFired with
      | false =>
          have hseen' : true ∉ t.seen ++ [false] := by simpa using hseen
          obtain ⟨last', hlast', hpolls'⟩ := hopen _ hseen'
          have hn' : (Task.mk t.run (t.seen ++ [false])).polls = n :=
            (congrArg (fun r => r.2.polls) hlast').trans hpolls'
          refine ⟨.uncut hseen' ?_ (congrArg Prod.fst hlast'), ?_⟩
          · rw [hn', List.length_append, List.length_singleton]
            exact hlt
          · rw [hn, hn', List.length_append, List.length_singleton]
            omega
      | true =>
          obtain ⟨last', hlast', hpolls'⟩ := hcut t.seen hseen hlt
          have hn' : (Task.mk t.run (t.seen ++ [true])).polls = t.seen.length + 1 :=
            (congrArg (fun r => r.2.polls) hlast').trans hpolls'
          refine ⟨.cut (by simp) ?_ (congrArg Prod.fst hlast'), ?_⟩
          · rw [hn', List.length_append, List.length_singleton]
          · rw [hn, hn', List.length_append, List.length_singleton]
            omega

end Task

/-! ## All tasks -/

namespace Situation

/-- What every step keeps: the runs and the tree they are in, and that every task is sound. -/
structure Invariant (runs : Reduction (Watched Whitelist)) (s : Situation) : Prop where
  runs_eq : s.tasks.map Task.run = runs
  sound : ∀ t ∈ s.tasks.leaves, ∃ value, t.run.Gives value ∧ t.Sound value

def remaining (s : Situation) : Nat :=
  (if s.isFired then 0 else 1) + s.tasks.total fun t => t.polls - t.seen.length

variable {runs : Reduction (Watched Whitelist)} {s next : Situation}

theorem invariant_start (h : ∀ run ∈ runs.leaves, ∃ value, run.Gives value) :
    (start runs).Invariant runs := by
  constructor
  · rw [start, Reduction.map_map]
    exact (Reduction.map_id runs)
  · intro t ht
    rw [start, Reduction.leaves_map] at ht
    obtain ⟨run, hrun, rfl⟩ := List.mem_map.1 ht
    obtain ⟨value, hvalue⟩ := h run hrun
    exact ⟨value, hvalue, Task.sound_start hvalue⟩

theorem Invariant.step (h : s.Invariant runs) (hstep : s.Step next) :
    next.Invariant runs ∧ next.remaining < s.remaining := by
  cases hstep with
  | fire => exact ⟨⟨h.runs_eq, h.sound⟩, Nat.add_lt_add_right Nat.zero_lt_one _⟩
  | poll hupdates =>
      refine ⟨⟨?_, ?_⟩, ?_⟩
      · rw [hupdates.map_eq fun t t' hpoll => by cases hpoll; rfl, h.runs_eq]
      · intro t' ht'
        rcases hupdates.exists_of_mem_leaves ht' with ht' | ⟨t, ht, hpoll⟩
        · exact h.sound t' ht'
        · obtain ⟨value, hgives, hsound⟩ := h.sound t ht
          have hsound' := (hsound.poll hgives hpoll).1
          cases hpoll
          exact ⟨value, hgives, hsound'⟩
      · refine Nat.add_lt_add_left (hupdates.total_lt fun t ht t' hpoll => ?_) _
        obtain ⟨value, hgives, hsound⟩ := h.sound t ht
        exact (hsound.poll hgives hpoll).2

theorem Invariant.reaches (h : s.Invariant runs) (hreach : Relation.ReflTransGen Step s next) :
    next.Invariant runs := by
  induction hreach with
  | refl => exact h
  | tail _ hstep ih => exact (ih.step hstep).1

theorem Invariant.acc (h : s.Invariant runs) : Acc (fun next s => Step s next) s := by
  induction hn : s.remaining using Nat.strongRecOn generalizing s with
  | ind n ih =>
      refine .intro s fun next hstep => ?_
      obtain ⟨hnext, hlt⟩ := h.step hstep
      exact ih next.remaining (hn ▸ hlt) hnext rfl

theorem exists_step (h : ¬ s.IsOver) : ∃ next, s.Step next := by
  have hwaiting : ∃ t ∈ s.tasks.leaves, t.IsWaiting := by
    apply Classical.byContradiction
    intro hnone
    exact h (.inl fun t ht hwaiting => hnone ⟨t, ht, hwaiting⟩)
  obtain ⟨t, ht, hwaiting⟩ := hwaiting
  obtain ⟨tasks, hupdates⟩ := Reduction.exists_updates ht (Task.Polls.intro hwaiting)
  exact ⟨⟨s.isFired, tasks⟩, .poll hupdates⟩

theorem Invariant.result_of_sawFired (h : s.Invariant runs) (hsaw : s.SawFired) :
    s.result = .error .cancelled := by
  obtain ⟨t, ht, hseen⟩ := hsaw
  obtain ⟨value, -, hsound⟩ := h.sound t ht
  rw [result, Reduction.collect_eq_error_iff, Reduction.leaves_map]
  refine List.mem_map.2 ⟨t, ht, ?_⟩
  cases hsound with
  | uncut hunseen _ _ => exact absurd hseen hunseen
  | cut _ hlength hcut =>
      have hended : ¬ t.IsWaiting := fun hwaiting => absurd hlength (Nat.ne_of_lt hwaiting)
      rw [Task.result, if_neg hended, hcut]

theorem Invariant.result_of_not_sawFired (h : s.Invariant runs) (hover : s.IsOver)
    (hsaw : ¬ s.SawFired) : s.result = (runs.map fun run => run.outcome .never).collect := by
  have huncut : ∀ t ∈ s.tasks.leaves, t.replay.1 = t.run.outcome .never := by
    intro t ht
    obtain ⟨value, hgives, hsound⟩ := h.sound t ht
    cases hsound with
    | uncut _ _ hvalue => rw [hvalue, hgives.outcome_never]
    | cut hseen _ _ => exact absurd ⟨t, ht, hseen⟩ hsaw
  -- No task can have been abandoned, because none was cancelled.
  have hended : ∀ t ∈ s.tasks.leaves, ¬ t.IsWaiting := by
    rcases hover with hended | ⟨t, ht, -, hcancelled⟩
    · exact hended
    · obtain ⟨value, hgives, -⟩ := h.sound t ht
      rw [huncut t ht, hgives.outcome_never] at hcancelled
      cases hcancelled
  rw [result, ← h.runs_eq, Reduction.map_map]
  refine congrArg Reduction.collect (Reduction.map_congr fun t ht => ?_)
  rw [Task.result, if_neg (hended t ht), huncut t ht]

end Situation

namespace Extractor

variable {x : Extractor} {units : List ConfigurationUnit} {runs : Reduction (Watched Whitelist)}

theorem Arranges.gives (h : x.Arranges units runs) :
    ∀ run ∈ runs.leaves, ∃ value, run.Gives value := by
  intro run hrun
  cases h with
  | sequential _ =>
      obtain rfl := List.mem_singleton.1 hrun
      exact ⟨_, x.gives_sequential units⟩
  | parallel _ plan _ =>
      rw [Reduction.leaves_map] at hrun
      obtain ⟨unit, -, rfl⟩ := List.mem_map.1 hrun
      exact ⟨_, x.gives_unitKeys unit⟩

theorem Arranges.collect_never (h : x.Arranges units runs) :
    (runs.map fun run => run.outcome .never).collect = x.extract units .never := by
  rw [x.extract_never]
  cases h with
  | sequential _ => exact (x.gives_sequential units).outcome_never
  | parallel _ plan hplan =>
      rw [← hplan, ← x.parallel_never, Extractor.parallel, Reduction.map_map, Reduction.map_map]

/-- However the polls are interleaved and whenever the signal fires, an extraction comes to an
end: with no whitelist if a poll saw the signal fired, and else with the whole one. -/
theorem cancellation_is_all_or_nothing {s : Situation} (hruns : x.Arranges units runs)
    (hreach : Relation.ReflTransGen Situation.Step (.start runs) s) :
    Acc (fun next s => Situation.Step s next) s ∧
    (¬ s.IsOver → ∃ next, s.Step next) ∧
    (s.SawFired → s.result = .error .cancelled) ∧
    (s.IsOver → ¬ s.SawFired → s.result = x.extract units .never) ∧
    (∀ w, s.IsOver → s.result = .ok w → x.extract units .never = .ok w) ∧
    ∀ token, x.extract units token = .error .cancelled ∨
      x.extract units token = x.extract units .never := by
  have hinvariant := (Situation.invariant_start hruns.gives).reaches hreach
  have hwhole : s.IsOver → ¬ s.SawFired → s.result = x.extract units .never := by
    intro hover hsaw
    rw [hinvariant.result_of_not_sawFired hover hsaw, hruns.collect_never]
  refine ⟨hinvariant.acc, Situation.exists_step, hinvariant.result_of_sawFired, hwhole, ?_,
    x.extract_eq_cancelled_or_never units⟩
  intro w hover hw
  have hsaw : ¬ s.SawFired := by
    intro hsaw
    rw [hinvariant.result_of_sawFired hsaw] at hw
    cases hw
  rw [← hwhole hover hsaw, hw]

def emptyUnit : ConfigurationUnit :=
  ⟨"A.cs", some ⟨"A.cs", ⟨0, []⟩⟩, some ⟨fun _ => none, fun _ => none⟩⟩

def missingUnit : ConfigurationUnit := ⟨"B.cs", none, none⟩

def sideBySide (x : Extractor) (seen seen' : List Bool) : Reduction Task :=
  .merge (.leaf ⟨x.unitKeys emptyUnit, seen⟩) (.leaf ⟨x.unitKeys missingUnit, seen'⟩)

/-- The signal fires when the first task is over and the second has not begun. -/
theorem cancelled_between_two_tasks :
    let x : Extractor := ⟨.derivedFrom "Base", ⟨"MakeSafe", fun _ => false⟩, true⟩
    (Situation.mk true (x.sideBySide [false, false] [true])).result = .error .cancelled := by
  intro x
  have hruns : x.Arranges [emptyUnit, missingUnit]
      (.merge (.leaf (x.unitKeys emptyUnit)) (.leaf (x.unitKeys missingUnit))) :=
    .parallel rfl (.merge (.leaf emptyUnit) (.leaf missingUnit)) rfl
  have hfirst : Situation.Step ⟨false, x.sideBySide [] []⟩ ⟨false, x.sideBySide [false] []⟩ :=
    .poll (.left (.leaf (.intro (by unfold Task.IsWaiting; cbv))))
  have hsecond : Situation.Step ⟨false, x.sideBySide [false] []⟩
      ⟨false, x.sideBySide [false, false] []⟩ :=
    .poll (.left (.leaf (.intro (by unfold Task.IsWaiting; cbv))))
  have hthird : Situation.Step ⟨true, x.sideBySide [false, false] []⟩
      ⟨true, x.sideBySide [false, false] [true]⟩ :=
    .poll (.right (.leaf (.intro (by unfold Task.IsWaiting; cbv))))
  have hall := cancellation_is_all_or_nothing hruns
    (((Relation.ReflTransGen.single hfirst).tail hsecond).tail .fire |>.tail hthird)
  apply hall.2.2.1
  exact ⟨_, List.mem_append_right _ (List.mem_singleton_self _), List.mem_singleton_self _⟩

end Extractor

end SafeCalls
