import SafeCalls.Extraction.Model

namespace SafeCalls

/-!
# Runs that only their polls can cut off

A run gives a value if there is a course, fixed by the moment at which the run starts, that it
keeps to under every token: the course names the moments of its polls, and the run ends cancelled
at the first of them at which the token has fired, and with the value if there is none. Runs that
are put together from such runs are of the same kind.
-/

namespace Watched

variable {α β : Type}

/-- The moments at which a run polls if nothing stops it, and the moment of its end. -/
structure Course where
  polled : List Moment
  last : Moment

namespace Course

/-- The polls of a course are counted one by one from the moment at which it starts. -/
structure CountsFrom (c : Course) (start : Moment) : Prop where
  polled_eq : c.polled.map Moment.polls = List.range' start.polls c.polled.length
  last_eq : c.last.polls = start.polls + c.polled.length

/-- How a course ends under a token, if it leads to the given value. -/
def ending (c : Course) (value : α) (token : Token) : Except Cancelled α × Moment :=
  match c.polled.find? token.isFired with
  | some moment => (.error .cancelled, { moment with polls := moment.polls + 1 })
  | none => (.ok value, c.last)

def append (c d : Course) : Course := ⟨c.polled ++ d.polled, d.last⟩

theorem CountsFrom.append {c d : Course} {start : Moment} (hc : c.CountsFrom start)
    (hd : d.CountsFrom c.last) : (c.append d).CountsFrom start := by
  constructor
  · rw [Course.append, List.map_append, hc.polled_eq, hd.polled_eq, hc.last_eq, List.length_append,
      List.range'_append_1]
  · rw [Course.append, hd.last_eq, hc.last_eq, List.length_append, Nat.add_assoc]

theorem ending_append (c d : Course) (a : α) (b : β) (token : Token) :
    (c.append d).ending b token =
      match c.ending a token with
      | (.error e, moment) => (.error e, moment)
      | (.ok _, _) => d.ending b token := by
  unfold ending append
  rw [List.find?_append]
  cases c.polled.find? token.isFired with
  | none => rfl
  | some moment => rfl

end Course

/-- Whatever the token, the run gives the value or is cut off at the first poll that sees the
token fired. -/
def Gives (run : Watched α) (value : α) : Prop :=
  ∀ start, ∃ c : Course, c.CountsFrom start ∧
    ∀ token, run.runFrom token start = c.ending value token

theorem runFrom_bind (run : Watched α) (next : α → Watched β) (token : Token) (moment : Moment) :
    (run >>= next).runFrom token moment =
      match run.runFrom token moment with
      | (.error e, moment) => (.error e, moment)
      | (.ok a, moment) => (next a).runFrom token moment := by
  change ExceptT.bindCont (fun a => next a token) (run.runFrom token moment).1
    (run.runFrom token moment).2 = _
  rcases run.runFrom token moment with ⟨_ | _, _⟩ <;> rfl

theorem runFrom_poll (token : Token) (moment : Moment) :
    poll.runFrom token moment =
      (if token.isFired moment then .error .cancelled else .ok (),
        { moment with polls := moment.polls + 1 }) := by
  change (if token.isFired moment then (throw .cancelled : ExceptT Cancelled (StateM Moment) Unit)
    else pure ()) { moment with polls := moment.polls + 1 } = _
  split <;> rfl

theorem runFrom_consult (consulted : Consulted α) (token : Token) (moment : Moment) :
    (consult consulted).runFrom token moment =
      (.ok consulted.answer, { moment with lookups := moment.lookups + consulted.lookups }) := rfl

theorem gives_pure (value : α) : (pure value : Watched α).Gives value := by
  intro start
  exact ⟨⟨[], start⟩, ⟨rfl, rfl⟩, fun _ => rfl⟩

theorem gives_poll : poll.Gives () := by
  intro start
  refine ⟨⟨[start], { start with polls := start.polls + 1 }⟩, ⟨rfl, rfl⟩, fun token => ?_⟩
  rw [runFrom_poll]
  cases h : token.isFired start <;> simp [Course.ending, h]

theorem gives_consult (consulted : Consulted α) : (consult consulted).Gives consulted.answer := by
  intro start
  exact ⟨⟨[], { start with lookups := start.lookups + consulted.lookups }⟩, ⟨rfl, rfl⟩,
    fun token => runFrom_consult consulted token start⟩

theorem Gives.bind {run : Watched α} {next : α → Watched β} {a : α} {b : β}
    (hrun : run.Gives a) (hnext : (next a).Gives b) : (run >>= next).Gives b := by
  intro start
  obtain ⟨c, hc, hcourse⟩ := hrun start
  obtain ⟨d, hd, hcourse'⟩ := hnext c.last
  refine ⟨c.append d, hc.append hd, fun token => ?_⟩
  rw [runFrom_bind, hcourse, Course.ending_append c d a b]
  cases h : c.polled.find? token.isFired with
  | some moment => simp only [Course.ending, h]
  | none =>
      simp only [Course.ending, h]
      exact hcourse' token

theorem Gives.poll_bind {next : Watched β} {b : β} (h : next.Gives b) :
    (poll >>= fun _ => next).Gives b :=
  gives_poll.bind h

theorem Gives.runFrom_never {run : Watched α} {value : α} (h : run.Gives value) (start : Moment) :
    (run.runFrom .never start).1 = .ok value := by
  obtain ⟨c, -, hcourse⟩ := h start
  have hfind : c.polled.find? Token.never.isFired = none :=
    List.find?_eq_none.2 fun _ _ => Bool.false_ne_true
  rw [hcourse, Course.ending, hfind]

theorem Gives.outcome_never {run : Watched α} {value : α} (h : run.Gives value) :
    run.outcome .never = .ok value :=
  h.runFrom_never .start

theorem Gives.runFrom_fst {run : Watched α} {value : α} (h : run.Gives value) (token : Token)
    (start : Moment) :
    (run.runFrom token start).1 = .error .cancelled ∨ (run.runFrom token start).1 = .ok value := by
  obtain ⟨c, -, hcourse⟩ := h start
  rw [hcourse, Course.ending]
  cases c.polled.find? token.isFired with
  | some moment => exact .inl rfl
  | none => exact .inr rfl

theorem Gives.outcome_eq {run : Watched α} {value : α} (h : run.Gives value) (token : Token) :
    run.outcome token = .error .cancelled ∨ run.outcome token = .ok value :=
  h.runFrom_fst token .start

end Watched

end SafeCalls
