import Mathlib.Data.List.Forall2

namespace SafeCalls

/-!
# Outcomes of steps

A chain of steps that can fail succeeds just if every step does, so a success can be taken apart
into those of the steps. One outcome keeps another if it succeeds whenever the other does, and with
the same value. Chains keep what their steps keep.
-/

section

variable {ε ε' α β : Type} {x : Except ε α}

theorem bind_eq_ok {next : α → Except ε β} {b : β} :
    x >>= next = .ok b ↔ ∃ a, x = .ok a ∧ next a = .ok b := by
  cases x <;> simp [bind, Except.bind]

theorem map_eq_ok {f : α → β} {b : β} : x.map f = .ok b ↔ ∃ a, x = .ok a ∧ f a = b := by
  cases x <;> simp [Except.map]

@[simp] theorem mapError_ok (f : ε → ε') (a : α) :
    (Except.ok a : Except ε α).mapError f = .ok a := rfl

theorem mapError_eq_ok {f : ε → ε'} {a : α} : x.mapError f = .ok a ↔ x = .ok a := by
  cases x <;> simp [Except.mapError]

theorem toOption_eq_some {a : α} : x.toOption = some a ↔ x = .ok a := by
  cases x <;> simp [Except.toOption]

theorem mapM_eq_ok {step : α → Except ε β} {as : List α} {bs : List β} :
    as.mapM step = .ok bs ↔ List.Forall₂ (fun a b => step a = .ok b) as bs := by
  induction as generalizing bs with
  | nil => cases bs <;> simp [pure, Except.pure]
  | cons a more ih =>
      rw [List.mapM_cons, bind_eq_ok]
      constructor
      · rintro ⟨b, hb, hmore⟩
        obtain ⟨bs', hbs', heq⟩ := bind_eq_ok.1 hmore
        obtain rfl := Except.ok.inj heq
        exact .cons hb (ih.1 hbs')
      · rintro (_ | ⟨hb, hmore⟩)
        exact ⟨_, hb, bind_eq_ok.2 ⟨_, ih.2 hmore, rfl⟩⟩

end

/-- Where the first succeeds, the second succeeds with the same. -/
def Keeps {ε α : Type} (x y : Except ε α) : Prop := ∀ a, x = .ok a → y = .ok a

namespace Keeps

variable {ε α β : Type}

theorem refl (x : Except ε α) : Keeps x x := fun _ h => h

theorem bind {x y : Except ε α} {f g : α → Except ε β} (h : Keeps x y)
    (hnext : ∀ a, Keeps (f a) (g a)) : Keeps (x >>= f) (y >>= g) := by
  intro b hb
  obtain ⟨a, ha, hfa⟩ := bind_eq_ok.1 hb
  exact bind_eq_ok.2 ⟨a, h a ha, hnext a b hfa⟩

theorem map {x y : Except ε α} (h : Keeps x y) (f : α → β) : Keeps (x.map f) (y.map f) := by
  intro b hb
  obtain ⟨a, ha, rfl⟩ := map_eq_ok.1 hb
  exact map_eq_ok.2 ⟨a, h a ha, rfl⟩

theorem mapM {step : α → Except ε β} {value value' : α} (h : Keeps (step value) (step value'))
    (before after : List α) :
    Keeps ((before ++ value :: after).mapM step) ((before ++ value' :: after).mapM step) := by
  induction before with
  | nil =>
      simp only [List.nil_append, List.mapM_cons]
      exact h.bind fun _ => Keeps.refl _
  | cons first before ih =>
      simp only [List.cons_append, List.mapM_cons]
      exact (Keeps.refl _).bind fun _ => ih.bind fun _ => Keeps.refl _

end Keeps

end SafeCalls
