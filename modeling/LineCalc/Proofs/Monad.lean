/-!
# Computations with a state and failures

Parsing and emission are computations that may fail and leave a state in either case. These lemmas
take such a computation apart at a sequencing step.
-/

namespace LineCalc

section Stateful

variable {ε σ α β : Type} {m : ExceptT ε (StateM σ) α} {f : α → ExceptT ε (StateM σ) β} {s t : σ}

/-- A computation that succeeds is followed by the next one. -/
theorem bind_of_ok {a : α} (h : m s = (.ok a, t)) : (m >>= f) s = f a t := by
  simp only [bind, ExceptT.bind, ExceptT.mk, StateT.bind, h]
  rfl

/-- A computation that fails ends the sequence. -/
theorem bind_of_error {e : ε} (h : m s = (.error e, t)) : (m >>= f) s = (.error e, t) := by
  simp only [bind, ExceptT.bind, ExceptT.mk, StateT.bind, h]
  rfl

end Stateful

/-- A sequence of two computations that succeeds has a result in between. -/
theorem ok_of_bind_ok {ε α β : Type} {m : Except ε α} {f : α → Except ε β} {b : β}
    (h : m >>= f = .ok b) : ∃ a, m = .ok a ∧ f a = .ok b := by
  cases m with
  | error e => cases h
  | ok a => exact ⟨a, rfl, h⟩

/-- A sequence of two computations that fails has failed in the first or in the second one. -/
theorem error_of_bind_error {ε α β : Type} {m : Except ε α} {f : α → Except ε β} {e : ε}
    (h : m >>= f = .error e) : m = .error e ∨ ∃ a, m = .ok a ∧ f a = .error e := by
  cases m with
  | error other =>
    cases h
    exact .inl rfl
  | ok a => exact .inr ⟨a, rfl, h⟩

/-- A monadic fold that starts with a computation is a fold over computations. -/
theorem bind_foldlM {m : Type → Type} [Monad m] [LawfulMonad m] {α β : Type}
    (step : β → α → m β) (start : m β) (items : List α) :
    (start >>= fun b => items.foldlM step b) =
      items.foldl (fun acc item => acc >>= fun b => step b item) start := by
  induction items generalizing start with
  | nil => simp
  | cons item items ih => simp [← ih]

end LineCalc
