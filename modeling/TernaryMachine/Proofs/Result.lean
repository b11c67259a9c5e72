/-! # Steps that may fail

A chain of steps in `Except` succeeds if every step of it does.  The equivalences here take such a
chain apart, and `Related` compares two chains step by step. -/

namespace TernaryMachine

variable {ε δ α β : Type}

theorem bind_eq_ok_iff {x : Except ε α} {f : α → Except ε β} {b : β} :
    x >>= f = .ok b ↔ ∃ a, x = .ok a ∧ f a = .ok b := by
  cases x with
  | error e => simp [bind, Except.bind]
  | ok a => simp [bind, Except.bind]

theorem map_eq_ok_iff {x : Except ε α} {f : α → β} {b : β} :
    x.map f = .ok b ↔ ∃ a, x = .ok a ∧ f a = b := by
  cases x with
  | error e => simp [Except.map]
  | ok a => simp [Except.map]

theorem mapError_eq_ok_iff {x : Except ε α} {f : ε → δ} {a : α} :
    x.mapError f = .ok a ↔ x = .ok a := by
  cases x with
  | error e =>
    show Except.error (f e) = .ok a ↔ Except.error e = .ok a
    simp
  | ok b =>
    show Except.ok b = .ok a ↔ Except.ok b = .ok a
    simp

theorem toOption_bind (x : Except ε α) (f : α → Except ε β) :
    (x >>= f).toOption = x.toOption.bind fun a => (f a).toOption := by
  cases x <;> rfl

theorem pure_eq_ok_iff {a b : α} : (pure a : Except ε α) = .ok b ↔ a = b :=
  Except.ok.injEq a b ▸ Iff.rfl

/-- Two results that are both values or both errors, and go together. -/
inductive Related {ε' β : Type} (E : ε → ε' → Prop) (R : α → β → Prop) :
    Except ε α → Except ε' β → Prop
  | ok {a : α} {b : β} (values : R a b) : Related E R (.ok a) (.ok b)
  | error {e : ε} {e' : ε'} (errors : E e e') : Related E R (.error e) (.error e')

namespace Related

variable {E : ε → ε → Prop} {x y z : Except ε α}

theorem refl (errors : ∀ e, E e e) (x : Except ε α) : Related E Eq x x := by
  cases x with
  | ok a => exact .ok rfl
  | error e => exact .error (errors e)

theorem of_map (errors : ∀ e, E e e) (x : Except ε α) (f : α → β) :
    Related E (fun a b => b = f a) x (x.map f) := by
  cases x with
  | ok a => exact .ok rfl
  | error e => exact .error (errors e)

theorem map (h : Related E Eq x y) (f : α → β) : Related E Eq (x.map f) (y.map f) := by
  cases h with
  | ok same => exact .ok (congrArg f same)
  | error same => exact .error same

theorem symm (errors : ∀ e e', E e e' → E e' e) (h : Related E Eq x y) : Related E Eq y x := by
  cases h with
  | ok same => exact .ok same.symm
  | error same => exact .error (errors _ _ same)

theorem trans (errors : ∀ e₁ e₂ e₃, E e₁ e₂ → E e₂ e₃ → E e₁ e₃) (h : Related E Eq x y)
    (h' : Related E Eq y z) : Related E Eq x z := by
  cases h with
  | ok same =>
    cases h' with
    | ok same' => exact .ok (same.trans same')
  | error same =>
    cases h' with
    | error same' => exact .error (errors _ _ _ same same')

end Related

end TernaryMachine
