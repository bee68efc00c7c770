import ServerManager.Interaction

namespace ServerManager.Outcomes

open Interaction

variable {E : Type} {A : E → Type} {ε α β : Type}

def Finishes : Prog E A ε α → Trace E A → Except ε α → Prop
  | .ret a, tr, o => tr = [] ∧ o = .ok a
  | .raise x, tr, o => tr = [] ∧ o = .error x
  | .call e k, tr, o => ∃ a tr', tr = ⟨e, a⟩ :: tr' ∧ Finishes (k a) tr' o

@[simp] theorem finishes_ret (a : α) (tr : Trace E A) (o : Except ε α) :
    Finishes (.ret a) tr o ↔ tr = [] ∧ o = .ok a := Iff.rfl

@[simp] theorem finishes_raise (x : ε) (tr : Trace E A) (o : Except ε α) :
    Finishes (.raise x) tr o ↔ tr = [] ∧ o = .error x := Iff.rfl

@[simp] theorem finishes_pure (a : α) (tr : Trace E A) (o : Except ε α) :
    Finishes (pure a) tr o ↔ tr = [] ∧ o = .ok a := Iff.rfl

@[simp] theorem finishes_throw (x : ε) (tr : Trace E A) (o : Except ε α) :
    Finishes (throw x) tr o ↔ tr = [] ∧ o = .error x := Iff.rfl

theorem finishes_bind (p : Prog E A ε α) (f : α → Prog E A ε β) (tr : Trace E A) (o : Except ε β) :
    Finishes (p >>= f) tr o ↔ (∃ a t₁ t₂, tr = t₁ ++ t₂ ∧ Finishes p t₁ (.ok a) ∧
      Finishes (f a) t₂ o) ∨
      ∃ x, Finishes p tr (.error x) ∧ o = .error x := by
  show Finishes (p.bind f) tr o ↔ _
  induction p generalizing tr with
  | ret a =>
      constructor
      · intro h
        exact .inl ⟨a, [], tr, rfl, ⟨rfl, rfl⟩, h⟩
      · rintro (⟨a', t₁, t₂, rfl, ⟨rfl, ha⟩, h⟩ | ⟨x, ⟨-, hx⟩, -⟩)
        · cases ha
          exact h
        · cases hx
  | raise x =>
      constructor
      · rintro ⟨rfl, rfl⟩
        exact .inr ⟨x, ⟨rfl, rfl⟩, rfl⟩
      · rintro (⟨a', t₁, t₂, rfl, ⟨-, ha⟩, -⟩ | ⟨x', ⟨rfl, hx⟩, rfl⟩)
        · cases ha
        · cases hx
          exact ⟨rfl, rfl⟩
  | call e k ih =>
      constructor
      · rintro ⟨a, tr', rfl, h⟩
        rcases (ih a tr').mp h with ⟨b, t₁, t₂, rfl, hp, hf⟩ | ⟨x, hp, rfl⟩
        · exact .inl ⟨b, ⟨e, a⟩ :: t₁, t₂, rfl, ⟨a, t₁, rfl, hp⟩, hf⟩
        · exact .inr ⟨x, ⟨a, tr', rfl, hp⟩, rfl⟩
      · rintro (⟨b, t₁, t₂, rfl, ⟨a, t, rfl, hp⟩, hf⟩ | ⟨x, ⟨a, t, rfl, hp⟩, rfl⟩)
        · exact ⟨a, t ++ t₂, rfl, (ih a _).mpr (.inl ⟨b, t, t₂, rfl, hp, hf⟩)⟩
        · exact ⟨a, t, rfl, (ih a t).mpr (.inr ⟨x, hp, rfl⟩)⟩

/-- The program that is left where nothing is left to run. -/
def finished : Except ε α → Prog E A ε α
  | .ok a => .ret a
  | .error x => .raise x

def outcome? : Prog E A ε α → Option (Except ε α)
  | .ret a => some (.ok a)
  | .raise x => some (.error x)
  | .call .. => none

theorem finished_of_outcome {p : Prog E A ε α} {o : Except ε α} (h : outcome? p = some o) :
    p = finished o := by
  cases p with
  | ret a => cases h; rfl
  | raise x => cases h; rfl
  | call e k => cases h

theorem finishes_iff (p : Prog E A ε α) (tr : Trace E A) (o : Except ε α) :
    Finishes p tr o ↔ Exec anything () p tr () (finished o) := by
  induction p generalizing tr with
  | ret a =>
      constructor
      · rintro ⟨rfl, rfl⟩
        exact .refl _ _
      · intro h
        cases o with
        | ok b => cases h; exact ⟨rfl, rfl⟩
        | error x => cases h
  | raise x =>
      constructor
      · rintro ⟨rfl, rfl⟩
        exact .refl _ _
      · intro h
        cases o with
        | ok b => cases h
        | error y => cases h; exact ⟨rfl, rfl⟩
  | call e k ih =>
      constructor
      · rintro ⟨a, tr', rfl, h⟩
        exact .call trivial ((ih a tr').mp h)
      · intro h
        cases tr with
        | nil => cases o <;> cases h
        | cons ev tr =>
            cases h with
            | @call _ _ _ _ _ a _ _ _ h => exact ⟨a, tr, rfl, (ih a tr).mpr h⟩

/-- Every finished execution leaves a trace with the property. -/
def Leaves (P : Trace E A → Prop) (p : Prog E A ε α) : Prop := ∀ tr o, Finishes p tr o → P tr

structure Joins (P : Trace E A → Prop) : Prop where
  nil : P []
  append : ∀ {a b}, P a → P b → P (a ++ b)

theorem Leaves.pure {P : Trace E A → Prop} (hP : Joins P) (a : α) :
    Leaves P (pure a : Prog E A ε α) := by
  rintro tr o ⟨rfl, -⟩
  exact hP.nil

theorem Leaves.bind {P : Trace E A → Prop} (hP : Joins P) {p : Prog E A ε α} {f : α → Prog E A ε β}
    (hp : Leaves P p)
    (hf : ∀ a, Leaves P (f a)) : Leaves P (p >>= f) := by
  intro tr o h
  rcases (finishes_bind p f tr o).mp h with ⟨a, t₁, t₂, rfl, h₁, h₂⟩ | ⟨x, h₁, -⟩
  · exact hP.append (hp t₁ _ h₁) (hf a t₂ o h₂)
  · exact hp tr _ h₁

theorem leaves_of_only {P : Trace E A → Prop} {φ : E → Prop} {p : Prog E A ε α} (h : Only φ p)
    (hP : ∀ tr : Trace E A, (∀ ev ∈ tr, φ ev.1) → P tr) : Leaves P p := by
  intro tr o hf
  exact hP tr (h.of_mem ((finishes_iff p tr o).mp hf))

end ServerManager.Outcomes
