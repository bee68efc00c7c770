import Mathlib.Logic.Basic

namespace ServerManager.Interaction

/-- A sequential program whose only contact with its surroundings is a call
that is answered: it returns, raises, or makes a call and goes on with the answer. -/
inductive Prog (E : Type) (A : E → Type) (ε α : Type) where
  | ret (a : α)
  | raise (x : ε)
  | call (e : E) (k : A e → Prog E A ε α)

namespace Prog

variable {E : Type} {A : E → Type} {ε α β : Type}

def bind : Prog E A ε α → (α → Prog E A ε β) → Prog E A ε β
  | .ret a, f => f a
  | .raise x, _ => .raise x
  | .call e k, f => .call e (fun a => (k a).bind f)

/-- Only what the guarded program itself raises is handled; its calls are kept. -/
def handle : Prog E A ε α → (ε → Prog E A ε α) → Prog E A ε α
  | .ret a, _ => .ret a
  | .raise x, h => h x
  | .call e k, h => .call e (fun a => (k a).handle h)

instance : Monad (Prog E A ε) where
  pure := .ret
  bind := .bind

instance : MonadExceptOf ε (Prog E A ε) where
  throw := .raise
  tryCatch := .handle

theorem bind_assoc {γ : Type} (p : Prog E A ε α) (f : α → Prog E A ε β) (g : β → Prog E A ε γ) :
    (p >>= f) >>= g = p >>= fun a => f a >>= g := by
  induction p with
  | ret a => rfl
  | raise x => rfl
  | call e k ih => exact congrArg (call e) (funext fun a => ih a)

theorem ret_ne_call (a : α) (e : E) (k : A e → Prog E A ε α) : ret a ≠ call e k := nofun

theorem raise_ne_call (x : ε) (e : E) (k : A e → Prog E A ε α) : raise x ≠ call e k := nofun

def ended : Prog E A ε α → Bool
  | .call .. => false
  | _ => true

theorem ended_ne_call {p : Prog E A ε α} (h : p.ended = true) (e : E) (k : A e → Prog E A ε α) :
    p ≠ .call e k := by
  rintro rfl
  cases h

end Prog

abbrev Event (E : Type) (A : E → Type) := Σ e : E, A e

abbrev Trace (E : Type) (A : E → Type) := List (Event E A)

theorem split_unique {α : Type} {P : α → Prop} {a b a' b' : List α} {x x' : α}
    (h : a ++ x :: b = a' ++ x' :: b')
    (ha : ∀ y ∈ a, ¬ P y) (hb : ∀ y ∈ b, ¬ P y) (hx : P x') : a = a' ∧ x = x' ∧ b = b' := by
  induction a generalizing a' with
  | nil =>
      cases a' with
      | nil => exact ⟨rfl, (List.cons.inj h).1, (List.cons.inj h).2⟩
      | cons y a' =>
          have hb' : b = a' ++ x' :: b' := (List.cons.inj h).2
          exact absurd hx (hb x' (hb' ▸ List.mem_append_right _ List.mem_cons_self))
  | cons y a ih =>
      cases a' with
      | nil =>
          have hy : y = x' := (List.cons.inj h).1
          exact absurd hx (ha x' (hy ▸ List.mem_cons_self))
      | cons z a' =>
          obtain ⟨hz, ht⟩ := List.cons.inj h
          obtain ⟨rfl, hxx, hbb⟩ := ih ht fun ev hev => ha ev (List.mem_cons_of_mem _ hev)
          exact ⟨by rw [hz], hxx, hbb⟩

theorem split_last {α : Type} {P : α → Prop} {a b a' b' : List α} {x x' : α}
    (h : a ++ x :: b = a' ++ x' :: b')
    (hx : P x) (hx' : P x') (hb : ∀ y ∈ b, ¬ P y) (hb' : ∀ y ∈ b', ¬ P y) : a = a' ∧ x = x' ∧
    b = b' := by
  induction a generalizing a' with
  | nil =>
      cases a' with
      | nil => exact ⟨rfl, (List.cons.inj h).1, (List.cons.inj h).2⟩
      | cons y a' =>
          have ht : b = a' ++ x' :: b' := (List.cons.inj h).2
          exact absurd hx' (hb x' (ht ▸ List.mem_append_right _ List.mem_cons_self))
  | cons y a ih =>
      cases a' with
      | nil =>
          have ht : a ++ x :: b = b' := (List.cons.inj h).2
          exact absurd hx (hb' x (ht ▸ List.mem_append_right _ List.mem_cons_self))
      | cons z a' =>
          obtain ⟨hz, ht⟩ := List.cons.inj h
          obtain ⟨rfl, hxx, hbb⟩ := ih ht
          exact ⟨by rw [hz], hxx, hbb⟩

variable {E : Type} {A : E → Type} {ε α β S : Type}

/-- Partial executions: the surroundings move by `step`, the trace lists the
answered calls, and the last index is the program that is left to run. -/
inductive Exec (step : S → (e : E) → A e → S → Prop) :
    S → Prog E A ε α → Trace E A → S → Prog E A ε α → Prop
  | refl (s : S) (p : Prog E A ε α) : Exec step s p [] s p
  | call {s s' t : S} {e : E} {k : A e → Prog E A ε α} {a : A e} {tr : Trace E A}
      {q : Prog E A ε α} :
      step s e a s' → Exec step s' (k a) tr t q → Exec step s (.call e k) (⟨e, a⟩ :: tr) t q

theorem Exec.trans {step : S → (e : E) → A e → S → Prop} {s t u : S}
    {p q r : Prog E A ε α} {tr tr' : Trace E A}
    (h : Exec step s p tr t q) (h' : Exec step t q tr' u r) : Exec step s p (tr ++ tr') u r := by
  induction h with
  | refl => exact h'
  | call hs _ ih => exact .call hs (ih h')

theorem Exec.mono {step step' : S → (e : E) → A e → S → Prop}
    (hs : ∀ s e a s', step s e a s' → step' s e a s')
    {s t : S} {p q : Prog E A ε α} {tr : Trace E A} (h : Exec step s p tr t q) :
    Exec step' s p tr t q := by
  induction h with
  | refl => exact .refl _ _
  | call h _ ih => exact .call (hs _ _ _ _ h) ih

theorem Exec.keeps {step : S → (e : E) → A e → S → Prop} {I : S → Prop} {s t : S}
    {p q : Prog E A ε α} {tr : Trace E A}
    (h : Exec step s p tr t q) (hI : ∀ ev ∈ tr, ∀ s s', step s ev.1 ev.2 s' → I s → I s')
    (hs : I s) : I t := by
  induction h with
  | refl => exact hs
  | call h _ ih =>
      exact ih (fun ev hev => hI ev (List.mem_cons_of_mem _ hev)) (hI _ List.mem_cons_self _ _ h hs)

theorem Exec.unique {step : S → (e : E) → A e → S → Prop} {s t s' t' : S} {p q q' : Prog E A ε α}
    {tr tr' rest rest' : Trace E A} (h : Exec step s p tr t q) (h' : Exec step s' p tr' t' q')
    (hq : ∀ e k, q ≠ .call e k) (hq' : ∀ e k, q' ≠ .call e k) (he : tr ++ rest = tr' ++ rest') :
    tr = tr' ∧ q = q' := by
  induction h generalizing s' tr' with
  | refl s p =>
      cases h' with
      | refl => exact ⟨rfl, rfl⟩
      | call _ _ => exact absurd rfl (hq _ _)
  | call _ _ ih =>
      cases h' with
      | refl => exact absurd rfl (hq' _ _)
      | call _ hx =>
          obtain ⟨hev, htl⟩ := List.cons.inj he
          cases hev
          obtain ⟨rfl, rfl⟩ := ih hx hq htl
          exact ⟨rfl, rfl⟩

/-- Every call satisfies `G`, normal results satisfy `Q` and raised ones `X`,
along all executions in surroundings that move by `step`. -/
def Sat (step : S → (e : E) → A e → S → Prop) (G : S → E → Prop)
    (Q : S → α → Prop) (X : S → ε → Prop) : Prog E A ε α → S → Prop
  | .ret a, s => Q s a
  | .raise x, s => X s x
  | .call e k, s => G s e ∧ ∀ a s', step s e a s' → Sat step G Q X (k a) s'

section Rules

variable {step : S → (e : E) → A e → S → Prop} {G : S → E → Prop}
  {Q : S → α → Prop} {R : S → β → Prop} {X : S → ε → Prop}

@[simp] theorem sat_ret (a : α) (s : S) :
    Sat step G Q X (Prog.ret a : Prog E A ε α) s ↔ Q s a := Iff.rfl

@[simp] theorem sat_pure (a : α) (s : S) :
    Sat step G Q X (pure a : Prog E A ε α) s ↔ Q s a := Iff.rfl

@[simp] theorem sat_raise (x : ε) (s : S) :
    Sat step G Q X (Prog.raise x : Prog E A ε α) s ↔ X s x := Iff.rfl

@[simp] theorem sat_throw (x : ε) (s : S) :
    Sat step G Q X (throw x : Prog E A ε α) s ↔ X s x := Iff.rfl

@[simp] theorem sat_call (e : E) (k : A e → Prog E A ε α) (s : S) :
    Sat step G Q X (Prog.call e k) s ↔ G s e ∧ ∀ a s', step s e a s' → Sat step G Q X (k a) s' :=
  Iff.rfl

theorem Sat.mono {Q' : S → α → Prop} {X' : S → ε → Prop} {p : Prog E A ε α} {s : S}
    (h : Sat step G Q X p s) (hQ : ∀ s a, Q s a → Q' s a) (hX : ∀ s x, X s x → X' s x) :
    Sat step G Q' X' p s := by
  induction p generalizing s with
  | ret a => exact hQ s a h
  | raise x => exact hX s x h
  | call e k ih => exact ⟨h.1, fun a s' hs => ih a (h.2 a s' hs)⟩

theorem Sat.weaken {G' : S → E → Prop} {p : Prog E A ε α} {s : S}
    (h : Sat step G Q X p s) (hG : ∀ s e, G s e → G' s e) : Sat step G' Q X p s := by
  induction p generalizing s with
  | ret a => exact h
  | raise x => exact h
  | call e k ih => exact ⟨hG s e h.1, fun a s' hs => ih a (h.2 a s' hs)⟩

theorem sat_bind' (p : Prog E A ε α) (f : α → Prog E A ε β) (s : S) :
    Sat step G R X (p.bind f) s ↔ Sat step G (fun s a => Sat step G R X (f a) s) X p s := by
  induction p generalizing s with
  | ret a => rfl
  | raise x => rfl
  | call e k ih => simp only [Prog.bind, sat_call, ih]

@[simp] theorem sat_bind (p : Prog E A ε α) (f : α → Prog E A ε β) (s : S) :
    Sat step G R X (p >>= f) s ↔ Sat step G (fun s a => Sat step G R X (f a) s) X p s :=
  sat_bind' p f s

theorem sat_handle (p : Prog E A ε α) (h : ε → Prog E A ε α) (s : S) :
    Sat step G Q X (p.handle h) s ↔ Sat step G Q (fun s x => Sat step G Q X (h x) s) p s := by
  induction p generalizing s with
  | ret a => rfl
  | raise x => rfl
  | call e k ih => simp only [Prog.handle, sat_call, ih]

@[simp] theorem sat_tryCatch (p : Prog E A ε α) (h : ε → Prog E A ε α) (s : S) :
    Sat step G Q X (tryCatch p h) s ↔ Sat step G Q (fun s x => Sat step G Q X (h x) s) p s :=
  sat_handle p h s

theorem Sat.seq {p : Prog E A ε α} {f : α → Prog E A ε β} {s : S}
    (h : Sat step G Q X p s) (hf : ∀ s a, Q s a → Sat step G R X (f a) s) :
    Sat step G R X (p >>= f) s :=
  (sat_bind p f s).mpr (h.mono hf fun _ _ hx => hx)

theorem Sat.exec {p q : Prog E A ε α} {s t : S} {tr : Trace E A}
    (h : Sat step G Q X p s) (he : Exec step s p tr t q) : Sat step G Q X q t := by
  induction he with
  | refl => exact h
  | call hs _ ih => exact ih (h.2 _ _ hs)

end Rules

theorem Sat.and {G' : S → E → Prop} {Q' : S → α → Prop} {X' : S → ε → Prop}
    {step : S → (e : E) → A e → S → Prop} {G : S → E → Prop} {Q : S → α → Prop} {X : S → ε → Prop}
    {p : Prog E A ε α} {s : S} (h : Sat step G Q X p s) (h' : Sat step G' Q' X' p s) :
    Sat step (fun s e => G s e ∧ G' s e) (fun s a => Q s a ∧ Q' s a) (fun s x => X s x ∧ X' s x) p
      s := by
  induction p generalizing s with
  | ret a => exact ⟨h, h'⟩
  | raise x => exact ⟨h, h'⟩
  | call e k ih => exact ⟨⟨h.1, h'.1⟩, fun a s' hs => ih a (h.2 a s' hs) (h'.2 a s' hs)⟩

theorem Sat.invariant {step : S → (e : E) → A e → S → Prop} {G : S → E → Prop} {Q : S → α → Prop}
    {X : S → ε → Prop} {I : S → Prop} (hI : ∀ s e a s', I s → G s e → step s e a s' → I s')
    {p : Prog E A ε α} {s : S} (hs : I s)
    (h : Sat (fun s e a s' => step s e a s' ∧ I s ∧ I s') G Q X p s) :
    Sat step (fun s e => G s e ∧ I s) (fun s a => Q s a ∧ I s) (fun s x => X s x ∧ I s) p s := by
  induction p generalizing s with
  | ret a => exact ⟨h, hs⟩
  | raise x => exact ⟨h, hs⟩
  | call e k ih =>
      refine ⟨⟨h.1, hs⟩, fun a s' hst => ?_⟩
      have hs' := hI s e a s' hs h.1 hst
      exact ih a hs' (h.2 a s' ⟨hst, hs, hs'⟩)

/-- A specification over the states `u` that stand for the states `s` of the surroundings. -/
theorem Sat.simulate {U : Type} {T : S → (e : E) → A e → S → Prop}
    {T' : U → (e : E) → A e → U → Prop}
    {M : S → U → Prop} {G : U → E → Prop} {Q : U → α → Prop} {X : U → ε → Prop}
    (hM : ∀ s u e a s', M s u → G u e → T s e a s' → ∃ u', T' u e a u' ∧ M s' u')
    {p : Prog E A ε α} {s : S} {u : U} (h : Sat T' G Q X p u) (hs : M s u) :
    Sat T (fun s e => ∃ u, M s u ∧ G u e) (fun s a => ∃ u, M s u ∧ Q u a)
      (fun s x => ∃ u, M s u ∧ X u x) p s := by
  induction p generalizing s u with
  | ret a => exact ⟨u, hs, h⟩
  | raise x => exact ⟨u, hs, h⟩
  | call e k ih =>
      refine ⟨⟨u, hs, h.1⟩, fun a s' ht => ?_⟩
      obtain ⟨u', ht', hs'⟩ := hM s u e a s' hs h.1 ht
      exact ih a (h.2 a u' ht') hs'

section Compose

variable {step : S → (e : E) → A e → S → Prop} {s t u : S} {tr tr' : Trace E A}

theorem Exec.bind_left {p q : Prog E A ε α} (h : Exec step s p tr t q) (f : α → Prog E A ε β) :
    Exec step s (p >>= f) tr t (q >>= f) := by
  induction h with
  | refl s p => exact .refl s (p.bind f)
  | call hs _ ih => exact .call hs ih

theorem Exec.bind {p : Prog E A ε α} {f : α → Prog E A ε β} {a : α} {q : Prog E A ε β}
    (h : Exec step s p tr t (.ret a)) (hf : Exec step t (f a) tr' u q) :
    Exec step s (p >>= f) (tr ++ tr') u q :=
  (h.bind_left f).trans hf

end Compose

/-- No assumption on the surroundings: any call may get any answer. -/
def anything : Unit → (e : E) → A e → Unit → Prop := fun _ _ _ _ => True

/-- Surroundings that answer anything and remember the trace. -/
def log : Trace E A → (e : E) → A e → Trace E A → Prop :=
  fun past e a past' => past' = past ++ [⟨e, a⟩]

theorem Exec.log {step : S → (e : E) → A e → S → Prop} {s t : S} {p q : Prog E A ε α}
    {tr : Trace E A} (h : Exec step s p tr t q) (past : Trace E A) :
    Exec Interaction.log past p tr (past ++ tr) q := by
  induction h generalizing past with
  | refl s p => simpa using Exec.refl past p
  | @call s s' t e k a tr q hs _ ih =>
      have h := ih (past ++ [⟨e, a⟩])
      rw [List.append_assoc] at h
      exact .call rfl h

/-- Surroundings that move by `step` and remember the trace. -/
def traced (step : S → (e : E) → A e → S → Prop) :
    S × Trace E A → (e : E) → A e → S × Trace E A → Prop :=
  fun s e a s' => step s.1 e a s'.1 ∧ s'.2 = s.2 ++ [⟨e, a⟩]

theorem Exec.traced {step : S → (e : E) → A e → S → Prop} {s t : S} {p q : Prog E A ε α}
    {tr : Trace E A} (h : Exec step s p tr t q) (past : Trace E A) :
    Exec (Interaction.traced step) (s, past) p tr (t, past ++ tr) q := by
  induction h generalizing past with
  | refl s p => simpa using Exec.refl (s, past) p
  | @call s s' t e k a tr q hs _ ih =>
      have h := ih (past ++ [⟨e, a⟩])
      rw [List.append_assoc] at h
      have hs' : Interaction.traced step (s, past) e a (s', past ++ [⟨e, a⟩]) := ⟨hs, rfl⟩
      exact .call hs' h

/-- Every entry of a trace meets a condition on it and on what came before. -/
def Along (ok : Trace E A → Event E A → Prop) (tr : Trace E A) : Prop :=
  ∀ before ev after, tr = before ++ ev :: after → ok before ev

/-- Surroundings that remember the trace and whose answers meet a condition on it. -/
def noted (ok : Trace E A → Event E A → Prop) : Trace E A → (e : E) → A e → Trace E A → Prop :=
  fun past e a past' => past' = past ++ [⟨e, a⟩] ∧ ok past ⟨e, a⟩

theorem Exec.noted_from {step : S → (e : E) → A e → S → Prop} {ok : Trace E A → Event E A → Prop}
    {s t : S}
    {p q : Prog E A ε α} {tr : Trace E A} (h : Exec step s p tr t q) (past : Trace E A)
    (hok : ∀ before ev after, tr = before ++ ev :: after → ok (past ++ before) ev) :
    Exec (Interaction.noted ok) past p tr (past ++ tr) q := by
  induction h generalizing past with
  | refl s p => simpa using Exec.refl past p
  | @call s s' t e k a tr q hs _ ih =>
      have h := ih (past ++ [⟨e, a⟩]) fun before ev after he => by
        rw [List.append_assoc]
        exact hok (⟨e, a⟩ :: before) ev after (by rw [he]; rfl)
      rw [List.append_assoc] at h
      have hstep : Interaction.noted ok past e a (past ++ [⟨e, a⟩]) :=
        ⟨rfl, by simpa using hok [] ⟨e, a⟩ tr rfl⟩
      exact .call hstep h

theorem Exec.noted {step : S → (e : E) → A e → S → Prop} {ok : Trace E A → Event E A → Prop}
    {s t : S}
    {p q : Prog E A ε α} {tr : Trace E A} (h : Exec step s p tr t q) (hok : Along ok tr) :
    Exec (Interaction.noted ok) [] p tr tr q :=
  h.noted_from [] hok

theorem Exec.noted_end {ok : Trace E A → Event E A → Prop} {past past' : Trace E A}
    {p q : Prog E A ε α}
    {tr : Trace E A} (h : Exec (Interaction.noted ok) past p tr past' q) : past' = past ++ tr := by
  induction h with
  | refl => exact (List.append_nil _).symm
  | call hs _ ih => rw [ih, hs.1, List.append_assoc, List.singleton_append]

/-- What holds for any answers holds in surroundings that move by `step`. -/
theorem Sat.traced {T : S → (e : E) → A e → S → Prop} {G : Trace E A → E → Prop}
    {Q : Trace E A → α → Prop}
    {X : Trace E A → ε → Prop} {p : Prog E A ε α} {past : Trace E A}
    (h : Sat Interaction.log G Q X p past) (s : S) :
    Sat (Interaction.traced T) (fun s e => G s.2 e) (fun s a => Q s.2 a) (fun s x => X s.2 x) p
      (s, past) := by
  induction p generalizing past s with
  | ret a => exact h
  | raise x => exact h
  | call e k ih =>
      refine ⟨h.1, fun a s' hs => ?_⟩
      have hk := ih a (h.2 a s'.2 hs.2) s'.1
      exact hk

theorem sat_segment (p : Prog E A ε α) (past : Trace E A) :
    Sat log (fun _ _ => True)
      (fun s a => ∃ seg, s = past ++ seg ∧ Exec anything () p seg () (.ret a))
      (fun s x => ∃ seg, s = past ++ seg ∧ Exec anything () p seg () (.raise x)) p past := by
  induction p generalizing past with
  | ret a => exact ⟨[], by simp, .refl _ _⟩
  | raise x => exact ⟨[], by simp, .refl _ _⟩
  | call e k ih =>
      refine ⟨trivial, fun a s hs => ?_⟩
      cases hs
      refine (ih a (past ++ [⟨e, a⟩])).mono ?_ ?_
      · rintro s b ⟨seg, rfl, hx⟩
        exact ⟨⟨e, a⟩ :: seg, by simp, .call trivial hx⟩
      · rintro s x ⟨seg, rfl, hx⟩
        exact ⟨⟨e, a⟩ :: seg, by simp, .call trivial hx⟩

/-- Every call of every execution, whatever the answers, satisfies `φ`. -/
def Only (φ : E → Prop) (p : Prog E A ε α) : Prop :=
  Sat anything (fun _ e => φ e) (fun _ _ => True) (fun _ _ => True) p ()

section Calls

variable {φ ψ : E → Prop}

@[simp] theorem only_ret (a : α) : Only φ (Prog.ret a : Prog E A ε α) := trivial

@[simp] theorem only_pure (a : α) : Only φ (pure a : Prog E A ε α) := trivial

@[simp] theorem only_raise (x : ε) : Only φ (Prog.raise x : Prog E A ε α) := trivial

@[simp] theorem only_throw (x : ε) : Only φ (throw x : Prog E A ε α) := trivial

theorem only_call {e : E} {k : A e → Prog E A ε α} (he : φ e) (hk : ∀ a, Only φ (k a)) :
    Only φ (Prog.call e k) :=
  ⟨he, fun a _ _ => hk a⟩

theorem Only.mono {p : Prog E A ε α} (h : Only φ p) (hφ : ∀ e, φ e → ψ e) : Only ψ p :=
  Sat.weaken h fun _ e he => hφ e he

theorem Only.and {p : Prog E A ε α} (h : Only φ p) (h' : Only ψ p) : Only (fun e => φ e ∧ ψ e) p :=
  (Sat.and h h').mono (fun _ _ _ => trivial) fun _ _ _ => trivial

theorem Only.bind {p : Prog E A ε α} {f : α → Prog E A ε β} (h : Only φ p)
    (hf : ∀ a, Only φ (f a)) :
    Only φ (p >>= f) :=
  Sat.seq h fun _ a _ => hf a

theorem Only.tryCatch {p : Prog E A ε α} {f : ε → Prog E A ε α} (h : Only φ p)
    (hf : ∀ x, Only φ (f x)) :
    Only φ (tryCatch p f) :=
  (sat_tryCatch p f ()).mpr (Sat.mono h (fun _ _ ha => ha) fun _ x _ => hf x)

theorem Only.ite {c : Prop} [Decidable c] {p q : Prog E A ε α} (hp : Only φ p) (hq : Only φ q) :
    Only φ (if c then p else q) := by
  split
  · exact hp
  · exact hq

theorem Only.keeps {T : S → (e : E) → A e → S → Prop} {I : S → Prop} {p : Prog E A ε α} {s : S}
    (h : Only φ p) (hI : ∀ s e a s', φ e → I s → T s e a s' → I s') (hs : I s) :
    Sat T (fun s e => φ e ∧ I s) (fun s _ => I s) (fun s _ => I s) p s := by
  induction p generalizing s with
  | ret a => exact hs
  | raise x => exact hs
  | call e k ih =>
      refine ⟨⟨h.1, hs⟩, fun a s' hst => ih a (h.2 a () trivial) (hI s e a s' h.1 hs hst)⟩

theorem Only.of_mem {step : S → (e : E) → A e → S → Prop} {p q : Prog E A ε α} {s t : S}
    {tr : Trace E A}
    (h : Only φ p) (hx : Exec step s p tr t q) : ∀ ev ∈ tr, φ ev.1 := by
  induction hx with
  | refl => intro ev he; cases he
  | call _ _ ih =>
      intro ev he
      rcases List.mem_cons.mp he with rfl | he
      · exact h.1
      · exact ih (h.2 _ () trivial) ev he

end Calls

/-- Programs one after the other, each of which may be cut off. -/
inductive Runs (step : S → (e : E) → A e → S → Prop) :
    S → List (Prog E A ε α × Trace E A) → S → Prop
  | nil (s : S) : Runs step s [] s
  | cons {s t u : S} {p q : Prog E A ε α} {tr : Trace E A}
      {rest : List (Prog E A ε α × Trace E A)} :
      Exec step s p tr t q → Runs step t rest u → Runs step s ((p, tr) :: rest) u

theorem Runs.exec_of_mem {step : S → (e : E) → A e → S → Prop} {s u : S}
    {hist : List (Prog E A ε α × Trace E A)} (h : Runs step s hist u) {p : Prog E A ε α}
    {tr : Trace E A}
    (hm : (p, tr) ∈ hist) : ∃ s' t q, Exec step s' p tr t q := by
  induction h with
  | nil => cases hm
  | cons hx _ ih =>
      rcases List.mem_cons.mp hm with he | hm
      · cases he
        exact ⟨_, _, _, hx⟩
      · exact ih hm

theorem Exec.split {step : S → (e : E) → A e → S → Prop} {s t : S} {p q : Prog E A ε α}
    {before after : Trace E A} {e : E} {a : A e}
    (h : Exec step s p (before ++ ⟨e, a⟩ :: after) t q) :
    ∃ u u' k, Exec step s p before u (.call e k) ∧ step u e a u' ∧
      Exec step u' (k a) after t q := by
  induction before generalizing s p with
  | nil =>
      cases h with
      | call hs hx => exact ⟨s, _, _, .refl _ _, hs, hx⟩
  | cons ev before ih =>
      cases h with
      | call hs hx =>
          obtain ⟨u, u', k, hp, hs', hx'⟩ := ih hx
          exact ⟨u, u', k, .call hs hp, hs', hx'⟩

theorem Exec.head {step : S → (e : E) → A e → S → Prop} {s t : S} {p q : Prog E A ε α}
    {tr : Trace E A} {e : E} {a : A e}
    (h : Exec step s p (⟨e, a⟩ :: tr) t q) : ∃ u r, step s e a u ∧ Exec step u r tr t q := by
  cases h with
  | call hs hx => exact ⟨_, _, hs, hx⟩

theorem Exec.stay {step : S → (e : E) → A e → S → Prop} {s t : S} {p q : Prog E A ε α}
    (h : Exec step s p [] t q) :
    t = s := by
  cases h
  rfl

theorem Exec.split_at {step : S → (e : E) → A e → S → Prop} {s t : S} {p q : Prog E A ε α}
    {before after : Trace E A}
    (h : Exec step s p (before ++ after) t q) : ∃ u r, Exec step s p before u r ∧
    Exec step u r after t q := by
  induction before generalizing s p with
  | nil => exact ⟨s, p, .refl _ _, h⟩
  | cons ev before ih =>
      cases h with
      | call hs hx =>
          obtain ⟨u, r, hb, ha⟩ := ih hx
          exact ⟨u, r, .call hs hb, ha⟩

section Play

variable {T : Type}

/-- At most `n` calls, answered by the oracle as long as it has an answer. -/
def play (oracle : T → (e : E) → Option (A e × T)) : Nat → T → Prog E A ε α →
    Trace E A × T × Prog E A ε α
  | n + 1, t, .call e k =>
      match oracle t e with
      | some (a, t') =>
          let r := play oracle n t' (k a)
          (⟨e, a⟩ :: r.1, r.2)
      | none => ([], t, .call e k)
  | _, t, p => ([], t, p)

theorem play_exec {step : S → (e : E) → A e → S → Prop} (π : T → S)
    (oracle : T → (e : E) → Option (A e × T))
    (h : ∀ t e a t', oracle t e = some (a, t') → step (π t) e a (π t'))
    (n : Nat) (t : T) (p : Prog E A ε α) :
    Exec step (π t) p (play oracle n t p).1 (π (play oracle n t p).2.1)
      (play oracle n t p).2.2 := by
  induction n generalizing t p with
  | zero => cases p <;> exact .refl _ _
  | succ n ih =>
      cases p with
      | ret a => exact .refl _ _
      | raise x => exact .refl _ _
      | call e k =>
          rw [play]
          split
          next a t' ho => exact .call (h t e a t' ho) (ih t' (k a))
          · exact .refl _ _

end Play

section Run

variable {f : S → (e : E) → A e × S}

def run (f : S → (e : E) → A e × S) : Prog E A ε α → S → Except ε α × S
  | .ret a, s => (.ok a, s)
  | .raise x, s => (.error x, s)
  | .call e k, s => run f (k (f s e).1) (f s e).2

theorem run_call (e : E) (k : A e → Prog E A ε α) (s : S) :
    run f (Prog.call e k) s = run f (k (f s e).1) (f s e).2 := rfl

theorem run_bind (p : Prog E A ε α) (g : α → Prog E A ε β) (s : S) :
    run f (p >>= g) s =
      match run f p s with
      | (.ok a, t) => run f (g a) t
      | (.error x, t) => (.error x, t) := by
  induction p generalizing s with
  | ret a => rfl
  | raise x => rfl
  | call e k ih => exact ih (f s e).1 (f s e).2

theorem run_tryCatch (p : Prog E A ε α) (h : ε → Prog E A ε α) (s : S) :
    run f (tryCatch p h) s =
      match run f p s with
      | (.ok a, t) => (.ok a, t)
      | (.error x, t) => run f (h x) t := by
  induction p generalizing s with
  | ret a => rfl
  | raise x => rfl
  | call e k ih => exact ih (f s e).1 (f s e).2

theorem run_bind_ok {p : Prog E A ε α} {g : α → Prog E A ε β} {s t : S} {b : β}
    (h : run f (p >>= g) s = (.ok b, t)) : ∃ a u, run f p s = (.ok a, u) ∧
    run f (g a) u = (.ok b, t) := by
  rw [run_bind] at h
  revert h
  rcases run f p s with ⟨x | a, u⟩
  · exact fun h => by cases h
  · exact fun h => ⟨a, u, rfl, h⟩

theorem Only.run_keeps {φ : E → Prop} {I : S → Prop} {p : Prog E A ε α} {s : S} (h : Only φ p)
    (hI : ∀ s e, φ e → I s → I (f s e).2) (hs : I s) : I (run f p s).2 := by
  induction p generalizing s with
  | ret a => exact hs
  | raise x => exact hs
  | call e k ih => exact ih _ (h.2 _ () trivial) (hI s e h.1 hs)

theorem Only.run_same {S' : Type} {g : S' → (e : E) → A e × S'} {φ : E → Prop} {R : S → S' → Prop}
    {p : Prog E A ε α}
    {s : S} {t : S'} (h : Only φ p)
    (hR : ∀ s t e, φ e → R s t → (f s e).1 = (g t e).1 ∧ R (f s e).2 (g t e).2) (hst : R s t) :
    (run f p s).1 = (run g p t).1 ∧ R (run f p s).2 (run g p t).2 := by
  induction p generalizing s t with
  | ret a => exact ⟨rfl, hst⟩
  | raise x => exact ⟨rfl, hst⟩
  | call e k ih =>
      obtain ⟨ha, hs⟩ := hR s t e h.1 hst
      rw [run_call, run_call, ← ha]
      exact ih _ (h.2 _ () trivial) hs

end Run

end ServerManager.Interaction
