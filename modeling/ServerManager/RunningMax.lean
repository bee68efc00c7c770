import Mathlib.Order.Lattice

namespace ServerManager.RunningMax

variable {α β : Type} [LinearOrder β]

/-- The greater of what has been found and what comes next. The first of equals stays. -/
def keepMax (rank : α → β) : Option α → α → Option α
  | none, x => some x
  | some y, x => if rank y < rank x then some x else some y

/-- What is found among the things for which `P` holds. -/
structure IsGreatest (rank : α → β) (P : α → Prop) (found : Option α) : Prop where
  none : found = none → ∀ x, ¬ P x
  some : ∀ y, found = some y → P y ∧ ∀ x, P x → rank x ≤ rank y

theorem IsGreatest.congr {rank : α → β} {P Q : α → Prop} {found : Option α}
    (h : IsGreatest rank P found)
    (hpq : ∀ x, P x ↔ Q x) : IsGreatest rank Q found where
  none hn x hx := h.none hn x ((hpq x).mpr hx)
  some y hy := ⟨(hpq y).mp (h.some y hy).1, fun x hx => (h.some y hy).2 x ((hpq x).mpr hx)⟩

theorem IsGreatest.unique {rank : α → β} {P : α → Prop} {found found' : Option α}
    (h : IsGreatest rank P found)
    (h' : IsGreatest rank P found') (hinj : ∀ x y, P x → P y → rank x = rank y → x = y) :
    found = found' := by
  cases found with
  | none =>
      cases found' with
      | none => rfl
      | some y => exact absurd (h'.some y rfl).1 (h.none rfl y)
  | some x =>
      obtain ⟨hx, hmax⟩ := h.some x rfl
      cases found' with
      | none => exact absurd hx (h'.none rfl x)
      | some y =>
          obtain ⟨hy, hmax'⟩ := h'.some y rfl
          exact congrArg Option.some (hinj x y hx hy (le_antisymm (hmax' x hx) (hmax y hy)))

theorem keepMax_greatest {rank : α → β} {P : α → Prop} {found : Option α}
    (h : IsGreatest rank P found) (x : α) :
    IsGreatest rank (fun y => P y ∨ y = x) (keepMax rank found x) := by
  cases found with
  | none =>
      refine ⟨nofun, fun y hy => ?_⟩
      obtain rfl := Option.some.inj hy
      refine ⟨.inr rfl, fun z hz => ?_⟩
      rcases hz with hz | rfl
      · exact absurd hz (h.none rfl z)
      · exact le_refl _
  | some w =>
      obtain ⟨hw, hmax⟩ := h.some w rfl
      rw [keepMax]
      split
      next hlt =>
        refine ⟨nofun, fun y hy => ?_⟩
        obtain rfl := Option.some.inj hy
        refine ⟨.inr rfl, fun z hz => ?_⟩
        rcases hz with hz | rfl
        · exact le_trans (hmax z hz) (le_of_lt hlt)
        · exact le_refl _
      next hle =>
        refine ⟨nofun, fun y hy => ?_⟩
        obtain rfl := Option.some.inj hy
        refine ⟨.inl hw, fun z hz => ?_⟩
        rcases hz with hz | rfl
        · exact hmax z hz
        · exact not_lt.mp hle

theorem foldl_keepMax (rank : α → β) (xs : List α) :
    IsGreatest rank (fun x => x ∈ xs) (xs.foldl (keepMax rank) none) := by
  have hfold : ∀ (xs : List α) (P : α → Prop) (found : Option α), IsGreatest rank P found →
      IsGreatest rank (fun x => P x ∨ x ∈ xs) (xs.foldl (keepMax rank) found) := by
    intro xs
    induction xs with
    | nil => exact fun P found h => h.congr fun x => by simp
    | cons x xs ih =>
        intro P found h
        apply (ih _ _ (keepMax_greatest h x)).congr
        intro y
        rw [List.mem_cons, or_assoc]
  apply (hfold xs (fun _ => False) none ⟨fun _ _ => id, nofun⟩).congr
  intro x
  rw [false_or]

end ServerManager.RunningMax
