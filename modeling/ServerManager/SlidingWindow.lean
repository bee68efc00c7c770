import Mathlib.Algebra.Order.Group.Defs
import Mathlib.Algebra.Order.Group.Unbundled.Basic
import Mathlib.Algebra.Order.Monoid.Unbundled.Basic

namespace ServerManager.SlidingWindow

theorem countP_append_le {α : Type} {p q : α → Bool} {xs : List α} {x : α} {limit : Nat}
    (hold : xs.countP p ≤ limit)
    (hnew : p x = true → ∀ y ∈ xs, p y = true → q y = true) (hq : xs.countP q < limit) :
    (xs ++ [x]).countP p ≤ limit := by
  rw [List.countP_append, List.countP_singleton]
  by_cases hx : p x = true
  · rw [if_pos hx]
    have hle : xs.countP p ≤ xs.countP q := List.countP_mono_left (hnew hx)
    omega
  · rw [if_neg hx]
    exact hold

variable {T : Type} [AddCommGroup T] [LinearOrder T] {limit : Nat} {width : T} {ts : List T}

/-- At most `limit` of the times lie in any half-open window of this width, closed at its start or
at its end. -/
def Limited (limit : Nat) (width : T) (ts : List T) : Prop :=
  ∀ a, ts.countP (fun x => a ≤ x ∧ x < a + width) ≤ limit ∧
    ts.countP (fun x => a < x ∧ x ≤ a + width) ≤ limit

theorem Limited.nil : Limited limit width ([] : List T) := fun _ => ⟨Nat.zero_le _, Nat.zero_le _⟩

/-- A time that is added when fewer than `limit` lie in the window up to an
earlier time `s`, open at its start, breaks no window. -/
theorem Limited.append [IsOrderedAddMonoid T] {s t : T} (h : Limited limit width ts)
    (hc : ts.countP (fun x => s - width < x) < limit) (hst : s ≤ t) :
    Limited limit width (ts ++ [t]) := by
  intro a
  constructor
  · refine countP_append_le (h a).1 ?_ hc
    intro ht x _ hx
    obtain ⟨-, ht⟩ := of_decide_eq_true ht
    obtain ⟨hx, -⟩ := of_decide_eq_true hx
    have hs : s - width < a := sub_lt_iff_lt_add.mpr (hst.trans_lt ht)
    exact decide_eq_true (hs.trans_le hx)
  · refine countP_append_le (h a).2 ?_ hc
    intro ht x _ hx
    obtain ⟨-, ht⟩ := of_decide_eq_true ht
    obtain ⟨hx, -⟩ := of_decide_eq_true hx
    have hs : s - width ≤ a := sub_le_iff_le_add.mpr (hst.trans ht)
    exact decide_eq_true (hs.trans_lt hx)

end ServerManager.SlidingWindow
