import Mathlib.Data.Int.Log
import Mathlib.Data.Rat.Floor
import Mathlib.Tactic.FieldSimp
import Mathlib.Tactic.Linarith
import Mathlib.Tactic.Positivity

namespace ServerManager.Doubles

/-- The nearest integer, which is the even one in the middle of two. -/
def nearest (x : ℚ) : ℤ :=
  let low := ⌊x⌋
  let rest := x - low
  if rest < 1 / 2 then low else if 1 / 2 < rest then low + 1 else if low % 2 = 0 then low
    else low + 1

/-- The distance of two neighbours among the doubles of the size of `x`, which
have 53 binary digits. The exponent has no bounds. -/
def quantum (x : ℚ) : ℚ := 2 ^ (Int.log 2 |x| - 52)

/-- The double that stands for a number. -/
def double (x : ℚ) : ℚ := nearest (x / quantum x) * quantum x

/-- A double with so many decimal digits. -/
def round (digits : ℕ) (x : ℚ) : ℚ := double (nearest (x * 10 ^ digits) / 10 ^ digits)

/-- One addition, with what it has lost beside it. -/
def addKeeping (s : ℚ × ℚ) (x : ℚ) : ℚ × ℚ :=
  let t := double (s.1 + x)
  let lost := if |x| ≤ |s.1| then double (double (s.1 - t) + x) else double (double (x - t) + s.1)
  (t, double (s.2 + lost))

/-- The compensated sum of doubles. -/
def sum (xs : List ℚ) : ℚ :=
  let s := xs.foldl addKeeping (0, 0)
  double (s.1 + s.2)

theorem nearest_intCast (n : ℤ) : nearest n = n := by
  have hrest : ((n : ℚ) - n) < 1 / 2 := by
    rw [sub_self]
    norm_num
  unfold nearest
  rw [Int.floor_intCast]
  exact if_pos hrest

theorem nearest_near (x : ℚ) : |(nearest x : ℚ) - x| ≤ 1 / 2 := by
  have hlow := Int.floor_le x
  have hhigh := Int.lt_floor_add_one x
  unfold nearest
  rw [abs_le]
  dsimp only
  split
  · constructor <;> linarith
  · split
    · push_cast
      constructor <;> linarith
    · split
      · constructor <;> linarith
      · push_cast
        constructor <;> linarith

theorem quantum_pos (x : ℚ) : 0 < quantum x := zpow_pos (by norm_num) _

theorem two_pow_mul_quantum (k : ℕ) (x : ℚ) : 2 ^ k * quantum x = 2 ^ (Int.log 2 |x| - 52 + k) := by
  unfold quantum
  rw [← zpow_natCast, ← zpow_add₀ two_ne_zero, add_comm]

theorem two_pow_52_mul_quantum (x : ℚ) : 2 ^ 52 * quantum x = 2 ^ Int.log 2 |x| := by
  rw [two_pow_mul_quantum]
  congr 1
  push_cast
  ring

theorem two_pow_53_mul_quantum (x : ℚ) : 2 ^ 53 * quantum x = 2 ^ (Int.log 2 |x| + 1) := by
  rw [two_pow_mul_quantum]
  congr 1
  push_cast
  ring

theorem double_zero : double 0 = 0 := by
  unfold double
  rw [zero_div, show ((0 : ℚ)) = ((0 : ℤ) : ℚ) from rfl, nearest_intCast, Int.cast_zero, zero_mul]

theorem log_two_pow_mul (k : ℕ) {x : ℚ} (hx : 0 < x) : Int.log 2 (2 ^ k * x) = k + Int.log 2 x := by
  have hpos : 0 < 2 ^ k * x := by positivity
  have hle := Int.zpow_log_le_self one_lt_two hx
  have hlt := Int.lt_zpow_succ_log_self one_lt_two x
  have hk : (0 : ℚ) < 2 ^ k := by positivity
  apply le_antisymm
  · rw [← Int.lt_add_one_iff, ← Int.lt_zpow_iff_log_lt one_lt_two hpos]
    push_cast at hlt ⊢
    rw [add_assoc, zpow_add₀ two_ne_zero, zpow_natCast]
    exact mul_lt_mul_of_pos_left hlt hk
  · rw [← Int.zpow_le_iff_le_log one_lt_two hpos]
    push_cast at hle ⊢
    rw [zpow_add₀ two_ne_zero, zpow_natCast]
    exact mul_le_mul_of_nonneg_left hle hk.le

theorem quantum_two_pow_mul (k : ℕ) {x : ℚ} (hx : x ≠ 0) :
    quantum (2 ^ k * x) = 2 ^ k * quantum x := by
  have hk : (0 : ℚ) < 2 ^ k := by positivity
  unfold quantum
  rw [abs_mul, abs_of_pos hk, log_two_pow_mul k (abs_pos.mpr hx), add_sub_assoc,
    zpow_add₀ two_ne_zero, zpow_natCast]

theorem double_two_pow_mul (k : ℕ) (x : ℚ) : double (2 ^ k * x) = 2 ^ k * double x := by
  by_cases hx : x = 0
  · rw [hx, mul_zero, double_zero, mul_zero]
  have hk : (2 : ℚ) ^ k ≠ 0 := by positivity
  unfold double
  rw [quantum_two_pow_mul k hx, mul_div_mul_left _ _ hk]
  ring

theorem double_of_multiple {x : ℚ} {n : ℤ} (h : x = n * quantum x) : double x = x := by
  have hq := (quantum_pos x).ne'
  unfold double
  rw [(div_eq_iff hq).mpr h, nearest_intCast]
  exact h.symm

theorem log_eq {x : ℚ} {e : ℤ} (hle : 2 ^ e ≤ x) (hlt : x < 2 ^ (e + 1)) : Int.log 2 x = e := by
  have hx : 0 < x := (zpow_pos (by norm_num : (0 : ℚ) < 2) e).trans_le hle
  apply le_antisymm
  · rw [← Int.lt_add_one_iff, ← Int.lt_zpow_iff_log_lt one_lt_two hx]
    exact_mod_cast hlt
  · rw [← Int.zpow_le_iff_le_log one_lt_two hx]
    exact_mod_cast hle

theorem digits_bounds {x : ℚ} (hx : x ≠ 0) : 2 ^ 52 ≤ |nearest (x / quantum x)| ∧
    |nearest (x / quantum x)| ≤ 2 ^ 53 := by
  have hq := quantum_pos x
  have hle := Int.zpow_log_le_self one_lt_two (abs_pos.mpr hx)
  have hlt := Int.lt_zpow_succ_log_self one_lt_two |x|
  push_cast at hle hlt
  rw [← two_pow_52_mul_quantum] at hle
  rw [← two_pow_53_mul_quantum] at hlt
  have habs : |x / quantum x| = |x| / quantum x := by rw [abs_div, abs_of_pos hq]
  have hlow : (2 : ℚ) ^ 52 ≤ |x / quantum x| := by
    rw [habs, le_div_iff₀ hq]
    exact hle
  have hhigh : |x / quantum x| < (2 : ℚ) ^ 53 := by
    rw [habs, div_lt_iff₀ hq]
    exact hlt
  have hnear := abs_sub_abs_le_abs_sub (nearest (x / quantum x) : ℚ) (x / quantum x)
  have hnear' := abs_sub_abs_le_abs_sub (x / quantum x) (nearest (x / quantum x) : ℚ)
  rw [abs_sub_comm (x / quantum x)] at hnear'
  have hhalf := nearest_near (x / quantum x)
  norm_num at hlow hhigh
  constructor
  · have hcast : (2 ^ 52 : ℚ) - 1 < ((|nearest (x / quantum x)| : ℤ) : ℚ) := by
      push_cast
      norm_num
      linarith
    have hint : (2 ^ 52 - 1 : ℤ) < |nearest (x / quantum x)| := by exact_mod_cast hcast
    omega
  · have hcast : ((|nearest (x / quantum x)| : ℤ) : ℚ) < 2 ^ 53 + 1 := by
      push_cast
      norm_num
      linarith
    have hint : |nearest (x / quantum x)| < (2 ^ 53 + 1 : ℤ) := by exact_mod_cast hcast
    omega

theorem double_double (x : ℚ) : double (double x) = double x := by
  by_cases hx : x = 0
  · rw [hx, double_zero, double_zero]
  obtain ⟨hlow, hhigh⟩ := digits_bounds hx
  have hq := quantum_pos x
  have hval : |double x| = (|nearest (x / quantum x)| : ℤ) * quantum x := by
    unfold double
    rw [abs_mul, abs_of_pos hq, Int.cast_abs]
  have hsize := (two_pow_52_mul_quantum x).symm
  rcases hhigh.lt_or_eq with hlt | heq
  · -- the digits fit into the exponent of `x`
    have hlog : Int.log 2 |double x| = Int.log 2 |x| := by
      apply log_eq
      · rw [hval, hsize]
        exact mul_le_mul_of_nonneg_right (by exact_mod_cast hlow) hq.le
      · rw [hval, zpow_add₀ two_ne_zero, hsize]
        have hcast : ((|nearest (x / quantum x)| : ℤ) : ℚ) < 2 ^ 53 := by exact_mod_cast hlt
        have hmul := mul_lt_mul_of_pos_right hcast hq
        norm_num at hmul ⊢
        linarith
    refine double_of_multiple (n := nearest (x / quantum x)) ?_
    have hsame : quantum (double x) = quantum x := by
      unfold quantum
      rw [hlog]
    rw [hsame]
    rfl
  · -- rounding up has made the next power of two
    have hnext : |double x| = 2 ^ (Int.log 2 |x| + 1) := by
      rw [hval, heq, ← two_pow_53_mul_quantum]
      push_cast
      rfl
    have hlog : Int.log 2 |double x| = Int.log 2 |x| + 1 := by
      rw [hnext]
      exact Int.log_zpow one_lt_two _
    have hquantum : quantum (double x) = 2 * quantum x := by
      unfold quantum
      have hexp : Int.log 2 |x| + 1 - 52 = 1 + (Int.log 2 |x| - 52) := by ring
      rw [hlog, hexp, zpow_add₀ two_ne_zero, zpow_one]
    have heven : ∃ m : ℤ, nearest (x / quantum x) = 2 * m := by
      rcases abs_eq (by norm_num : (0 : ℤ) ≤ 2 ^ 53) |>.mp heq with h | h
      · exact ⟨2 ^ 52, by rw [h]; norm_num⟩
      · exact ⟨-2 ^ 52, by rw [h]; norm_num⟩
    obtain ⟨m, hm⟩ := heven
    refine double_of_multiple (n := m) ?_
    rw [hquantum]
    unfold double
    rw [hm]
    push_cast
    ring

theorem double_two_pow (k : ℕ) : double (2 ^ k) = 2 ^ k := by
  have hone : double 1 = 1 := by
    refine double_of_multiple (n := 2 ^ 52) ?_
    unfold quantum
    rw [abs_one, Int.log_one_right, zero_sub, zpow_neg]
    norm_num
  have h := double_two_pow_mul k 1
  rw [mul_one, hone, mul_one] at h
  exact h

theorem double_dyadic (x : ℚ) : ∃ k : ℕ, ∃ n : ℤ, 2 ^ k * double x = n := by
  obtain ⟨k, hk⟩ : ∃ k : ℕ, 0 ≤ Int.log 2 |x| - 52 + k := ⟨(52 - Int.log 2 |x|).toNat, by omega⟩
  obtain ⟨j, hj⟩ := Int.eq_ofNat_of_zero_le hk
  refine ⟨k, nearest (x / quantum x) * 2 ^ j, ?_⟩
  have hq : (2 : ℚ) ^ k * quantum x = 2 ^ j := by
    rw [two_pow_mul_quantum, hj, zpow_natCast]
  unfold double
  rw [← mul_left_comm, hq]
  push_cast
  ring

theorem round_intCast (digits : ℕ) (n : ℤ) : round digits n = double n := by
  have hpow : (10 : ℚ) ^ digits ≠ 0 := by positivity
  unfold round
  rw [show (n : ℚ) * 10 ^ digits = ((n * 10 ^ digits : ℤ) : ℚ) by push_cast; rfl, nearest_intCast]
  push_cast
  rw [mul_div_cancel_right₀ _ hpow]

theorem eq_of_rounded (digits : ℕ) (x y : ℚ)
    (h : ∀ k : ℕ, round digits (double (2 ^ k * double x)) =
    round digits (double (2 ^ k * double y))) :
    double x = double y := by
  obtain ⟨k, n, hn⟩ := double_dyadic x
  obtain ⟨j, m, hm⟩ := double_dyadic y
  have hk := h (k + j)
  have hx : (2 : ℚ) ^ (k + j) * double x = ((n * 2 ^ j : ℤ) : ℚ) := by
    push_cast
    rw [← hn]
    ring
  have hy : (2 : ℚ) ^ (k + j) * double y = ((m * 2 ^ k : ℤ) : ℚ) := by
    push_cast
    rw [← hm]
    ring
  have hfix : ∀ z : ℚ, double (2 ^ (k + j) * double z) = 2 ^ (k + j) * double z := fun z => by
    rw [double_two_pow_mul, double_double]
  rw [hfix, hfix, hx, hy, round_intCast, round_intCast, ← hx, ← hy, hfix, hfix] at hk
  exact mul_left_cancel₀ (by positivity) hk

end ServerManager.Doubles
