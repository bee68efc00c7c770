import ServerManager.Spend
import Mathlib.Data.Finset.Card

namespace ServerManager.AnalyticsRange

open GpuPower Spend
open HostEnergy (tableKwh)
open FacilityPower (hour)

def inside (rollup : List MinuteRow) (a b : Int) : List MinuteRow :=
  rollup.filter (fun r => decide (a ≤ r.ts ∧ r.ts ≤ b))

/-- The rows that the queries read although the range is over. -/
def later (rollup : List MinuteRow) (a b : Int) : List MinuteRow :=
  rollup.filter (fun r => decide (a ≤ r.ts ∧ b < r.ts))

def addTotals (t u : Totals) : Totals :=
  ⟨t.requests + u.requests, t.promptTokens + u.promptTokens,
    t.completionTokens + u.completionTokens, t.spend + u.spend⟩

/-- An instant of the range at which neither table has a row. -/
def Gap (rollup : List MinuteRow) (log : List SpendLog) (a b m : Int) : Prop :=
  a ≤ m ∧ m ≤ b ∧ (∀ r ∈ rollup, r.ts ≠ m) ∧ ∀ r ∈ log, r.startTime ≠ m

/-- The energy and the covered minutes are those of the rows of the range, and
both parts of a range have together what the range has. -/
structure Closed (rollup : List MinuteRow) (log : List SpendLog) (now a : Int) (to' : Option Int) :
    Prop where
  kwh : rangeKwh rollup now (.explicit a to') = tableKwh (inside rollup a (to'.getD now))
  minutes : rangeMinutes rollup now (.explicit a to') = minutesWith (inside rollup a (to'.getD now))
  split : ∀ m, Gap rollup log a (to'.getD now) m →
    rangeKwh rollup now (.explicit a to') = rangeKwh rollup now (.explicit a (some m)) +
      rangeKwh rollup now (.explicit m to') ∧
      totalsOf (Range.rows log now (.explicit a to')) =
        addTotals (totalsOf (Range.rows log now (.explicit a (some m))))
          (totalsOf (Range.rows log now (.explicit m to')))

/-- After the range there is no energy and no minute of its own, and after a gap there is no
energy. -/
structure NothingLater (rollup : List MinuteRow) (log : List SpendLog) (now a : Int)
    (to' : Option Int) : Prop where
  energy : tableKwh (later rollup a (to'.getD now)) = 0
  minutes : ∀ r ∈ later rollup a (to'.getD now), ∃ s ∈ inside rollup a (to'.getD now),
    minuteOf s.ts = minuteOf r.ts
  gaps : ∀ m, Gap rollup log a (to'.getD now) m → tableKwh (sinceStart rollup m) = 0

theorem rangeKwh_eq (rollup : List MinuteRow) (now a : Int) (to' : Option Int) :
    rangeKwh rollup now (.explicit a to') =
      tableKwh (inside rollup a (to'.getD now)) + tableKwh (later rollup a (to'.getD now)) := by
  have hread : rangeKwh rollup now (.explicit a to') = tableKwh (sinceStart rollup a) := rfl
  rw [hread, tableKwh_split (fun r => decide (r.ts ≤ to'.getD now)) (sinceStart rollup a)]
  unfold sinceStart inside later
  rw [List.filter_filter, List.filter_filter]
  congr 2
  · apply List.filter_congr
    intro r _
    rw [Bool.eq_iff_iff, Bool.and_eq_true, decide_eq_true_iff, decide_eq_true_iff,
      decide_eq_true_iff]
    exact and_comm
  · apply List.filter_congr
    intro r _
    rw [Bool.eq_iff_iff, Bool.and_eq_true, Bool.not_eq_true', decide_eq_false_iff_not,
      decide_eq_true_iff, decide_eq_true_iff]
    omega

theorem minutesWith_eq_iff {rows all : List MinuteRow} (h : ∀ r ∈ rows, r ∈ all) :
    minutesWith all = minutesWith rows ↔ ∀ r ∈ all, ∃ s ∈ rows, minuteOf s.ts = minuteOf r.ts := by
  have hcard : ∀ rows : List MinuteRow, minutesWith rows =
      (rows.map (fun r => minuteOf r.ts)).toFinset.card := fun rows =>
    (List.card_toFinset _).symm
  have hsub : (rows.map (fun r => minuteOf r.ts)).toFinset ⊆ (all.map
      (fun r => minuteOf r.ts)).toFinset := by
    intro x hx
    rw [List.mem_toFinset] at hx ⊢
    obtain ⟨r, hr, rfl⟩ := List.mem_map.mp hx
    exact List.mem_map.mpr ⟨r, h r hr, rfl⟩
  rw [hcard, hcard]
  constructor
  · intro he r hr
    have hall := Finset.eq_of_subset_of_card_le hsub he.le
    have hmem : minuteOf r.ts ∈ (rows.map (fun r => minuteOf r.ts)).toFinset := by
      rw [hall, List.mem_toFinset]
      exact List.mem_map.mpr ⟨r, hr, rfl⟩
    exact List.mem_map.mp (List.mem_toFinset.mp hmem)
  · intro hall
    congr 1
    apply Finset.Subset.antisymm _ hsub
    intro x hx
    rw [List.mem_toFinset] at hx ⊢
    obtain ⟨r, hr, rfl⟩ := List.mem_map.mp hx
    exact List.mem_map.mpr (hall r hr)

theorem rangeMinutes_iff (rollup : List MinuteRow) (now a : Int) (to' : Option Int) :
    rangeMinutes rollup now (.explicit a to') = minutesWith (inside rollup a (to'.getD now)) ↔
      ∀ r ∈ later rollup a (to'.getD now), ∃ s ∈ inside rollup a (to'.getD now),
        minuteOf s.ts = minuteOf r.ts := by
  have hread : rangeMinutes rollup now (.explicit a to') = minutesWith (sinceStart rollup a) := rfl
  have hin : ∀ r, r ∈ inside rollup a (to'.getD now) ↔
      r ∈ rollup ∧ a ≤ r.ts ∧ r.ts ≤ to'.getD now := fun r => by simp [inside]
  have hsince : ∀ r, r ∈ sinceStart rollup a ↔ r ∈ rollup ∧ a ≤ r.ts := fun r => by
    simp [sinceStart]
  have hlater : ∀ r, r ∈ later rollup a (to'.getD now) ↔
      r ∈ rollup ∧ a ≤ r.ts ∧ to'.getD now < r.ts := fun r => by simp [later]
  rw [hread, minutesWith_eq_iff fun r hr => (hsince r).mpr ⟨((hin r).mp hr).1, ((hin r).mp hr).2.1⟩]
  constructor
  · intro hall r hr
    obtain ⟨hr, ha, -⟩ := (hlater r).mp hr
    exact hall r ((hsince r).mpr ⟨hr, ha⟩)
  · intro hall r hr
    obtain ⟨hr, ha⟩ := (hsince r).mp hr
    by_cases hb : r.ts ≤ to'.getD now
    · exact ⟨r, (hin r).mpr ⟨hr, ha, hb⟩, rfl⟩
    · exact hall r ((hlater r).mpr ⟨hr, ha, by omega⟩)

theorem totalsOf_split (q : SpendLog → Bool) (rows : List SpendLog) :
    totalsOf rows = addTotals (totalsOf (rows.filter q))
      (totalsOf (rows.filter (fun r => !q r))) := by
  have hlen := List.length_eq_length_filter_add q (l := rows)
  unfold totalsOf addTotals
  congr 1
  · exact sum_split _ q rows
  · exact sum_split _ q rows
  · exact sum_split _ q rows

theorem totals_split (log : List SpendLog) (now : Int) {a m : Int} {to' : Option Int} (ha : a ≤ m)
    (hb : m ≤ to'.getD now)
    (hm : ∀ r ∈ log, r.startTime ≠ m) :
    totalsOf (Range.rows log now (.explicit a to')) =
      addTotals (totalsOf (Range.rows log now (.explicit a (some m))))
        (totalsOf (Range.rows log now (.explicit m to'))) := by
  have hrows : ∀ (a : Int) (to' : Option Int), Range.rows log now (.explicit a to') =
      log.filter (fun r => decide (a ≤ r.startTime ∧ r.startTime ≤ to'.getD now) && r.counts) :=
        fun _ _ => rfl
  rw [totalsOf_split (fun r => decide (r.startTime ≤ m))]
  simp only [hrows, List.filter_filter]
  congr 2
  · apply List.filter_congr
    intro r _
    cases r.counts with
    | false => simp
    | true =>
        rw [Bool.eq_iff_iff]
        simp only [Bool.and_true, Bool.and_eq_true, decide_eq_true_iff, Option.getD_some]
        omega
  · apply List.filter_congr
    intro r hr
    have hne := hm r hr
    cases r.counts with
    | false => simp
    | true =>
        rw [Bool.eq_iff_iff]
        simp only [Bool.and_true, Bool.and_eq_true, Bool.not_eq_true', decide_eq_false_iff_not,
          decide_eq_true_iff]
        omega

/-- A range is closed exactly when nothing comes after it, or after any of its gaps. -/
theorem analytics_range_iff (rollup : List MinuteRow) (log : List SpendLog) (now a : Int)
    (to' : Option Int) :
    Closed rollup log now a to' ↔ NothingLater rollup log now a to' := by
  have hkwh := rangeKwh_eq rollup now a to'
  have hpart : ∀ m, rangeKwh rollup now (.explicit a (some m)) =
      rangeKwh rollup now (.explicit a to') := fun _ => rfl
  have hrest : ∀ m, rangeKwh rollup now (.explicit m to') = tableKwh (sinceStart rollup m) :=
    fun _ => rfl
  constructor
  · rintro ⟨hk, hm, hs⟩
    refine ⟨by linarith, (rangeMinutes_iff rollup now a to').mp hm, fun m hgap => ?_⟩
    have hsum := (hs m hgap).1
    rw [hpart, hrest m] at hsum
    linarith
  · rintro ⟨he, hm, hg⟩
    refine ⟨by linarith, (rangeMinutes_iff rollup now a to').mpr hm, fun m hgap => ⟨?_, ?_⟩⟩
    · rw [hpart, hrest m, hg m hgap, add_zero]
    · exact totals_split log now hgap.1 hgap.2.1 hgap.2.2.2

def twoMinutes : List MinuteRow :=
  [⟨1, minute, some 1, some 600, some 700⟩, ⟨2, 2 * hour, some 1, some 600, some 700⟩]

theorem later_minute_counted : ¬ ∀ (rollup : List MinuteRow) (log : List SpendLog) (now a :
    Int) (to' : Option Int),
    Closed rollup log now a to' := by
  intro hall
  have hk := (hall twoMinutes [] (3 * hour) 0 (some hour)).kwh
  revert hk
  decide +kernel

end ServerManager.AnalyticsRange
