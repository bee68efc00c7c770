import ServerManager.Spend

namespace ServerManager.CostWindows

open GpuPower Spend
open HostEnergy (tableKwh)
open FacilityPower (hour)

def NonNegative (rollup : List MinuteRow) : Prop := ∀ r ∈ rollup, ∀ v ∈ r.gpuWattsAvg, 0 ≤ v

/-- Both endpoints report the last 24, 168 and 720 hours, and no window has less than a shorter
one. -/
structure Meant (rollup : List MinuteRow) (now : Int) : Prop where
  day : costKwh rollup now .h24 = spendKwh rollup now .h24 ∧
    spendKwh rollup now .h24 = tableKwh (lastHours rollup now 24)
  week : costKwh rollup now .d7 = spendKwh rollup now .d7 ∧
    spendKwh rollup now .d7 = tableKwh (lastHours rollup now 168)
  month : costKwh rollup now .d30 = spendKwh rollup now .d30 ∧
    spendKwh rollup now .d30 = tableKwh (lastHours rollup now 720)
  ordered : NonNegative rollup →
    costKwh rollup now .h24 ≤ costKwh rollup now .d7 ∧
      costKwh rollup now .d7 ≤ costKwh rollup now .d30

/-- The rows that are older than some hours, but not than some more. -/
def aged (rollup : List MinuteRow) (now younger older : Int) : List MinuteRow :=
  rollup.filter (fun r => decide (now - older * hour ≤ r.ts ∧ r.ts < now - younger * hour))

theorem costHours_eq : costHours .h24 = 24 ∧ costHours .d7 = 7 ∧ costHours .d30 = 30 := by decide

theorem lastHours_split (rollup : List MinuteRow) (now : Int) {younger older : Int}
    (hy : 0 < younger) (ho : younger ≤ older) :
    tableKwh (lastHours rollup now older) = tableKwh (lastHours rollup now younger) +
      tableKwh (aged rollup now younger older) := by
  have hhour : hour = 3600000000 := rfl
  have hminute : minute = 60000000 := rfl
  have hfloor : now - minute < minuteOf now * minute := by
    simp only [minuteOf, minute]
    omega
  rw [tableKwh_split (fun r => decide (now - younger * hour ≤ r.ts)) (lastHours rollup now older)]
  unfold lastHours aged
  rw [List.filter_filter, List.filter_filter]
  congr 2
  · apply List.filter_congr
    intro r _
    rw [Bool.eq_iff_iff, Bool.and_eq_true, decide_eq_true_iff, decide_eq_true_iff,
      decide_eq_true_iff, hhour]
    omega
  · apply List.filter_congr
    intro r _
    rw [Bool.eq_iff_iff, Bool.and_eq_true, Bool.not_eq_true', decide_eq_false_iff_not,
      decide_eq_true_iff, decide_eq_true_iff, hhour]
    omega

theorem lastHours_le {rollup : List MinuteRow} (hn : NonNegative rollup) (now : Int)
    {younger older : Int} (hy : 0 < younger)
    (ho : younger ≤ older) : tableKwh (lastHours rollup now younger) ≤
    tableKwh (lastHours rollup now older) := by
  have hold : 0 ≤ tableKwh (aged rollup now younger older) :=
    tableKwh_nonneg fun r hr => hn r (List.mem_of_mem_filter hr)
  rw [lastHours_split rollup now hy ho]
  linarith

/-- The endpoints agree exactly when the rows of more than seven hours and up
to seven days, and those of more than thirty hours and up to thirty days, have no energy. -/
theorem cost_windows_iff (rollup : List MinuteRow) (now : Int) :
    Meant rollup now ↔ tableKwh (aged rollup now 7 168) = 0 ∧
      tableKwh (aged rollup now 30 720) = 0 := by
  obtain ⟨hday, hweek, hmonth⟩ := costHours_eq
  have hw :=
    lastHours_split rollup now (show (0 : Int) < 7 by decide) (show (7 : Int) ≤ 168 by decide)
  have hm :=
    lastHours_split rollup now (show (0 : Int) < 30 by decide) (show (30 : Int) ≤ 720 by decide)
  constructor
  · rintro ⟨-, ⟨hcw, hsw⟩, ⟨hcm, hsm⟩, -⟩
    unfold costKwh at hcw hcm
    rw [hweek, hsw] at hcw
    rw [hmonth, hsm] at hcm
    constructor
    · linarith
    · linarith
  · rintro ⟨hw0, hm0⟩
    have hcd : costKwh rollup now .h24 = tableKwh (lastHours rollup now 24) := by
      unfold costKwh
      rw [hday]
    have hcw : costKwh rollup now .d7 = tableKwh (lastHours rollup now 168) := by
      unfold costKwh
      rw [hweek]
      linarith
    have hcm : costKwh rollup now .d30 = tableKwh (lastHours rollup now 720) := by
      unfold costKwh
      rw [hmonth]
      linarith
    refine ⟨⟨hcd, rfl⟩, ⟨hcw, rfl⟩, ⟨hcm, rfl⟩, fun hn => ?_⟩
    rw [hcd, hcw, hcm]
    exact ⟨lastHours_le hn now (by decide) (by decide), lastHours_le hn now (by decide) (by decide)⟩

def hundredHoursAgo : List MinuteRow := [⟨1, 100 * hour, some 1, some 600, some 700⟩]

theorem week_is_seven_hours : ¬ ∀ (rollup : List MinuteRow) (now : Int), Meant rollup now := by
  intro hall
  have hw := (hall hundredHoursAgo (200 * hour)).week.1
  revert hw
  decide +kernel

end ServerManager.CostWindows
