import ServerManager.FacilityPower

namespace ServerManager.FacilityRoute

open FacilityPower
open GpuPower (known)
open Doubles (double)

def rateSummerBase : ℚ := 0.13234
def rateWinterBase : ℚ := 0.10257
def rateFeesRiders : ℚ := 0.04540

/-- `_effective_rate` of the machine API's copy of the view. -/
def effectiveRate (rates : List ElectricityRate) (t : Instant) : ℚ × String :=
  let season := seasonOf t.month
  let vals := valueOf (ratesFor rates season t.currentDate)
  let fees := (vals "fees_riders").getD rateFeesRiders
  let base := (vals "base").getD (if season = "summer" then rateSummerBase else rateWinterBase)
  let source :=
    if (vals "base").isSome ∨ (vals "fees_riders").isSome
      then "electricity_rates (versioned components)"
    else "built-in plan v0.2.1 constants"
  (Doubles.round 5 (double (double base + double fees)), source)

def facilityPower (samples : List PowerSample) (rates : List ElectricityRate) (t : Instant) :
    PowerView :=
  let rate := effectiveRate rates t
  let channels := channelNums.map (channelRow samples t.now rate.1)
  { rate := ⟨rate.1, Doubles.round 2 (double (rate.1 * 100)), seasonOf t.month, rate.2⟩
    collector := collectorHealth samples t.now
    channels := channels
    totals := totalsOf channels rate.1 }

structure ChannelFigures where
  channelNum : String
  avgWatts1h : Option ℚ
  kwh24h : Option ℚ
  costUsd24h : Option ℚ
  kwh30d : Option ℚ
  costUsd30d : Option ℚ
  stale : Bool
  deriving DecidableEq

structure Figures where
  effectivePerKwh : ℚ
  channels : List ChannelFigures
  kwh24h : Option ℚ
  costUsd24h : Option ℚ
  kwh30d : Option ℚ
  costUsd30d : Option ℚ
  deriving DecidableEq

def channelFigures (c : Channel) : ChannelFigures :=
  ⟨c.channelNum, c.avgWatts1h, c.kwh24h, c.costUsd24h, c.kwh30d, c.costUsd30d, c.stale⟩

def figures (v : PowerView) : Figures :=
  ⟨v.rate.effectivePerKwh, v.channels.map channelFigures, v.totals.kwh24h, v.totals.costUsd24h,
    v.totals.kwh30d, v.totals.costUsd30d⟩

/-- The two views report the same. -/
def Agree (samples : List PowerSample) (rates : List ElectricityRate) (t : Instant) : Prop :=
  figures (facilityPower samples rates t) = figures (facilityPowerView samples rates t)

/-- The components in force make the same rate for both, and five digits show it in full. -/
def SameRate (rates : List ElectricityRate) (t : Instant) : Prop :=
  let season := seasonOf t.month
  let vals := valueOf (ratesFor rates season t.currentDate)
  let ours :=
    Doubles.round 5 (double (double ((vals "base").getD
      (if season = "summer" then 0.13234 else 0.10257)) +
      double ((vals "fees_riders").getD 0.04540)))
  let theirs :=
    match vals "fees_riders" with
    | some fees =>
        double (double (if season = "summer" then (vals "base_energy_summer").getD 0.13398
          else (vals "base_energy_winter").getD 0.09992) + double fees)
    | none => double (double (if season = "summer" then 0.13398 else 0.09992) + double 0.05830)
  ours = theirs ∧ Doubles.round 5 theirs = theirs

theorem season_cases (month : Nat) : seasonOf month = "summer" ∨ seasonOf month = "winter" := by
  unfold seasonOf
  split
  · exact .inl rfl
  · exact .inr rfl

theorem sameRate_iff (rates : List ElectricityRate) (t : Instant) :
    SameRate rates t ↔
      (effectiveRate rates t).1 = floatRate rates t ∧
        Doubles.round 5 (floatRate rates t) = floatRate rates t := by
  unfold SameRate effectiveRate floatRate rateParts
  simp only [rateSummerBase, rateWinterBase, rateFeesRiders, FacilityPower.rateSummerBase,
    FacilityPower.rateWinterBase, FacilityPower.rateFeesRiders]
  cases valueOf (ratesFor rates (seasonOf t.month) t.currentDate) "fees_riders" with
  | none => exact Iff.rfl
  | some fees =>
      rcases season_cases t.month with hs | hs
      · simp only [hs, if_true]
      · simp only [hs, if_true, if_false, String.reduceEq]

/-- What the views charge for: the energy of each channel that is not stale, and the totals. -/
def charged (samples : List PowerSample) (now : Int) : List ℚ :=
  channelNums.flatMap
      (fun c => (energy samples now dayHours c).toList ++
        (energy samples now monthHours c).toList) ++
    ((sumCh (channelNums.map
        (fun c => (energy samples now dayHours c).map (Doubles.round 3)))).toList ++
      (sumCh (channelNums.map
        (fun c => (energy samples now monthHours c).map (Doubles.round 3)))).toList)

def SameCost (rate rate' kwh : ℚ) : Prop := costUsd rate kwh = costUsd rate' kwh

theorem cost_eq_iff (kwh : Option ℚ) (rate rate' : ℚ) :
    kwh.map (costUsd rate) = kwh.map (costUsd rate') ↔ ∀ k ∈ kwh.toList, SameCost rate rate' k := by
  cases kwh with
  | none => exact ⟨fun _ k hk => absurd hk List.not_mem_nil, fun _ => rfl⟩
  | some k =>
      constructor
      · intro h j hj
        rw [List.mem_singleton.mp hj]
        exact Option.some.inj h
      · exact fun h => congrArg some (h k (List.mem_singleton.mpr rfl))

theorem channelFigures_eq_iff (samples : List PowerSample) (now : Int) (rate rate' : ℚ)
    (c : String) :
    channelFigures (channelRow samples now rate c) =
      channelFigures (channelRow samples now rate' c) ↔
      ∀ k ∈ (energy samples now dayHours c).toList ++ (energy samples now monthHours c).toList,
        SameCost rate rate' k := by
  rw [List.forall_mem_append, ← cost_eq_iff, ← cost_eq_iff]
  unfold channelFigures channelRow
  rw [ChannelFigures.mk.injEq]
  simp only [true_and, and_true]

/-- For these samples the views agree when the API's rate is the one that the
app shows and both charge the same for all energies. -/
theorem agree_iff (samples : List PowerSample) (rates : List ElectricityRate) (t : Instant) :
    Agree samples rates t ↔
      (effectiveRate rates t).1 = Doubles.round 5 (floatRate rates t) ∧
        ∀ k ∈ charged samples t.now, SameCost (effectiveRate rates t).1 (floatRate rates t) k := by
  have htotal : ∀ (rate : ℚ) (interval : Int) (f : Channel → Option ℚ),
      (∀ c, f (channelRow samples t.now rate c) =
        (energy samples t.now interval c).map (Doubles.round 3)) →
        (channelNums.map (channelRow samples t.now rate)).map f =
          channelNums.map (fun c => (energy samples t.now interval c).map (Doubles.round 3)) := by
    intro rate interval f hf
    rw [List.map_map]
    exact List.map_congr_left fun c _ => hf c
  unfold Agree figures facilityPower facilityPowerView charged totalsOf
  simp only [htotal _ dayHours (·.kwh24h) fun _ => rfl, htotal _ monthHours (·.kwh30d) fun _ => rfl]
  rw [Figures.mk.injEq, List.forall_mem_append, List.forall_mem_append, ← cost_eq_iff,
    ← cost_eq_iff, List.forall_mem_flatMap, List.map_map, List.map_map, List.map_inj_left]
  simp only [true_and, Function.comp_apply, channelFigures_eq_iff]

def oneSample (now : Int) (kwh : ℚ) : List PowerSample := [⟨now, 631093, "1", some 0, some kwh⟩]

theorem mem_charged_oneSample (now : Int) (kwh : ℚ) :
    double kwh ∈ charged (oneSample now kwh) now := by
  have hage : ageSeconds now now = 0 := by
    unfold ageSeconds
    rw [sub_self, Int.cast_zero, zero_div]
  have hstale : channelStale (oneSample now kwh) "1" now = false := by
    show decide (staleSampleSeconds < ageSeconds now now) = false
    rw [hage]
    decide
  have hsum : sumKwh (oneSample now kwh) "1" now dayHours = some kwh := by
    have hwindow : since (ofChannel (oneSample now kwh) "1") now dayHours = oneSample now kwh := by
      refine List.filter_eq_self.mpr fun s hs => ?_
      rw [List.mem_singleton.mp (show s ∈ [_] from hs), decide_eq_true_iff]
      show now - dayHours ≤ now
      unfold dayHours hour
      omega
    unfold sumKwh
    rw [hwindow]
    simp [oneSample, sumOf, known]
  have henergy : energy (oneSample now kwh) now dayHours "1" = some (double kwh) := by
    unfold energy
    rw [hstale, hsum]
    rfl
  refine List.mem_append_left _ (List.mem_flatMap.mpr
    ⟨"1", List.mem_cons_self, List.mem_append_left _ ?_⟩)
  rw [henergy]
  exact List.mem_singleton.mpr rfl

theorem rate_eq_of_sameCost {x y : ℚ} (h : ∀ k : ℕ, SameCost (double x) (double y) (2 ^ k)) :
    double x = double y :=
  Doubles.eq_of_rounded 4 x y h

/-- Samples apart, the views agree when the components in force make the same rate. -/
theorem views_agree_iff (rates : List ElectricityRate) (t : Instant) :
    ((∀ samples, Agree samples rates t) ↔ SameRate rates t) ∧
      ∀ samples, Agree samples rates t ↔
        (effectiveRate rates t).1 = Doubles.round 5 (floatRate rates t) ∧
          ∀ k ∈ charged samples t.now, SameCost (effectiveRate rates t).1 (floatRate rates t)
            k := by
  refine ⟨?_, fun samples => agree_iff samples rates t⟩
  rw [sameRate_iff]
  constructor
  · intro hall
    have hcosts : ∀ k : ℕ,
        SameCost (effectiveRate rates t).1 (floatRate rates t) (2 ^ k) := fun k => by
      have hmem := mem_charged_oneSample t.now (2 ^ k)
      rw [Doubles.double_two_pow] at hmem
      exact ((agree_iff _ rates t).mp (hall (oneSample t.now (2 ^ k)))).2 _ hmem
    have he : (effectiveRate rates t).1 = floatRate rates t := rate_eq_of_sameCost hcosts
    refine ⟨he, ?_⟩
    rw [← ((agree_iff _ rates t).mp (hall [])).1]
    exact he
  · rintro ⟨he, hshown⟩ samples
    refine (agree_iff samples rates t).mpr ⟨?_, fun k _ => by rw [SameCost, he]⟩
    rw [hshown]
    exact he

instance (samples : List PowerSample) (rates : List ElectricityRate) (t : Instant) :
    Decidable (Agree samples rates t) :=
  inferInstanceAs (Decidable (figures _ = figures _))

/-- Without any row the built-in constants differ: 0.17774 and 0.19228 in summer. -/
theorem constants_differ : ¬ ∀ samples rates t, Agree samples rates t := fun hall =>
  absurd (hall [] [] ⟨0, 6, 0⟩) (by decide +kernel)

def bothComponents (fees : ℚ) : List ElectricityRate :=
  [⟨1, "base", 0.1, "winter", 0, none⟩, ⟨2, "base_energy_winter", 0.1, "winter", 0, none⟩,
    ⟨3, "fees_riders", fees, "winter", 0, none⟩]

-- the float sum of 0.1 and 0.05 is above 0.15, so half a digit is rounded up in the app alone
example : ¬ Agree (oneSample 0 0.003) (bothComponents 0.05) ⟨0, 1, 20000⟩ := by decide +kernel

example : Agree (oneSample 0 0.003) (bothComponents 0.1) ⟨0, 1, 20000⟩ := by decide +kernel

end ServerManager.FacilityRoute
