import ServerManager.FacilityPower
import Mathlib.Data.List.Induction

namespace ServerManager.NewestRate

open FacilityPower

def inForce (rates : List ElectricityRate) (season : String) (today : Int) : List ElectricityRate :=
  rates.filter (fun r => decide (r.season = season ∧ r.effectiveFrom ≤ today ∧
    ∀ last ∈ r.effectiveTo, today ≤ last))

/-- The rows of a component that are in force in the season of the month. -/
def versions (rates : List ElectricityRate) (t : Instant) (component : String) :
    List ElectricityRate :=
  (inForce rates (seasonOf t.month) t.currentDate).filter
    (fun r => decide (r.component = component))

def best (rank : ElectricityRate → Int) (rows : List ElectricityRate) : Option ElectricityRate :=
  rows.find? (fun r => rows.all (fun s => decide (rank s ≤ rank r)))

def newest (rates : List ElectricityRate) (t : Instant) (component : String) :
    Option ElectricityRate :=
  best (·.rateId) (versions rates t component)

def oldest (rates : List ElectricityRate) (t : Instant) (component : String) :
    Option ElectricityRate :=
  best (fun r => -r.rateId) (versions rates t component)

def valueOr (row : Option ElectricityRate) (constant : ℚ) : ℚ :=
  (row.map (·.valuePerKwh)).getD constant

def baseComponent (month : Nat) : String :=
  if seasonOf month = "summer" then "base_energy_summer" else "base_energy_winter"

def baseConstant (month : Nat) : ℚ :=
  if seasonOf month = "summer" then rateSummerBase else rateWinterBase

/-- The newest version of each component, or its constant. -/
def newestRate (rates : List ElectricityRate) (t : Instant) : ℚ :=
  valueOr (newest rates t (baseComponent t.month)) (baseConstant t.month) +
    valueOr (newest rates t "fees_riders") rateFeesRiders

/-- Without fees a base row has the constant; with them the oldest and the
newest fees differ by as much as the newest and the oldest base. -/
def EndsMeet (rates : List ElectricityRate) (t : Instant) : Prop :=
  (versions rates t "fees_riders" = [] ∧ ∀ r ∈ newest rates t (baseComponent t.month),
    r.valuePerKwh = baseConstant t.month) ∨
    ∃ first ∈ oldest rates t "fees_riders", ∃ last ∈ newest rates t "fees_riders",
      first.valuePerKwh - last.valuePerKwh =
        valueOr (newest rates t (baseComponent t.month)) (baseConstant t.month) -
          valueOr (oldest rates t (baseComponent t.month)) (baseConstant t.month)

theorem best_spec {rank : ElectricityRate → Int} {rows : List ElectricityRate} {r : ElectricityRate}
    (h : best rank rows = some r) :
    r ∈ rows ∧ ∀ s ∈ rows, rank s ≤ rank r := by
  have hall : rows.all (fun s => decide (rank s ≤ rank r)) = true :=
    @List.find?_some _ (fun r => rows.all (fun s => decide (rank s ≤ rank r))) _ _ h
  exact ⟨List.mem_of_find?_eq_some h, fun s hs => of_decide_eq_true (List.all_eq_true.mp hall s hs)⟩

theorem best_eq_none {rank : ElectricityRate → Int} {rows : List ElectricityRate} :
    best rank rows = none ↔ rows = [] := by
  have hmax : ∀ rows : List ElectricityRate, rows ≠ [] → ∃ r ∈ rows, ∀ s ∈ rows,
      rank s ≤ rank r := by
    intro rows
    induction rows with
    | nil => exact fun h => absurd rfl h
    | cons x rows ih =>
        intro _
        by_cases hnil : rows = []
        · subst hnil
          exact ⟨x, List.mem_cons_self, fun s hs => by rw [List.mem_singleton.mp hs]⟩
        · obtain ⟨r, hr, hall⟩ := ih hnil
          rcases Int.le_total (rank r) (rank x) with hx | hx
          · refine ⟨x, List.mem_cons_self, fun s hs => ?_⟩
            rcases List.mem_cons.mp hs with rfl | hs
            · exact Int.le_refl _
            · exact Int.le_trans (hall s hs) hx
          · refine ⟨r, List.mem_cons_of_mem _ hr, fun s hs => ?_⟩
            rcases List.mem_cons.mp hs with rfl | hs
            · exact hx
            · exact hall s hs
  constructor
  · intro hnone
    by_contra hne
    obtain ⟨r, hr, hall⟩ := hmax rows hne
    exact List.find?_eq_none.mp hnone r hr (List.all_eq_true.mpr fun s hs =>
      decide_eq_true (hall s hs))
  · rintro rfl
    rfl

theorem getLast_sorted {rows : List ElectricityRate} (hn : (rows.map (·.rateId)).Nodup)
    (keep : ElectricityRate → Bool) :
    ((rows.insertionSort (fun r s => r.rateId ≥ s.rateId)).filter keep).getLast? =
    best (fun r => -r.rateId) (rows.filter keep) := by
  have hsorted : ((rows.insertionSort (fun r s => r.rateId ≥ s.rateId)).filter keep).Pairwise
      (fun r s => r.rateId ≥ s.rateId) :=
    (List.pairwise_insertionSort _ rows).filter keep
  have hmem : ∀ r, r ∈ (rows.insertionSort (fun r s => r.rateId ≥ s.rateId)).filter keep ↔
      r ∈ rows.filter keep := by
    intro r
    rw [List.mem_filter, List.mem_filter, List.mem_insertionSort]
  generalize (rows.insertionSort (fun r s => r.rateId ≥ s.rateId)).filter keep =
    sorted at hsorted hmem
  cases hb : best (fun r => -r.rateId) (rows.filter keep) with
  | none =>
      have hnil := best_eq_none.mp hb
      have hsnil : sorted = [] := List.eq_nil_iff_forall_not_mem.mpr fun r hr => by
        have hin := (hmem r).mp hr
        rw [hnil] at hin
        exact List.not_mem_nil hin
      rw [hsnil]
      rfl
  | some r =>
      obtain ⟨hr, hleast⟩ := best_spec hb
      have hin := (hmem r).mpr hr
      induction sorted using List.reverseRecOn with
      | nil => exact absurd hin List.not_mem_nil
      | append_singleton sorted last _ =>
          rw [List.getLast?_concat]
          have hlast : last ∈ rows.filter keep :=
            (hmem last).mp (List.mem_append_right _ (List.mem_singleton_self last))
          have hle := hleast last hlast
          have hge : last.rateId ≤ r.rateId := by
            rcases List.mem_append.mp hin with hin | hin
            · exact (List.pairwise_append.mp hsorted).2.2 r hin last (List.mem_singleton_self last)
            · rw [List.mem_singleton.mp hin]
          have hid : last.rateId = r.rateId := by
            omega
          rw [List.inj_on_of_nodup_map hn (List.mem_of_mem_filter hlast) (List.mem_of_mem_filter hr)
            hid]

theorem valueOf_oldest {rates : List ElectricityRate} (hn : (rates.map (·.rateId)).Nodup)
    (t : Instant) (component : String) :
    valueOf (ratesFor rates (seasonOf t.month) t.currentDate) component =
      (oldest rates t component).map (·.valuePerKwh) := by
  have hin : ((inForce rates (seasonOf t.month) t.currentDate).map (·.rateId)).Nodup :=
    hn.sublist (List.filter_sublist.map _)
  exact congrArg (Option.map (·.valuePerKwh))
    (getLast_sorted hin fun r => decide (r.component = component))

theorem effectiveRate_oldest {rates : List ElectricityRate} (hn : (rates.map (·.rateId)).Nodup)
    (t : Instant) :
    (effectiveRate rates t).1 =
      (oldest rates t "fees_riders").elim (baseConstant t.month + rateFeesRiders)
        (fun first => valueOr (oldest rates t (baseComponent t.month)) (baseConstant t.month) +
          first.valuePerKwh) := by
  unfold effectiveRate rateParts baseComponent baseConstant
  simp only [valueOf_oldest hn]
  cases oldest rates t "fees_riders" with
  | none => rfl
  | some first =>
      by_cases hs : seasonOf t.month = "summer"
      · simp only [hs, if_true]
        rfl
      · have hw : seasonOf t.month = "winter" := if_neg fun h => hs (if_pos h)
        simp only [hw, if_true, if_false, String.reduceEq]
        rfl

/-- The rate is that of the newest versions exactly when the versions at both ends give the same. -/
theorem effective_rate_iff (rates : List ElectricityRate) (t : Instant)
    (hn : (rates.map (·.rateId)).Nodup) :
    (effectiveRate rates t).1 = newestRate rates t ↔ EndsMeet rates t := by
  rw [effectiveRate_oldest hn]
  unfold newestRate EndsMeet
  cases ho : oldest rates t "fees_riders" with
  | none =>
      have hnil : versions rates t "fees_riders" = [] := best_eq_none.mp ho
      have hnewest : newest rates t "fees_riders" = none := best_eq_none.mpr hnil
      rw [hnewest]
      cases newest rates t (baseComponent t.month) with
      | none => simp [valueOr, hnil]
      | some r =>
          simp only [Option.elim_none, valueOr, Option.map_some, Option.getD_some, Option.map_none,
            Option.getD_none, hnil,
            true_and, add_left_inj, Option.mem_def, Option.some.injEq, forall_eq', reduceCtorEq, false_and, exists_false, or_false]
          exact eq_comm
  | some first =>
      have hne : versions rates t "fees_riders" ≠ [] := fun h => by
        rw [oldest, h] at ho
        cases ho
      obtain ⟨last, hl⟩ := Option.ne_none_iff_exists'.mp (fun h => hne (best_eq_none.mp h) :
        newest rates t "fees_riders" ≠ none)
      rw [hl]
      simp only [Option.elim_some, hne, false_and, false_or, Option.mem_def, Option.some.injEq,
        exists_eq_left']
      have hlast : valueOr (some last) rateFeesRiders = last.valuePerKwh := rfl
      rw [hlast]
      constructor
      · intro h
        linarith
      · intro h
        linarith

def raisedFees : List ElectricityRate :=
  [⟨1, "fees_riders", 0.05, "summer", 0, none⟩, ⟨2, "fees_riders", 0.06, "summer", 100, none⟩]

def june : Instant := ⟨0, 6, 200⟩

theorem raised_not_charged : ¬ ∀ (rates : List ElectricityRate) (t : Instant),
    (rates.map (·.rateId)).Nodup →
    (effectiveRate rates t).1 = newestRate rates t := by
  intro hall
  have hrate := hall raisedFees june (by decide)
  revert hrate
  decide +kernel

/-- The second version moves a cent from the base to the fees. -/
def movedCent : List ElectricityRate :=
  [⟨1, "fees_riders", 0.05, "summer", 0, none⟩, ⟨2, "base_energy_summer", 0.11, "summer", 0, none⟩,
    ⟨3, "fees_riders", 0.06, "summer", 100, none⟩, ⟨4, "base_energy_summer", 0.1, "summer", 100, none⟩]

theorem two_versions :
    (movedCent.map (·.rateId)).Nodup ∧ EndsMeet movedCent june ∧
      ((effectiveRate movedCent june).1 = newestRate movedCent june ↔ EndsMeet movedCent june) :=
  ⟨by decide, .inr ⟨_, rfl, _,
    rfl, by decide +kernel⟩, effective_rate_iff movedCent june (by decide)⟩

end ServerManager.NewestRate
