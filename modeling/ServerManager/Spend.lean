import ServerManager.HostEnergy
import ServerManager.FacilityPower
import Mathlib.Algebra.Order.BigOperators.Group.List

namespace ServerManager.Spend

open GpuPower
open HostEnergy (tableKwh)
open FacilityPower (roundTo hour)

/-- A row of `"LiteLLM_SpendLogs"`. -/
structure SpendLog where
  apiKey : String
  model : String
  modelGroup : String
  startTime : Int
  spend : Option ℚ
  promptTokens : Option Int
  completionTokens : Option Int
  totalTokens : Option Int
  deriving DecidableEq

inductive Window
  | h24
  | d7
  | d30
  deriving DecidableEq

def Window.label : Window → String
  | .h24 => "24h"
  | .d7 => "7d"
  | .d30 => "30d"

def windows : List Window := [.h24, .d7, .d30]

/-- The digits in front of `' hours'`, as the database reads them. -/
def hoursOf (text : List Char) : Int := text.foldl (fun n c => 10 * n + (c.toNat - 48 : Nat)) 0

/-- `label[:-1]`. -/
def costHours (w : Window) : Int := hoursOf w.label.toList.dropLast

/-- What `api_spend` takes from its table. -/
def spendHours : Window → Int
  | .h24 => 24
  | .d7 => 168
  | .d30 => 720

def spendWindow (window : String) : Window := (windows.find? (fun w => w.label == window)).getD .h24

/-- The rows of the last hours, without the minute that is not over. -/
def lastHours (rollup : List MinuteRow) (now hours : Int) : List MinuteRow :=
  rollup.filter (fun r => decide (now - hours * hour ≤ r.ts ∧ r.ts < minuteOf now * minute))

structure CostWindow where
  label : String
  gpuKwh : ℚ
  gpuCostUsd : ℚ
  deriving DecidableEq

def costKwh (rollup : List MinuteRow) (now : Int) (w : Window) : ℚ :=
  tableKwh (lastHours rollup now (costHours w))

def apiCost (rollup : List MinuteRow) (now : Int) (rate : ℚ) : List CostWindow :=
  windows.map (fun w => ⟨w.label, roundTo 3 (costKwh rollup now w),
    roundTo 4 (costKwh rollup now w * rate)⟩)

structure Totals where
  requests : Nat
  promptTokens : Int
  completionTokens : Int
  spend : ℚ
  deriving DecidableEq

def totalsOf (rows : List SpendLog) : Totals where
  requests := rows.length
  promptTokens := (rows.map (fun r => r.promptTokens.getD 0)).sum
  completionTokens := (rows.map (fun r => r.completionTokens.getD 0)).sum
  spend := (rows.map (fun r => r.spend.getD 0)).sum

def totalsBy (key : SpendLog → String) (rows : List SpendLog) : List (String × Totals) :=
  ((rows.map key).dedup).map (fun k => (k, totalsOf (rows.filter (fun r => key r == k))))

structure HostRow where
  hostId : Option Int
  gpuWattsAvg : Option ℚ
  utilPct : ℚ
  deriving DecidableEq

def joined (samples : List GpuSample) (rollup : List MinuteRow) (since : Int) (h : Option Int) :
    List (MinuteRow × Option GpuSample) :=
  (rollup.filter (fun r => decide (since ≤ r.ts ∧ r.hostId = h))).flatMap (fun r =>
    let matching :=
      samples.filter (fun g => decide (g.hostId ≠ none ∧ g.hostId = r.hostId ∧ since ≤ g.ts))
    if matching = [] then [(r, none)] else matching.map (fun g => (r, some g)))

def hostRow (samples : List GpuSample) (rollup : List MinuteRow) (since : Int) (h : Option Int) :
    HostRow :=
  let rows := joined samples rollup since h
  ⟨h, avg (rows.map (·.1.gpuWattsAvg)), (avg (rows.map (fun p => p.2.bind (·.utilPct)))).getD 0⟩

def hostRows (samples : List GpuSample) (rollup : List MinuteRow) (since : Int) : List HostRow :=
  ((rollup.filter (fun r => decide (since ≤ r.ts))).map (·.hostId)).dedup.map
    (hostRow samples rollup since)

def spendIdleNonGpuWatts : ℚ := 120
def spendCpuWPerUtilPt : ℚ := 0.35

/-- `server_kw`. -/
def serverKwh (gpuKwh : ℚ) (rows : List HostRow) (hours : Int) : ℚ :=
  let nHosts : ℚ := if rows.length = 0 then 4 else rows.length
  let nonGpuW := spendIdleNonGpuWatts * nHosts
  let cpuW := (rows.map (·.utilPct)).sum * spendCpuWPerUtilPt
  (gpuKwh * 1000 + nonGpuW * hours + cpuW * nHosts * hours) / 1000

def spendKwh (rollup : List MinuteRow) (now : Int) (w : Window) : ℚ :=
  tableKwh (lastHours rollup now (spendHours w))

def spendServerKwh (samples : List GpuSample) (rollup : List MinuteRow) (now : Int) (w : Window) :
    ℚ :=
  serverKwh (spendKwh rollup now w) (hostRows samples rollup (now - spendHours w * hour))
    (spendHours w)

structure Mode where
  kwh : ℚ
  usd : ℚ
  costPer1mTokensUsd : Option ℚ
  usdPer1mOutputTokens : Option ℚ
  deriving DecidableEq

def perMillion (usd : ℚ) (tokens : Int) : Option ℚ :=
  if tokens = 0 then none else some (roundTo 4 (usd / (tokens / 1000000)))

def modeOf (kwh rate : ℚ) (promptTokens completionTokens : Int) : Mode :=
  let usd := roundTo 4 (kwh * rate)
  ⟨roundTo 3 kwh, usd, perMillion usd (promptTokens + completionTokens),
    perMillion usd completionTokens⟩

structure SpendView where
  window : String
  gpuAttributed : Mode
  serverTotal : Mode
  requests : Nat
  promptTokens : Int
  completionTokens : Int
  deriving DecidableEq

def apiSpend (samples : List GpuSample) (rollup : List MinuteRow) (log : List SpendLog) (now : Int)
    (rate : ℚ) (window : String) :
    SpendView :=
  let w := spendWindow window
  let keys :=
    totalsBy (·.apiKey) (log.filter (fun r => decide (now - spendHours w * hour ≤ r.startTime)))
  let pt := (keys.map (·.2.promptTokens)).sum
  let ct := (keys.map (·.2.completionTokens)).sum
  { window := w.label
    gpuAttributed := modeOf (spendKwh rollup now w) rate pt ct
    serverTotal := modeOf (spendServerKwh samples rollup now w) rate pt ct
    requests := (keys.map (·.2.requests)).sum
    promptTokens := pt
    completionTokens := ct }

/-- `to` is missing, or is no time. -/
inductive Range
  | explicit (from' : Int) (to' : Option Int)
  | hours (n : Int)

/-- `dt0` and `dt1`. -/
def Range.bounds (now : Int) : Range → Int × Int
  | .explicit from' to' => (from', to'.getD now)
  | .hours n => (now - (if 0 < n ∧ n ≤ 24 * 400 then n else 168) * hour, now)

/-- `total_tokens>0 OR spend>0`. -/
def SpendLog.counts (r : SpendLog) : Bool :=
  r.totalTokens.any (fun n => decide (0 < n)) || r.spend.any (fun v => decide (0 < v))

def Range.rows (log : List SpendLog) (now : Int) (range : Range) : List SpendLog :=
  let (dt0, dt1) := range.bounds now
  match range with
  | .explicit .. => log.filter (fun r => decide (dt0 ≤ r.startTime ∧ r.startTime ≤ dt1) && r.counts)
  | .hours _ => log.filter (fun r => decide (dt0 ≤ r.startTime) && r.counts)

/-- `model or mgroup or "(unknown)"`. -/
def modelName (r : SpendLog) : String :=
  if r.model ≠ "" then r.model else if r.modelGroup ≠ "" then r.modelGroup else "(unknown)"

def sinceStart (rollup : List MinuteRow) (dt0 : Int) : List MinuteRow :=
  rollup.filter (fun r => decide (dt0 ≤ r.ts))

/-- `COUNT(DISTINCT date_trunc('minute', ts))`. -/
def minutesWith (rows : List MinuteRow) : Nat := ((rows.map (fun r => minuteOf r.ts)).dedup).length

def wantedMinutes (dt0 dt1 : Int) : Int := max 1 ((dt1 - dt0) / minute)

def coveragePct (haveMin : Nat) (wantMin : Int) : ℚ := roundTo 1 (min 100 (haveMin * 100 / wantMin))

def rangeKwh (rollup : List MinuteRow) (now : Int) (range : Range) : ℚ :=
  tableKwh (sinceStart rollup (range.bounds now).1)

def rangeMinutes (rollup : List MinuteRow) (now : Int) (range : Range) : Nat :=
  minutesWith (sinceStart rollup (range.bounds now).1)

structure WindowEnergy where
  gpuKwh : ℚ
  usd : ℚ
  usdPer1mTokens : Option ℚ
  telemetryCoveragePct : ℚ
  deriving DecidableEq

structure Analytics where
  models : List (String × Totals)
  windowEnergy : WindowEnergy
  deriving DecidableEq

def apiSpendAnalytics (rollup : List MinuteRow) (log : List SpendLog) (now : Int) (rate : ℚ)
    (range : Range) : Analytics :=
  let (dt0, dt1) := range.bounds now
  let models := totalsBy modelName (range.rows log now)
  let kwh := rangeKwh rollup now range
  let usd := roundTo 4 (kwh * rate)
  { models := models
    windowEnergy :=
      { gpuKwh := roundTo 3 kwh
        usd := usd
        usdPer1mTokens :=
          perMillion usd (models.map (fun m => m.2.promptTokens + m.2.completionTokens)).sum
        telemetryCoveragePct := coveragePct (rangeMinutes rollup now range) (wantedMinutes dt0 dt1) } }

theorem sum_known (xs : List (Option ℚ)) : (known xs).sum = (xs.map (·.getD 0)).sum := by
  induction xs with
  | nil => rfl
  | cons x xs ih =>
      unfold known at ih ⊢
      cases x with
      | none => simpa using ih
      | some v => simpa using ih

theorem tableKwh_eq (rows : List MinuteRow) :
    tableKwh rows = (rows.map (fun r => r.gpuWattsAvg.getD 0)).sum / 60000 := by
  unfold tableKwh
  rw [sum_known, List.map_map, div_div]
  norm_num
  rfl

theorem sum_split {α β : Type} [AddCommMonoid β] (f : α → β) (q : α → Bool) (rows : List α) :
    (rows.map f).sum = ((rows.filter q).map f).sum + ((rows.filter (fun r => !q r)).map f).sum := by
  induction rows with
  | nil => simp
  | cons r rows ih =>
      cases hq : q r with
      | true =>
          simp only [List.filter_cons, hq, List.map_cons, List.sum_cons, ih, if_true, Bool.not_true,
            Bool.false_eq_true, if_false]
          exact (add_assoc ..).symm
      | false =>
          simp only [List.filter_cons, hq, List.map_cons, List.sum_cons, ih, if_true,
            Bool.not_false, Bool.false_eq_true, if_false]
          exact add_left_comm ..

theorem tableKwh_split (q : MinuteRow → Bool) (rows : List MinuteRow) :
    tableKwh rows = tableKwh (rows.filter q) + tableKwh (rows.filter (fun r => !q r)) := by
  rw [tableKwh_eq, tableKwh_eq, tableKwh_eq, sum_split _ q rows]
  ring

theorem tableKwh_nonneg {rows : List MinuteRow} (h : ∀ r ∈ rows, ∀ v ∈ r.gpuWattsAvg, 0 ≤ v) :
    0 ≤ tableKwh rows := by
  rw [tableKwh_eq]
  apply div_nonneg
  · apply List.sum_nonneg
    intro x hx
    obtain ⟨r, hr, rfl⟩ := List.mem_map.mp hx
    cases hv : r.gpuWattsAvg with
    | none => exact le_refl 0
    | some v => exact h r hr v hv
  · norm_num

end ServerManager.Spend
