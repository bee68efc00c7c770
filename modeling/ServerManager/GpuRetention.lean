import ServerManager.GpuPower
import ServerManager.KeyedTable
import ServerManager.PyText
import Mathlib.Data.List.Sort

namespace ServerManager.GpuRetention

open GpuPower (GpuSample known avg maxOf)
open KeyedTable PyText

def second : Int := 1000000
def hour : Int := 3600 * second
def day : Int := 24 * hour

def hourOf (ts : Int) : Int := ts / hour

structure HourKey where
  hourBucket : Int
  hostId : Int
  gpuIndex : Int
  deriving DecidableEq

def minOf (xs : List (Option ℚ)) : Option ℚ := (known xs).min?

structure HourAggregate where
  sampleCount : Nat
  utilMin : Option ℚ
  utilMax : Option ℚ
  utilAvg : Option ℚ
  memUsedMinMib : Option ℚ
  memUsedMaxMib : Option ℚ
  memUsedAvgMib : Option ℚ
  powerMinW : Option ℚ
  powerMaxW : Option ℚ
  powerAvgW : Option ℚ
  powerSumWh : ℚ
  deriving DecidableEq

def aggregateOf (samples : List GpuSample) : HourAggregate where
  sampleCount := samples.length
  utilMin := minOf (samples.map (·.utilPct))
  utilMax := maxOf (samples.map (·.utilPct))
  utilAvg := avg (samples.map (·.utilPct))
  memUsedMinMib := minOf (samples.map (·.memUsedMib))
  memUsedMaxMib := maxOf (samples.map (·.memUsedMib))
  memUsedAvgMib := avg (samples.map (·.memUsedMib))
  powerMinW := minOf (samples.map (·.powerWatts))
  powerMaxW := maxOf (samples.map (·.powerWatts))
  powerAvgW := avg (samples.map (·.powerWatts))
  powerSumWh := (samples.map (fun s => s.powerWatts.getD 0)).sum

/-- A row of `gpu_samples_hourly`. -/
structure HourRow where
  key : HourKey
  aggregate : HourAggregate
  lastTs : Option Int
  deriving DecidableEq

/-- `ever` has all samples that were ever stored. -/
structure World where
  raw : List GpuSample
  hourly : List HourRow
  nextSample : Nat
  ever : List GpuSample
  deriving DecidableEq

def World.empty : World := ⟨[], [], 1, []⟩

def World.row (w : World) (k : HourKey) : Option HourRow := lookup HourRow.key w.hourly k

def keyOf (s : GpuSample) : Option HourKey := s.hostId.map (fun h => ⟨hourOf s.ts, h, s.gpuIndex⟩)

def bucket (samples : List GpuSample) (k : HourKey) : List GpuSample :=
  samples.filter (fun s => decide (keyOf s = some k))

def between (samples : List GpuSample) (since until' : Int) : List GpuSample :=
  samples.filter (fun s => decide (since ≤ s.ts ∧ s.ts < until'))

def rowFrom (samples : List GpuSample) (k : HourKey) : HourRow :=
  ⟨k, aggregateOf (bucket samples k), ((bucket samples k).map (·.ts)).max?⟩

/-- `GROUP BY 1, 2, 3` of the samples with a host. -/
def groups (samples : List GpuSample) : List HourKey := (samples.filterMap keyOf).dedup

/-- `_rollup_window`. -/
def World.rollupWindow (w : World) (since until' : Int) : World :=
  let window := between w.raw since until'
  { w with hourly := (groups window).foldl (fun rows k =>
    upsert HourRow.key rows (rowFrom window k)) w.hourly }

/-- `replace(minute=0, second=0, microsecond=0)`. -/
def alignHour (ts : Int) : Int := hourOf ts * hour

/-- The window of `cmd_rollup`. -/
def rollupSpan (now : Int) : Int × Int := (alignHour (now - 3 * hour), now + 300 * second)

def nextChunk (hi cur0 : Int) : Int :=
  let nxt := min (cur0 + day) (hi + second)
  if nxt < hi then alignHour nxt else nxt

theorem nextChunk_gt {hi cur0 : Int} (h : cur0 < hi) : cur0 < nextChunk hi cur0 := by
  unfold nextChunk alignHour hourOf day hour second
  simp only
  split
  · omega
  · omega

/-- The windows of `cmd_backfill` from one of them on. -/
def chunks (hi cur0 : Int) : List (Int × Int) :=
  if _ : cur0 < hi then (cur0, nextChunk hi cur0) :: chunks hi (nextChunk hi cur0) else []
termination_by (hi - cur0).toNat
decreasing_by
  have := nextChunk_gt ‹cur0 < hi›
  omega

def backfillSpans (w : World) : List (Int × Int) :=
  match (w.raw.map (·.ts)).min?, (w.raw.map (·.ts)).max? with
  | some lo, some hi =>
      match (w.hourly.map (·.key.hourBucket)).min? with
      | none => chunks hi lo
      | some covered => chunks hi (min lo (covered * hour))
  | _, _ => []

/-- The windows of `cmd_verify`, where the last one has no beginning. -/
def verifyWindows (now : Int) : List (Option Int × Int) :=
  [(some (alignHour now - day), alignHour now), (some (now - 12 * day), now - 10 * day),
    (none, alignHour now)]

/-- The hour is a whole one of the window, and has samples. -/
def eligible (w : World) (k : HourKey) (window : Option Int × Int) : Bool :=
  !(bucket w.raw k).isEmpty && window.1.all (fun lo => decide (lo ≤ k.hourBucket * hour)) &&
    decide (k.hourBucket * hour + hour ≤ window.2)

def verifyRelTolerance : ℚ := 1 / 100

def differs (got want : Option ℚ) : Bool :=
  match got, want with
  | some got, some want =>
      decide (max (verifyRelTolerance * |want|) (1 / 1000000000) < |got - want|)
  | none, none => false
  | _, _ => true

/-- A row that is missing or differs from the aggregates of the samples. -/
def mismatch (w : World) (k : HourKey) : Bool :=
  let want := aggregateOf (bucket w.raw k)
  match w.row k with
  | none => true
  | some r =>
      r.aggregate.sampleCount != want.sampleCount || differs r.aggregate.utilAvg want.utilAvg ||
      differs r.aggregate.powerAvgW want.powerAvgW

/-- The hours that fail; `picks` are those that each window's random sample has. -/
def failures (w : World) (now : Int) (picks : Option Int × Int → List HourKey) : List HourKey :=
  (verifyWindows now).flatMap (fun window => (picks window).filter
    (fun k => eligible w k window && mismatch w k))

/-- `_setting`: a text that is no number gives the default. -/
def setting (value : Option String) (default : Int) : Int := ((value.bind pyIntText)).getD default

def maxDays : Int := 999999999
def minTime : Int := -62135596800 * second
def maxTime : Int := 253402300800 * second - 1

/-- `now - timedelta(days=days)`, or an `OverflowError`. -/
def cutoffOf (now days : Int) : Option Int :=
  if |days| ≤ maxDays ∧ minTime ≤ now - days * day ∧
    now - days * day ≤ maxTime then some (now - days * day) else none

/-- `_prune_gates`: there are hourly rows, they begin before the samples, and a
backup has been recorded. -/
def pruneGates (w : World) (backup : Bool) : Bool :=
  match (w.hourly.map (·.key.hourBucket)).min? with
  | none => false
  | some lo => (w.raw.map (·.ts)).min?.all (fun rawLo => decide (lo * hour ≤ rawLo)) && backup

def pruneBatchRows : Nat := 50000

/-- The rows of one `DELETE`. -/
def batch (cutoff : Int) (raw : List GpuSample) : List Nat :=
  (((raw.filter (fun s => decide (s.ts < cutoff))).map (·.sampleId)).insertionSort (· ≤ ·)).take
    pruneBatchRows

def deleteBatch (cutoff : Int) (raw : List GpuSample) : List GpuSample :=
  raw.filter (fun s => decide (s.sampleId ∉ batch cutoff raw))

theorem deleteBatch_lt {cutoff : Int} {raw : List GpuSample} (h : batch cutoff raw ≠ []) :
    (deleteBatch cutoff raw).length < raw.length := by
  obtain ⟨i, hi⟩ := List.exists_mem_of_ne_nil _ h
  have hmem := List.mem_of_mem_take hi
  rw [List.mem_insertionSort] at hmem
  obtain ⟨s, hs, rfl⟩ := List.mem_map.mp hmem
  refine List.length_filter_lt_length_iff_exists.mpr ⟨s, List.mem_of_mem_filter hs, ?_⟩
  simpa using hi

/-- The loop of `cmd_prune`. -/
def pruneRaw (cutoff : Int) (raw : List GpuSample) : List GpuSample :=
  if _ : batch cutoff raw ≠ [] then pruneRaw cutoff (deleteBatch cutoff raw) else raw
termination_by raw.length
decreasing_by exact deleteBatch_lt ‹batch cutoff raw ≠ []›

inductive Action
  | ingest (ts : Int) (hostId : Option Int) (gpuIndex : Int)
      (utilPct memUsedMib powerWatts : Option ℚ)
  | window (since until' : Int)
  | retain (cutoff : Int)
  | prune (cutoff : Int)
  | verify (now : Int) (picks : Option Int × Int → List HourKey)

/-- The settings of `manager_settings` are those that the command reads. -/
inductive Command
  | ingest (ts : Int) (hostId : Option Int) (gpuIndex : Int)
      (utilPct memUsedMib powerWatts : Option ℚ)
  | rollup (now : Int)
  | backfill
  | maintenance (now : Int) (hourlyDays : Option String)
  | verify (now : Int) (picks : Option Int × Int → List HourKey)
  | dryRunPrune
  | prune (now : Int) (rawDays : Option String) (backup : Bool)

/-- What a prune deletes is older than this, if it deletes. -/
def pruneCutoff (w : World) (now : Int) (rawDays : Option String) (backup : Bool) : Option Int :=
  if pruneGates w backup then cutoffOf now (setting rawDays 90) else none

def Command.actions (w : World) : Command → List Action
  | .ingest ts hostId gpuIndex utilPct memUsedMib powerWatts =>
      [.ingest ts hostId gpuIndex utilPct memUsedMib powerWatts]
  | .rollup now => [.window (rollupSpan now).1 (rollupSpan now).2]
  | .backfill => (backfillSpans w).map (fun span => .window span.1 span.2)
  | .maintenance now hourlyDays =>
      .window (rollupSpan now).1 (rollupSpan now).2 ::
        ((cutoffOf now (setting hourlyDays 730)).map Action.retain).toList
  | .verify now picks => [.verify now picks]
  | .dryRunPrune => []
  | .prune now rawDays backup => ((pruneCutoff w now rawDays backup).map Action.prune).toList

def World.act (w : World) : Action → World
  | .ingest ts hostId gpuIndex utilPct memUsedMib powerWatts =>
      let s : GpuSample := ⟨w.nextSample, ts, hostId, gpuIndex, utilPct, memUsedMib, powerWatts⟩
      { w with raw := w.raw ++ [s], nextSample := w.nextSample + 1, ever := w.ever ++ [s] }
  | .window since until' => w.rollupWindow since until'
  | .retain cutoff =>
      { w with hourly := w.hourly.filter (fun r => decide (cutoff ≤ r.key.hourBucket * hour)) }
  | .prune cutoff => { w with raw := pruneRaw cutoff w.raw }
  | .verify .. => w

def World.acts (w : World) (actions : List Action) : World := actions.foldl World.act w

def history : World → List Command → List Action
  | _, [] => []
  | w, c :: commands => c.actions w ++ history (w.acts (c.actions w)) commands

def World.run (w : World) (commands : List Command) : World := w.acts (history w commands)

end ServerManager.GpuRetention
