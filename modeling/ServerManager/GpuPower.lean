import ServerManager.Effects
import Mathlib.Data.List.Dedup
import Mathlib.Algebra.Order.Field.Rat

namespace ServerManager.GpuPower

open Effects (PyExc)

def minute : Int := 60000000

/-- `date_trunc('minute', ts)`, as the number of the minute. -/
def minuteOf (ts : Int) : Int := ts / minute

structure GpuSample where
  sampleId : Nat
  ts : Int
  hostId : Option Int
  gpuIndex : Int
  utilPct : Option ℚ
  memUsedMib : Option ℚ
  powerWatts : Option ℚ
  deriving DecidableEq

/-- A row of `host_power_rollup_1m`. -/
structure MinuteRow where
  rollupId : Nat
  ts : Int
  hostId : Option Int
  gpuWattsAvg : Option ℚ
  gpuWattsPeak : Option ℚ
  deriving DecidableEq

/-- Both serial numbers come from sequences. -/
structure Tables where
  samples : List GpuSample
  rollup : List MinuteRow
  nextSample : Nat
  nextRollup : Nat
  fresh : ∀ r ∈ rollup, r.rollupId < nextRollup

def Tables.empty : Tables := ⟨[], [], 1, 1, nofun⟩

def known (xs : List (Option ℚ)) : List ℚ := xs.filterMap id

def avg (xs : List (Option ℚ)) : Option ℚ :=
  if known xs = [] then none else some ((known xs).sum / (known xs).length)

def maxOf (xs : List (Option ℚ)) : Option ℚ := (known xs).max?

/-- `INSERT … ON CONFLICT DO NOTHING` into a table whose only key is `rollup_id`. -/
def Tables.insertMinute (t : Tables) (ts : Int) (hostId : Option Int)
    (gpuWattsAvg gpuWattsPeak : Option ℚ) : Tables :=
  if t.rollup.any (·.rollupId == t.nextRollup)
    then { t with nextRollup := t.nextRollup + 1, fresh := fun r hr => Nat.lt_succ_of_lt (t.fresh r
    hr) }
  else
    { t with
      rollup := t.rollup ++ [⟨t.nextRollup, ts, hostId, gpuWattsAvg, gpuWattsPeak⟩]
      nextRollup := t.nextRollup + 1
      fresh := fun r hr => by
        rcases List.mem_append.mp hr with hr | hr
        · exact Nat.lt_succ_of_lt (t.fresh r hr)
        · rw [List.mem_singleton.mp hr]
          exact Nat.lt_succ_self _ }

/-- The samples of the minute before `now`. -/
def lastMinute (samples : List GpuSample) (now : Int) : List GpuSample :=
  samples.filter (fun s => decide ((minuteOf now - 1) * minute ≤ s.ts ∧
    s.ts < minuteOf now * minute))

def wattsOf (samples : List GpuSample) (hostId : Option Int) : List (Option ℚ) :=
  (samples.filter (·.hostId = hostId)).map (·.powerWatts)

/-- `GROUP BY host_id`. -/
def hostsOf (samples : List GpuSample) : List (Option Int) := (samples.map (·.hostId)).dedup

def insertMinutes (ts : Int) (window : List GpuSample) (hosts : List (Option Int)) (t : Tables) :
    Tables :=
  hosts.foldl (fun t h => t.insertMinute ts h (avg (wattsOf window h)) (maxOf (wattsOf window h))) t

def rollupMinute (now : Int) (t : Tables) : Tables :=
  let window := lastMinute t.samples now
  insertMinutes ((minuteOf now - 1) * minute) window (hostsOf window) t

/-- A line of `parse_nvidia`. -/
structure Reading where
  gpuIndex : Int
  utilPct : ℚ
  memUsedMib : ℚ
  powerWatts : ℚ

def hosts : List String :=
  ["10.0.20.168", "10.0.20.161", "10.0.20.162", "10.0.20.163", "10.0.20.164"]

/-- What the hosts answer in one cycle and how their addresses are looked up. -/
structure Answers where
  nvidia : String → Except PyExc (List Reading)
  hostIds : String → Option Int

def Answers.hostRows (a : Answers) (ip : String) : List (Option Int × Reading) :=
  match a.nvidia ip with
  | .ok parsed => parsed.map (a.hostIds ip, ·)
  | .error _ => []

def cycleRows (a : Answers) : List (Option Int × Reading) := hosts.flatMap a.hostRows

/-- All rows of a cycle get one time. -/
def Tables.insertSample (t : Tables) (now : Int) (row : Option Int × Reading) : Tables :=
  { t with
    samples :=
      t.samples ++ [⟨t.nextSample, now, row.1, row.2.gpuIndex, some row.2.utilPct,
        some row.2.memUsedMib,
      some row.2.powerWatts⟩]
    nextSample := t.nextSample + 1 }

def insertSamples (now : Int) (rows : List (Option Int × Reading)) (t : Tables) : Tables :=
  rows.foldl (fun t row => t.insertSample now row) t

/-- `max(1, 60 // SAMPLE_SECONDS)`, which 0 does not have. -/
def cyclesPerRollup (sampleSeconds : Int) : Option Int :=
  if sampleSeconds = 0 then none else some (max 1 (Int.fdiv 60 sampleSeconds))

/-- `txn` is the time at which the connection's open transaction has begun. -/
structure Collector where
  tables : Tables
  minuteCounter : Nat
  txn : Option Int

/-- How the adapter's bulk insert ends. An exception may come when the rows are stored. -/
inductive Bulk
  | stored
  | failed (kept : Bool)

/-- A cycle whose samples are stored at `now` and whose rollup, if it is due, is
made at `later`; after a cycle that raises an exception the collector has
`reconnected`. Or the start of a new process. The adapter and the database have
one clock. -/
inductive Event
  | cycle (a : Answers) (bulk : Bulk) (now later reconnected : Int)
  | restart (now : Int)

/-- `insert_samples`. In a transaction `now()` is the time of its beginning; the
adapter has a connection of its own and takes its time itself. -/
def Collector.insert (cutover : Bool) (c : Collector) (rows : List (Option Int × Reading))
    (bulk : Bulk)
    (now : Int) : Collector :=
  if rows.isEmpty then c
  else
    match cutover, bulk with
    | true, .stored => { c with tables := insertSamples now rows c.tables }
    | true, .failed kept =>
        let t := if kept then insertSamples now rows c.tables else c.tables
        { c with tables := insertSamples (c.txn.getD now) rows t, txn := none }
    | false, _ => { c with tables := insertSamples (c.txn.getD now) rows c.tables, txn := none }

def Collector.rollup (c : Collector) (later : Int) : Collector :=
  ⟨rollupMinute (c.txn.getD later) c.tables, 0, none⟩

def Collector.step (cutover : Bool) (sampleSeconds : Int) (c : Collector) : Event → Collector
  | .cycle a bulk now later reconnected =>
      let c := c.insert cutover (cycleRows a) bulk now
      match cyclesPerRollup sampleSeconds with
      | some n =>
          if n ≤ (c.minuteCounter + 1 : Int) then c.rollup later
          else { c with minuteCounter := c.minuteCounter + 1 }
      | none => { c with minuteCounter := c.minuteCounter + 1, txn := some reconnected }
  | .restart now => ⟨c.tables, 0, some now⟩

def Collector.run (cutover : Bool) (sampleSeconds : Int) (c : Collector) (events : List Event) :
    Collector :=
  events.foldl (·.step cutover sampleSeconds) c

/-- The look-up of the hosts leaves its transaction open. -/
def Collector.new (start : Int) : Collector := ⟨.empty, 0, some start⟩

theorem insertMinute_eq (t : Tables) (ts : Int) (h : Option Int) (a p : Option ℚ) :
    (t.insertMinute ts h a p).rollup = t.rollup ++ [⟨t.nextRollup, ts, h, a, p⟩] ∧
      (t.insertMinute ts h a p).samples = t.samples := by
  have hno : ¬ t.rollup.any (·.rollupId == t.nextRollup) = true := by
    intro hany
    obtain ⟨r, hr, he⟩ := List.any_eq_true.mp hany
    exact absurd (t.fresh r hr) (by rw [beq_iff_eq.mp he]; exact Nat.lt_irrefl _)
  unfold Tables.insertMinute
  rw [if_neg hno]
  exact ⟨rfl, rfl⟩

def rowsAt (rows : List MinuteRow) (h : Option Int) (m : Int) : List MinuteRow :=
  rows.filter (fun r => decide (r.hostId = h ∧ r.ts = m * minute))

theorem minute_inj {m n : Int} : m * minute = n * minute ↔ m = n := by
  unfold minute
  omega

theorem insertMinutes_samples (ts : Int) (window : List GpuSample) (hosts : List (Option Int))
    (t : Tables) :
    (insertMinutes ts window hosts t).samples = t.samples := by
  induction hosts generalizing t with
  | nil => rfl
  | cons h hosts ih => exact (ih _).trans (insertMinute_eq t ts h _ _).2

theorem mem_lastMinute {samples : List GpuSample} {now : Int} {s : GpuSample} :
    s ∈ lastMinute samples now ↔ s ∈ samples ∧ minuteOf s.ts = minuteOf now - 1 := by
  unfold lastMinute
  rw [List.mem_filter, decide_eq_true_iff]
  refine and_congr_right fun _ => ?_
  unfold minuteOf minute
  omega

theorem rollupMinute_samples (now : Int) (t : Tables) : (rollupMinute now t).samples = t.samples :=
  insertMinutes_samples _ _ _ t

theorem insertSamples_rollup (now : Int) (rows : List (Option Int × Reading)) (t : Tables) :
    (insertSamples now rows t).rollup = t.rollup := by
  induction rows generalizing t with
  | nil => rfl
  | cons row rows ih => exact ih _

theorem insertSamples_samples (now : Int) (rows : List (Option Int × Reading)) (t : Tables) :
    ∃ new, (insertSamples now rows t).samples = t.samples ++ new ∧ ∀ s ∈ new, s.ts = now := by
  induction rows generalizing t with
  | nil => exact ⟨[], (List.append_nil _).symm, nofun⟩
  | cons row rows ih =>
      obtain ⟨new, hn, ht⟩ := ih (t.insertSample now row)
      refine ⟨⟨t.nextSample, now, row.1, row.2.gpuIndex, some row.2.utilPct, some row.2.memUsedMib,
        some row.2.powerWatts⟩ :: new, ?_, ?_⟩
      · exact hn.trans (List.append_assoc _ _ _)
      · intro s hs
        rcases List.mem_cons.mp hs with rfl | hs
        · rfl
        · exact ht s hs

end ServerManager.GpuPower
