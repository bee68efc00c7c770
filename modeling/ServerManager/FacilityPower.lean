import ServerManager.Doubles
import ServerManager.GpuPower
import Mathlib.Data.List.Sort

namespace ServerManager.FacilityPower

open GpuPower (known avg)
open Doubles (double)

/-- `round(x, digits)` of an exact number. -/
def roundTo (digits : Nat) (x : ℚ) : ℚ := Doubles.nearest (x * 10 ^ digits) / 10 ^ digits

/-- A row of a table of samples. Times are in microseconds and dates in days. -/
structure PowerSample where
  ts : Int
  deviceGid : Int
  channelNum : String
  watts : Option ℚ
  kwhInterval : Option ℚ
  deriving DecidableEq

structure ElectricityRate where
  rateId : Int
  component : String
  valuePerKwh : ℚ
  season : String
  effectiveFrom : Int
  effectiveTo : Option Int
  deriving DecidableEq

structure Instant where
  now : Int
  month : Nat
  currentDate : Int

def hour : Int := 3600000000

def sumOf (xs : List (Option ℚ)) : Option ℚ := if known xs = [] then none else some (known xs).sum

def maxTs (samples : List PowerSample) : Option Int := (samples.map (·.ts)).max?

def since (samples : List PowerSample) (now interval : Int) : List PowerSample :=
  samples.filter (fun s => decide (now - interval ≤ s.ts))

def ofChannel (samples : List PowerSample) (cnum : String) : List PowerSample :=
  samples.filter (fun s => decide (s.channelNum = cnum))

def avgWatts (samples : List PowerSample) (cnum : String) (now interval : Int) : Option ℚ :=
  avg ((since (ofChannel samples cnum) now interval).map (·.watts))

def sumKwh (samples : List PowerSample) (cnum : String) (now interval : Int) : Option ℚ :=
  sumOf ((since (ofChannel samples cnum) now interval).map (·.kwhInterval))

def summerMonths : List Nat := [6, 7, 8]

def seasonOf (month : Nat) : String := if month ∈ summerMonths then "summer" else "winter"

def ratesFor (rates : List ElectricityRate) (season : String) (today : Int) :
    List ElectricityRate :=
  (rates.filter (fun r => decide (r.season = season ∧ r.effectiveFrom ≤ today ∧
    ∀ last ∈ r.effectiveTo, today ≤ last))).insertionSort
    (fun r s => r.rateId ≥ s.rateId)

def valueOf (rows : List ElectricityRate) (component : String) : Option ℚ :=
  ((rows.filter (fun r => decide (r.component = component))).getLast?).map (·.valuePerKwh)

def rateSummerBase : ℚ := 0.13398
def rateWinterBase : ℚ := 0.09992
def rateFeesRiders : ℚ := 0.05830

def rateParts (rates : List ElectricityRate) (t : Instant) : ℚ × ℚ × String :=
  let season := seasonOf t.month
  let base := if season = "summer" then rateSummerBase else rateWinterBase
  let vals := valueOf (ratesFor rates season t.currentDate)
  match vals "fees_riders" with
  | none => (base, rateFeesRiders, "built-in plan v0.2.1 constants")
  | some fees =>
      let base :=
        if season = "summer" then (vals "base_energy_summer").getD base
        else if season = "winter" then (vals "base_energy_winter").getD base
        else base
      (base, fees, "electricity_rates table (versioned components)")

/-- `effective_rate`, before the floats. -/
def effectiveRate (rates : List ElectricityRate) (t : Instant) : ℚ × String :=
  let parts := rateParts rates t
  (parts.1 + parts.2.1, parts.2.2)

/-- The float that `effective_rate` returns. -/
def floatRate (rates : List ElectricityRate) (t : Instant) : ℚ :=
  let parts := rateParts rates t
  double (double parts.1 + double parts.2.1)

structure Rate where
  effectivePerKwh : ℚ
  displayCents : ℚ
  season : String
  source : String

structure Collector where
  samples1h : Nat
  samplesTotal : Nat
  lastSampleTs : Option Int
  lastSampleAgeSeconds : Option ℚ
  healthy : Bool
  stale : Bool
  stalePolicy : String

structure Channel where
  channelNum : String
  label : String
  avgWatts1h : Option ℚ
  kwh24h : Option ℚ
  costUsd24h : Option ℚ
  kwh30d : Option ℚ
  costUsd30d : Option ℚ
  lastSampleTs : Option Int
  lastSampleAgeSeconds : Option ℚ
  stale : Bool

structure Totals where
  label : String
  definition : String
  kwh24h : Option ℚ
  costUsd24h : Option ℚ
  kwh30d : Option ℚ
  costUsd30d : Option ℚ
  incompleteReason : Option String

structure PowerView where
  rate : Rate
  collector : Collector
  channels : List Channel
  totals : Totals

def channelNums : List String := ["1", "2", "3", "4"]

def channelLabel (cnum : String) : String :=
  if cnum = "1" then "PDU MIAM-00151 (Server#1 rack circuit)"
  else if cnum = "2" then "PDU MIAM-00152 (Server#2 rack circuit)"
  else if cnum = "3" then "PDU MIAM-00153 (Server#3 rack circuit)"
  else "36k 3 Ton mini split (cooling)"

def staleSampleSeconds : ℚ := 600

/-- `EXTRACT(epoch FROM (now() - ts))`. -/
def ageSeconds (now ts : Int) : ℚ := (now - ts : Int) / 1000000

/-- No sample, or none for ten minutes. -/
def isStale (now : Int) (last : Option Int) : Bool :=
  match last with
  | none => true
  | some ts => decide (staleSampleSeconds < ageSeconds now ts)

def channelStale (samples : List PowerSample) (cnum : String) (now : Int) : Bool :=
  isStale now (maxTs (ofChannel samples cnum))

def unlessStale (stale : Bool) (value : Option ℚ) : Option ℚ := if stale then none else value

def collectorHealth (samples : List PowerSample) (now : Int) : Collector :=
  let lastHour := since samples now hour
  { samples1h := lastHour.length
    samplesTotal := samples.length
    lastSampleTs := maxTs lastHour
    lastSampleAgeSeconds := (maxTs lastHour).map (fun ts => roundTo 0 (ageSeconds now ts))
    healthy := decide (0 < lastHour.length)
    stale := isStale now (maxTs lastHour)
    stalePolicy := "stale data shows STALE + timestamp — NEVER rendered as 0" }

def dayHours : Int := 24 * hour
def monthHours : Int := 30 * dayHours

/-- What a channel is charged for: the float of its sum. -/
def energy (samples : List PowerSample) (now interval : Int) (cnum : String) : Option ℚ :=
  (unlessStale (channelStale samples cnum now) (sumKwh samples cnum now interval)).map double

/-- `round(kwh * rate, 4)`. -/
def costUsd (rate kwh : ℚ) : ℚ := Doubles.round 4 (double (kwh * rate))

def channelRow (samples : List PowerSample) (now : Int) (rate : ℚ) (cnum : String) : Channel :=
  let stale := channelStale samples cnum now
  let last := maxTs (ofChannel samples cnum)
  { channelNum := cnum
    label := channelLabel cnum
    avgWatts1h :=
      (unlessStale stale (avgWatts samples cnum now hour)).map
        (fun watts => Doubles.round 1 (double watts))
    kwh24h := (energy samples now dayHours cnum).map (Doubles.round 3)
    costUsd24h := (energy samples now dayHours cnum).map (costUsd rate)
    kwh30d := (energy samples now monthHours cnum).map (Doubles.round 3)
    costUsd30d := (energy samples now monthHours cnum).map (costUsd rate)
    lastSampleTs := last
    lastSampleAgeSeconds := last.map (fun ts => roundTo 0 (ageSeconds now ts))
    stale := stale }

/-- `_sum_ch`: one stale channel withholds the total. -/
def sumCh (values : List (Option ℚ)) : Option ℚ :=
  if values.any (·.isNone) then none else some (Doubles.round 3 (Doubles.sum (known values)))

def totalsOf (channels : List Channel) (rate : ℚ) : Totals :=
  let t24 := sumCh (channels.map (·.kwh24h))
  let t30 := sumCh (channels.map (·.kwh30d))
  { label := "TOTAL MARION_IA_USA"
    definition := "PDU MIAM-00151 + PDU MIAM-00152 + PDU MIAM-00153 + mini split"
    kwh24h := t24
    costUsd24h := t24.map (costUsd rate)
    kwh30d := t30
    costUsd30d := t30.map (costUsd rate)
    incompleteReason :=
      if t24 = none then some "one or more channels STALE — total withheld (never zero-filled)" else none }

def facilityPowerView (samples : List PowerSample) (rates : List ElectricityRate) (t : Instant) :
    PowerView :=
  let rate := floatRate rates t
  let channels := channelNums.map (channelRow samples t.now rate)
  { rate := ⟨Doubles.round 5 rate, Doubles.round 2 (double (rate * 100)), seasonOf t.month,
    (rateParts rates t).2.2⟩
    collector := collectorHealth samples t.now
    channels := channels
    totals := totalsOf channels rate }

end ServerManager.FacilityPower
