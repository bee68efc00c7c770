import ServerManager.FacilityPower
import ServerManager.KeyedTable
import Mathlib.Tactic.Ring

namespace ServerManager.FacilityEnergy

open FacilityPower KeyedTable
open GpuPower (known avg)

/-- A row of `facility_power_rollup_1d`. -/
structure DayRow where
  day : Int
  deviceGid : Int
  channelNum : String
  kwh : Option ℚ
  avgWatts : Option ℚ
  deriving DecidableEq

structure Tables where
  samples : List PowerSample
  rollup : List DayRow
  deriving DecidableEq

def Tables.empty : Tables := ⟨[], []⟩

/-- What the cloud service reports about a channel for the last minute. -/
structure Usage where
  deviceGid : Int
  channelNum : String
  usage : Option ℚ

structure UsageRow where
  deviceGid : Int
  channelNum : String
  kwhInterval : ℚ
  deriving DecidableEq

/-- `_asc`. -/
def asc (s : String) : String :=
  String.ofList ((s.toList.map (fun c => if 0x20 ≤ c.toNat ∧ c.toNat ≤ 0x7e then c else '?')).take
    120)

def collectCycle (usage : List Usage) : List UsageRow :=
  usage.filterMap (fun u => u.usage.map (fun kwh => ⟨u.deviceGid, asc u.channelNum, kwh⟩))

def sampleOf (ts : Int) (r : UsageRow) : PowerSample :=
  ⟨ts, r.deviceGid, r.channelNum, some (roundTo 1 (r.kwhInterval * 60000)), some r.kwhInterval⟩

/-- The primary key is the time, the device and the channel. -/
def insertSample (samples : List PowerSample) (s : PowerSample) : Option (List PowerSample) :=
  if samples.any (fun r => decide (r.ts = s.ts ∧ r.deviceGid = s.deviceGid ∧
    r.channelNum = s.channelNum)) then none
  else some (samples ++ [s])

def insertSamples (ts : Int) (rows : List UsageRow) (samples : List PowerSample) :
    Option (List PowerSample) :=
  rows.foldlM (fun samples r => insertSample samples (sampleOf ts r)) samples

def DayRow.key (r : DayRow) : Int × Int × String := (r.day, r.deviceGid, r.channelNum)

/-- The samples of a day, in the time zone of the session. -/
def ofDay (dateOf : Int → Int) (day : Int) (samples : List PowerSample) : List PowerSample :=
  samples.filter (fun s => decide (dateOf s.ts = day))

def groupsOf (samples : List PowerSample) : List (Int × String) :=
  (samples.map (fun s => (s.deviceGid, s.channelNum))).dedup

def dayRow (day : Int) (samples : List PowerSample) (g : Int × String) : DayRow :=
  let group := samples.filter (fun s => decide (s.deviceGid = g.1 ∧ s.channelNum = g.2))
  ⟨day, g.1, g.2, sumOf (group.map (·.kwhInterval)), avg (group.map (·.watts))⟩

def rollupDay (dateOf : Int → Int) (day : Int) (samples : List PowerSample) (rollup : List DayRow) :
    List DayRow :=
  let today := ofDay dateOf day samples
  (groupsOf today).foldl (fun rows g => upsert DayRow.key rows (dayRow day today g)) rollup

/-- `none` is a cycle that fails and is rolled back. -/
def writeCycle (dateOf : Int → Int) (currentDate ts : Int) (rows : List UsageRow) (t : Tables) :
    Option Tables :=
  (insertSamples ts rows t.samples).map (fun samples =>
    ⟨samples, rollupDay dateOf currentDate samples t.rollup⟩)

def second : Int := 1000000

def cyclePeriod : Int := 300 * second

/-- A cycle: how long after its start the transaction begins and the samples get
their time, and what the service reports. -/
structure Cycle where
  begun : Nat
  taken : Nat
  usage : List Usage

/-- Cycles that are started every 300 s and all succeed. -/
def collect (dateOf : Int → Int) : Int → List Cycle → Tables → Option Tables
  | _, [], t => some t
  | start, c :: cycles, t =>
      (writeCycle dateOf (dateOf (start + c.begun)) (start + c.taken) (collectCycle c.usage) t).bind
        (collect dateOf (start + cyclePeriod) cycles)

structure PowerChannel where
  deviceGid : Int
  channelNum : String

/-- The service reports the energy that a load of so many watts uses in a minute,
and no other channel has the number. -/
def ConstantLoad (watts : ℚ) (ch : PowerChannel) (cycles : List Cycle) : Prop :=
  ∀ c ∈ cycles, (collectCycle c.usage).filter (fun r => decide (r.channelNum = ch.channelNum)) =
    [⟨ch.deviceGid, ch.channelNum, watts / 60000⟩]

instance (watts : ℚ) (ch : PowerChannel) (cycles : List Cycle) :
    Decidable (ConstantLoad watts ch cycles) :=
  inferInstanceAs (Decidable (∀ c ∈ cycles, _ = _))

/-- The energy used in so many periods of 300 s. -/
def consumedKwh (watts : ℚ) (n : Nat) : ℚ := watts * n * 300 / 3600000

def dailyKwh (rollup : List DayRow) (ch : PowerChannel) : ℚ :=
  (known ((rollup.filter (fun r => decide (r.deviceGid = ch.deviceGid ∧
    r.channelNum = ch.channelNum))).map (·.kwh))).sum

theorem insertSamples_eq {ts : Int} {rows : List UsageRow} {samples samples' : List PowerSample}
    (h : insertSamples ts rows samples = some samples') :
    samples' = samples ++ rows.map (sampleOf ts) := by
  induction rows generalizing samples with
  | nil =>
      rw [List.map_nil, List.append_nil]
      exact (Option.some.inj h).symm
  | cons r rows ih =>
      unfold insertSamples at h ih
      rw [List.foldlM_cons] at h
      obtain ⟨next, hnext, h⟩ := Option.bind_eq_some_iff.mp h
      unfold insertSample at hnext
      split at hnext
      · cases hnext
      · rw [ih h, ← Option.some.inj hnext, List.append_assoc]
        rfl

theorem rollupDay_spec {dateOf : Int → Int} {day : Int} {samples : List PowerSample}
    {rollup : List DayRow}
    (h : (rollup.map DayRow.key).Nodup) :
    ((rollupDay dateOf day samples rollup).map DayRow.key).Nodup ∧
      ∀ r ∈ rollupDay dateOf day samples rollup, r ∈ rollup ∨
        ∃ g ∈ groupsOf (ofDay dateOf day samples), r = dayRow day (ofDay dateOf day samples) g :=
          mem_upserts h

theorem ofChannel_append (xs ys : List PowerSample) (cnum : String) :
    ofChannel (xs ++ ys) cnum = ofChannel xs cnum ++ ofChannel ys cnum := List.filter_append ..

theorem ofChannel_sampleOf (ts : Int) (rows : List UsageRow) (cnum : String) :
    ofChannel (rows.map (sampleOf ts)) cnum =
      (rows.filter (fun r => decide (r.channelNum = cnum))).map (sampleOf ts) := by
  unfold ofChannel
  rw [List.filter_map]
  rfl

theorem sumOf_const {α : Type} {f : α → Option ℚ} {v : ℚ} {xs : List α}
    (h : ∀ x ∈ xs, f x = some v) :
    sumOf (xs.map f) = if xs = [] then none else some (xs.length * v) := by
  have hknown : known (xs.map f) = List.replicate xs.length v := by
    have hmap : xs.map f = List.replicate xs.length (some v) :=
      List.eq_replicate_iff.mpr ⟨List.length_map _, fun o ho => by
        obtain ⟨x, hx, rfl⟩ := List.mem_map.mp ho
        exact h x hx⟩
    unfold known
    rw [hmap]
    exact List.filterMap_replicate_of_some rfl
  unfold sumOf
  rw [hknown, List.sum_replicate, nsmul_eq_mul]
  cases xs with
  | nil => rfl
  | cons x xs => rfl

/-- Every sample of the channel is one minute's energy, and so is every sum of a day. -/
structure Booked (dateOf : Int → Int) (watts : ℚ) (ch : PowerChannel) (t : Tables) (n : Nat) :
    Prop where
  count : (ofChannel t.samples ch.channelNum).length = n
  load : ∀ s ∈ ofChannel t.samples ch.channelNum, s.deviceGid = ch.deviceGid ∧
    s.kwhInterval = some (watts / 60000)
  keys : (t.rollup.map DayRow.key).Nodup
  days : ∀ r ∈ t.rollup, r.deviceGid = ch.deviceGid → r.channelNum = ch.channelNum →
    ∃ k ≤ (ofDay dateOf r.day (ofChannel t.samples ch.channelNum)).length,
      r.kwh = some (k * (watts / 60000))

theorem Booked.empty (dateOf : Int → Int) (watts : ℚ) (ch : PowerChannel) :
    Booked dateOf watts ch .empty 0 :=
  ⟨rfl, nofun, List.nodup_nil, nofun⟩

theorem dayRow_kwh {dateOf : Int → Int} {watts : ℚ} {ch : PowerChannel} {samples : List PowerSample}
    {day : Int}
    (hload : ∀ s ∈ ofChannel samples ch.channelNum, s.deviceGid = ch.deviceGid ∧
    s.kwhInterval = some (watts / 60000))
    {g : Int × String} (hg : g ∈ groupsOf (ofDay dateOf day samples)) (hgid : g.1 = ch.deviceGid)
    (hnum : g.2 = ch.channelNum) :
    (dayRow day (ofDay dateOf day samples) g).kwh =
      some ((ofDay dateOf day (ofChannel samples ch.channelNum)).length * (watts / 60000)) := by
  have hgroup : (ofDay dateOf day samples).filter
      (fun s => decide (s.deviceGid = g.1 ∧ s.channelNum = g.2)) =
      ofDay dateOf day (ofChannel samples ch.channelNum) := by
    unfold ofDay ofChannel
    rw [List.filter_filter, List.filter_filter]
    refine List.filter_congr fun s hs => ?_
    rw [Bool.eq_iff_iff, Bool.and_eq_true, Bool.and_eq_true, decide_eq_true_iff, decide_eq_true_iff,
      decide_eq_true_iff, hgid, hnum]
    constructor
    · exact fun h => ⟨h.2, h.1.2⟩
    · intro h
      exact ⟨⟨(hload s (List.mem_filter.mpr ⟨hs, decide_eq_true h.2⟩)).1, h.2⟩, h.1⟩
  have hne : ofDay dateOf day (ofChannel samples ch.channelNum) ≠ [] := by
    obtain ⟨s, hs, hkey⟩ := List.mem_map.mp (List.mem_dedup.mp hg)
    rw [← hgroup]
    exact List.ne_nil_of_mem (List.mem_filter.mpr
      ⟨hs, decide_eq_true (by rw [← hkey]; exact ⟨rfl, rfl⟩)⟩)
  have hpart : ∀ s ∈ ofDay dateOf day (ofChannel samples ch.channelNum),
      s.kwhInterval = some (watts / 60000) :=
    fun s hs => (hload s (List.mem_of_mem_filter hs)).2
  show sumOf _ = _
  rw [hgroup, sumOf_const hpart, if_neg hne]

theorem Booked.cycle {dateOf : Int → Int} {watts : ℚ} {ch : PowerChannel} {t t' : Tables} {n : Nat}
    (h : Booked dateOf watts ch t n)
    {date ts : Int} {rows : List UsageRow}
    (hload : rows.filter (fun r => decide (r.channelNum = ch.channelNum)) =
    [⟨ch.deviceGid, ch.channelNum, watts / 60000⟩])
    (hw : writeCycle dateOf date ts rows t = some t') : Booked dateOf watts ch t' (n + 1) := by
  obtain ⟨samples, hs, rfl⟩ := Option.map_eq_some_iff.mp hw
  have hnew : ofChannel samples ch.channelNum =
      ofChannel t.samples ch.channelNum ++ [sampleOf ts
        ⟨ch.deviceGid, ch.channelNum, watts / 60000⟩] := by
    rw [insertSamples_eq hs, ofChannel_append, ofChannel_sampleOf, hload]
    rfl
  have hall : ∀ s ∈ ofChannel samples ch.channelNum, s.deviceGid = ch.deviceGid ∧
      s.kwhInterval = some (watts / 60000) := by
    intro s hmem
    rw [hnew] at hmem
    rcases List.mem_append.mp hmem with hmem | hmem
    · exact h.load s hmem
    · rw [List.mem_singleton.mp hmem]
      exact ⟨rfl, rfl⟩
  obtain ⟨hkeys, hrows⟩ := @rollupDay_spec dateOf date samples t.rollup h.keys
  refine ⟨?_, hall, hkeys, fun r hr hgid hnum => ?_⟩
  · rw [hnew, List.length_append, h.count]
    rfl
  · rcases hrows r hr with hr | ⟨g, hg, rfl⟩
    · obtain ⟨k, hk, he⟩ := h.days r hr hgid hnum
      refine ⟨k, hk.trans ?_, he⟩
      rw [hnew]
      exact (List.sublist_append_left _ _).filter _ |>.length_le
    · exact ⟨_, le_refl _, dayRow_kwh hall hg hgid hnum⟩

theorem Booked.collect {dateOf : Int → Int} {watts : ℚ} {ch : PowerChannel} {cycles : List Cycle}
    {t t' : Tables} {n : Nat}
    (h : Booked dateOf watts ch t n) (hload : ConstantLoad watts ch cycles) {start : Int}
    (hc : collect dateOf start cycles t = some t') :
    Booked dateOf watts ch t' (n + cycles.length) := by
  induction cycles generalizing t n start with
  | nil => exact Option.some.inj hc ▸ h
  | cons c cycles ih =>
      obtain ⟨next, hnext, hc⟩ := Option.bind_eq_some_iff.mp hc
      have hstep := h.cycle (hload c List.mem_cons_self) hnext
      have hrest := ih hstep (fun d hd => hload d (List.mem_cons_of_mem _ hd)) hc
      rw [List.length_cons, Nat.add_comm cycles.length, ← Nat.add_assoc]
      exact hrest

theorem sum_days_le (dateOf : Int → Int) {days : List Int} (hn : days.Nodup)
    (samples : List PowerSample) :
    (days.map (fun d => (ofDay dateOf d samples).length)).sum ≤ samples.length := by
  have hone : ∀ (d : Int) (days : List Int), days.Nodup →
      (days.map (fun k => if d = k then 1 else 0)).sum ≤ 1 := by
    intro d days
    induction days with
    | nil => exact fun _ => Nat.zero_le 1
    | cons k days ih =>
        intro hn
        obtain ⟨hk, hn⟩ := List.nodup_cons.mp hn
        rw [List.map_cons, List.sum_cons]
        by_cases hd : d = k
        · have hz : days.map (fun k => if d = k then 1 else 0) = days.map (fun _ => 0) :=
            List.map_congr_left fun j hj => if_neg fun he : d = j => hk (hd ▸ he ▸ hj)
          rw [hz, if_pos hd]
          simp
        · rw [if_neg hd, Nat.zero_add]
          exact ih hn
  induction samples with
  | nil => simp [ofDay]
  | cons s samples ih =>
      have hsplit : ∀ d, (ofDay dateOf d (s :: samples)).length =
          (if dateOf s.ts = d then 1 else 0) + (ofDay dateOf d samples).length := by
        intro d
        unfold ofDay
        by_cases hd : dateOf s.ts = d
        · rw [List.filter_cons_of_pos (by simpa using hd), if_pos hd, List.length_cons,
            Nat.add_comm]
        · rw [List.filter_cons_of_neg (by simpa using hd), if_neg hd, Nat.zero_add]
      simp only [hsplit]
      rw [List.sum_map_add, List.length_cons, Nat.add_comm]
      exact Nat.add_le_add ih (hone _ _ hn)

theorem Booked.dailyKwh {dateOf : Int → Int} {watts : ℚ} {ch : PowerChannel} {t : Tables} {n : Nat}
    (h : Booked dateOf watts ch t n) :
    ∃ k ≤ n, dailyKwh t.rollup ch = k * (watts / 60000) := by
  let rows :=
    t.rollup.filter (fun r => decide (r.deviceGid = ch.deviceGid ∧ r.channelNum = ch.channelNum))
  have hch : ∀ r ∈ rows, r.deviceGid = ch.deviceGid ∧ r.channelNum = ch.channelNum := fun r hr =>
    of_decide_eq_true (List.mem_filter.mp hr).2
  have hdays : (rows.map (·.day)).Nodup := by
    have hkeys : (rows.map DayRow.key).Nodup := h.keys.sublist (List.filter_sublist.map _)
    refine List.Nodup.of_map (fun d => (d, ch.deviceGid, ch.channelNum)) ?_
    rw [List.map_map]
    refine (List.map_congr_left fun r hr => ?_) ▸ hkeys
    show (r.day, r.deviceGid, r.channelNum) = _
    rw [(hch r hr).1, (hch r hr).2]
    rfl
  have hsum : ∀ rows : List DayRow, (∀ r ∈ rows,
      ∃ k ≤ (ofDay dateOf r.day (ofChannel t.samples ch.channelNum)).length,
      r.kwh = some (k * (watts / 60000))) →
        ∃ k ≤ (rows.map (fun r => (ofDay dateOf r.day
          (ofChannel t.samples ch.channelNum)).length)).sum,
          (known (rows.map (·.kwh))).sum = k * (watts / 60000) := by
    intro rows
    induction rows with
    | nil => exact fun _ => ⟨0, le_refl _, by simp [known]⟩
    | cons r rows ih =>
        intro hr
        obtain ⟨k, hk, he⟩ := hr r List.mem_cons_self
        obtain ⟨m, hm, hs⟩ := ih fun r' hr' => hr r' (List.mem_cons_of_mem _ hr')
        refine ⟨k + m, ?_, ?_⟩
        · rw [List.map_cons, List.sum_cons]
          exact Nat.add_le_add hk hm
        · unfold known at hs ⊢
          rw [List.map_cons, he]
          show ((k * (watts / 60000)) :: List.filterMap id _).sum = _
          rw [List.sum_cons, hs]
          push_cast
          ring
  obtain ⟨k, hk, hs⟩ :=
    hsum rows fun r hr => h.days r (List.mem_of_mem_filter hr) (hch r hr).1 (hch r hr).2
  refine ⟨k, hk.trans ?_, hs⟩
  have hle := sum_days_le dateOf hdays (ofChannel t.samples ch.channelNum)
  rw [List.map_map, h.count] at hle
  exact hle

theorem Booked.sumKwh {dateOf : Int → Int} {watts : ℚ} {ch : PowerChannel} {t : Tables} {n : Nat}
    (h : Booked dateOf watts ch t n)
    {now interval : Int} (hfresh : channelStale t.samples ch.channelNum now = false)
    (hi : 600 * second ≤ interval) :
    ∃ k ≤ n, sumKwh t.samples ch.channelNum now interval = some (k * (watts / 60000)) := by
  have hpart : ∀ s ∈ since (ofChannel t.samples ch.channelNum) now interval,
      s.kwhInterval = some (watts / 60000) :=
    fun s hs => (h.load s (List.mem_of_mem_filter hs)).2
  have hne : since (ofChannel t.samples ch.channelNum) now interval ≠ [] := by
    unfold channelStale isStale at hfresh
    cases hmax : maxTs (ofChannel t.samples ch.channelNum) with
    | none =>
        rw [hmax] at hfresh
        cases hfresh
    | some ts =>
        rw [hmax] at hfresh
        obtain ⟨s, hs, rfl⟩ := List.mem_map.mp (List.max?_mem hmax)
        refine List.ne_nil_of_mem (List.mem_filter.mpr ⟨hs, decide_eq_true ?_⟩)
        have hage := not_lt.mp (of_decide_eq_false hfresh)
        have hspan : ((now - s.ts : Int) : ℚ) ≤ ((600 * second : Int) : ℚ) := by
          unfold ageSeconds staleSampleSeconds at hage
          rw [div_le_iff₀ (by norm_num)] at hage
          refine hage.trans (le_of_eq ?_)
          unfold second
          norm_num
        have hspan' : now - s.ts ≤ 600 * second := by exact_mod_cast hspan
        omega
  refine ⟨(since (ofChannel t.samples ch.channelNum) now interval).length, ?_, ?_⟩
  · rw [← h.count]
    exact List.filter_sublist.length_le
  · unfold FacilityPower.sumKwh
    rw [sumOf_const hpart, if_neg hne]

theorem energy_eq_iff {watts : ℚ} {n k : Nat} (hn : 1 ≤ n) (hk : k ≤ n) :
    k * (watts / 60000) = consumedKwh watts n ↔ watts = 0 := by
  unfold consumedKwh
  constructor
  · intro he
    have hfactor : watts * (5 * n - k) = 0 := by linarith
    rcases mul_eq_zero.mp hfactor with hw | hz
    · exact hw
    · have hn' : (1 : ℚ) ≤ n := by exact_mod_cast hn
      have hk' : (k : ℚ) ≤ n := by exact_mod_cast hk
      linarith
  · intro hw
    rw [hw]
    ring

/-- While the channel is not stale, the sums are the energy only of a load of nothing. -/
theorem reported_energy_iff (dateOf : Int → Int) (watts : ℚ) (ch : PowerChannel) (start : Int)
    (cycles : List Cycle)
    (hn : 1 ≤ cycles.length) (hload : ConstantLoad watts ch cycles) (t : Tables)
    (hc : collect dateOf start cycles .empty = some t)
    (now : Int) (hfresh : channelStale t.samples ch.channelNum now = false) :
    (FacilityPower.sumKwh t.samples ch.channelNum now dayHours =
    some (consumedKwh watts cycles.length) ↔ watts = 0) ∧
      (FacilityPower.sumKwh t.samples ch.channelNum now monthHours =
        some (consumedKwh watts cycles.length) ↔ watts = 0) ∧
        (dailyKwh t.rollup ch = consumedKwh watts cycles.length ↔ watts = 0) := by
  have h := (Booked.empty dateOf watts ch).collect hload hc
  rw [Nat.zero_add] at h
  obtain ⟨a, ha, hday⟩ := h.sumKwh hfresh (show 600 * second ≤ dayHours by decide)
  obtain ⟨b, hb, hmonth⟩ := h.sumKwh hfresh (show 600 * second ≤ monthHours by decide)
  obtain ⟨c, hc, hrollup⟩ := h.dailyKwh
  rw [hday, hmonth, hrollup, Option.some.injEq, Option.some.injEq]
  exact ⟨energy_eq_iff hn ha, energy_eq_iff hn hb, energy_eq_iff hn hc⟩

def serverRack : PowerChannel := ⟨631093, "1"⟩

def minuteReport (watts : ℚ) : Cycle :=
  ⟨100000, 200000, [⟨631093, "1", some (watts / 60000)⟩, ⟨631093, "2", none⟩]⟩

def dateUtc (ts : Int) : Int := ts / 86400000000

def twoCycles (watts : ℚ) : Tables :=
  (collect dateUtc 0 [minuteReport watts, minuteReport watts] .empty).getD .empty

/-- Two cycles report 0.02 kWh of the 0.1 kWh that are used. -/
theorem energy_lost : ¬ ∀ (dateOf : Int → Int) (watts : ℚ) (ch : PowerChannel) (start :
    Int) (cycles : List Cycle),
    1 ≤ cycles.length → ConstantLoad watts ch cycles → ∀ t,
      collect dateOf start cycles .empty = some t →
      ∀ now, channelStale t.samples ch.channelNum now = false →
        FacilityPower.sumKwh t.samples ch.channelNum now dayHours =
          some (consumedKwh watts cycles.length) ∧
          FacilityPower.sumKwh t.samples ch.channelNum now monthHours =
            some (consumedKwh watts cycles.length) ∧
            dailyKwh t.rollup ch = consumedKwh watts cycles.length := by
  intro hall
  have hsum :=
    hall dateUtc 600 serverRack 0 [minuteReport 600, minuteReport 600] (by decide)
      (by decide +kernel) (twoCycles 600)
    (by decide +kernel) (301 * second) (by decide +kernel)
  revert hsum
  decide +kernel

theorem reported_energy_two :
    (FacilityPower.sumKwh (twoCycles 600).samples "1" (301 * second) dayHours =
    some (consumedKwh 600 2) ↔ (600 : ℚ) = 0) ∧
      (FacilityPower.sumKwh (twoCycles 600).samples "1" (301 * second) monthHours =
        some (consumedKwh 600 2) ↔ (600 : ℚ) = 0) ∧
        (dailyKwh (twoCycles 600).rollup serverRack = consumedKwh 600 2 ↔ (600 : ℚ) = 0) :=
  reported_energy_iff dateUtc 600 serverRack 0 [minuteReport 600, minuteReport 600] (by decide)
    (by decide +kernel) (twoCycles 600)
    (by decide +kernel) (301 * second) (by decide +kernel)

end ServerManager.FacilityEnergy
