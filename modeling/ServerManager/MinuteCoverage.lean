import ServerManager.GpuPower

namespace ServerManager.MinuteCoverage

open GpuPower
open Effects (PyExc)

/-- The rollup that an event makes: when it is called, and its `now()`. -/
def rollupOf (cutover : Bool) (sampleSeconds : Int) (c : Collector) : Event → Option (Int × Int)
  | .cycle a bulk now later _ =>
      let c := c.insert cutover (cycleRows a) bulk now
      match cyclesPerRollup sampleSeconds with
      | some n => if n ≤ (c.minuteCounter + 1 : Int) then some (later, c.txn.getD later) else none
      | none => none
  | .restart _ => none

def rollups (cutover : Bool) (sampleSeconds : Int) : Collector → List Event → List (Int × Int)
  | _, [] => []
  | c, ev :: events =>
      (rollupOf cutover sampleSeconds c ev).toList ++
        rollups cutover sampleSeconds (c.step cutover sampleSeconds ev) events

/-- Time does not run backwards. -/
def Ordered : Int → List Event → Prop
  | _, [] => True
  | now, .cycle _ _ taken later reconnected :: events =>
      now ≤ taken ∧ taken ≤ later ∧ later ≤ reconnected ∧ Ordered reconnected events
  | now, .restart started :: events => now ≤ started ∧ Ordered started events

def decideOrdered : (now : Int) → (events : List Event) → Decidable (Ordered now events)
  | _, [] => inferInstanceAs (Decidable True)
  | now, .cycle _ _ taken later reconnected :: events =>
      have := decideOrdered reconnected events
      inferInstanceAs (Decidable (now ≤ taken ∧ taken ≤ later ∧ later ≤ reconnected ∧
        Ordered reconnected events))
  | now, .restart started :: events =>
      have := decideOrdered started events
      inferInstanceAs (Decidable (now ≤ started ∧ Ordered started events))

instance (now : Int) (events : List Event) : Decidable (Ordered now events) :=
  decideOrdered now events

def Sampled (samples : List GpuSample) (h : Option Int) (m : Int) : Prop :=
  ∃ s ∈ samples, s.hostId = h ∧ minuteOf s.ts = m

instance (samples : List GpuSample) (h : Option Int) (m : Int) : Decidable (Sampled samples h m) :=
  inferInstanceAs (Decidable (∃ s ∈ samples, _))

/-- The rollups whose `now()` is in the minute after `m`. -/
def callsAfter (calls : List (Int × Int)) (m : Int) : List (Int × Int) :=
  calls.filter (fun p => decide (minuteOf p.2 = m + 1))

/-- The minute is over when the last rollup is called. -/
def Ended (calls : List (Int × Int)) (m : Int) : Prop :=
  ∃ last ∈ calls.getLast?, (m + 1) * minute ≤ last.1

instance (calls : List (Int × Int)) (m : Int) : Decidable (Ended calls m) :=
  match h : calls.getLast? with
  | some last =>
      if hl : (m + 1) * minute ≤ last.1 then .isTrue ⟨last, h, hl⟩
      else .isFalse fun ⟨_, hm, hle⟩ => hl (Option.some.inj (h.symm.trans hm) ▸ hle)
  | none => .isFalse fun ⟨_, hm, _⟩ => nomatch h.symm.trans hm

/-- Every sampled minute that is over has exactly one row. -/
def EveryMinuteOnce (t : Tables) (calls : List (Int × Int)) : Prop :=
  ∀ h m, Sampled t.samples h m → Ended calls m → (rowsAt t.rollup h m).length = 1

theorem rowsAt_snoc (rows : List MinuteRow) (r : MinuteRow) (h : Option Int) (m : Int) :
    (rowsAt (rows ++ [r]) h m).length =
      (rowsAt rows h m).length + if r.hostId = h ∧ r.ts = m * minute then 1 else 0 := by
  unfold rowsAt
  rw [List.filter_append, List.length_append]
  congr 1
  by_cases hr : r.hostId = h ∧ r.ts = m * minute
  · rw [if_pos hr]
    simp [hr]
  · rw [if_neg hr, List.filter_cons_of_neg (by simpa using hr), List.filter_nil]
    rfl

theorem rowsAt_insertMinutes {hosts : List (Option Int)} (hn : hosts.Nodup) (k : Int)
    (window : List GpuSample) (t : Tables)
    (h : Option Int) (m : Int) :
    (rowsAt (insertMinutes (k * minute) window hosts t).rollup h m).length =
      (rowsAt t.rollup h m).length + if h ∈ hosts ∧ m = k then 1 else 0 := by
  induction hosts generalizing t with
  | nil => simp [insertMinutes]
  | cons g hosts ih =>
      obtain ⟨hg, hn⟩ := List.nodup_cons.mp hn
      have hstep :=
        ih hn (t.insertMinute (k * minute) g (avg (wattsOf window g)) (maxOf (wattsOf window g)))
      rw [(insertMinute_eq t _ g _ _).1, rowsAt_snoc] at hstep
      refine hstep.trans ?_
      simp only [minute_inj, List.mem_cons]
      by_cases hk : m = k
      · subst hk
        by_cases hgh : g = h
        · subst hgh
          simp [hg]
        · have hne : h ≠ g := fun he => hgh he.symm
          simp [hgh, hne]
      · have hne : k ≠ m := fun he => hk he.symm
        simp [hk, hne]

theorem rowsAt_rollupMinute (now : Int) (t : Tables) (h : Option Int) (m : Int) :
    (rowsAt (rollupMinute now t).rollup h m).length =
      (rowsAt t.rollup h m).length + if Sampled t.samples h m ∧ minuteOf now = m + 1 then 1
        else 0 := by
  refine (rowsAt_insertMinutes (List.nodup_dedup _) _ _ t h m).trans ?_
  congr 1
  refine if_congr ?_ rfl rfl
  unfold Sampled
  rw [List.mem_dedup, List.mem_map]
  constructor
  · rintro ⟨⟨s, hs, hh⟩, hm⟩
    obtain ⟨hs, hms⟩ := mem_lastMinute.mp hs
    exact ⟨⟨s, hs, hh, hms.trans hm.symm⟩, by omega⟩
  · rintro ⟨⟨s, hs, hh, hms⟩, hm⟩
    have hmn : m = minuteOf now - 1 := by omega
    exact ⟨⟨s, mem_lastMinute.mpr ⟨hs, hms.trans hmn⟩, hh⟩, hmn⟩

theorem minuteOf_mono {a b : Int} (h : a ≤ b) : minuteOf a ≤ minuteOf b :=
  Int.ediv_le_ediv (by decide) h

/-- A sampled minute has one row for each rollup of the next one. -/
def Counted (t : Tables) (calls : List (Int × Int)) : Prop :=
  ∀ h m, (rowsAt t.rollup h m).length = if Sampled t.samples h m then (callsAfter calls m).length
    else 0

theorem Counted.insert {t : Tables} {calls : List (Int × Int)} {ts : Int} (h : Counted t calls)
    (hts : ∀ p ∈ calls, p.2 ≤ ts) (rows : List (Option Int × Reading)) :
    Counted (insertSamples ts rows t) calls := by
  obtain ⟨new, hn, hnew⟩ := insertSamples_samples ts rows t
  intro k m
  rw [insertSamples_rollup, h, hn]
  by_cases hold : Sampled t.samples k m
  · obtain ⟨s, hs, hk⟩ := hold
    rw [if_pos ⟨s, hs, hk⟩, if_pos ⟨s, List.mem_append_left _ hs, hk⟩]
  · rw [if_neg hold]
    by_cases hsam : Sampled (t.samples ++ new) k m
    · -- no rollup has had a time after the minute that has just been sampled for the first time
      rw [if_pos hsam]
      obtain ⟨s, hs, hk, hm⟩ := hsam
      rcases List.mem_append.mp hs with hs | hs
      · exact absurd ⟨s, hs, hk, hm⟩ hold
      · refine (List.length_eq_zero_iff.mpr (List.filter_eq_nil_iff.mpr fun p hp => ?_)).symm
        have hle := minuteOf_mono (hts p hp)
        rw [hnew s hs] at hm
        intro hpm
        have hpm' := of_decide_eq_true hpm
        omega
    · rw [if_neg hsam]

theorem Counted.rollup {t : Tables} {calls : List (Int × Int)} (h : Counted t calls)
    (later now : Int) :
    Counted (rollupMinute now t) (calls ++ [(later, now)]) := by
  intro k m
  rw [rowsAt_rollupMinute, rollupMinute_samples, h]
  unfold callsAfter
  rw [List.filter_append, List.length_append]
  by_cases hk : Sampled t.samples k m
  · by_cases hm : minuteOf now = m + 1
    · simp [hk, hm]
    · simp [hk, hm]
  · simp [hk]

/-- The `now()` of the rollups is not after the one of the next statement, which
is that of the open transaction, if there is one. -/
structure Tally (c : Collector) (calls : List (Int × Int)) (now : Int) : Prop where
  counted : Counted c.tables calls
  txn : ∀ t ∈ c.txn, t ≤ now
  calls : ∀ p ∈ calls, p.2 ≤ c.txn.getD now

theorem Tally.le {c : Collector} {calls : List (Int × Int)} {now : Int} (h : Tally c calls now) :
    c.txn.getD now ≤ now := by
  cases ht : c.txn with
  | none => exact le_refl now
  | some t => exact h.txn t ht

theorem Tally.later {c : Collector} {calls : List (Int × Int)} {now later : Int}
    (h : Tally c calls now) (ht : now ≤ later) :
    Tally c calls later := by
  refine ⟨h.counted, fun t hm => (h.txn t hm).trans ht, fun p hp => (h.calls p hp).trans ?_⟩
  cases c.txn with
  | none => exact ht
  | some t => exact le_refl t

theorem Tally.insert {c : Collector} {calls : List (Int × Int)} {now : Int} (h : Tally c calls now)
    (cutover : Bool)
    (rows : List (Option Int × Reading)) (bulk : Bulk) :
    Tally (c.insert cutover rows bulk now) calls now := by
  have hnow : ∀ p ∈ calls, p.2 ≤ now := fun p hp => (h.calls p hp).trans h.le
  unfold Collector.insert
  split
  · exact h
  · split
    · exact ⟨h.counted.insert hnow rows, h.txn, h.calls⟩
    · refine ⟨Counted.insert ?_ h.calls rows, nofun, hnow⟩
      split
      · exact h.counted.insert hnow rows
      · exact h.counted
    · exact ⟨h.counted.insert h.calls rows, nofun, hnow⟩

theorem Tally.rollup {c : Collector} {calls : List (Int × Int)} {now : Int}
    (h : Tally c calls now) :
    Tally (c.rollup now) (calls ++ [(now, c.txn.getD now)]) now := by
  refine ⟨h.counted.rollup now _, nofun, fun p hp => ?_⟩
  rcases List.mem_append.mp hp with hp | hp
  · exact (h.calls p hp).trans h.le
  · rw [List.mem_singleton.mp hp]
    exact h.le

theorem Tally.opened {c c' : Collector} {calls : List (Int × Int)} {now : Int}
    (h : Tally c calls now)
    (ht : c'.tables = c.tables) (htxn : c'.txn = some now) : Tally c' calls now := by
  refine ⟨fun k m => ht ▸ h.counted k m, fun t hm => ?_, fun p hp => ?_⟩
  · rw [htxn] at hm
    exact (Option.some.inj hm).ge
  · rw [htxn]
    exact (h.calls p hp).trans h.le

theorem step_tally {cutover : Bool} {sampleSeconds : Int} {a : Answers} {bulk : Bulk}
    {taken later reconnected : Int}
    {c : Collector} {calls : List (Int × Int)} {now : Int} (h : Tally c calls now)
    (ht : now ≤ taken) (hl : taken ≤ later)
    (hr : later ≤ reconnected) :
    Tally (c.step cutover sampleSeconds (.cycle a bulk taken later reconnected))
      (calls ++ (rollupOf cutover sampleSeconds c (.cycle a bulk taken later reconnected)).toList)
        reconnected := by
  have hins := ((h.later ht).insert cutover (cycleRows a) bulk).later hl
  unfold Collector.step rollupOf
  cases hn : cyclesPerRollup sampleSeconds with
  | none =>
      simp only [Option.toList_none, List.append_nil]
      exact (hins.later hr).opened rfl rfl
  | some n =>
      by_cases hdue : n ≤ ((c.insert cutover (cycleRows a) bulk taken).minuteCounter + 1 : Int)
      · simp only [hdue, if_true, Option.toList_some]
        exact hins.rollup.later hr
      · simp only [hdue, if_false, Option.toList_none, List.append_nil]
        have hlast := hins.later hr
        exact ⟨hlast.counted, hlast.txn, hlast.calls⟩

theorem run_tally {cutover : Bool} {sampleSeconds : Int} {events : List Event} {c : Collector}
    {calls : List (Int × Int)}
    {now : Int} (h : Tally c calls now) (ho : Ordered now events) :
    ∃ now', Tally (c.run cutover sampleSeconds events)
      (calls ++ rollups cutover sampleSeconds c events) now' := by
  induction events generalizing c calls now with
  | nil =>
      refine ⟨now, ?_⟩
      rw [rollups, List.append_nil]
      exact h
  | cons ev events ih =>
      rw [rollups, ← List.append_assoc]
      cases ev with
      | restart started =>
          have hopened : Tally (c.step cutover sampleSeconds (.restart started)) (calls ++ [])
              started := by
            rw [List.append_nil]
            exact (h.later ho.1).opened rfl rfl
          exact ih hopened ho.2
      | cycle a bulk taken later reconnected =>
          obtain ⟨htaken, hlater, hreconnected, ho⟩ := ho
          exact ih (step_tally h htaken hlater hreconnected) ho

/-- No minute is lost and none is counted twice exactly when each sampled minute
that is over is followed by a minute that is the `now()` of one rollup. -/
theorem every_minute_once_iff (cutover : Bool) (sampleSeconds start : Int) (events : List Event)
    (ho : Ordered start events) :
    EveryMinuteOnce ((Collector.new start).run cutover sampleSeconds events).tables
        (rollups cutover sampleSeconds (Collector.new start) events) ↔
      ∀ s ∈ ((Collector.new start).run cutover sampleSeconds events).tables.samples,
        Ended (rollups cutover sampleSeconds (Collector.new start) events) (minuteOf s.ts) →
          (callsAfter (rollups cutover sampleSeconds (Collector.new start) events)
            (minuteOf s.ts)).length = 1 := by
  have hempty : Tally (Collector.new start) [] start := by
    refine ⟨fun k m => ?_, fun t ht => (Option.some.inj ht).ge,
      fun p hp => absurd hp List.not_mem_nil⟩
    refine (if_neg fun h : Sampled [] k m => ?_).symm
    obtain ⟨s, hs, -⟩ := h
    exact absurd hs List.not_mem_nil
  obtain ⟨now, h⟩ : ∃ now, Tally ((Collector.new start).run cutover sampleSeconds events)
      ([] ++ rollups cutover sampleSeconds (Collector.new start) events) now := run_tally hempty ho
  rw [List.nil_append] at h
  constructor
  · intro hall s hs he
    have hsam : Sampled ((Collector.new start).run cutover sampleSeconds events).tables.samples
        s.hostId (minuteOf s.ts) :=
      ⟨s, hs, rfl, rfl⟩
    have hrows := h.counted s.hostId (minuteOf s.ts)
    rw [if_pos hsam, hall _ _ hsam he] at hrows
    exact hrows.symm
  · intro hall k m hsam he
    rw [h.counted, if_pos hsam]
    obtain ⟨s, hs, -, rfl⟩ := hsam
    exact hall s hs he

def oneGpu : Answers where
  nvidia ip :=
    if ip = "10.0.20.168" then .ok [⟨0, 50, 1000, 300⟩]
      else .error ⟨.other "TimeoutExpired", "timed out"⟩
  hostIds ip := if ip = "10.0.20.168" then some 1 else none

def second : Int := 1000000

def cyclesAt (times : List Int) : List Event :=
  times.map (fun t => .cycle oneGpu .stored (t * second) (t * second) (t * second))

/-- With the default interval the third and the sixth cycle make a rollup, in the minutes 0 and
2. -/
theorem minute_lost : ¬ ∀ (cutover : Bool) (sampleSeconds start : Int) (events : List Event),
    Ordered start events →
    EveryMinuteOnce ((Collector.new start).run cutover sampleSeconds events).tables
      (rollups cutover sampleSeconds (Collector.new start) events) := by
  intro hall
  have hrow :=
    hall false 20 0 (cyclesAt [0, 25, 50, 75, 100, 125]) (by decide) (some 1) 0 (by decide)
      (by decide)
  revert hrow
  decide

/-- One rollup in each minute, the adapter off and on. -/
theorem every_minute_once_cycles :
    EveryMinuteOnce ((Collector.new 0).run false 60 (cyclesAt [30, 91, 152])).tables
        (rollups false 60 (Collector.new 0) (cyclesAt [30, 91, 152])) ∧
      EveryMinuteOnce ((Collector.new 0).run true 60 (cyclesAt [30, 91, 152])).tables
        (rollups true 60 (Collector.new 0) (cyclesAt [30, 91, 152])) :=
  ⟨(every_minute_once_iff false 60 0 (cyclesAt [30, 91, 152]) (by decide)).mpr (by decide),
    (every_minute_once_iff true 60 0 (cyclesAt [30, 91, 152]) (by decide)).mpr (by decide)⟩

end ServerManager.MinuteCoverage
