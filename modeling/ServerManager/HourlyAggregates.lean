import ServerManager.PruneSafety

namespace ServerManager.HourlyAggregates

open GpuPower (GpuSample)
open GpuRetention PruneSafety KeyedTable

/-- The hour, host and GPU that a statement stores a sample of. -/
def ingested : Action → Option HourKey
  | .ingest ts hostId gpuIndex _ _ _ => hostId.map (fun h => ⟨hourOf ts, h, gpuIndex⟩)
  | _ => none

/-- A verification that checks the hour does not report it. -/
def Verified (w : World) (k : HourKey) : Action → Prop
  | .verify now picks => k ∉ failures w now picks
  | _ => True

/-- No verification reports the hour, and its row keeps its aggregates until
the retention deletes it. -/
def Intact (k : HourKey) (v : HourAggregate) : World → List Action → Prop
  | _, [] => True
  | w, a :: actions => Verified w k a ∧
      match (w.act a).row k with
      | some r => r.aggregate = v ∧ Intact k v (w.act a) actions
      | none => ∃ cutoff, a = .retain cutoff

/-- What the statement reads of the hour is all of `samples`. -/
def Whole (w : World) (k : HourKey) (samples : List GpuSample) : Action → Prop
  | .window since until' => read w since until' k = [] ∨ read w since until' k = samples
  | .verify now picks =>
      (∃ window ∈ verifyWindows now, k ∈ picks window ∧ eligible w k window) →
        bucket w.raw k = samples
  | _ => True

/-- So for each statement until the retention deletes the row. -/
def WholeAll (k : HourKey) (samples : List GpuSample) : World → List Action → Prop
  | _, [] => True
  | w, a :: actions =>
      Whole w k samples a ∧ ((w.act a).row k ≠ none → WholeAll k samples (w.act a) actions)

theorem mem_failures {w : World} {now : Int} {picks : Option Int × Int → List HourKey}
    {k : HourKey} :
    k ∈ failures w now picks ↔ (∃ window ∈ verifyWindows now, k ∈ picks window ∧
      eligible w k window) ∧ mismatch w k := by
  unfold failures
  rw [List.mem_flatMap]
  constructor
  · rintro ⟨window, hw, hk⟩
    obtain ⟨hp, h⟩ := List.mem_filter.mp hk
    rw [Bool.and_eq_true] at h
    exact ⟨⟨window, hw, hp, h.1⟩, h.2⟩
  · rintro ⟨⟨window, hw, hp, he⟩, hm⟩
    exact ⟨window, hw, List.mem_filter.mpr ⟨hp, Bool.and_eq_true_iff.mpr ⟨he, hm⟩⟩⟩

theorem differs_self (x : Option ℚ) : differs x x = false := by
  cases x with
  | none => rfl
  | some x =>
      refine decide_eq_false (not_lt.mpr ?_)
      rw [sub_self, abs_zero]
      exact le_max_of_le_right (by decide +kernel)

theorem mismatch_false {w : World} {k : HourKey} {r : HourRow} (hr : w.row k = some r)
    (h : r.aggregate = aggregateOf (bucket w.raw k)) : mismatch w k = false := by
  simp [mismatch, hr, h, differs_self]

theorem count_of_match {w : World} {k : HourKey} {r : HourRow} (hr : w.row k = some r)
    (h : mismatch w k = false) :
    r.aggregate.sampleCount = (bucket w.raw k).length := by
  simp only [mismatch, hr, Bool.or_eq_false_iff, bne_eq_false_iff_eq] at h
  exact h.1.1

theorem act_ever {w : World} {a : Action} {k : HourKey} (h : ingested a ≠ some k) :
    bucket (w.act a).ever k = bucket w.ever k := by
  cases a with
  | ingest ts hostId gpuIndex utilPct memUsedMib powerWatts =>
      have hk : keyOf ⟨w.nextSample, ts, hostId, gpuIndex, utilPct, memUsedMib, powerWatts⟩ ≠
          some k := h
      simp [World.act, bucket, List.filter_append, hk]
  | window | retain | prune | verify => rfl

theorem intact_of_whole {k : HourKey} {samples : List GpuSample} {w : World} {r : HourRow}
    (actions : List Action)
    (hr : w.row k = some r) (hv : r.aggregate = aggregateOf samples)
    (h : WholeAll k samples w actions) :
    Intact k (aggregateOf samples) w actions := by
  induction actions generalizing w r with
  | nil => trivial
  | cons a actions ih =>
      obtain ⟨ha, hrest⟩ := h
      -- A statement that is neither a window nor a retention leaves the row.
      have same : (w.act a).row k = w.row k → Verified w k a →
          Intact k (aggregateOf samples) w (a :: actions) := by
        intro he hver
        refine ⟨hver, ?_⟩
        rw [he, hr]
        exact ⟨hv, ih (he.trans hr) hv (hrest (by rw [he, hr]; exact Option.some_ne_none r))⟩
      cases a with
      | ingest | prune => exact same rfl trivial
      | verify now picks =>
          refine same rfl fun hfail => ?_
          obtain ⟨hpick, hmis⟩ := mem_failures.mp hfail
          rw [mismatch_false hr (hv.trans (congrArg aggregateOf (ha hpick).symm))] at hmis
          exact Bool.false_ne_true hmis
      | window since until' =>
          by_cases hread : read w since until' k = []
          · exact same (row_spared hread) trivial
          · have hrow := (row_window w since until' k).trans (if_neg hread)
            have hall := ha.resolve_left hread
            refine ⟨trivial, ?_⟩
            rw [hrow]
            exact ⟨congrArg aggregateOf hall,
              ih hrow (congrArg aggregateOf hall) (hrest (by rw [hrow]; exact Option.some_ne_none _))⟩
      | retain cutoff =>
          by_cases hc : cutoff ≤ k.hourBucket * hour
          · exact same (row_spared hc) trivial
          · have hrow := (row_retain w cutoff k).trans (if_neg hc)
            refine ⟨trivial, ?_⟩
            rw [hrow]
            exact ⟨cutoff, rfl⟩

/-- Without new samples of the hour, a statement that reads only some of them
shows in the row or is reported. -/
theorem whole_of_intact {k : HourKey} {w : World} {r : HourRow} (actions : List Action)
    (hs : Serial w)
    (hr : w.row k = some r) (hv : r.aggregate = aggregateOf (bucket w.ever k))
    (hnew : ∀ a ∈ actions, ingested a ≠ some k)
    (h : Intact k (aggregateOf (bucket w.ever k)) w actions) :
    WholeAll k (bucket w.ever k) w actions := by
  induction actions generalizing w r with
  | nil => trivial
  | cons a actions ih =>
      obtain ⟨hver, hrow⟩ := h
      have hever := act_ever (w := w) (hnew a List.mem_cons_self)
      constructor
      · cases a with
        | ingest | prune | retain => trivial
        | verify now picks =>
            intro hpick
            have hmatch : mismatch w k = false := by
              by_contra hmis
              exact hver (mem_failures.mpr ⟨hpick, by simpa using hmis⟩)
            refine (bucket_sublist hs.stored k).eq_of_length ?_
            have hcount := count_of_match hr hmatch
            rw [hv] at hcount
            exact hcount.symm
        | window since until' =>
            by_cases hread : read w since until' k = []
            · exact .inl hread
            · right
              rw [(row_window w since until' k).trans (if_neg hread)] at hrow
              exact count_sublist (bucket_sublist (List.filter_sublist.trans hs.stored) k) hrow.1
      · intro hkept
        obtain ⟨r', hr'⟩ := Option.ne_none_iff_exists'.mp hkept
        rw [hr'] at hrow
        obtain ⟨hv', hrest⟩ := hrow
        rw [← hever] at hv' hrest ⊢
        exact ih (hs.act a).1 hr' hv' (fun a' ha' => hnew a' (List.mem_cons_of_mem _ ha')) hrest

/-- Once the row of an hour has the aggregates of all of its samples, later
commands keep it so where they read the hour as a whole; and, unless samples of
it come later, only where they do. -/
theorem intact_iff_whole (commands later : List Command) (k : HourKey) (r : HourRow)
    (hr : (World.empty.run commands).row k = some r)
    (hv : r.aggregate = aggregateOf (bucket (World.empty.run commands).ever k)) :
    (WholeAll k (bucket (World.empty.run commands).ever k) (World.empty.run commands)
    (history (World.empty.run commands) later) →
      Intact k r.aggregate (World.empty.run commands) (history (World.empty.run commands) later)) ∧
    ((∀ a ∈ history (World.empty.run commands) later, ingested a ≠ some k) →
      Intact k r.aggregate (World.empty.run commands) (history (World.empty.run commands) later) →
      WholeAll k (bucket (World.empty.run commands).ever k) (World.empty.run commands)
        (history (World.empty.run commands) later)) := by
  have hs : Serial (World.empty.run commands) := (serial_empty.acts _).1
  rw [hv]
  exact ⟨intact_of_whole _ hr hv, whole_of_intact _ hs hr hv⟩

/-- Two samples of an hour, which the rollup after it reads. -/
def rolledUp : List Command :=
  [.ingest (600 * second) (some 1) 0 (some 50) (some 1024) (some 200),
    .ingest (3000 * second) (some 1) 0 (some 90) (some 2048) (some 300), .rollup (hour + 300 * second)]

/-- Ninety days later, the prune at half past deletes the first of them only. -/
def truncated : List Command :=
  [.prune (90 * day + 1800 * second) none true,
    .verify (90 * day + 1800 * second) (fun _ => [⟨0, 1, 0⟩])]

theorem truncated_reported : ¬ ∀ commands later k r now, Command.rollup now ∈ commands →
    (k.hourBucket + 1) * hour ≤ now →
    (∀ a ∈ history (World.empty.run commands) later, ingested a ≠ some k) →
    (World.empty.run commands).row k = some r →
    r.aggregate = aggregateOf (bucket (World.empty.run commands).ever k) →
    Intact k r.aggregate (World.empty.run commands) (history (World.empty.run commands) later) := by
  intro h
  have hcut : pruneCutoff (World.empty.run rolledUp) (90 * day + 1800 * second) none true =
      some (1800 * second) := by decide +kernel
  have hhist : history (World.empty.run rolledUp) truncated =
      [.prune (1800 * second), .verify (90 * day + 1800 * second) (fun _ => [⟨0, 1, 0⟩])] := by
    simp [history, truncated, Command.actions, hcut]
  have hint :=
    h rolledUp truncated ⟨0, 1, 0⟩ (rowFrom (World.empty.run rolledUp).ever ⟨0, 1, 0⟩)
      (hour + 300 * second)
    (List.mem_cons_of_mem _ (List.mem_cons_of_mem _ List.mem_cons_self)) (by decide)
    (by rw [hhist]; simp [ingested]) (by decide +kernel) rfl
  rw [hhist] at hint
  have hrow : ((World.empty.run rolledUp).act (.prune (1800 * second))).row ⟨0, 1, 0⟩ =
      some (rowFrom (World.empty.run rolledUp).ever ⟨0, 1, 0⟩) := by decide +kernel
  obtain ⟨-, hnext⟩ := hint
  rw [hrow] at hnext
  obtain ⟨-, hver, -⟩ := hnext
  exact hver (by decide +kernel)

theorem rolledUp_untouched :
    Intact ⟨0, 1, 0⟩ (rowFrom (World.empty.run rolledUp).ever ⟨0, 1, 0⟩).aggregate
      (World.empty.run rolledUp)
      (history (World.empty.run rolledUp) [.rollup (hour + 600 * second)]) :=
  (intact_iff_whole rolledUp [.rollup (hour + 600 * second)] ⟨0, 1, 0⟩
    (rowFrom (World.empty.run rolledUp).ever ⟨0, 1, 0⟩)
    (by decide +kernel) rfl).1 ⟨.inr (by decide +kernel), fun _ => trivial⟩

end ServerManager.HourlyAggregates
