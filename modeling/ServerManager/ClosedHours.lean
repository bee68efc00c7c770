import ServerManager.HourWindows

namespace ServerManager.ClosedHours

open GpuPower (GpuSample)
open GpuRetention KeyedTable PruneSafety HourWindows

/-- Samples are stored at their own time, and a rollup begins at most three
hours after the one before it. No other command runs. -/
def Paced : Option Int → Int → List Command → Prop
  | _, _, [] => True
  | last, clock, .ingest ts .. :: commands => clock ≤ ts ∧ Paced last ts commands
  | last, clock, .rollup now :: commands =>
      clock ≤ now ∧ (∀ t ∈ last, now ≤ t + 3 * hour) ∧ Paced (some now) now commands
  | _, _, _ => False

def firstRun : List Command → Option Int
  | [] => none
  | .rollup now :: _ => some now
  | _ :: commands => firstRun commands

theorem firstRun_append (commands : List Command) (now : Int) :
    firstRun (commands ++ [.rollup now]) = some ((firstRun commands).getD now) := by
  induction commands with
  | nil => rfl
  | cons c commands ih =>
      cases c with
      | rollup t => rfl
      | _ => exact ih

/-- What holds between the commands, where `runs` has the begins of the first
and of the last rollup. -/
structure Kept (runs : Option (Int × Int)) (clock : Int) (w : World) : Prop where
  keys : (w.hourly.map HourRow.key).Nodup
  past : ∀ s ∈ w.raw, s.ts ≤ clock
  last : ∀ r ∈ runs, r.2 ≤ clock
  closed : ∀ r ∈ runs, ∀ k : HourKey, r.1 < (k.hourBucket + 1) * hour →
    (k.hourBucket + 1) * hour ≤ r.2 → Exact w k

theorem run_cons (w : World) (c : Command) (commands : List Command) :
    w.run (c :: commands) = (w.acts (c.actions w)).run commands :=
  acts_append w _ _

theorem run_append (w : World) (commands later : List Command) :
    w.run (commands ++ later) = (w.run commands).run later := by
  induction commands generalizing w with
  | nil => rfl
  | cons c commands ih => rw [List.cons_append, run_cons, run_cons, ih]

theorem run_rollup (w : World) (now : Int) : w.run [.rollup now] = w.act
    (.window (rollupSpan now).1 (rollupSpan now).2) := rfl

theorem window_keys {w : World} (h : (w.hourly.map HourRow.key).Nodup) (since until' : Int) :
    ((w.act (.window since until')).hourly.map HourRow.key).Nodup :=
  (@mem_upserts _ _ _ HourRow.key _ (rowFrom (between w.raw since until'))
    (groups (between w.raw since until')) _ h).1

theorem rollup_read {w : World} {now : Int} (hpast : ∀ s ∈ w.raw, s.ts ≤ now) (k : HourKey) :
    read w (rollupSpan now).1 (rollupSpan now).2 k =
      if (rollupSpan now).1 ≤ k.hourBucket * hour then bucket w.raw k else [] := by
  have hspan : (rollupSpan now).2 = now + 300 * second := rfl
  have hal : Aligned (rollupSpan now).1 := aligned_alignHour _
  split
  next hk =>
    apply read_whole
    intro s hs
    obtain ⟨hs, hkey⟩ := mem_bucket.mp hs
    have hts := ts_of_key hkey
    have hle := hpast s hs
    simp only [second] at hspan
    omega
  next hk =>
    apply read_none
    intro s hs
    have hts := ts_of_key (mem_bucket.mp hs).2
    have hap := hal.apart k
    omega

theorem rollup_exact {w : World} {now : Int} (hpast : ∀ s ∈ w.raw, s.ts ≤ now) {k : HourKey}
    (hk : (rollupSpan now).1 ≤ k.hourBucket * hour) : Exact (w.run [.rollup now]) k := by
  rw [run_rollup]
  apply exact_of_whole
  rw [rollup_read hpast, if_pos hk]

theorem rollup_keeps {w : World} {now : Int} (hpast : ∀ s ∈ w.raw, s.ts ≤ now) {k : HourKey}
    (h : Exact w k) :
    Exact (w.run [.rollup now]) k := by
  by_cases hk : (rollupSpan now).1 ≤ k.hourBucket * hour
  · exact rollup_exact hpast hk
  · have hrow : (w.run [.rollup now]).row k = w.row k := by
      rw [run_rollup, row_window, rollup_read hpast, if_neg hk, if_pos rfl]
    intro hne
    exact hrow.trans (h hne)

theorem rollup_begin {now last : Int} (hgap : now ≤ last + 3 * hour) {k : HourKey}
    (hk : last < (k.hourBucket + 1) * hour) :
    (rollupSpan now).1 ≤ k.hourBucket * hour := by
  have hle := alignHour_le (now - 3 * hour)
  have hap := (aligned_alignHour (now - 3 * hour)).apart k
  have hspan : (rollupSpan now).1 = alignHour (now - 3 * hour) := rfl
  omega

theorem Kept.rollup {runs : Option (Int × Int)} {clock : Int} {w : World} (h : Kept runs clock w)
    {now : Int}
    (hclock : clock ≤ now) (hgap : ∀ t ∈ runs.map Prod.snd, now ≤ t + 3 * hour) :
    Kept (some ((runs.map Prod.fst).getD now, now)) now (w.run [.rollup now]) := by
  have hpast : ∀ s ∈ w.raw, s.ts ≤ now := fun s hs => (h.past s hs).trans hclock
  refine ⟨window_keys h.keys _ _, hpast, ?_, ?_⟩
  · rintro r hr
    cases hr
    exact le_refl now
  · rintro r hr k hfirst hend
    cases hr
    cases runs with
    | none =>
        simp only [Option.map_none, Option.getD_none] at hfirst
        omega
    | some r =>
        simp only [Option.map_some, Option.getD_some] at hfirst
        by_cases hold : (k.hourBucket + 1) * hour ≤ r.2
        · exact rollup_keeps hpast (h.closed r rfl k hfirst hold)
        · -- it has ended since the last rollup
          apply rollup_exact hpast
          apply rollup_begin (hgap r.2 rfl)
          omega

theorem Kept.ingest {runs : Option (Int × Int)} {clock : Int} {w : World} (h : Kept runs clock w)
    {ts : Int} (hclock : clock ≤ ts)
    (hostId : Option Int) (gpuIndex : Int) (utilPct memUsedMib powerWatts : Option ℚ) :
    Kept runs ts (w.run [.ingest ts hostId gpuIndex utilPct memUsedMib powerWatts]) := by
  refine ⟨h.keys, fun s hs => ?_, fun r hr => (h.last r hr).trans hclock,
    fun r hr k hfirst hend => ?_⟩
  · rcases List.mem_append.mp hs with hs | hs
    · exact (h.past s hs).trans hclock
    · rw [List.mem_singleton.mp hs]
  · have hlast := h.last r hr
    have hnew : keyOf ⟨w.nextSample, ts, hostId, gpuIndex, utilPct, memUsedMib, powerWatts⟩ ≠
        some k := by
      intro hk
      have hts := ts_of_key hk
      simp only at hts
      omega
    have hbucket : bucket (w.run [.ingest ts hostId gpuIndex utilPct memUsedMib powerWatts]).raw k =
        bucket w.raw k := by
      have hraw : (w.run [.ingest ts hostId gpuIndex utilPct memUsedMib powerWatts]).raw =
          w.raw ++ [⟨w.nextSample, ts, hostId, gpuIndex, utilPct, memUsedMib, powerWatts⟩] := rfl
      rw [hraw]
      unfold bucket
      rw [List.filter_append, List.filter_cons_of_neg (by simpa using hnew), List.filter_nil,
        List.append_nil]
    intro hne
    rw [hbucket] at hne
    exact (h.closed r hr k hfirst hend hne).trans (congrArg some (rowFrom_congr hbucket.symm))

theorem run_kept (commands later : List Command) (runs : Option (Int × Int)) {clock : Int}
    {w : World} (h : Kept runs clock w)
    (hp : Paced (runs.map Prod.snd) clock (commands ++ later)) :
    ∃ runs' clock', Kept runs' clock' (w.run commands) ∧ Paced (runs'.map Prod.snd) clock' later ∧
      runs'.map Prod.fst = (runs.map Prod.fst).or (firstRun commands) := by
  induction commands generalizing runs clock w with
  | nil => exact ⟨runs, clock, h, hp, Option.or_none.symm⟩
  | cons c commands ih =>
      cases c with
      | ingest ts hostId gpuIndex utilPct memUsedMib powerWatts =>
          obtain ⟨hclock, hp⟩ := hp
          obtain ⟨runs', clock', hk, hl, hf⟩ :=
            ih runs (h.ingest hclock hostId gpuIndex utilPct memUsedMib powerWatts) hp
          rw [run_cons]
          exact ⟨runs', clock', hk, hl, hf⟩
      | rollup now =>
          obtain ⟨hclock, hgap, hp⟩ := hp
          obtain ⟨runs', clock', hk, hl, hf⟩ :=
            ih (some ((runs.map Prod.fst).getD now, now)) (h.rollup hclock hgap) hp
          rw [run_cons]
          refine ⟨runs', clock', hk, hl, hf.trans ?_⟩
          cases runs with
          | none => rfl
          | some r => rfl
      | backfill => exact hp.elim
      | maintenance => exact hp.elim
      | verify => exact hp.elim
      | dryRunPrune => exact hp.elim
      | prune => exact hp.elim

theorem upsert_present {α κ : Type} [DecidableEq κ] {key : α → κ} {rows : List α}
    (hn : (rows.map key).Nodup) {row : α}
    (h : row ∈ rows) : upsert key rows row = rows := by
  unfold upsert
  rw [if_pos (List.any_eq_true.mpr ⟨row, h, decide_eq_true rfl⟩)]
  refine (List.map_congr_left fun r hr => ?_).trans (List.map_id rows)
  split
  next he => exact (List.inj_on_of_nodup_map hn hr h he).symm
  · rfl

theorem window_idle {w : World} (hn : (w.hourly.map HourRow.key).Nodup) {since until' : Int}
    (h : ∀ k, read w since until' k ≠ [] → w.row k =
    some (rowFrom (between w.raw since until') k)) :
    (w.act (.window since until')).hourly = w.hourly := by
  have hfold : ∀ keys : List HourKey, (∀ k ∈ keys,
      rowFrom (between w.raw since until') k ∈ w.hourly) →
      keys.foldl (fun rows k => upsert HourRow.key rows (rowFrom (between w.raw since until') k))
        w.hourly = w.hourly := by
    intro keys
    induction keys with
    | nil => exact fun _ => rfl
    | cons k keys ih =>
        intro hall
        rw [List.foldl_cons, upsert_present hn (hall k List.mem_cons_self)]
        exact ih fun k' hk' => hall k' (List.mem_cons_of_mem _ hk')
  exact hfold _ fun k hk => List.mem_of_find?_eq_some (h k (mem_groups.mp hk))

theorem rollup_again {w : World} (hn : (w.hourly.map HourRow.key).Nodup) {now later : Int}
    (hpast : ∀ s ∈ w.raw, s.ts ≤ now)
    (hle : now ≤ later) : ((w.run [.rollup now]).run [.rollup later]).hourly =
    (w.run [.rollup now]).hourly := by
  apply window_idle (window_keys hn _ _)
  intro k hne
  have hpast' : ∀ s ∈ (w.run [.rollup now]).raw, s.ts ≤ later := fun s hs => (hpast s hs).trans hle
  have hread := rollup_read hpast' k
  by_cases hk : (rollupSpan later).1 ≤ k.hourBucket * hour
  · rw [if_pos hk] at hread
    have hbegin : (rollupSpan now).1 ≤ (rollupSpan later).1 := by
      simp only [rollupSpan, alignHour, hourOf, hour, second]
      omega
    have hrow := rollup_exact hpast (hbegin.trans hk) (hread ▸ hne)
    exact hrow.trans (congrArg some (rowFrom_congr hread.symm))
  · rw [if_neg hk] at hread
    exact absurd hread hne

/-- After each rollup the hours that have ended since the first one have the
aggregates of all their samples, and another rollup changes nothing. -/
theorem closed_hours_exact (w : World) (start now : Int) (commands : List Command)
    (hkeys : (w.hourly.map HourRow.key).Nodup)
    (hpast : ∀ s ∈ w.raw, s.ts ≤ start) (hp : Paced none start (commands ++ [.rollup now])) :
    (∀ first ∈ firstRun (commands ++ [.rollup now]), ∀ k : HourKey,
    first < (k.hourBucket + 1) * hour →
        (k.hourBucket + 1) * hour ≤ now → Exact (w.run (commands ++ [.rollup now])) k) ∧
      ∀ later, now ≤ later →
        ((w.run (commands ++ [.rollup now])).run [.rollup later]).hourly =
          (w.run (commands ++ [.rollup now])).hourly := by
  have hstart : Kept none start w := ⟨hkeys, hpast, nofun, nofun⟩
  obtain ⟨runs, clock, hk, hlast, hr⟩ := run_kept commands [.rollup now] none hstart hp
  obtain ⟨hclock, hgap, -⟩ := hlast
  rw [run_append]
  constructor
  · intro first hf k hfirst hend
    have hfirsts : runs.map Prod.fst = firstRun commands := hr
    rw [firstRun_append, ← hfirsts] at hf
    exact (hk.rollup hclock hgap).closed _ rfl k ((Option.mem_some_iff.mp hf).symm ▸ hfirst) hend
  · intro later hle
    exact rollup_again hk.keys (fun s hs => (hk.past s hs).trans hclock) hle

/-- A sample of the hour that is open when the first rollup begins. -/
def twoRuns : List Command :=
  [.rollup (1800 * second), .ingest (2400 * second) (some 1) 0 (some 50) (some 1024) (some 200)]

theorem twoRuns_exact :
    (∀ first ∈ firstRun (twoRuns ++ [.rollup (hour + 60 * second)]), ∀ k : HourKey,
    first < (k.hourBucket + 1) * hour →
        (k.hourBucket + 1) * hour ≤ hour + 60 * second → Exact (World.empty.run (twoRuns ++ [.rollup (hour + 60 * second)])) k) ∧
      ∀ later, hour + 60 * second ≤ later →
        ((World.empty.run (twoRuns ++ [.rollup (hour + 60 * second)])).run [.rollup later]).hourly =
          (World.empty.run (twoRuns ++ [.rollup (hour + 60 * second)])).hourly :=
  closed_hours_exact .empty 0 (hour + 60 * second) twoRuns List.nodup_nil
    (fun _ hs => absurd hs List.not_mem_nil)
    ⟨by decide, nofun, by decide, by decide, by rintro t ht; cases ht; decide, trivial⟩

end ServerManager.ClosedHours
