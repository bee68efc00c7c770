import ServerManager.HourWindows
import Mathlib.Logic.Function.Iterate
import Mathlib.Tactic.Linarith

namespace ServerManager.Backfill

open GpuPower (GpuSample)
open GpuRetention PruneSafety HourWindows

/-- The begin of the first chunk and the time of the newest sample. -/
def backfillRange (w : World) : Option (Int × Int) := do
  let lo ← (w.raw.map (·.ts)).min?
  let hi ← (w.raw.map (·.ts)).max?
  match (w.hourly.map (·.key.hourBucket)).min? with
  | none => pure (lo, hi)
  | some covered => pure (min lo (covered * hour), hi)

/-- Where `cur0` is when the loop ends. -/
def loopEnd (hi cur0 : Int) : Int :=
  if _ : cur0 < hi then loopEnd hi (nextChunk hi cur0) else cur0
termination_by (hi - cur0).toNat
decreasing_by
  have := nextChunk_gt ‹cur0 < hi›
  omega

/-- The last chunk ends with the newest sample, and so does not have it. -/
def EndsAtNewest (start hi : Int) : Prop :=
  hi = start ∨ hi = start + day ∨ ∃ m : Nat, 2 ≤ m ∧ hi = alignHour start + m * day

/-- Where the last chunk ends with the newest samples, each of them has its
hour, host and GPU to itself and the row of it is there already. -/
def NewestCovered (w : World) : Prop :=
  ∀ range ∈ backfillRange w, EndsAtNewest range.1 range.2 → ∀ s ∈ w.raw, s.ts = range.2 → ∀ k,
    keyOf s = some k →
    (∀ s' ∈ bucket w.raw k, s'.ts = range.2) ∧ w.row k = some (rowFrom w.raw k)

theorem backfillSpans_eq (w : World) : backfillSpans w = (backfillRange w).elim []
    (fun range => chunks range.2 range.1) := by
  unfold backfillSpans backfillRange
  cases (w.raw.map (·.ts)).min? with
  | none => rfl
  | some lo =>
      cases (w.raw.map (·.ts)).max? with
      | none => rfl
      | some hi =>
          cases (w.hourly.map (·.key.hourBucket)).min? with
          | none => rfl
          | some covered => rfl

theorem backfillRange_spec {w : World} {range : Int × Int} (h : backfillRange w = some range) :
    (∀ s ∈ w.raw, range.1 ≤ s.ts ∧ s.ts ≤ range.2) ∧ range.1 ≤ range.2 := by
  unfold backfillRange at h
  obtain ⟨lo, hlo, h⟩ := Option.bind_eq_some_iff.mp h
  obtain ⟨hi, hhi, h⟩ := Option.bind_eq_some_iff.mp h
  obtain ⟨hmem, hmin⟩ := List.min?_eq_some_iff.mp hlo
  obtain ⟨-, hmax⟩ := List.max?_eq_some_iff.mp hhi
  have hle : lo ≤ hi := hmax lo hmem
  have hall : ∀ s ∈ w.raw, lo ≤ s.ts ∧ s.ts ≤ hi := fun s hs =>
    ⟨hmin _ (List.mem_map_of_mem hs), hmax _ (List.mem_map_of_mem hs)⟩
  cases hc : (w.hourly.map (·.key.hourBucket)).min? with
  | none =>
      rw [hc] at h
      cases h
      exact ⟨hall, hle⟩
  | some covered =>
      rw [hc] at h
      cases h
      refine ⟨fun s hs => ?_, ?_⟩
      · have hs := hall s hs
        simp only
        omega
      · simp only
        omega

theorem backfillRange_isSome {w : World} (h : w.raw ≠ []) : ∃ range,
    backfillRange w = some range := by
  have hne : w.raw.map (·.ts) ≠ [] := fun he => h (List.map_eq_nil_iff.mp he)
  obtain ⟨lo, hlo⟩ := Option.isSome_iff_exists.mp (List.isSome_min?_of_ne_nil hne)
  obtain ⟨hi, hhi⟩ := Option.isSome_iff_exists.mp (List.isSome_max?_of_ne_nil hne)
  unfold backfillRange
  rw [hlo, hhi]
  cases (w.hourly.map (·.key.hourBucket)).min? with
  | none => exact ⟨_, rfl⟩
  | some covered => exact ⟨_, rfl⟩

theorem nextChunk_aligned {hi cur0 : Int} (h : nextChunk hi cur0 < hi) :
    Aligned (nextChunk hi cur0) := by
  unfold nextChunk at h ⊢
  simp only at h ⊢
  split at h
  next hlt =>
    rw [if_pos hlt]
    exact aligned_alignHour _
  next hno => exact absurd h hno

theorem le_loopEnd (hi cur0 : Int) : hi ≤ loopEnd hi cur0 ∧ cur0 ≤ loopEnd hi cur0 := by
  fun_induction loopEnd hi cur0 with
  | case1 cur0 hlt ih =>
      have hgt := nextChunk_gt hlt
      omega
  | case2 cur0 hno => omega

theorem chunks_end (hi cur0 : Int) : ∃ n, hi ≤ (nextChunk hi)^[n] cur0 := by
  fun_induction loopEnd hi cur0 with
  | case1 cur0 hlt ih =>
      obtain ⟨n, hn⟩ := ih
      exact ⟨n + 1, hn⟩
  | case2 cur0 hno => exact ⟨0, by simpa using hno⟩

theorem row_empty_window (w : World) (a : Int) (k : HourKey) :
    (w.act (.window a a)).row k = w.row k := by
  rw [row_window]
  apply if_pos
  apply read_none
  intro s _
  omega

theorem chunks_row (hi cur0 : Int) (w : World) (k : HourKey) :
    (w.acts ((chunks hi cur0).map (fun span => .window span.1 span.2))).row k =
    (w.act (.window cur0 (loopEnd hi cur0))).row k := by
  fun_induction loopEnd hi cur0 generalizing w with
  | case1 cur0 hlt ih =>
      rw [chunks, dif_pos hlt, List.map_cons]
      have hstep := ih (w.act (.window cur0 (nextChunk hi cur0)))
      refine Eq.trans hstep ?_
      by_cases hn : nextChunk hi cur0 < hi
      · exact window_join (nextChunk_gt hlt).le (le_loopEnd hi _).2 (nextChunk_aligned hn) k
      · -- it was the last one
        rw [loopEnd, dif_neg hn]
        exact row_empty_window _ _ k
  | case2 cur0 hno =>
      rw [chunks, dif_neg hno]
      exact (row_empty_window w cur0 k).symm

theorem loopEnd_aligned {hi cur0 : Int} (ha : Aligned cur0) (hle : cur0 ≤ hi) :
    loopEnd hi cur0 = hi ↔ ∃ m : Nat, hi = cur0 + m * day := by
  fun_induction loopEnd hi cur0 with
  | case1 cur0 hlt ih =>
      have hday : day = 86400000000 := rfl
      rcases lt_trichotomy (cur0 + day) hi with hd | hd | hd
      · -- a full chunk
        have hnext : nextChunk hi cur0 = cur0 + day := by
          unfold nextChunk
          have hmin : min (cur0 + day) (hi + second) = cur0 + day := by
            simp only [second]
            omega
          rw [hmin]
          exact (if_pos hd).trans ha.add_day.alignHour
        rw [hnext] at ih ⊢
        rw [ih ha.add_day hd.le]
        constructor
        · rintro ⟨m, hm⟩
          refine ⟨m + 1, ?_⟩
          push_cast
          linarith
        · rintro ⟨m, hm⟩
          cases m with
          | zero => omega
          | succ m =>
              refine ⟨m, ?_⟩
              push_cast at hm
              linarith
      · have hnext : nextChunk hi cur0 = hi := by
          simp only [nextChunk, second]
          omega
        rw [hnext, loopEnd, dif_neg (lt_irrefl hi)]
        refine iff_of_true rfl ⟨1, ?_⟩
        push_cast
        linarith
      · have hnext : hi < nextChunk hi cur0 := by
          simp only [nextChunk, second]
          omega
        have hend := (le_loopEnd hi (nextChunk hi cur0)).2
        refine iff_of_false (by omega) ?_
        rintro ⟨m, hm⟩
        cases m with
        | zero => omega
        | succ m =>
            push_cast at hm
            have hnn : 0 ≤ (m : Int) * day := Int.mul_nonneg (Int.natCast_nonneg m) (by omega)
            linarith
  | case2 cur0 hno =>
      have he : cur0 = hi := by omega
      refine iff_of_true he ⟨0, ?_⟩
      push_cast
      linarith

theorem loopEnd_iff {start hi : Int} (hle : start ≤ hi) : loopEnd hi start = hi ↔
    EndsAtNewest start hi := by
  have hday : day = 86400000000 := rfl
  have ha := alignHour_le start
  have hhour : hour = 3600000000 := rfl
  unfold EndsAtNewest
  by_cases hlt : start < hi
  · rw [loopEnd, dif_pos hlt]
    rcases lt_trichotomy (start + day) hi with hd | hd | hd
    · have hnext : nextChunk hi start = alignHour start + day := by
        unfold nextChunk
        have hmin : min (start + day) (hi + second) = start + day := by
          simp only [second]
          omega
        rw [hmin]
        refine (if_pos hd).trans ?_
        simp only [alignHour, hourOf, day, hour, second]
        omega
      rw [hnext, loopEnd_aligned (aligned_alignHour start).add_day (by omega)]
      constructor
      · rintro ⟨m, hm⟩
        cases m with
        | zero => omega
        | succ m =>
            refine .inr (.inr ⟨m + 2, by omega, ?_⟩)
            push_cast at hm ⊢
            linarith
      · rintro (he | he | ⟨m, hm, he⟩)
        · omega
        · omega
        · obtain ⟨j, rfl⟩ := Nat.exists_eq_add_of_le hm
          refine ⟨j + 1, ?_⟩
          push_cast at he ⊢
          linarith
    · have hnext : nextChunk hi start = hi := by
        simp only [nextChunk, second]
        omega
      rw [hnext, loopEnd, dif_neg (lt_irrefl hi)]
      exact iff_of_true rfl (.inr (.inl hd.symm))
    · have hnext : hi < nextChunk hi start := by
        simp only [nextChunk, second]
        omega
      have hend := (le_loopEnd hi (nextChunk hi start)).2
      refine iff_of_false (by omega) ?_
      rintro (he | he | ⟨m, hm, he⟩)
      · omega
      · omega
      · obtain ⟨j, rfl⟩ := Nat.exists_eq_add_of_le hm
        push_cast at he
        have hnn : 0 ≤ (j : Int) * day := Int.mul_nonneg (Int.natCast_nonneg j) (by omega)
        linarith
  · rw [loopEnd, dif_neg hlt]
    have he : start = hi := by omega
    exact iff_of_true he (.inl he.symm)

theorem run_backfill {w : World} (range : Int × Int) (h : backfillRange w = some range)
    (k : HourKey) :
    (w.run [.backfill]).row k = (w.act (.window range.1 (loopEnd range.2 range.1))).row k ∧
    (w.run [.backfill]).raw = w.raw := by
  have hrun : w.run [.backfill] = w.acts ((chunks range.2 range.1).map
      (fun span => .window span.1 span.2)) := by
    have hactions : Command.backfill.actions w =
        (backfillSpans w).map (fun span => .window span.1 span.2) := rfl
    have hhist : history w [.backfill] = Command.backfill.actions w := List.append_nil _
    rw [World.run, hhist, hactions, backfillSpans_eq, h]
    rfl
  have hraw : ∀ (spans : List (Int × Int)) (w : World),
      (w.acts (spans.map (fun span => .window span.1 span.2))).raw = w.raw := by
    intro spans
    induction spans with
    | nil => exact fun w => rfl
    | cons span spans ih => exact fun w => ih _
  rw [hrun]
  exact ⟨chunks_row _ _ w k, hraw _ w⟩

theorem exact_congr {w w' : World} {k : HourKey} (hraw : w'.raw = w.raw)
    (hrow : w'.row k = w.row k) : Exact w' k ↔ Exact w k := by
  unfold Exact
  rw [hraw, hrow]

/-- A window up to the newest samples makes the rows of all others exact, and
never those that it has changed. -/
theorem exact_up_to {w : World} {start hi : Int} (hin : ∀ s ∈ w.raw, start ≤ s.ts ∧ s.ts ≤ hi)
    (k : HourKey) :
    Exact (w.act (.window start hi)) k ↔
      ∀ s ∈ bucket w.raw k, s.ts = hi → (∀ s' ∈ bucket w.raw k, s'.ts = hi) ∧
        w.row k = some (rowFrom w.raw k) := by
  have hrow := row_window w start hi k
  have hbucket : ∀ s ∈ bucket w.raw k, start ≤ s.ts ∧ s.ts ≤ hi :=
    fun s hs => hin s (mem_bucket.mp hs).1
  constructor
  · intro hex s hs hts
    have he := hex (List.ne_nil_of_mem hs)
    have he : (w.act (.window start hi)).row k = some (rowFrom w.raw k) := he
    by_cases hr : read w start hi k = []
    · rw [if_pos hr] at hrow
      refine ⟨fun s' hs' => ?_, hrow.symm.trans he⟩
      by_contra hne
      have hlt := hbucket s' hs'
      exact List.ne_nil_of_mem (mem_read.mpr ⟨hs', by omega, by omega⟩) hr
    · -- the sample is not counted
      rw [if_neg hr, he] at hrow
      have hcount : (bucket w.raw k).length = (read w start hi k).length :=
        congrArg (fun r => r.aggregate.sampleCount) (Option.some.inj hrow)
      rw [read_eq] at hcount
      have hall := List.length_filter_eq_length_iff.mp hcount.symm s hs
      have hout := of_decide_eq_true hall
      omega
  · intro h hne
    have hne : bucket w.raw k ≠ [] := hne
    by_cases hnew : ∃ s ∈ bucket w.raw k, s.ts = hi
    · obtain ⟨s, hs, hts⟩ := hnew
      obtain ⟨hall, hthere⟩ := h s hs hts
      have hr : read w start hi k = [] := by
        apply read_none
        intro s' hs'
        have := hall s' hs'
        omega
      rw [if_pos hr] at hrow
      exact hrow.trans hthere
    · have hwhole : read w start hi k = bucket w.raw k := by
        apply read_whole
        intro s hs
        have hle := hbucket s hs
        have hts : s.ts ≠ hi := fun he => hnew ⟨s, hs, he⟩
        omega
      exact exact_of_whole hwhole hne

/-- The loop of the backfill ends; and it leaves the aggregates of all samples
exactly when it does not stop at the newest ones, or does not need them. -/
theorem backfill_complete_iff (w : World) (hne : w.raw ≠ []) :
    (∃ start hi n, backfillRange w = some (start, hi) ∧ hi ≤ (nextChunk hi)^[n] start) ∧
      ((∀ k, Exact (w.run [.backfill]) k) ↔ NewestCovered w) := by
  obtain ⟨⟨start, hi⟩, hrange⟩ := backfillRange_isSome hne
  obtain ⟨hin, hle⟩ := backfillRange_spec hrange
  obtain ⟨n, hn⟩ := chunks_end hi start
  refine ⟨⟨start, hi, n, hrange, hn⟩, ?_⟩
  have hexact : ∀ k, Exact (w.run [.backfill]) k ↔
      Exact (w.act (.window start (loopEnd hi start))) k := fun k =>
    exact_congr (run_backfill _ hrange k).2 (run_backfill _ hrange k).1
  simp only [hexact]
  unfold NewestCovered
  rw [hrange]
  by_cases hend : loopEnd hi start = hi
  · rw [hend]
    simp only [exact_up_to hin]
    constructor
    · rintro h range hr - s hs hts k hk
      cases hr
      exact h k s (mem_bucket.mpr ⟨hs, hk⟩) hts
    · intro h k s hs hts
      obtain ⟨hs, hk⟩ := mem_bucket.mp hs
      exact h (start, hi) rfl ((loopEnd_iff hle).mp hend) s hs hts k hk
  · refine iff_of_true (fun k => ?_) ?_
    · apply exact_of_whole
      apply read_whole
      intro s hs
      have hs := hin s (mem_bucket.mp hs).1
      have hbound := (le_loopEnd hi start).1
      simp only at hs
      omega
    · intro range hr hnewest
      cases hr
      exact absurd ((loopEnd_iff hle).mpr hnewest) hend

def oneCycle : World :=
  World.empty.run [.ingest (600 * second) (some 1) 0 (some 50) (some 1024) (some 200)]

theorem oneCycle_left_out : ¬ ∀ w : World, w.raw ≠ [] → (∀ k, Exact (w.run [.backfill]) k) ∧
    ∃ start hi n, backfillRange w = some (start, hi) ∧ hi ≤ (nextChunk hi)^[n] start := by
  intro hall
  have hrow := (hall oneCycle (by decide)).1 ⟨0, 1, 0⟩ (by decide +kernel)
  have hnone : (oneCycle.run [.backfill]).row ⟨0, 1, 0⟩ = none := by
    rw [(run_backfill (600 * second, 600 * second) (by decide +kernel) _).1, loopEnd,
      dif_neg (by decide)]
    decide +kernel
  exact nomatch hnone.symm.trans hrow

def twoCycles : World :=
  oneCycle.run [.ingest (630 * second) (some 1) 0 (some 90) (some 2048) (some 300)]

theorem twoCycles_complete :
    (∃ start hi n, backfillRange twoCycles = some (start, hi) ∧ hi ≤ (nextChunk hi)^[n] start) ∧
      ((∀ k, Exact (twoCycles.run [.backfill]) k) ↔ NewestCovered twoCycles) :=
  backfill_complete_iff twoCycles (by decide)

end ServerManager.Backfill
