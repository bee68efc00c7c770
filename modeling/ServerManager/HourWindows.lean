import ServerManager.PruneSafety

namespace ServerManager.HourWindows

open GpuPower (GpuSample)
open GpuRetention KeyedTable PruneSafety

def Aligned (ts : Int) : Prop := ∃ h : Int, ts = h * hour

/-- The row of an hour, host and GPU has the aggregate of all of its samples. -/
def Exact (w : World) (k : HourKey) : Prop := bucket w.raw k ≠ [] → w.row k = some (rowFrom w.raw k)

theorem aligned_alignHour (ts : Int) : Aligned (alignHour ts) := ⟨hourOf ts, rfl⟩

theorem alignHour_le (ts : Int) : alignHour ts ≤ ts ∧ ts < alignHour ts + hour := by
  simp only [alignHour, hourOf, hour, second]
  omega

theorem Aligned.alignHour {ts : Int} (h : Aligned ts) : alignHour ts = ts := by
  obtain ⟨n, rfl⟩ := h
  simp only [GpuRetention.alignHour, hourOf, hour, second]
  omega

theorem Aligned.add_day {ts : Int} (h : Aligned ts) : Aligned (ts + day) := by
  obtain ⟨n, rfl⟩ := h
  refine ⟨n + 24, ?_⟩
  simp only [day, hour, second]
  omega

theorem ts_of_key {s : GpuSample} {k : HourKey} (h : keyOf s = some k) :
    k.hourBucket * hour ≤ s.ts ∧ s.ts < (k.hourBucket + 1) * hour := by
  obtain ⟨i, -, rfl⟩ := Option.map_eq_some_iff.mp h
  simp only [hourOf, hour, second]
  omega

theorem Aligned.apart {c : Int} (hc : Aligned c) (k : HourKey) : c ≤ k.hourBucket * hour ∨
    (k.hourBucket + 1) * hour ≤ c := by
  obtain ⟨n, rfl⟩ := hc
  simp only [hour, second]
  omega

theorem mem_read {w : World} {since until' : Int} {k : HourKey} {s : GpuSample} :
    s ∈ read w since until' k ↔ s ∈ bucket w.raw k ∧ since ≤ s.ts ∧ s.ts < until' := by
  unfold PruneSafety.read between
  rw [mem_bucket, mem_bucket, List.mem_filter, decide_eq_true_iff]
  tauto

theorem read_eq (w : World) (since until' : Int) (k : HourKey) :
    read w since until' k = (bucket w.raw k).filter
      (fun s => decide (since ≤ s.ts ∧ s.ts < until')) := by
  unfold PruneSafety.read between bucket
  exact List.filter_comm ..

theorem read_none {w : World} {since until' : Int} {k : HourKey}
    (h : ∀ s ∈ bucket w.raw k, s.ts < since ∨ until' ≤ s.ts) : read w since until' k = [] := by
  apply List.eq_nil_iff_forall_not_mem.mpr
  intro s hs
  obtain ⟨hs, hin⟩ := mem_read.mp hs
  have hout := h s hs
  omega

theorem read_whole {w : World} {since until' : Int} {k : HourKey}
    (h : ∀ s ∈ bucket w.raw k, since ≤ s.ts ∧ s.ts < until') :
    read w since until' k = bucket w.raw k := by
  rw [read_eq]
  exact List.filter_eq_self.mpr fun s hs => decide_eq_true (h s hs)

theorem rowFrom_congr {xs ys : List GpuSample} {k : HourKey} (h : bucket xs k = bucket ys k) :
    rowFrom xs k = rowFrom ys k := by
  unfold rowFrom
  rw [h]

theorem exact_of_whole {w : World} {since until' : Int} {k : HourKey}
    (h : read w since until' k = bucket w.raw k) :
    Exact (w.act (.window since until')) k := by
  intro hne
  have hne : bucket w.raw k ≠ [] := hne
  rw [row_window, if_neg (h ▸ hne)]
  exact congrArg some (rowFrom_congr h)

theorem window_join {w : World} {a b c : Int} (hab : a ≤ b) (hbc : b ≤ c) (hb : Aligned b)
    (k : HourKey) :
    ((w.act (.window a b)).act (.window b c)).row k = (w.act (.window a c)).row k := by
  have hread : read (w.act (.window a b)) b c k = read w b c k := rfl
  rw [row_window, row_window, row_window, hread]
  rcases hb.apart k with hk | hk
  · -- the hour is read by the second one
    have hfirst : read w a b k = [] := by
      apply read_none
      intro s hs
      have ht := ts_of_key (mem_bucket.mp hs).2
      omega
    have hsame : read w a c k = read w b c k := by
      rw [read_eq, read_eq]
      apply List.filter_congr
      intro s hs
      have ht := ts_of_key (mem_bucket.mp hs).2
      exact decide_eq_decide.mpr (by omega)
    rw [hfirst, if_pos rfl, hsame]
    split
    · rfl
    · exact congrArg some (rowFrom_congr hsame.symm)
  · have hsecond : read w b c k = [] := by
      apply read_none
      intro s hs
      have ht := ts_of_key (mem_bucket.mp hs).2
      omega
    have hsame : read w a c k = read w a b k := by
      rw [read_eq, read_eq]
      apply List.filter_congr
      intro s hs
      have ht := ts_of_key (mem_bucket.mp hs).2
      exact decide_eq_decide.mpr (by omega)
    rw [hsecond, if_pos rfl, hsame]
    split
    · rfl
    · exact congrArg some (rowFrom_congr hsame.symm)

end ServerManager.HourWindows
