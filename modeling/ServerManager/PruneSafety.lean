import ServerManager.GpuRetention
import Mathlib.Data.List.Induction

namespace ServerManager.PruneSafety

open GpuPower (GpuSample)
open GpuRetention KeyedTable

def read (w : World) (since until' : Int) (k : HourKey) : List GpuSample :=
  bucket (between w.raw since until') k

theorem mem_bucket {samples : List GpuSample} {k : HourKey} {s : GpuSample} : s ∈ bucket samples k ↔
    s ∈ samples ∧ keyOf s = some k := by
  simp [bucket]

theorem bucket_sublist {xs ys : List GpuSample} (h : xs.Sublist ys) (k : HourKey) :
    (bucket xs k).Sublist (bucket ys k) :=
  h.filter _

theorem mem_groups {samples : List GpuSample} {k : HourKey} : k ∈ groups samples ↔
    bucket samples k ≠ [] := by
  unfold groups
  rw [List.mem_dedup, List.mem_filterMap]
  constructor
  · rintro ⟨s, hs, hk⟩
    exact List.ne_nil_of_mem (mem_bucket.mpr ⟨hs, hk⟩)
  · intro h
    obtain ⟨s, hs⟩ := List.exists_mem_of_ne_nil _ h
    exact ⟨s, mem_bucket.mp hs⟩

theorem row_window (w : World) (since until' : Int) (k : HourKey) :
    (w.act (.window since until')).row k =
      if read w since until' k = [] then w.row k
        else some (rowFrom (between w.raw since until') k) := by
  have h := @lookup_upserts _ _ _ HourRow.key (rowFrom (between w.raw since until')) (fun _ => rfl)
    (groups (between w.raw since until')) w.hourly k
  refine h.trans ?_
  by_cases hr : read w since until' k = []
  · rw [if_pos hr, if_neg fun hk => mem_groups.mp hk hr]
    rfl
  · rw [if_neg hr, if_pos (mem_groups.mpr hr)]

theorem row_retain (w : World) (cutoff : Int) (k : HourKey) :
    (w.act (.retain cutoff)).row k = if cutoff ≤ k.hourBucket * hour then w.row k else none := by
  have h := lookup_filter HourRow.key (fun k => decide (cutoff ≤ k.hourBucket * hour)) w.hourly k
  refine h.trans ?_
  by_cases hc : cutoff ≤ k.hourBucket * hour
  · rw [if_pos hc, if_pos (decide_eq_true hc)]
    rfl
  · rw [if_neg hc, if_neg (by simpa using hc)]

theorem pruneRaw_sublist (cutoff : Int) (raw : List GpuSample) :
    (pruneRaw cutoff raw).Sublist raw := by
  fun_induction pruneRaw cutoff raw with
  | case1 raw _ ih => exact ih.trans List.filter_sublist
  | case2 raw _ => exact List.Sublist.refl _

/-- The samples are some of those that were ever stored, and `sample_id` comes
from a sequence. -/
structure Serial (w : World) : Prop where
  stored : w.raw.Sublist w.ever
  ids : (w.ever.map (·.sampleId)).Nodup
  next : ∀ s ∈ w.ever, s.sampleId < w.nextSample

theorem serial_empty : Serial .empty :=
  ⟨List.Sublist.refl _, List.nodup_nil, fun _ h => absurd h List.not_mem_nil⟩

theorem Serial.act {w : World} (h : Serial w) (a : Action) : Serial (w.act a) ∧
    w.ever.Sublist (w.act a).ever := by
  cases a with
  | ingest ts hostId gpuIndex utilPct memUsedMib powerWatts =>
      refine ⟨⟨h.stored.append (List.Sublist.refl _), ?_, ?_⟩, List.sublist_append_left _ _⟩
      · simp only [World.act, List.map_append]
        refine List.nodup_append.mpr ⟨h.ids, List.nodup_singleton _, ?_⟩
        intro i hi j hj he
        obtain ⟨s, hs, rfl⟩ := List.mem_map.mp hi
        have hlt := h.next s hs
        rw [he, List.mem_singleton.mp hj] at hlt
        exact absurd hlt (Nat.lt_irrefl _)
      · intro s hs
        rcases List.mem_append.mp hs with hs | hs
        · exact Nat.lt_succ_of_lt (h.next s hs)
        · rw [List.mem_singleton.mp hs]
          exact Nat.lt_succ_self _
  | window since until' => exact ⟨⟨h.stored, h.ids, h.next⟩, List.Sublist.refl _⟩
  | retain cutoff => exact ⟨⟨h.stored, h.ids, h.next⟩, List.Sublist.refl _⟩
  | prune cutoff =>
      exact ⟨⟨(pruneRaw_sublist cutoff w.raw).trans h.stored, h.ids, h.next⟩, List.Sublist.refl _⟩
  | verify now picks => exact ⟨h, List.Sublist.refl _⟩

theorem Serial.acts {w : World} (h : Serial w) (actions : List Action) :
    Serial (w.acts actions) ∧ w.ever.Sublist (w.acts actions).ever := by
  induction actions generalizing w with
  | nil => exact ⟨h, List.Sublist.refl _⟩
  | cons a actions ih =>
      obtain ⟨hs, he⟩ := h.act a
      obtain ⟨hs', he'⟩ := ih hs
      exact ⟨hs', he.trans he'⟩

theorem acts_append (w : World) (before after : List Action) :
    w.acts (before ++ after) = (w.acts before).acts after :=
  List.foldl_append

def Spares (w : World) (k : HourKey) : Action → Prop
  | .window since until' => read w since until' k = []
  | .retain cutoff => cutoff ≤ k.hourBucket * hour
  | _ => True

theorem row_spared {w : World} {k : HourKey} {a : Action} (h : Spares w k a) :
    (w.act a).row k = w.row k := by
  cases a with
  | ingest | prune | verify => rfl
  | window since until' => exact (row_window w since until' k).trans (if_pos h)
  | retain cutoff => exact (row_retain w cutoff k).trans (if_pos h)

theorem count_sublist {xs ys : List GpuSample} (h : xs.Sublist ys)
    (he : aggregateOf xs = aggregateOf ys) : xs = ys :=
  h.eq_of_length (congrArg HourAggregate.sampleCount he)

end ServerManager.PruneSafety
