import ServerManager.GpuPower
import Mathlib.Tactic.Ring
import Mathlib.Tactic.FieldSimp
import Mathlib.Tactic.Linarith
import Mathlib.Algebra.BigOperators.Ring.List

namespace ServerManager.HostEnergy

open GpuPower

/-- `COALESCE(SUM(gpu_watts_avg), 0) / 60.0 / 1000.0`. -/
def tableKwh (rows : List MinuteRow) : ℚ := (known (rows.map (·.gpuWattsAvg))).sum / 60 / 1000

def hostKwh (t : Tables) (h : Option Int) (minutes : List Int) : ℚ :=
  tableKwh (t.rollup.filter (fun r => decide (r.hostId = h ∧ minuteOf r.ts ∈ minutes)))

/-- `integrate_kwh`, which takes a missing average as zero. -/
def integrateKwh (watts : List (Option ℚ)) : ℚ := (watts.map (·.getD 0)).sum / 60 / 1000

def gpuSamples (samples : List GpuSample) (h : Option Int) (g m : Int) : List GpuSample :=
  samples.filter (fun s => decide (s.hostId = h ∧ s.gpuIndex = g ∧ minuteOf s.ts = m))

def gpusOf (samples : List GpuSample) (h : Option Int) : List Int :=
  ((samples.filter (fun s => decide (s.hostId = h))).map (·.gpuIndex)).dedup

def gpuKwh (samples : List GpuSample) (h : Option Int) (minutes : List Int) (g : Int) : ℚ :=
  integrateKwh (minutes.map (fun m => avg ((gpuSamples samples h g m).map (·.powerWatts))))

/-- In each minute all GPUs of the host are sampled equally often. -/
def EquallySampled (samples : List GpuSample) (h : Option Int) (minutes : List Int) : Prop :=
  ∀ m ∈ minutes, ∀ g ∈ gpusOf samples h, ∀ g' ∈ gpusOf samples h,
    (gpuSamples samples h g m).length = (gpuSamples samples h g' m).length

instance (samples : List GpuSample) (h : Option Int) (minutes : List Int) :
    Decidable (EquallySampled samples h minutes) :=
  inferInstanceAs (Decidable (∀ m ∈ minutes, ∀ g ∈ gpusOf samples h, ∀ g' ∈ gpusOf samples h,
    _ = _))

def stored (rows : List (Int × Option Int × Reading)) : Tables :=
  rows.foldl (fun t row => t.insertSample row.1 row.2) .empty

def rolledUp (calls : List Int) (t : Tables) : Tables :=
  calls.foldl (fun t now => rollupMinute now t) t

def rolledMinute (now : Int) : Int := minuteOf now - 1

theorem avg_getD (xs : List (Option ℚ)) : (avg xs).getD 0 = (known xs).sum / (known xs).length := by
  unfold avg
  split
  next h => rw [h]; simp
  · rfl

theorem known_map_some {α : Type} {f : α → Option ℚ} {xs : List α}
    (h : ∀ x ∈ xs, (f x).isSome = true) :
    known (xs.map f) = xs.map (fun x => (f x).getD 0) := by
  induction xs with
  | nil => rfl
  | cons x xs ih =>
      obtain ⟨v, hv⟩ := Option.isSome_iff_exists.mp (h x List.mem_cons_self)
      have ht := ih fun y hy => h y (List.mem_cons_of_mem _ hy)
      unfold known at ht ⊢
      rw [List.map_cons, List.map_cons, hv]
      exact congrArg (v :: ·) ht

theorem known_append (xs ys : List (Option ℚ)) : known (xs ++ ys) = known xs ++ known ys :=
  List.filterMap_append

theorem stored_power (rows : List (Int × Option Int × Reading)) : ∀ s ∈ (stored rows).samples,
    s.powerWatts.isSome = true := by
  have hfold : ∀ (rows : List (Int × Option Int × Reading)) (t : Tables),
      (∀ s ∈ t.samples, s.powerWatts.isSome = true) →
      ∀ s ∈ (rows.foldl (fun t row => t.insertSample row.1 row.2) t).samples,
        s.powerWatts.isSome = true := by
    intro rows
    induction rows with
    | nil => exact fun t h => h
    | cons row rows ih =>
        refine fun t h => ih _ fun s hs => ?_
        rcases List.mem_append.mp hs with hs | hs
        · exact h s hs
        · rw [List.mem_singleton.mp hs]
          rfl
  exact hfold rows .empty nofun

theorem sum_fibres {α : Type} (f : α → ℚ) (key : α → Int) {keys : List Int} (hn : keys.Nodup)
    {xs : List α}
    (hk : ∀ x ∈ xs, key x ∈ keys) :
    (keys.map (fun k => ((xs.filter (fun x => decide (key x = k))).map f).sum)).sum =
    (xs.map f).sum := by
  have hone : ∀ (v : ℚ) (k : Int) (keys : List Int), keys.Nodup → k ∈ keys →
      (keys.map (fun j => if k = j then v else 0)).sum = v := by
    intro v k keys
    induction keys with
    | nil => exact fun _ h => absurd h List.not_mem_nil
    | cons j keys ih =>
        intro hn hk
        obtain ⟨hj, hn⟩ := List.nodup_cons.mp hn
        rw [List.map_cons, List.sum_cons]
        rcases List.mem_cons.mp hk with rfl | hk
        · have hz : (keys.map (fun j => if k = j then v else 0)) = keys.map (fun _ => 0) :=
            List.map_congr_left fun i hi => if_neg fun (he : k = i) => hj (he ▸ hi)
          rw [hz, if_pos rfl]
          simp
        · rw [if_neg fun (he : k = j) => hj (he ▸ hk), ih hn hk, zero_add]
  induction xs with
  | nil => simp
  | cons x xs ih =>
      have hsplit : ∀ k, (((x :: xs).filter (fun x => decide (key x = k))).map f).sum =
          (if key x = k then f x else 0) + ((xs.filter (fun x => decide (key x = k))).map
            f).sum := by
        intro k
        by_cases hx : key x = k
        · simp [hx]
        · simp [hx]
      simp only [hsplit]
      rw [List.sum_map_add, hone (f x) (key x) keys hn (hk x List.mem_cons_self),
        ih fun y hy => hk y (List.mem_cons_of_mem _ hy), List.map_cons, List.sum_cons]

def windowWatts (samples : List GpuSample) (h : Option Int) (m : Int) : List (Option ℚ) :=
  (samples.filter (fun s => decide (s.hostId = h ∧ minuteOf s.ts = m))).map (·.powerWatts)

theorem wattsOf_lastMinute (samples : List GpuSample) (now : Int) (h : Option Int) :
    wattsOf (lastMinute samples now) h = windowWatts samples h (rolledMinute now) := by
  unfold wattsOf windowWatts lastMinute
  rw [List.filter_filter]
  congr 1
  refine List.filter_congr fun s _ => ?_
  rw [Bool.eq_iff_iff, Bool.and_eq_true, decide_eq_true_iff, decide_eq_true_iff, decide_eq_true_iff]
  refine and_congr_right fun _ => ?_
  unfold rolledMinute minuteOf minute
  omega

theorem tableKwh_snoc (rows : List MinuteRow) (r : MinuteRow) (h : Option Int)
    (minutes : List Int) :
    tableKwh ((rows ++ [r]).filter (fun r => decide (r.hostId = h ∧ minuteOf r.ts ∈ minutes))) =
      tableKwh (rows.filter (fun r => decide (r.hostId = h ∧ minuteOf r.ts ∈ minutes))) +
        if r.hostId = h ∧ minuteOf r.ts ∈ minutes then r.gpuWattsAvg.getD 0 / 60 / 1000 else 0 := by
  have hsingle : tableKwh [r] = r.gpuWattsAvg.getD 0 / 60 / 1000 := by
    unfold tableKwh known
    cases hr : r.gpuWattsAvg with
    | none => simp [hr]
    | some v => simp [hr]
  have happend : ∀ xs ys, tableKwh (xs ++ ys) = tableKwh xs + tableKwh ys := by
    intro xs ys
    unfold tableKwh
    rw [List.map_append, known_append, List.sum_append]
    ring
  rw [List.filter_append, happend]
  congr 1
  by_cases hr : r.hostId = h ∧ minuteOf r.ts ∈ minutes
  · rw [if_pos hr, List.filter_cons_of_pos (by simpa using hr), List.filter_nil, hsingle]
  · rw [if_neg hr, List.filter_cons_of_neg (by simpa using hr), List.filter_nil]
    simp [tableKwh, known]

theorem minuteOf_mul (m : Int) : minuteOf (m * minute) = m := by
  unfold minuteOf minute
  omega

theorem hostKwh_insertMinutes {hosts : List (Option Int)} (hn : hosts.Nodup) (m : Int)
    (window : List GpuSample) (t : Tables)
    (h : Option Int) {minutes : List Int} (hm : m ∈ minutes) :
    hostKwh (insertMinutes (m * minute) window hosts t) h minutes =
      hostKwh t h minutes + if h ∈ hosts then (avg (wattsOf window h)).getD 0 / 60 / 1000
        else 0 := by
  induction hosts generalizing t with
  | nil => simp [insertMinutes]
  | cons g hosts ih =>
      obtain ⟨hg, hn⟩ := List.nodup_cons.mp hn
      have hstep :=
        ih hn (t.insertMinute (m * minute) g (avg (wattsOf window g)) (maxOf (wattsOf window g)))
      have hone : hostKwh (t.insertMinute (m * minute) g (avg (wattsOf window g))
          (maxOf (wattsOf window g))) h minutes =
          hostKwh t h minutes + if g = h then (avg (wattsOf window g)).getD 0 / 60 / 1000
            else 0 := by
        unfold hostKwh
        rw [(insertMinute_eq t _ g _ _).1, tableKwh_snoc]
        simp only [minuteOf_mul, hm, and_true]
      refine hstep.trans ?_
      rw [hone, add_assoc]
      congr 1
      by_cases hgh : g = h
      · subst hgh
        simp [hg]
      · have hne : h ≠ g := fun he => hgh he.symm
        simp [hgh, hne]

theorem hostKwh_rollupMinute (now : Int) (t : Tables) (h : Option Int) {minutes : List Int}
    (hm : rolledMinute now ∈ minutes) :
    hostKwh (rollupMinute now t) h minutes =
      hostKwh t h minutes + (avg (windowWatts t.samples h (rolledMinute now))).getD
        0 / 60 / 1000 := by
  refine (hostKwh_insertMinutes (List.nodup_dedup _) _ _ t h hm).trans ?_
  rw [wattsOf_lastMinute]
  by_cases hh : h ∈ hostsOf (lastMinute t.samples now)
  · exact congrArg _ (if_pos hh)
  · have hnil : windowWatts t.samples h (rolledMinute now) = [] := by
      rw [← wattsOf_lastMinute]
      refine List.map_eq_nil_iff.mpr (List.filter_eq_nil_iff.mpr fun s hs he => hh ?_)
      exact List.mem_dedup.mpr (List.mem_map.mpr ⟨s, hs, of_decide_eq_true he⟩)
    refine congrArg _ ((if_neg hh).trans ?_)
    rw [hnil]
    simp [avg, known]

theorem hostKwh_rolledUp (calls : List Int) (t : Tables) (h : Option Int) {minutes : List Int}
    (hm : ∀ c ∈ calls, rolledMinute c ∈ minutes) :
    hostKwh (rolledUp calls t) h minutes =
      hostKwh t h minutes + integrateKwh (calls.map
        (fun c => avg (windowWatts t.samples h (rolledMinute c)))) := by
  induction calls generalizing t with
  | nil => simp [rolledUp, integrateKwh]
  | cons c calls ih =>
      have hstep := ih (rollupMinute c t) fun d hd => hm d (List.mem_cons_of_mem _ hd)
      refine hstep.trans ?_
      rw [hostKwh_rollupMinute c t h (hm c List.mem_cons_self), rollupMinute_samples]
      unfold integrateKwh
      rw [List.map_cons, List.map_cons, List.sum_cons]
      ring

theorem mem_gpusOf {samples : List GpuSample} {h : Option Int} {s : GpuSample} (hs : s ∈ samples)
    (hh : s.hostId = h) :
    s.gpuIndex ∈ gpusOf samples h :=
  List.mem_dedup.mpr (List.mem_map.mpr ⟨s, List.mem_filter.mpr ⟨hs, decide_eq_true hh⟩, rfl⟩)

theorem gpuSamples_eq (samples : List GpuSample) (h : Option Int) (g m : Int) :
    gpuSamples samples h g m =
      (samples.filter (fun s => decide (s.hostId = h ∧ minuteOf s.ts = m))).filter
        (fun s => decide (s.gpuIndex = g)) := by
  unfold gpuSamples
  rw [List.filter_filter]
  refine List.filter_congr fun s _ => ?_
  rw [Bool.eq_iff_iff, Bool.and_eq_true, decide_eq_true_iff, decide_eq_true_iff, decide_eq_true_iff]
  tauto

theorem sum_gpu_avg {samples : List GpuSample} (hp : ∀ s ∈ samples, s.powerWatts.isSome = true)
    {h : Option Int} {m : Int}
    (he : ∀ g ∈ gpusOf samples h, ∀ g' ∈ gpusOf samples h,
      (gpuSamples samples h g m).length = (gpuSamples samples h g' m).length) :
    ((gpusOf samples h).map (fun g => (avg ((gpuSamples samples h g m).map (·.powerWatts))).getD
    0)).sum =
      (gpusOf samples h).length * (avg (windowWatts samples h m)).getD 0 := by
  let inMinute := samples.filter (fun s => decide (s.hostId = h ∧ minuteOf s.ts = m))
  let power := fun s : GpuSample => s.powerWatts.getD 0
  have hG : (gpusOf samples h).Nodup := List.nodup_dedup _
  have hkeys : ∀ s ∈ inMinute, s.gpuIndex ∈ gpusOf samples h := fun s hs =>
    mem_gpusOf (List.mem_of_mem_filter hs) (of_decide_eq_true (List.mem_filter.mp hs).2).1
  have hgpu : ∀ g, (avg ((gpuSamples samples h g m).map (·.powerWatts))).getD 0 =
      ((gpuSamples samples h g m).map power).sum / (gpuSamples samples h g m).length := by
    intro g
    have hknown : known ((gpuSamples samples h g m).map GpuSample.powerWatts) =
        (gpuSamples samples h g m).map power :=
      known_map_some fun s hs => hp s (List.mem_of_mem_filter hs)
    rw [avg_getD, hknown, List.length_map]
  have hhost : (avg (windowWatts samples h m)).getD 0 =
      (inMinute.map power).sum / inMinute.length := by
    unfold windowWatts
    rw [avg_getD, known_map_some fun s hs => hp s (List.mem_of_mem_filter hs), List.length_map]
  have hsum : ((gpusOf samples h).map (fun g => ((gpuSamples samples h g m).map power).sum)).sum =
      (inMinute.map power).sum := by
    simp only [gpuSamples_eq]
    exact sum_fibres power (·.gpuIndex) hG hkeys
  have hcount : ((gpusOf samples h).map (fun g => ((gpuSamples samples h g m).length : ℚ))).sum =
      inMinute.length := by
    have hfib := sum_fibres (fun _ => (1 : ℚ)) GpuSample.gpuIndex hG hkeys
    simp only [inMinute, ← gpuSamples_eq, List.map_const', List.sum_replicate, nsmul_eq_mul,
      mul_one] at hfib
    exact hfib
  rw [List.map_congr_left fun g _ => hgpu g, hhost]
  cases hcase : gpusOf samples h with
  | nil => simp
  | cons g₀ rest =>
      rw [hcase] at hsum hcount he
      -- all counts are that of the first GPU
      have hk : ∀ g ∈ g₀ :: rest, (gpuSamples samples h g m).length =
          (gpuSamples samples h g₀ m).length :=
        fun g hg => he g hg g₀ List.mem_cons_self
      have hcounts : ((g₀ :: rest).length : ℚ) * (gpuSamples samples h g₀ m).length =
          inMinute.length := by
        rw [← hcount, List.map_congr_left fun g hg => congrArg (Nat.cast : Nat → ℚ) (hk g hg),
          List.map_const',
          List.sum_replicate, nsmul_eq_mul]
      have hdiv : ((g₀ :: rest).map (fun g =>
          ((gpuSamples samples h g m).map power).sum / (gpuSamples samples h g m).length)).sum =
          (inMinute.map power).sum / (gpuSamples samples h g₀ m).length := by
        have hsame : ∀ g ∈ g₀ :: rest, ((gpuSamples samples h g m).map
            power).sum / ((gpuSamples samples h g m).length : ℚ) =
            ((gpuSamples samples h g m).map power).sum * ((gpuSamples samples h g₀ m).length :
              ℚ)⁻¹ := by
          intro g hg
          rw [hk g hg, div_eq_mul_inv]
        rw [List.map_congr_left hsame, List.sum_map_mul_right, hsum, div_eq_mul_inv]
      rw [hdiv, ← hcounts]
      have hpos : ((g₀ :: rest).length : ℚ) ≠ 0 := Nat.cast_ne_zero.mpr (Nat.succ_ne_zero _)
      by_cases hz : ((gpuSamples samples h g₀ m).length : ℚ) = 0
      · simp [hz]
      · field_simp

theorem integrateKwh_eq (watts : List (Option ℚ)) :
    integrateKwh watts = (watts.map (·.getD 0)).sum / 60000 := by
  unfold integrateKwh
  ring

theorem sum_gpuKwh {samples : List GpuSample} (hp : ∀ s ∈ samples, s.powerWatts.isSome = true)
    {h : Option Int}
    {minutes : List Int} (he : EquallySampled samples h minutes) :
    ((gpusOf samples h).map (gpuKwh samples h minutes)).sum =
      (gpusOf samples h).length * integrateKwh
        (minutes.map (fun m => avg (windowWatts samples h m))) := by
  induction minutes with
  | nil =>
      have hnone : gpuKwh samples h [] = fun _ => 0 := by
        funext g
        simp [gpuKwh, integrateKwh]
      simp [hnone, integrateKwh]
  | cons m minutes ih =>
      have hminute := sum_gpu_avg hp fun g hg g' hg' => he m List.mem_cons_self g hg g' hg'
      have hrest := ih fun k hk => he k (List.mem_cons_of_mem _ hk)
      have hcons : ∀ (w : Option ℚ) (ws : List (Option ℚ)),
          integrateKwh (w :: ws) = w.getD 0 * (1 / 60000) + integrateKwh ws := by
        intro w ws
        rw [integrateKwh_eq, integrateKwh_eq, List.map_cons, List.sum_cons]
        ring
      unfold gpuKwh at hrest ⊢
      simp only [List.map_cons, hcons]
      rw [List.sum_map_add, hrest, List.sum_map_mul_right, hminute]
      ring

theorem stored_rollup (rows : List (Int × Option Int × Reading)) : (stored rows).rollup = [] := by
  have hfold : ∀ (rows : List (Int × Option Int × Reading)) (t : Tables),
      (rows.foldl (fun t row => t.insertSample row.1 row.2) t).rollup = t.rollup := by
    intro rows
    induction rows with
    | nil => exact fun t => rfl
    | cons row rows ih => exact fun t => ih _
  exact hfold rows .empty

/-- The watts that are metered for a host, minute by minute: the mean over all its samples. -/
def meanWatts (samples : List GpuSample) (h : Option Int) (minutes : List Int) : ℚ :=
  (minutes.map (fun m => (avg (windowWatts samples h m)).getD 0)).sum

theorem integrateKwh_meanWatts (samples : List GpuSample) (h : Option Int) (minutes : List Int) :
    integrateKwh (minutes.map (fun m => avg (windowWatts samples h m))) =
      meanWatts samples h minutes / 60000 := by
  rw [integrateKwh_eq, List.map_map]
  rfl

/-- A host's energy is that of its GPUs only if it has one of them or none of them draws power. -/
theorem hostKwh_eq_gpus_iff (rows : List (Int × Option Int × Reading)) (calls : List Int)
    (h : Option Int)
    (he : EquallySampled (stored rows).samples h (calls.map rolledMinute)) :
    hostKwh (rolledUp calls (stored rows)) h (calls.map rolledMinute) =
        ((gpusOf (stored rows).samples h).map
          (gpuKwh (stored rows).samples h (calls.map rolledMinute))).sum ↔
      (gpusOf (stored rows).samples h).length = 1 ∨
        meanWatts (stored rows).samples h (calls.map rolledMinute) = 0 := by
  have hempty : hostKwh (stored rows) h (calls.map rolledMinute) = 0 := by
    unfold hostKwh
    rw [stored_rollup]
    simp [tableKwh, known]
  have hhost : hostKwh (rolledUp calls (stored rows)) h (calls.map rolledMinute) =
      meanWatts (stored rows).samples h (calls.map rolledMinute) / 60000 := by
    rw [hostKwh_rolledUp calls _ h fun c hc => List.mem_map_of_mem hc, hempty, zero_add,
      ← integrateKwh_meanWatts, List.map_map]
    rfl
  rw [hhost, sum_gpuKwh (stored_power rows) he, integrateKwh_meanWatts]
  constructor
  · intro heq
    have hfactor : (((gpusOf (stored rows).samples h).length : ℚ) - 1) * meanWatts
        (stored rows).samples h (calls.map rolledMinute) = 0 := by
      linarith
    rcases mul_eq_zero.mp hfactor with hone | hzero
    · left
      have hcast : ((gpusOf (stored rows).samples h).length : ℚ) = 1 := by linarith
      exact_mod_cast hcast
    · exact .inr hzero
  · rintro (hone | hzero)
    · rw [hone, Nat.cast_one, one_mul]
    · rw [hzero, zero_div, mul_zero]

def twoGpus : List (Int × Option Int × Reading) :=
  [(0, some 1, ⟨0, 90, 1000, 100⟩), (0, some 1, ⟨1, 90, 1000, 100⟩)]

theorem twoGpus_halved : ¬ ∀ (rows : List (Int × Option Int × Reading)) (calls : List Int) (h :
    Option Int),
    EquallySampled (stored rows).samples h (calls.map rolledMinute) →
      hostKwh (rolledUp calls (stored rows)) h (calls.map rolledMinute) =
        ((gpusOf (stored rows).samples h).map
          (gpuKwh (stored rows).samples h (calls.map rolledMinute))).sum := by
  intro hall
  have hkwh := hall twoGpus [minute] (some 1) (by decide +kernel)
  revert hkwh
  decide +kernel

theorem hostKwh_eq_gpus_one :
    hostKwh (rolledUp [minute] (stored [(0, some 1, ⟨0, 90, 1000, 100⟩)])) (some 1)
      ([minute].map rolledMinute) =
        ((gpusOf (stored [(0, some 1, ⟨0, 90, 1000, 100⟩)]).samples (some 1)).map
          (gpuKwh (stored [(0, some 1, ⟨0, 90, 1000, 100⟩)]).samples (some 1) ([minute].map rolledMinute))).sum ↔
      (gpusOf (stored [(0, some 1, ⟨0, 90, 1000, 100⟩)]).samples (some 1)).length = 1 ∨
        meanWatts (stored [(0, some 1, ⟨0, 90, 1000, 100⟩)]).samples (some 1)
          ([minute].map rolledMinute) = 0 :=
  hostKwh_eq_gpus_iff [(0, some 1, ⟨0, 90, 1000, 100⟩)] [minute] (some 1) (by decide +kernel)

end ServerManager.HostEnergy
