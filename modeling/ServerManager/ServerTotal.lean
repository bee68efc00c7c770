import ServerManager.Spend
import Mathlib.Data.List.Perm.Lattice

namespace ServerManager.ServerTotal

open GpuPower Spend
open HostEnergy (tableKwh avg_getD)
open FacilityPower (hour)

def hostsSince (rollup : List MinuteRow) (since : Int) : List (Option Int) :=
  ((rollup.filter (fun r => decide (since ≤ r.ts))).map (·.hostId)).dedup

def utilOf (samples : List GpuSample) (since : Int) (h : Option Int) : ℚ :=
  (avg ((samples.filter (fun s => decide (s.hostId ≠ none ∧ s.hostId = h ∧ since ≤ s.ts))).map
    (·.utilPct))).getD 0

def begin (now : Int) (w : Window) : Int := now - spendHours w * hour

def samplesOf (keep : Option Int → Bool) (samples : List GpuSample) : List GpuSample :=
  samples.filter (fun s => keep s.hostId)

def rowsOf (keep : Option Int → Bool) (rollup : List MinuteRow) : List MinuteRow :=
  rollup.filter (fun r => keep r.hostId)

/-- The measured energy and the platform of each host, for these hosts and for any two groups of
them. -/
structure Additive (samples : List GpuSample) (rollup : List MinuteRow) (now : Int) (w : Window) :
    Prop where
  hosts : spendServerKwh samples rollup now w = spendKwh rollup now w +
    ((hostsSince rollup (begin now w)).map (fun h =>
      (spendIdleNonGpuWatts + spendCpuWPerUtilPt * utilOf samples (begin now w) h) * spendHours w)).sum / 1000
  groups : ∀ keep : Option Int → Bool, hostsSince (rowsOf keep rollup) (begin now w) ≠ [] →
    hostsSince (rowsOf (fun h => !keep h) rollup) (begin now w) ≠ [] →
      spendServerKwh samples rollup now w = spendServerKwh (samplesOf keep samples)
        (rowsOf keep rollup) now w +
        spendServerKwh (samplesOf (fun h => !keep h) samples) (rowsOf (fun h => !keep h) rollup) now
          w

/-- One host; or all hosts idle; or two whose utilisations add up to nothing. -/
def SingleOrIdle (samples : List GpuSample) (rollup : List MinuteRow) (since : Int) : Prop :=
  (hostsSince rollup since).length = 1 ∨ (∀ h ∈ hostsSince rollup since,
    utilOf samples since h = 0) ∨
    ((hostsSince rollup since).length = 2 ∧ ((hostsSince rollup since).map
    (utilOf samples since)).sum = 0)

theorem avg_repeat {α : Type} (rows : List α) (xs : List (Option ℚ)) (hr : rows ≠ []) :
    (avg (rows.flatMap (fun _ => xs))).getD 0 = (avg xs).getD 0 := by
  have hknown : ∀ rows : List α, (known (rows.flatMap (fun _ => xs))).sum =
      rows.length * (known xs).sum ∧
      ((known (rows.flatMap (fun _ => xs))).length : ℚ) = rows.length * (known xs).length := by
    intro rows
    induction rows with
    | nil => simp [known]
    | cons r rows ih =>
        rw [List.flatMap_cons, HostEnergy.known_append, List.sum_append, List.length_append,
          List.length_cons]
        push_cast
        rw [ih.1, ih.2]
        constructor
        · ring
        · ring
  have hlen : (rows.length : ℚ) ≠ 0 := by
    rw [Nat.cast_ne_zero]
    exact fun h => hr (List.length_eq_zero_iff.mp h)
  rw [avg_getD, avg_getD, (hknown rows).1, (hknown rows).2]
  exact mul_div_mul_left _ _ hlen

theorem mem_hostsSince {rollup : List MinuteRow} {since : Int} {h : Option Int} :
    h ∈ hostsSince rollup since ↔ ∃ r ∈ rollup, since ≤ r.ts ∧ r.hostId = h := by
  unfold hostsSince
  rw [List.mem_dedup, List.mem_map]
  simp only [List.mem_filter, decide_eq_true_iff, and_assoc]

theorem hostRow_util (samples : List GpuSample) {rollup : List MinuteRow} {since : Int}
    {h : Option Int}
    (hh : h ∈ hostsSince rollup since) : (hostRow samples rollup since h).utilPct =
    utilOf samples since h := by
  obtain ⟨r, hr, hts, hid⟩ := mem_hostsSince.mp hh
  have hne : rollup.filter (fun r => decide (since ≤ r.ts ∧ r.hostId = h)) ≠ [] :=
    List.ne_nil_of_mem (List.mem_filter.mpr ⟨hr, decide_eq_true ⟨hts, hid⟩⟩)
  have hjoin : ((joined samples rollup since h).map (fun p => p.2.bind (·.utilPct))) =
      (rollup.filter (fun r => decide (since ≤ r.ts ∧ r.hostId = h))).flatMap (fun _ =>
        if samples.filter (fun s => decide (s.hostId ≠ none ∧ s.hostId = h ∧ since ≤ s.ts)) =
          [] then [none]
        else (samples.filter (fun s => decide (s.hostId ≠ none ∧ s.hostId = h ∧ since ≤ s.ts))).map (·.utilPct)) := by
    unfold joined
    rw [List.map_flatMap]
    apply List.flatMap_congr
    intro r hr
    have hrid : r.hostId = h := (of_decide_eq_true (List.mem_filter.mp hr).2).2
    simp only [hrid]
    by_cases hnil : samples.filter (fun s => decide
      (s.hostId ≠ none ∧ s.hostId = h ∧ since ≤ s.ts)) = []
    · rw [if_pos hnil, if_pos hnil]
      rfl
    · rw [if_neg hnil, if_neg hnil, List.map_map]
      rfl
  show (avg ((joined samples rollup since h).map (fun p => p.2.bind (·.utilPct)))).getD 0 =
    utilOf samples since h
  rw [hjoin, avg_repeat _ _ hne]
  unfold utilOf
  split
  next hnil => rw [hnil]; rfl
  · rfl

theorem spendServerKwh_eq {samples : List GpuSample} {rollup : List MinuteRow} {now : Int}
    {w : Window}
    (hne : hostsSince rollup (begin now w) ≠ []) :
    spendServerKwh samples rollup now w = spendKwh rollup now w +
      (120 * (hostsSince rollup (begin now w)).length +
        0.35 * (hostsSince rollup (begin now w)).length *
        ((hostsSince rollup (begin now w)).map (utilOf samples (begin now w))).sum) * spendHours w / 1000 := by
  have hrows : hostRows samples rollup (begin now w) =
      (hostsSince rollup (begin now w)).map (hostRow samples rollup (begin now w)) := rfl
  have hutil : ((hostRows samples rollup (begin now w)).map (·.utilPct)).sum =
      ((hostsSince rollup (begin now w)).map (utilOf samples (begin now w))).sum := by
    rw [hrows, List.map_map]
    congr 1
    apply List.map_congr_left
    intro h hh
    exact hostRow_util samples hh
  have hlen : (hostRows samples rollup (begin now w)).length =
      (hostsSince rollup (begin now w)).length := by
    rw [hrows, List.length_map]
  have hzero : (hostsSince rollup (begin now w)).length ≠ 0 :=
    fun h => hne (List.length_eq_zero_iff.mp h)
  show serverKwh (spendKwh rollup now w) (hostRows samples rollup (begin now w)) (spendHours w) = _
  unfold serverKwh spendIdleNonGpuWatts spendCpuWPerUtilPt
  rw [hutil, hlen, if_neg hzero]
  ring

theorem sum_platform (samples : List GpuSample) (since hours : Int) (hosts : List (Option Int)) :
    (hosts.map (fun h => (spendIdleNonGpuWatts +
    spendCpuWPerUtilPt * utilOf samples since h) * hours)).sum =
      (120 * hosts.length + 0.35 * (hosts.map (utilOf samples since)).sum) * hours := by
  induction hosts with
  | nil => simp
  | cons h hosts ih =>
      rw [List.map_cons, List.sum_cons, ih, List.map_cons, List.sum_cons, List.length_cons]
      unfold spendIdleNonGpuWatts spendCpuWPerUtilPt
      push_cast
      ring

theorem spendHours_ne (w : Window) : (spendHours w : ℚ) ≠ 0 := by
  cases w with
  | h24 => exact (by decide +kernel : ((24 : Int) : ℚ) ≠ 0)
  | d7 => exact (by decide +kernel : ((168 : Int) : ℚ) ≠ 0)
  | d30 => exact (by decide +kernel : ((720 : Int) : ℚ) ≠ 0)

theorem hostsSince_rowsOf (keep : Option Int → Bool) (rollup : List MinuteRow) (since : Int) :
    (hostsSince (rowsOf keep rollup) since).Perm ((hostsSince rollup since).filter keep) := by
  apply (List.perm_ext_iff_of_nodup (List.nodup_dedup _) ((List.nodup_dedup _).filter keep)).mpr
  intro h
  show h ∈ hostsSince (rowsOf keep rollup) since ↔ h ∈ (hostsSince rollup since).filter keep
  rw [List.mem_filter, mem_hostsSince, mem_hostsSince]
  constructor
  · rintro ⟨r, hr, hts, rfl⟩
    obtain ⟨hr, hk⟩ := List.mem_filter.mp hr
    exact ⟨⟨r, hr, hts, rfl⟩, hk⟩
  · rintro ⟨⟨r, hr, hts, rfl⟩, hk⟩
    exact ⟨r, List.mem_filter.mpr ⟨hr, hk⟩, hts, rfl⟩

theorem utilOf_samplesOf {keep : Option Int → Bool} {h : Option Int} (hk : keep h = true)
    (samples : List GpuSample) (since : Int) :
    utilOf (samplesOf keep samples) since h = utilOf samples since h := by
  unfold utilOf samplesOf
  rw [List.filter_filter]
  congr 4
  funext s
  rw [Bool.eq_iff_iff, Bool.and_eq_true, decide_eq_true_iff]
  constructor
  · exact fun hs => hs.1
  · exact fun hs => ⟨hs, hs.2.1 ▸ hk⟩

theorem group_eq {samples : List GpuSample} {rollup : List MinuteRow} {now : Int} {w : Window}
    (keep : Option Int → Bool)
    (hne : hostsSince (rowsOf keep rollup) (begin now w) ≠ []) :
    spendServerKwh (samplesOf keep samples) (rowsOf keep rollup) now w =
      spendKwh (rowsOf keep rollup) now w +
      (120 * ((hostsSince rollup (begin now w)).filter keep).length +
        0.35 * ((hostsSince rollup (begin now w)).filter keep).length *
        (((hostsSince rollup (begin now w)).filter keep).map (utilOf samples (begin now w))).sum) * spendHours w / 1000 := by
  have hperm := hostsSince_rowsOf keep rollup (begin now w)
  have hsum : ((hostsSince (rowsOf keep rollup) (begin now w)).map
      (utilOf (samplesOf keep samples) (begin now w))).sum =
      (((hostsSince rollup (begin now w)).filter keep).map (utilOf samples (begin now w))).sum := by
    rw [(hperm.map _).sum_eq]
    congr 1
    apply List.map_congr_left
    intro h hh
    exact utilOf_samplesOf (List.mem_filter.mp hh).2 samples _
  rw [spendServerKwh_eq hne, hsum, hperm.length_eq]

theorem spendKwh_split (keep : Option Int → Bool) (rollup : List MinuteRow) (now : Int)
    (w : Window) :
    spendKwh rollup now w = spendKwh (rowsOf keep rollup) now w +
      spendKwh (rowsOf (fun h => !keep h) rollup) now w := by
  unfold spendKwh lastHours rowsOf
  rw [tableKwh_split (fun r => keep r.hostId), List.filter_filter, List.filter_filter,
    List.filter_filter, List.filter_filter]
  congr 2
  · exact List.filter_congr fun r _ => Bool.and_comm ..
  · exact List.filter_congr fun r _ => Bool.and_comm ..

theorem filter_split (keep : Option Int → Bool) (samples : List GpuSample) (since : Int)
    (hosts : List (Option Int)) :
    hosts.length = (hosts.filter keep).length + (hosts.filter (fun h => !keep h)).length ∧
      (hosts.map (utilOf samples since)).sum =
        ((hosts.filter keep).map (utilOf samples since)).sum +
          ((hosts.filter (fun h => !keep h)).map (utilOf samples since)).sum :=
  ⟨List.length_eq_length_filter_add keep, sum_split _ keep hosts⟩

theorem groups_iff {samples : List GpuSample} {rollup : List MinuteRow} {now : Int} {w : Window}
    (hne : hostsSince rollup (begin now w) ≠ []) (keep : Option Int → Bool)
    (hk : hostsSince (rowsOf keep rollup) (begin now w) ≠ [])
    (hk' : hostsSince (rowsOf (fun h => !keep h) rollup) (begin now w) ≠ []) :
    spendServerKwh samples rollup now w = spendServerKwh (samplesOf keep samples)
      (rowsOf keep rollup) now w +
        spendServerKwh (samplesOf (fun h => !keep h) samples) (rowsOf (fun h => !keep h) rollup) now
          w ↔
      (((hostsSince rollup (begin now w)).filter keep).map (utilOf samples (begin now w))).sum *
          ((hostsSince rollup (begin now w)).filter (fun h => !keep h)).length +
        (((hostsSince rollup (begin now w)).filter (fun h => !keep h)).map
          (utilOf samples (begin now w))).sum *
          ((hostsSince rollup (begin now w)).filter keep).length = 0 := by
  obtain ⟨hlen, hsum⟩ := filter_split keep samples (begin now w) (hostsSince rollup (begin now w))
  have hhours := spendHours_ne w
  rw [spendServerKwh_eq hne, group_eq keep hk, group_eq (fun h => !keep h) hk',
    spendKwh_split keep rollup, hlen, hsum]
  push_cast
  generalize (((hostsSince rollup (begin now w)).filter keep).map
    (utilOf samples (begin now w))).sum = c
  generalize (((hostsSince rollup (begin now w)).filter (fun h => !keep h)).map
    (utilOf samples (begin now w))).sum = c'
  generalize (((hostsSince rollup (begin now w)).filter keep).length : ℚ) = n
  generalize (((hostsSince rollup (begin now w)).filter (fun h => !keep h)).length : ℚ) = n'
  constructor
  · intro h
    have hz : (c * n' + c' * n) * (spendHours w : ℚ) = 0 := by linarith
    exact (mul_eq_zero.mp hz).resolve_right hhours
  · intro h
    have hz : (c * n' + c' * n) * (spendHours w : ℚ) = 0 := by rw [h, zero_mul]
    linarith

theorem hosts_iff {samples : List GpuSample} {rollup : List MinuteRow} {now : Int} {w : Window}
    (hne : hostsSince rollup (begin now w) ≠ []) :
    spendServerKwh samples rollup now w = spendKwh rollup now w +
        ((hostsSince rollup (begin now w)).map (fun h =>
          (spendIdleNonGpuWatts + spendCpuWPerUtilPt * utilOf samples (begin now w) h) * spendHours w)).sum / 1000 ↔
      (hostsSince rollup (begin now w)).length = 1 ∨
        ((hostsSince rollup (begin now w)).map (utilOf samples (begin now w))).sum = 0 := by
  have hhours := spendHours_ne w
  have hone : (hostsSince rollup (begin now w)).length = 1 ↔
      ((hostsSince rollup (begin now w)).length : ℚ) - 1 = 0 := by
    rw [sub_eq_zero]
    norm_cast
  rw [spendServerKwh_eq hne, sum_platform, hone]
  generalize ((hostsSince rollup (begin now w)).map (utilOf samples (begin now w))).sum = c
  generalize ((hostsSince rollup (begin now w)).length : ℚ) = n
  constructor
  · intro h
    have hz : (n - 1) * c * (spendHours w : ℚ) = 0 := by linarith
    exact mul_eq_zero.mp ((mul_eq_zero.mp hz).resolve_right hhours)
  · intro h
    have hz : (n - 1) * c * (spendHours w : ℚ) = 0 := by rw [mul_eq_zero.mpr h, zero_mul]
    linarith

theorem filter_single {hosts : List (Option Int)} (hn : hosts.Nodup) {h : Option Int}
    (hh : h ∈ hosts) :
    hosts.filter (fun k => k == h) = [h] := by
  induction hosts with
  | nil => exact absurd hh List.not_mem_nil
  | cons k hosts ih =>
      obtain ⟨hk, hn⟩ := List.nodup_cons.mp hn
      rw [List.filter_cons]
      rcases List.mem_cons.mp hh with rfl | hh
      · have hnone : hosts.filter (fun k => k == h) = [] :=
          List.filter_eq_nil_iff.mpr fun j hj he => hk ((beq_iff_eq.mp he) ▸ hj)
        simp [hnone]
      · have hne : (k == h) = false := beq_eq_false_iff_ne.mpr fun he => hk (he ▸ hh)
        rw [hne]
        exact ih hn hh

theorem group_ne_nil {rollup : List MinuteRow} {since : Int} {keep : Option Int → Bool} :
    hostsSince (rowsOf keep rollup) since ≠ [] ↔
      0 < ((hostsSince rollup since).filter keep).length := by
  rw [← (hostsSince_rowsOf keep rollup since).length_eq, List.length_pos_iff]

/-- The total is the sum over the hosts, and over groups of them, only if there is one or they are
idle. -/
theorem server_total_iff (samples : List GpuSample) (rollup : List MinuteRow) (now : Int)
    (w : Window)
    (hne : hostsSince rollup (begin now w) ≠ []) :
    Additive samples rollup now w ↔ SingleOrIdle samples rollup (begin now w) := by
  have hnodup : (hostsSince rollup (begin now w)).Nodup := List.nodup_dedup _
  have hpos : 0 < (hostsSince rollup (begin now w)).length := List.length_pos_iff.mpr hne
  constructor
  · rintro ⟨hhosts, hgroups⟩
    rcases (hosts_iff hne).mp hhosts with hone | hzero
    · exact .inl hone
    · by_cases htwo : (hostsSince rollup (begin now w)).length ≤ 2
      · by_cases hone : (hostsSince rollup (begin now w)).length = 1
        · exact .inl hone
        · exact .inr (.inr ⟨by omega, hzero⟩)
      · -- one host is charged for all the others
        refine .inr (.inl fun h hh => ?_)
        have hsingle := filter_single hnodup hh
        obtain ⟨hlen, hsum⟩ :=
          filter_split (fun k => k == h) samples (begin now w) (hostsSince rollup (begin now w))
        rw [hsingle, List.length_singleton] at hlen
        rw [hsingle, hzero] at hsum
        have hk :=
          group_ne_nil.mpr (show 0 < ((hostsSince rollup (begin now w)).filter
            (fun k => k == h)).length by
          rw [hsingle]; exact Nat.one_pos)
        have hk' :=
          group_ne_nil.mpr (show 0 < ((hostsSince rollup (begin now w)).filter
            (fun k => !(k == h))).length by omega)
        have hcharge := (groups_iff hne (fun k => k == h) hk hk').mp (hgroups _ hk hk')
        rw [hsingle] at hcharge
        simp only [List.map_cons, List.map_nil, List.sum_cons, List.sum_nil, add_zero,
          List.length_singleton, Nat.cast_one,
          mul_one] at hcharge hsum
        have hrest : (2 : ℚ) ≤ (((hostsSince rollup (begin now w)).filter
            (fun k => !(k == h))).length : ℚ) := by
          exact_mod_cast (show 2 ≤ ((hostsSince rollup (begin now w)).filter
            (fun k => !(k == h))).length by omega)
        have hfactor : utilOf samples (begin now w) h *
            ((((hostsSince rollup (begin now w)).filter (fun k => !(k == h))).length : ℚ) - 1) =
              0 := by linarith
        refine (mul_eq_zero.mp hfactor).resolve_right fun hz => ?_
        linarith
  · intro hcond
    have hsplit :=
      fun keep => filter_split keep samples (begin now w) (hostsSince rollup (begin now w))
    refine ⟨(hosts_iff hne).mpr ?_, fun keep hk hk' => (groups_iff hne keep hk hk').mpr ?_⟩
    · rcases hcond with hone | hidle | ⟨-, hsum⟩
      · exact .inl hone
      · refine .inr (List.sum_eq_zero fun x hx => ?_)
        obtain ⟨h, hh, rfl⟩ := List.mem_map.mp hx
        exact hidle h hh
      · exact .inr hsum
    · obtain ⟨hlen, hsum⟩ := hsplit keep
      have hp := group_ne_nil.mp hk
      have hp' := group_ne_nil.mp hk'
      rcases hcond with hone | hidle | ⟨htwo, hzero⟩
      · omega
      · have hidle' : ∀ keep : Option Int → Bool,
            (((hostsSince rollup (begin now w)).filter keep).map
              (utilOf samples (begin now w))).sum = 0 := by
          intro keep
          apply List.sum_eq_zero
          intro x hx
          obtain ⟨h, hh, rfl⟩ := List.mem_map.mp hx
          exact hidle h (List.mem_of_mem_filter hh)
        rw [hidle', hidle', zero_mul, zero_mul, add_zero]
      · have hn : ((hostsSince rollup (begin now w)).filter keep).length = 1 := by omega
        have hn' : ((hostsSince rollup (begin now w)).filter (fun h => !keep h)).length = 1 := by
          omega
        rw [hn, hn', Nat.cast_one, mul_one, mul_one, ← hsum, hzero]

def bothBusy : List GpuSample :=
  [⟨1, 47 * hour, some 1, 0, some 100, some 1024, some 300⟩,
    ⟨2, 47 * hour, some 2, 0, some 100, some 1024, some 300⟩]

def bothMetered : List MinuteRow :=
  [⟨1, 47 * hour, some 1, some 300, some 300⟩, ⟨2, 47 * hour, some 2, some 300, some 300⟩]

theorem both_charged_twice : ¬ ∀ (samples : List GpuSample) (rollup : List MinuteRow) (now :
    Int) (w : Window),
    hostsSince rollup (begin now w) ≠ [] → Additive samples rollup now w := by
  intro hall
  have hsum := (hall bothBusy bothMetered (48 * hour) .h24 (by decide +kernel)).hosts
  revert hsum
  decide +kernel

def bothIdle : List GpuSample :=
  [⟨1, 47 * hour, some 1, 0, some 0, some 1024, some 60⟩,
    ⟨2, 47 * hour, some 2, 0, some 0, some 1024, some 60⟩]

theorem idle_hosts_additive : Additive bothIdle bothMetered (48 * hour) .h24 :=
  (server_total_iff bothIdle bothMetered (48 * hour) .h24 (by decide +kernel)).mpr
    (.inr (.inl (by decide +kernel)))

end ServerManager.ServerTotal
