import ServerManager.RecoveryBudget

namespace ServerManager.PowerEvidence

open Interaction PyJson Orm Effects Config ProxmoxVm Reconciliation Storage Calls Sessions
  OwnershipGate RecoveryBudget

/-- The answer to a status read of the row's VM names this state. -/
def reportsOf (r : AgentRuntime) (state : String) (ev : Event Eff Ans) : Prop :=
  (∃ n v, r.node = some n ∧ r.vmid = some v ∧ ev.1 = .pve (.status n v)) ∧ reports state ev = true

/-- PVE has reported the VM in this state since the last lifecycle call. -/
def Reported (r : AgentRuntime) (state : String) (log : PyTrace) : Prop :=
  ∃ before ev after, log = before ++ ev :: after ∧ reportsOf r state ev ∧ ∀ x ∈ after,
    target x.1 = none

/-- PVE has acknowledged a start, and nothing was read from it since. -/
def Acknowledged (log : PyTrace) : Prop :=
  ∃ before n v x after, log = before ++ ⟨.pve (.start n v), .ok x⟩ :: after ∧ ∀ y ∈ after,
    isStatus y = false

def acked (log : PyTrace) : Prop := ∃ n v x, ⟨.pve (.start n v), .ok x⟩ ∈ log

variable {r : AgentRuntime} {state : String} {log : PyTrace} {ev : Event Eff Ans}

theorem Reported.append (h : Reported r state log) (hev : target ev.1 = none) :
    Reported r state (log ++ [ev]) := by
  obtain ⟨before, x, after, rfl, hx, ha⟩ := h
  refine ⟨before, x, after ++ [ev], by simp, hx, fun y hy => ?_⟩
  rcases List.mem_append.mp hy with hy | hy
  · exact ha y hy
  · rw [List.mem_singleton.mp hy]
    exact hev

theorem reported_last (h : reportsOf r state ev) (log : PyTrace) : Reported r state (log ++ [ev]) :=
  ⟨log, ev, [], rfl, h, fun _ hy => absurd hy List.not_mem_nil⟩

theorem Acknowledged.append (h : Acknowledged log) (hev : isStatus ev = false) :
    Acknowledged (log ++ [ev]) := by
  obtain ⟨before, n, v, x, after, rfl, ha⟩ := h
  refine ⟨before, n, v, x, after ++ [ev], by simp, fun y hy => ?_⟩
  rcases List.mem_append.mp hy with hy | hy
  · exact ha y hy
  · rw [List.mem_singleton.mp hy]
    exact hev

theorem Acknowledged.acked (h : Acknowledged log) : acked log := by
  obtain ⟨before, n, v, x, after, rfl, -⟩ := h
  exact ⟨n, v, x, List.mem_append_right _ List.mem_cons_self⟩

theorem Acknowledged.unreported (h : Acknowledged log) : ¬ Reported r state log := by
  rintro ⟨before, ev, after, hl, ⟨⟨n, v, -, -, hev⟩, -⟩, ha⟩
  obtain ⟨before', n', v', x, after', rfl, ha'⟩ := h
  have hst : isStatus ev = true := by
    obtain ⟨e, a⟩ := ev
    obtain rfl : e = .pve (.status n v) := hev
    rfl
  rcases List.append_eq_append_iff.mp hl with ⟨mid, -, hm⟩ | ⟨mid, -, hm⟩
  · cases mid with
    | nil =>
        obtain rfl := (List.cons.inj hm).1
        cases hst
    | cons y mid =>
        have hmem : ev ∈ after' := by
          rw [(List.cons.inj hm).2]
          exact List.mem_append_right _ List.mem_cons_self
        rw [ha' ev hmem] at hst
        cases hst
  · cases mid with
    | nil =>
        obtain rfl := (List.cons.inj hm).1
        cases hst
    | cons y mid =>
        have hmem : ⟨.pve (.start n' v'), .ok x⟩ ∈ after := by
          rw [(List.cons.inj hm).2]
          exact List.mem_append_right _ List.mem_cons_self
        cases ha _ hmem

/-- The state is the recorded one, or PVE has reported it. -/
def Told (r : AgentRuntime) (log : PyTrace) (a : ActualState) : Prop :=
  a = r.actualState ∨ (a = .running ∧ Reported r "running" log) ∨
    (a = .stopped ∧ Reported r "stopped" log)

/-- How a pass over `r` stands when the row reads `cur` and the result says `after`. -/
def Verdict (r cur : AgentRuntime) (log : PyTrace) (after : String) : Prop :=
  (¬ acked log ∧ Told r log cur.actualState ∧ ∃ a : ActualState, after = a.value ∧ Told r log a) ∨
    (Acknowledged log ∧ cur.actualState = .running ∧ after = "RUNNING")

theorem told_recorded (r : AgentRuntime) (log : PyTrace) : Told r log r.actualState := .inl rfl

theorem Told.append {a : ActualState} (h : Told r log a) (hev : target ev.1 = none) :
    Told r (log ++ [ev]) a := by
  rcases h with h | ⟨h, hr⟩ | ⟨h, hr⟩
  · exact .inl h
  · exact .inr (.inl ⟨h, hr.append hev⟩)
  · exact .inr (.inr ⟨h, hr.append hev⟩)

theorem acked_append (hev : target ev.1 = none) : acked (log ++ [ev]) ↔ acked log := by
  constructor
  · rintro ⟨n, v, x, hm⟩
    rcases List.mem_append.mp hm with hm | hm
    · exact ⟨n, v, x, hm⟩
    · rw [← List.mem_singleton.mp hm] at hev
      cases hev
  · rintro ⟨n, v, x, hm⟩
    exact ⟨n, v, x, List.mem_append_left _ hm⟩

theorem Verdict.append {cur cur' : AgentRuntime} {after : String} (h : Verdict r cur log after)
    (ha : cur'.actualState = cur.actualState) (hev : target ev.1 = none)
    (hst : isStatus ev = false) :
    Verdict r cur' (log ++ [ev]) after := by
  rw [Verdict, ha, acked_append hev]
  rcases h with ⟨hn, ht, a, haf, hta⟩ | ⟨hk, hrun, haf⟩
  · exact .inl ⟨hn, ht.append hev, a, haf, hta.append hev⟩
  · exact .inr ⟨hk.append hst, hrun, haf⟩

variable {R : Type} {rem : Remote R} {i : Nat} {rid : Uuid} {s : World R × PyTrace}
  {X : World R × PyTrace → PyExc → Prop}

/-- The row is in hand as it was read, and no start was acknowledged. -/
structure Fresh (i : Nat) (rid : Uuid) (r : AgentRuntime) (s : World R × PyTrace) : Prop where
  holds : Holds s.1.db (s.1.sessions i) rid r r false
  unacked : ¬ acked s.2

/-- The row is in hand, and the pass may report `after`. -/
def Judged (i : Nat) (rid : Uuid) (r : AgentRuntime) (after : String) (s : World R × PyTrace) :
    Prop :=
  ∃ x cur, Holds s.1.db (s.1.sessions i) rid x cur false ∧ Verdict r cur s.2 after

theorem Fresh.judged (h : Fresh i rid r s) : Judged i rid r r.actualState.value s :=
  ⟨r, r, h.holds, .inl ⟨h.unacked, told_recorded r s.2, r.actualState, rfl, told_recorded r s.2⟩⟩

def harmless (rid : Uuid) (e : Eff) : Prop := beside rid e ∧ target e = none

theorem harmless_of_observes {e : Eff} (h : observes e) : harmless rid e := by
  refine ⟨?_, (calm_of_observes h).2⟩
  unfold observes at h
  split at h
  all_goals first | exact False.elim h | exact trivial

theorem fresh_only {α : Type} {p : Py α} (h : Only (harmless rid) p) (hs : Fresh i rid r s) :
    Sat (traced (World.step rem i)) (fun _ _ => True) (fun s _ => Fresh i rid r s)
      (fun s _ => Fresh i rid r s) p s := by
  refine (h.keeps (I := Fresh i rid r) (fun s e a s' he hm hst => ?_) hs).weaken fun _ _ _ =>
    trivial
  refine ⟨holds_beside hst.1 he.1 hm.holds, ?_⟩
  rw [hst.2, acked_append he.2]
  exact hm.unacked

theorem pveVmState_reported (hs : Fresh i rid r s) :
    Sat (traced (World.step rem i)) (fun _ _ => True)
      (fun s pve => Fresh i rid r s ∧ ∀ state, state ≠ "" → state ≠ "unknown" → state ≠ "absent" →
        pve.isStr state = true → Reported r state s.2) X (pveVmState r.node r.vmid) s := by
  have habsent : Fresh i rid r s ∧ ∀ state, state ≠ "" → state ≠ "unknown" → state ≠ "absent" →
      (Json.str "absent").isStr state = true → Reported r state s.2 :=
    ⟨hs, fun state _ _ ha h => absurd (by simpa [Json.isStr] using h : "absent" = state).symm ha⟩
  cases hn : r.node with
  | none => exact habsent
  | some n =>
      cases hv : r.vmid with
      | none => exact habsent
      | some v =>
          by_cases hne : n = ""
          · subst hne
            exact habsent
          · rw [pveVmState_eq hne]
            refine ⟨trivial, fun a s' hst => ⟨⟨holds_beside hst.1 trivial hs.holds, ?_⟩, ?_⟩⟩
            · rw [hst.2, acked_append rfl]
              exact hs.unacked
            · intro state he hu _ hstr
              rw [hst.2]
              exact reported_last ⟨⟨n, v, hn, hv, rfl⟩, (reports_eq n v a he hu).trans hstr⟩ s.2

theorem fresh_call {α : Type} {e : Eff} {k : Ans e → Py α} {Q : World R × PyTrace → α → Prop}
    (he : harmless rid e)
    (hs : Fresh i rid r s)
    (hk : ∀ a s, Fresh i rid r s → Sat (traced (World.step rem i)) (fun _ _ => True) Q X (k a) s) :
    Sat (traced (World.step rem i)) (fun _ _ => True) Q X (.call e k) s := by
  refine ⟨trivial, fun a s' hst => hk a s' ⟨holds_beside hst.1 he.1 hs.holds, ?_⟩⟩
  rw [hst.2, acked_append he.2]
  exact hs.unacked

theorem judged_call {α : Type} {e : Eff} {k : Ans e → Py α} {Q : World R × PyTrace → α → Prop}
    {after : String}
    (he : harmless rid e) (hst : ∀ a : Ans e, isStatus ⟨e, a⟩ = false) (hs : Judged i rid r after s)
    (hk : ∀ a s, Judged i rid r after s → Sat (traced (World.step rem i)) (fun _ _ => True) Q X
    (k a) s) :
    Sat (traced (World.step rem i)) (fun _ _ => True) Q X (.call e k) s := by
  refine ⟨trivial, fun a s' hstep => hk a s' ?_⟩
  obtain ⟨x, cur, hh, hv⟩ := hs
  refine ⟨x, cur, holds_beside hstep.1 he.1 hh, ?_⟩
  rw [hstep.2]
  exact hv.append rfl he.2 (hst a)

theorem assign_told {f : AgentRuntime → AgentRuntime} (after : String) (hf : Tracked f)
    (hs : Fresh i rid r s)
    (ha : Told r s.2 (f r).actualState) (haf : ∃ a : ActualState, after = a.value ∧ Told r s.2 a) :
    Sat (traced (World.step rem i)) (fun _ _ => True) (fun s _ => Judged i rid r after s) X
      (modify rid f) s := by
  refine ⟨trivial, fun a s' hst => ⟨r, f r, holds_assign hst.1 hs.holds hf, .inl ?_⟩⟩
  obtain ⟨b, hb, hbt⟩ := haf
  rw [hst.2, acked_append rfl]
  exact ⟨hs.unacked, ha.append rfl, b, hb, hbt.append rfl⟩

theorem assign_judged {f : AgentRuntime → AgentRuntime} {after : String} (hf : Tracked f)
    (hk : ∀ c, (f c).actualState = c.actualState) (hs : Judged i rid r after s) :
    Sat (traced (World.step rem i)) (fun _ _ => True) (fun s _ => Judged i rid r after s) X
      (modify rid f) s := by
  refine ⟨trivial, fun a s' hst => ?_⟩
  obtain ⟨x, cur, hh, hv⟩ := hs
  refine ⟨x, f cur, holds_assign hst.1 hh hf, ?_⟩
  rw [hst.2]
  exact hv.append (hk cur) rfl rfl

theorem audit_judged {after : String} (action result : String) (detail : Dict)
    (hs : Judged i rid r after s) :
    Sat (traced (World.step rem i)) (fun _ _ => True) (fun s _ => Judged i rid r after s) X
      (audit r action result detail) s :=
  judged_call ⟨trivial, rfl⟩ (fun _ => rfl) hs fun _ _ hs => hs

theorem audit_fresh (action result : String) (detail : Dict) (hs : Fresh i rid r s) :
    Sat (traced (World.step rem i)) (fun _ _ => True) (fun s _ => Fresh i rid r s) X
      (audit r action result detail) s :=
  fresh_call ⟨trivial, rfl⟩ hs fun _ _ hs => hs

theorem record_judged {after : String} (res : ReconcileResult) (hs : Judged i rid r after s) :
    Sat (traced (World.step rem i)) (fun _ _ => True)
      (fun s _ => ∃ cur, Holds s.1.db (s.1.sessions i) rid cur cur false ∧ Verdict r cur s.2 after)
        X
      (record rid res) s := by
  refine Sat.seq (Q := fun s _ => Judged i rid r after s)
    (judged_call ⟨trivial, rfl⟩ (fun _ => rfl) hs fun _ _ hs => hs) fun s t hs => ?_
  refine Sat.seq (assign_judged (fun _ _ _ => ⟨rfl, by simp only [merge_own]⟩) (fun _ => rfl) hs)
    fun s _ hs => ?_
  refine ⟨trivial, fun a s' hst => ?_⟩
  obtain ⟨x, cur, hh, hv⟩ := hs
  obtain ⟨rfl, hf⟩ := holds_flush hst.1 hh
  refine ⟨cur, hf, ?_⟩
  rw [hst.2]
  exact hv.append rfl rfl rfl

theorem correctRunning_judged (pve : Json) (hs : Fresh i rid r s)
    (hrep : Reported r "running" s.2) :
    Sat (traced (World.step rem i)) (fun _ _ => True) (fun s _ => Judged i rid r "RUNNING" s) X
      (correctRunning r pve) s := by
  have ht : Told r s.2 .running := .inr (.inl ⟨rfl, hrep⟩)
  unfold correctRunning
  split
  · rw [hs.holds.key.1]
    refine Sat.seq (assign_told _ (fun _ _ _ => ⟨rfl, by simp only [merge_own]⟩) hs ht
      ⟨.running, rfl, ht⟩) fun s _ hs => ?_
    exact audit_judged _ _ _ hs
  · exact ⟨r, r, hs.holds, .inl ⟨hs.unacked, told_recorded r s.2, .running, rfl, ht⟩⟩

theorem correctStopped_judged (pve : Json) (hs : Fresh i rid r s)
    (hrep : Reported r "stopped" s.2) :
    Sat (traced (World.step rem i)) (fun _ _ => True) (fun s _ => Judged i rid r "STOPPED" s) X
      (correctStopped r pve) s := by
  have ht : Told r s.2 .stopped := .inr (.inr ⟨rfl, hrep⟩)
  unfold correctStopped
  split
  · rw [hs.holds.key.1]
    refine Sat.seq (assign_told _ (fun _ _ _ => ⟨rfl, by simp only [merge_own]⟩) hs ht
      ⟨.stopped, rfl, ht⟩) fun s _ hs => ?_
    exact audit_judged _ _ _ hs
  · exact ⟨r, r, hs.holds, .inl ⟨hs.unacked, told_recorded r s.2, .stopped, rfl, ht⟩⟩

theorem verifyOwned_fresh (cfg : Settings) (hs : Fresh i rid r s) :
    Sat (traced (World.step rem i)) (fun _ _ => True) (fun s _ => Fresh i rid r s)
      (fun s _ => Fresh i rid r s)
      (verifyOwned cfg r) s :=
  fresh_only ((only_verifyOwned cfg r).mono fun _ he => harmless_of_observes he) hs

theorem exhausted_judged (before : String) (hb : before = r.actualState.value)
    (hs : Fresh i rid r s) :
    Sat (traced (World.step rem i)) (fun _ _ => True) (fun s res => Judged i rid r res.after s) X
      (exhausted r before) s := by
  unfold exhausted
  dsimp only
  rw [hs.holds.key.1]
  refine Sat.seq (assign_told before (fun _ _ _ => ⟨rfl, by simp only [merge_own]⟩) hs
    (told_recorded r s.2) ⟨r.actualState, hb, told_recorded r s.2⟩) fun s _ hs => ?_
  exact Sat.seq (audit_judged _ _ _ hs) fun _ _ hs => hs

theorem backoff_fresh (rs : ReconcileSettings) (hs : Fresh i rid r s) :
    Sat (traced (World.step rem i)) (fun _ _ => True) (fun s _ => Fresh i rid r s) X (backoff rs r)
      s := by
  unfold backoff
  split
  · refine Sat.seq (audit_fresh _ _ _ hs) fun s _ hs => ?_
    exact fresh_call ⟨trivial, rfl⟩ hs fun _ _ hs => hs
  · exact hs

theorem startAttempt_judged {n : String} {v : Int} (before : String) (hs : Fresh i rid r s) :
    Sat (traced (World.step rem i)) (fun _ _ => True) (fun s res => Judged i rid r res.after s)
      (fun s _ => Fresh i rid r s) (startAttempt r before n v) s := by
  refine Sat.seq (audit_fresh _ _ _ hs) fun s _ hs => ?_
  refine Sat.seq (Q := fun s _ => Holds s.1.db (s.1.sessions i) rid r r false ∧ Acknowledged s.2) ?_
    fun s _ hs => ?_
  · refine Sat.seq ((sat_pve _).mpr ⟨trivial, ?_⟩) fun _ _ h => h
    rintro (x | x) s' hst
    · refine ⟨holds_beside hst.1 trivial hs.holds, ?_⟩
      rintro ⟨n', v', y, hm⟩
      rw [hst.2] at hm
      rcases List.mem_append.mp hm with hm | hm
      · exact hs.unacked ⟨n', v', y, hm⟩
      · cases List.mem_singleton.mp hm
    · refine ⟨holds_beside hst.1 trivial hs.holds, s.2, n, v, x, [], hst.2,
        fun y hy => absurd hy List.not_mem_nil⟩
  · rw [hs.1.key.1]
    refine Sat.seq (Q := fun s _ => Judged i rid r "RUNNING" s) ⟨trivial, fun a s' hst => ?_⟩
      fun _ _ hs => hs
    refine ⟨r, _, holds_assign hst.1 hs.1 (fun _ _ _ => ⟨rfl, by simp only [merge_own]⟩),
      .inr ⟨?_, rfl, rfl⟩⟩
    rw [hst.2]
    exact hs.2.append rfl

variable {cfg : Settings} {rs : ReconcileSettings}

theorem reconcileRunning_judged (pve : Json) (hs : Fresh i rid r s)
    (hrep : pve.isStr "running" = true → Reported r "running" s.2) :
    Sat (traced (World.step rem i)) (fun _ _ => True) (fun s res => Judged i rid r res.after s)
      (fun s _ => Fresh i rid r s) (reconcileRunning cfg rs r r.actualState.value pve) s := by
  unfold reconcileRunning
  split
  next hrun => exact Sat.seq (correctRunning_judged pve hs (hrep hrun)) fun _ _ hs => hs
  · split
    · exact hs.judged
    · refine Sat.seq (verifyOwned_fresh cfg hs) fun s _ hs => ?_
      split
      · exact exhausted_judged _ rfl hs
      · refine Sat.seq (backoff_fresh rs hs) fun s _ hs => ?_
        split
        · exact startAttempt_judged _ hs
        · exact hs

theorem power_fresh {c : PveCall} {Q : World R × PyTrace → Json → Prop} (hc : ∀ n v, c ≠ .start n v)
    (hs : Fresh i rid r s) (hk : ∀ a s, Fresh i rid r s → Ends Q X s a) :
    Sat (traced (World.step rem i)) (fun _ _ => True) Q X (pve c) s := by
  refine (sat_pve c).mpr ⟨trivial, fun a s' hst =>
    hk a s' ⟨holds_beside hst.1 trivial hs.holds, ?_⟩⟩
  rintro ⟨n, v, x, hm⟩
  rw [hst.2] at hm
  rcases List.mem_append.mp hm with hm | hm
  · exact hs.unacked ⟨n, v, x, hm⟩
  · have he := congrArg Sigma.fst (List.mem_singleton.mp hm)
    exact hc n v (Eff.pve.inj he).symm

theorem shutdownVm_fresh (hs : Fresh i rid r s) :
    Sat (traced (World.step rem i)) (fun _ _ => True) (fun s _ => Fresh i rid r s)
      (fun s _ => Fresh i rid r s)
      (shutdownVm r) s := by
  unfold shutdownVm
  split
  next n v _ _ =>
      refine (sat_tryCatch _ _ _).mpr (Sat.seq (Q := fun s _ => Fresh i rid r s) ?_ fun _ _ hs =>
        hs)
      refine power_fresh (fun _ _ h => by cases h) hs fun a s hs => ?_
      cases a with
      | ok x => exact hs
      | error x =>
          refine Sat.seq (Q := fun s _ => Fresh i rid r s) ?_ fun _ _ hs => hs
          refine power_fresh (fun _ _ h => by cases h) hs fun a s hs => ?_
          cases a with
          | ok y => exact hs
          | error y => exact hs
  · exact hs

theorem waitPveLoop_reported (n : Nat) (state : Json) (hs : Fresh i rid r s)
    (hrep : state.isStr "stopped" = true → Reported r "stopped" s.2) :
    Sat (traced (World.step rem i)) (fun _ _ => True)
      (fun s after => Fresh i rid r s ∧ (after.isStr "stopped" = true → Reported r "stopped" s.2)) X
      (waitPveLoop r.node r.vmid "stopped" n state) s := by
  induction n generalizing state s with
  | zero => exact ⟨hs, hrep⟩
  | succ n ih =>
      unfold waitPveLoop
      split
      · exact ⟨hs, hrep⟩
      · refine Sat.seq (Q := fun s _ => Fresh i rid r s)
          (fresh_call ⟨trivial, rfl⟩ hs fun _ _ hs => hs) fun s _ hs => ?_
        refine Sat.seq (pveVmState_reported hs) fun s pve hs => ?_
        exact ih pve hs.1 (hs.2 "stopped" (by decide) (by decide) (by decide))

theorem shutdownOutcome_judged (after : Json) (hs : Fresh i rid r s)
    (hrep : after.isStr "stopped" = true → Reported r "stopped" s.2) :
    Sat (traced (World.step rem i)) (fun _ _ => True) (fun s res => Judged i rid r res.after s) X
      (shutdownOutcome r r.actualState.value after) s := by
  unfold shutdownOutcome
  split
  next hstop =>
      have ht : Told r s.2 .stopped := .inr (.inr ⟨rfl, hrep hstop⟩)
      rw [hs.holds.key.1]
      exact Sat.seq (assign_told _ (fun _ _ _ => ⟨rfl, by simp only [merge_own]⟩) hs ht
        ⟨.stopped, rfl, ht⟩)
        fun _ _ hs => hs
  · dsimp only
    rw [hs.holds.key.1]
    refine Sat.seq (assign_told r.actualState.value (fun _ _ _ => ⟨rfl, by simp only [merge_own]⟩)
      hs
      (told_recorded r s.2) ⟨r.actualState, rfl, told_recorded r s.2⟩) fun s _ hs => ?_
    exact Sat.seq (audit_judged _ _ _ hs) fun _ _ hs => hs

theorem reconcileStopped_judged (pve : Json) (hs : Fresh i rid r s)
    (hrep : pve.isStr "stopped" = true → Reported r "stopped" s.2) :
    Sat (traced (World.step rem i)) (fun _ _ => True) (fun s res => Judged i rid r res.after s)
      (fun s _ => Fresh i rid r s) (reconcileStopped cfg rs r r.actualState.value pve) s := by
  unfold reconcileStopped
  split
  next hstop => exact Sat.seq (correctStopped_judged pve hs (hrep hstop)) fun _ _ hs => hs
  · split
    · exact hs.judged
    · refine Sat.seq (verifyOwned_fresh cfg hs) fun s _ hs => ?_
      refine Sat.seq (audit_fresh _ _ _ hs) fun s _ hs => ?_
      refine Sat.seq (shutdownVm_fresh hs) fun s _ hs => ?_
      refine Sat.seq (Q := fun s after => Fresh i rid r s ∧
        (after.isStr "stopped" = true → Reported r "stopped" s.2))
        ?_ fun s after hs => shutdownOutcome_judged after hs.1 hs.2
      refine Sat.seq (Q := fun s _ => Fresh i rid r s)
        (fresh_call ⟨trivial, rfl⟩ hs fun _ _ hs => hs) fun s n hs => ?_
      refine Sat.seq (pveVmState_reported hs) fun s state hs => ?_
      exact waitPveLoop_reported n state hs.1 (hs.2 "stopped" (by decide) (by decide) (by decide))

theorem refusal_judged (x : PyExc) (hs : Fresh i rid r s) :
    Sat (traced (World.step rem i)) (fun _ _ => True) (fun s res => Judged i rid r res.after s) X
      (refusal r x) s := by
  unfold refusal
  dsimp only
  split
  · exact Sat.seq (audit_fresh _ _ _ hs) fun _ _ hs => hs.judged
  · exact Sat.seq (audit_fresh _ _ _ hs) fun _ _ hs => hs.judged

theorem reconcileRow_judged (hs : Fresh i rid r s) :
    Sat (traced (World.step rem i)) (fun _ _ => True)
      (fun s res => ∃ cur, Holds s.1.db (s.1.sessions i) rid cur cur false ∧
        Verdict r cur s.2 res.after) X
      (reconcileRow cfg rs rid r) s := by
  have hskip : ∀ {s : World R × PyTrace} (note : String), Fresh i rid r s →
      Sat (traced (World.step rem i)) (fun _ _ => True)
        (fun s res => ∃ cur, Holds s.1.db (s.1.sessions i) rid cur cur false ∧
          Verdict r cur s.2 res.after) X
        (skip rid r note) s := by
    intro s note hs
    exact Sat.seq (record_judged (untouched r .noop none [("note", .str note)]) hs.judged)
      fun _ _ hs => hs
  unfold reconcileRow
  split
  · exact hskip _ hs
  · refine Sat.seq (pveVmState_reported hs) fun s pve hs => ?_
    split
    · exact hskip _ hs.1
    · split
      · refine Sat.seq (assign_told r.actualState.value
          (fun _ _ _ => ⟨rfl, by simp only [merge_own]⟩) hs.1
          (told_recorded r s.2) ⟨r.actualState, rfl, told_recorded r s.2⟩) fun s _ hs => ?_
        exact Sat.seq (record_judged _ hs) fun _ _ hs => hs
      · have hc : Sat (traced (World.step rem i)) (fun _ _ => True)
            (fun s res => Judged i rid r res.after s) X
            (tryCatch (converge cfg rs r pve) (refusal r)) s := by
          refine (sat_tryCatch _ _ _).mpr (Sat.mono (X := fun s _ => Fresh i rid r s) ?_
            (fun _ _ h => h)
            fun s x hs => refusal_judged x hs)
          unfold converge
          split
          · exact reconcileRunning_judged pve hs.1
              (hs.2 "running" (by decide) (by decide) (by decide))
          · exact reconcileStopped_judged pve hs.1
              (hs.2 "stopped" (by decide) (by decide) (by decide))
        refine Sat.seq hc fun s res hs => ?_
        exact Sat.seq (record_judged res hs) fun _ _ hs => hs

variable {w w' : World R} {r' : AgentRuntime} {tr : PyTrace} {res : ReconcileResult}

theorem reconcile_verdict (hr : Ready w.db (w.sessions i) rid r)
    (hx : Exec (World.step rem i) w (reconcileRuntime cfg rs rid) tr w' (.ret res))
    (hr' : seenRow w'.db (w'.sessions i) rid = some r') : Verdict r r' tr res.after := by
  have hs : Sat (traced (World.step rem i)) (fun _ _ => True)
      (fun s res => ∃ cur, Holds s.1.db (s.1.sessions i) rid cur cur false ∧
        Verdict r cur s.2 res.after)
      (fun _ _ => False) (reconcileRuntime cfg rs rid) (w, []) := by
    unfold reconcileRuntime
    rw [sat_bind, sat_getRuntime]
    refine ⟨trivial, fun a s hst => ?_⟩
    obtain ⟨rfl, hh⟩ := ready_get hst.1 hr
    refine reconcileRow_judged ⟨hh, ?_⟩
    rw [hst.2]
    rintro ⟨n, v, x, hm⟩
    cases List.mem_singleton.mp hm
  obtain ⟨cur, hh, hv⟩ := hs.exec (hx.traced [])
  obtain rfl : r' = cur := Option.some.inj (hr'.symm.trans hh.row)
  exact hv

/-- A pass that changes the recorded state to RUNNING or STOPPED, or returns it
for a row that said otherwise, has it from PVE after its last lifecycle call. -/
structure Honest (r r' : AgentRuntime) (after : String) (log : PyTrace) : Prop where
  running : r.actualState ≠ .running → r'.actualState = .running ∨ after = "RUNNING" →
    Reported r "running" log
  stopped : r.actualState ≠ .stopped → r'.actualState = .stopped ∨ after = "STOPPED" →
    Reported r "stopped" log

theorem Told.running {a : ActualState} (h : Told r log a) (hne : r.actualState ≠ .running)
    (ha : a = .running) :
    Reported r "running" log := by
  subst ha
  rcases h with h | ⟨-, h⟩ | ⟨h, -⟩
  · exact absurd h.symm hne
  · exact h
  · cases h

theorem Told.stopped {a : ActualState} (h : Told r log a) (hne : r.actualState ≠ .stopped)
    (ha : a = .stopped) :
    Reported r "stopped" log := by
  subst ha
  rcases h with h | ⟨h, -⟩ | ⟨-, h⟩
  · exact absurd h.symm hne
  · cases h
  · exact h

theorem value_running {a : ActualState} (h : a.value = "RUNNING") : a = .running := by
  cases a <;> simp [ActualState.value] at h ⊢

theorem value_stopped {a : ActualState} (h : a.value = "STOPPED") : a = .stopped := by
  cases a <;> simp [ActualState.value] at h ⊢

theorem Verdict.honest {after : String} (h : Verdict r r' log after) :
    Honest r r' after log ↔ (acked log → r.actualState = .running) := by
  rcases h with ⟨hn, ht, a, rfl, hta⟩ | ⟨hk, hrun, rfl⟩
  · refine ⟨fun _ ha => absurd ha hn, fun _ => ⟨fun hne hc => ?_, fun hne hc => ?_⟩⟩
    · rcases hc with hc | hc
      · exact ht.running hne hc
      · exact hta.running hne (value_running hc)
    · rcases hc with hc | hc
      · exact ht.stopped hne hc
      · exact hta.stopped hne (value_stopped hc)
  · constructor
    · intro h _
      by_contra hne
      exact hk.unreported (h.running hne (.inl hrun))
    · intro h
      have ha := h hk.acked
      refine ⟨fun hne => absurd ha hne, fun _ hc => ?_⟩
      rcases hc with hc | hc
      · rw [hrun] at hc
        cases hc
      · exact absurd hc (by decide)

/-- The recorded state is honest exactly when no start was acknowledged for a
row that did not say RUNNING already. -/
theorem honest_iff (hr : Ready w.db (w.sessions i) rid r)
    (hx : Exec (World.step rem i) w (reconcileRuntime cfg rs rid) tr w' (.ret res))
    (hr' : seenRow w'.db (w'.sessions i) rid = some r') :
    Honest r r' res.after tr ↔ (acked tr → r.actualState = .running) :=
  (reconcile_verdict hr hx hr').honest

/-- A reconcile of the worker against these answers, in a session of its own. -/
def attempt (orc : Replay.Oracle Unit) : PyTrace × Replay.Machine Unit × Py ReconcileResult :=
  play (Replay.Machine.answer orc 0) 40 ⟨{ runtimes := [⟨worker, 0⟩] }, [{}], 0, [], ()⟩
    (reconcileRuntime {} {} workerId)

def attemptRow (orc : Replay.Oracle Unit) : Option AgentRuntime :=
  seenRow (attempt orc).2.1.db ((attempt orc).2.1.session 0) workerId

def ends : Py ReconcileResult → Bool
  | .ret _ => true
  | _ => false

theorem ends_ret {p : Py ReconcileResult} (h : ends p = true) : ∃ res, p = .ret res := by
  cases p with
  | ret res => exact ⟨res, rfl⟩
  | raise x => cases h
  | call e k => cases h

def before : World Unit :=
  Replay.Machine.world (fun _ => ()) ⟨{ runtimes := [⟨worker, 0⟩] }, [{}], 0, [], ()⟩

def behind (orc : Replay.Oracle Unit) : World Unit := (attempt orc).2.1.world fun _ => ()

theorem behind_row {orc : Replay.Oracle Unit} {r' : AgentRuntime} (h : attemptRow orc = some r') :
    seenRow (behind orc).db ((behind orc).sessions 0) workerId = some r' := h

theorem before_ready : Ready before.db (before.sessions 0) workerId worker := ready_alone worker

theorem attempt_exec (orc : Replay.Oracle Unit) :
    Exec (World.step Remote.any 0) before (reconcileRuntime {} {} workerId) (attempt orc).1
      (behind orc)
      (attempt orc).2.2 :=
  play_exec (Replay.Machine.world fun _ => ()) (Replay.Machine.answer orc 0)
    (fun m e a m' => Replay.Machine.answer_step orc.follows_any 0 m e a m') 40
    ⟨{ runtimes := [⟨worker, 0⟩] }, [{}], 0, [], ()⟩ (reconcileRuntime {} {} workerId)

def isAcked : Event Eff Ans → Bool
  | ⟨.pve (.start ..), .ok _⟩ => true
  | _ => false

theorem acked_iff_any : acked log ↔ log.any isAcked = true := by
  rw [List.any_eq_true]
  constructor
  · rintro ⟨n, v, x, hm⟩
    exact ⟨_, hm, rfl⟩
  · rintro ⟨⟨e, a⟩, hm, ha⟩
    unfold isAcked at ha
    split at ha
    next n v x heq =>
        rw [heq] at hm
        exact ⟨n, v, x, hm⟩
    · cases ha

theorem starting_attempt : (ends (attempt starting).2.2 && (attempt starting).1.any isAcked &&
    (attemptRow starting).isSome) = true := by
  decide +kernel

/-- PVE acknowledges the start of the worker and says no more: the row reads RUNNING. -/
theorem acknowledged_not_running :
    ¬ ∀ (rem : Remote Unit) (cfg : Settings) (rs : ReconcileSettings) (i : Nat) (rid : Uuid) (r r' :
      AgentRuntime)
      (w w' : World Unit) (tr : PyTrace) (res : ReconcileResult), Ready w.db (w.sessions i) rid r →
        Exec (World.step rem i) w (reconcileRuntime cfg rs rid) tr w' (.ret res) →
          seenRow w'.db (w'.sessions i) rid = some r' → Honest r r' res.after tr := by
  intro h
  have hs := starting_attempt
  simp only [Bool.and_eq_true] at hs
  obtain ⟨⟨hend, hack⟩, hrow⟩ := hs
  obtain ⟨res, hres⟩ := ends_ret hend
  obtain ⟨r', hr'⟩ := Option.isSome_iff_exists.mp hrow
  have hx := attempt_exec starting
  rw [hres] at hx
  have hseen := behind_row hr'
  have hhonest :=
    h Remote.any {} {} 0 workerId worker r' before (behind starting) _ res before_ready hx hseen
  have hlog : acked (attempt starting).1 := acked_iff_any.mpr hack
  have hstopped : worker.actualState ≠ .running := by decide
  exact hstopped ((reconcile_verdict before_ready hx hseen).honest.mp hhonest hlog)

theorem seenUp_attempt : (ends (attempt up).2.2 && !(attempt up).1.any isAcked &&
    (attemptRow up).isSome) = true := by
  decide +kernel

/-- The worker is found running: its row says so from what PVE reports. -/
theorem seenUp_honest :
    ∃ r' res, attemptRow up = some r' ∧ (attempt up).2.2 = .ret res ∧
      Honest worker r' res.after (attempt up).1 := by
  have hs := seenUp_attempt
  simp only [Bool.and_eq_true, Bool.not_eq_true'] at hs
  obtain ⟨⟨hend, hack⟩, hrow⟩ := hs
  obtain ⟨res, hres⟩ := ends_ret hend
  obtain ⟨r', hr'⟩ := Option.isSome_iff_exists.mp hrow
  have hx := attempt_exec up
  rw [hres] at hx
  have hseen := behind_row hr'
  refine ⟨r', res, hr', hres, (honest_iff before_ready hx hseen).mpr fun ha => ?_⟩
  rw [acked_iff_any, hack] at ha
  cases ha

end ServerManager.PowerEvidence
