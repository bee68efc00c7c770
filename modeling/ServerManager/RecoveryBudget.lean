import ServerManager.OwnershipGate
import ServerManager.Replay
import ServerManager.Sessions
import Mathlib.Algebra.GroupWithZero.Nat

namespace ServerManager.RecoveryBudget

open Interaction PyJson Orm Effects Config ProxmoxVm Reconciliation Storage Calls Sessions Replay
  OwnershipGate

def isStatus : Event Eff Ans → Bool
  | ⟨.pve (.status ..), _⟩ => true
  | _ => false

def reports (state : String) : Event Eff Ans → Bool
  | ⟨.pve (.status ..), .ok (.obj fs)⟩ => ((Dict.get? fs "status").getD .null).isStr state
  | _ => false

/-- What PVE reported to the pass: the first status read says so. -/
def observed (state : String) (log : PyTrace) : Bool := (log.find? isStatus).any (reports state)

def running (log : PyTrace) : Bool := observed "running" log

def stopped (log : PyTrace) : Bool := observed "stopped" log

def startOf : Event Eff Ans → Option Bool
  | ⟨.pve (.start ..), .ok _⟩ => some true
  | ⟨.pve (.start ..), .error _⟩ => some false
  | _ => none

/-- The start calls of the pass; each tells whether it returned normally. -/
def starts (log : PyTrace) : List Bool := log.filterMap startOf

def isRefusal : Event Eff Ans → Bool
  | ⟨.db (.addEvent ev), _⟩ => ev.action == "reconcile_recovery_exhausted"
  | _ => false

/-- The pass refused to start the VM because no attempts were left. -/
def refused (log : PyTrace) : Bool := log.any isRefusal

def isFailure : Event Eff Ans → Bool
  | ⟨.db (.addEvent ev), _⟩ => ev.action == "reconcile_refused" || ev.action == "reconcile_failed"
  | _ => false

/-- An exception, such as a refused verification, was recorded by the pass. -/
def failed (log : PyTrace) : Bool := log.any isFailure

/-- A VM that was seen stopped has been started, or the pass says why not. -/
def Answered (log : PyTrace) : Prop :=
  stopped log = true → starts log ≠ [] ∨ refused log = true ∨ failed log = true

def unseen (e : Eff) : Prop :=
  ∀ a : Ans e, isStatus ⟨e, a⟩ = false ∧ startOf ⟨e, a⟩ = none ∧ isRefusal ⟨e, a⟩ = false

variable {log : PyTrace} {e : Eff} {a : Ans e}

theorem observed_append {ev : Event Eff Ans} (h : isStatus ev = false) (state : String) :
    observed state (log ++ [ev]) = observed state log := by
  simp only [observed, List.find?_append, List.find?_singleton, h]
  simp

theorem running_append {ev : Event Eff Ans} (h : isStatus ev = false) :
    running (log ++ [ev]) = running log :=
  observed_append h "running"

theorem stopped_append {ev : Event Eff Ans} (h : isStatus ev = false) :
    stopped (log ++ [ev]) = stopped log :=
  observed_append h "stopped"

theorem observed_known (h : log.any isStatus = true) (ev : Event Eff Ans) (state : String) :
    observed state (log ++ [ev]) = observed state log := by
  obtain ⟨x, hm, hx⟩ := List.any_eq_true.mp h
  obtain ⟨y, hy⟩ := Option.isSome_iff_exists.mp (List.find?_isSome.mpr ⟨x, hm, hx⟩)
  simp [observed, List.find?_append, hy]

theorem starts_append (ev : Event Eff Ans) : starts
    (log ++ [ev]) = starts log ++ (startOf ev).toList := by
  cases h : startOf ev with
  | none => simp [starts, List.filterMap_append, h]
  | some b => simp [starts, List.filterMap_append, h]

theorem refused_append (ev : Event Eff Ans) :
    refused (log ++ [ev]) = (refused log || isRefusal ev) := by
  simp [refused, List.any_append]

theorem answered_append {ev : Event Eff Ans} (h : isStatus ev = false) (hans : Answered log) :
    Answered (log ++ [ev]) := by
  intro hs
  rw [stopped_append h] at hs
  rcases hans hs with hst | href | hf
  · refine .inl fun he => hst ?_
    rw [starts_append] at he
    exact (List.append_eq_nil_iff.mp he).1
  · exact .inr (.inl (by rw [refused_append, href]; rfl))
  · exact .inr (.inr (by rw [failed, List.any_append, show log.any isFailure = true from hf]; rfl))

/-- What a pass over the row `r` has done when the row reads `cur`. -/
structure Outcome (limit : Int) (r cur : AgentRuntime) (log : PyTrace) : Prop where
  desired : cur.desiredState = r.desiredState
  refusal : refused log = true → limit ≤ r.recoveryCount
  ends :
    (running log = true ∧ starts log = [] ∧ cur.actualState = .running ∧
      cur.recoveryCount = if r.actualState = .running then r.recoveryCount else 0) ∨
    (running log = false ∧ starts log = [] ∧ cur.actualState = r.actualState ∧
      cur.recoveryCount = r.recoveryCount) ∨
    (running log = false ∧ starts log = [true] ∧ r.recoveryCount < limit ∧
    cur.actualState = .running ∧
      cur.recoveryCount = r.recoveryCount + 1) ∨
    (running log = false ∧ starts log = [false] ∧ r.recoveryCount < limit ∧
    cur.actualState = r.actualState ∧
      cur.recoveryCount = r.recoveryCount)

variable {limit : Int} {r cur cur' : AgentRuntime}

theorem Outcome.congr {log' : PyTrace} (h : Outcome limit r cur log)
    (hd : cur'.desiredState = cur.desiredState)
    (ha : cur'.actualState = cur.actualState) (hc : cur'.recoveryCount = cur.recoveryCount)
    (hrun : running log' = running log) (hst : starts log' = starts log)
    (href : refused log' = refused log) :
    Outcome limit r cur' log' where
  desired := hd.trans h.desired
  refusal hr := h.refusal (href ▸ hr)
  ends := by
    rw [hrun, hst, ha, hc]
    exact h.ends

theorem Outcome.unseen (h : Outcome limit r cur log) (he : unseen e) (a : Ans e) :
    Outcome limit r cur (log ++ [⟨e, a⟩]) := by
  refine h.congr rfl rfl rfl (running_append (he a).1) ?_ ?_
  · rw [starts_append, (he a).2.1]
    exact List.append_nil _
  · rw [refused_append, (he a).2.2, Bool.or_false]

variable {R : Type} {rem : Remote R} {i : Nat} {rid : Uuid} {s : World R × PyTrace}

/-- The row is in hand and still as it was read; `b` and `c` say whether PVE
reported the VM running or stopped. -/
structure Seen (i : Nat) (rid : Uuid) (r : AgentRuntime) (b c : Bool) (s : World R × PyTrace) :
    Prop where
  holds : Holds s.1.db (s.1.sessions i) rid r r false
  running : RecoveryBudget.running s.2 = b
  stopped : RecoveryBudget.stopped s.2 = c
  starts : RecoveryBudget.starts s.2 = []
  refused : RecoveryBudget.refused s.2 = false

/-- The row is in hand with an outcome of the pass over `r`; where `b` says so,
a stopped VM has been answered. -/
def Mid (limit : Int) (i : Nat) (rid : Uuid) (r : AgentRuntime) (b : Bool) (s : World R × PyTrace) :
    Prop :=
  (∃ x cur, Holds s.1.db (s.1.sessions i) rid x cur false ∧ Outcome limit r cur s.2) ∧
    (b = true → Answered s.2)

variable {b c : Bool}

theorem Seen.mid (h : Seen i rid r false c s) (hb : b = true → c = false) :
    Mid limit i rid r b s := by
  refine ⟨⟨r, r, h.holds, rfl, fun hr => ?_, .inr (.inl ⟨h.running, h.starts, rfl, rfl⟩)⟩,
    fun hbt hst => ?_⟩
  · rw [h.refused] at hr
    cases hr
  · rw [h.stopped, hb hbt] at hst
    cases hst

/-- Calls beside the row that the readings do not look at. -/
def quiet (rid : Uuid) (e : Eff) : Prop := beside rid e ∧ unseen e

variable {X : World R × PyTrace → PyExc → Prop}

theorem quiet_mid {α : Type} {k : Ans e → Py α} {Q : World R × PyTrace → α → Prop}
    (he : quiet rid e)
    (hs : Mid limit i rid r b s)
    (hk : ∀ a s, Mid limit i rid r b s → Sat (traced (World.step rem i)) (fun _ _ => True) Q X (k a)
    s) :
    Sat (traced (World.step rem i)) (fun _ _ => True) Q X (.call e k) s := by
  refine ⟨trivial, fun a s' hst => hk a s' ?_⟩
  obtain ⟨⟨x, cur, hh, ho⟩, hans⟩ := hs
  rw [Mid, hst.2]
  exact ⟨⟨x, cur, holds_beside hst.1 he.1 hh, ho.unseen he.2 a⟩,
    fun hb => answered_append (he.2 a).1 (hans hb)⟩

theorem quiet_seen {α : Type} {k : Ans e → Py α} {Q : World R × PyTrace → α → Prop}
    (he : quiet rid e)
    (hs : Seen i rid r b c s)
    (hk : ∀ a s', Seen i rid r b c s' → Sat (traced (World.step rem i)) (fun _ _ => True) Q X (k a)
    s') :
    Sat (traced (World.step rem i)) (fun _ _ => True) Q X (.call e k) s := by
  refine ⟨trivial, fun a s' hst => hk a s' ⟨holds_beside hst.1 he.1 hs.holds, ?_, ?_, ?_, ?_⟩⟩
  · rw [hst.2, running_append (he.2 a).1, hs.running]
  · rw [hst.2, stopped_append (he.2 a).1, hs.stopped]
  · rw [hst.2, starts_append, (he.2 a).2.1, hs.starts]
    rfl
  · rw [hst.2, refused_append, (he.2 a).2.2, hs.refused]
    rfl

theorem observing_seen {α : Type} {p : Py α} (h : Only observes p)
    (hs : Seen i rid r b c s) (hk : s.2.any isStatus = true) :
    Sat (traced (World.step rem i)) (fun _ _ => True) (fun s _ => Seen i rid r b c s)
      (fun s _ => Seen i rid r b c s) p s := by
  have hobs : ∀ e, observes e → beside rid e ∧ ∀ a, startOf ⟨e, a⟩ = none ∧
      isRefusal ⟨e, a⟩ = false := by
    intro e he
    unfold observes at he
    split at he
    all_goals first | exact False.elim he | exact ⟨trivial, fun _ => ⟨rfl, rfl⟩⟩
  refine Sat.mono ((h.keeps (I := fun s => Seen i rid r b c s ∧ s.2.any isStatus = true)
    (fun s e a s' he hm hst => ?_) ⟨hs, hk⟩).weaken fun _ _ _ => trivial) (fun _ _ h => h.1) fun _ _ h => h.1
  obtain ⟨hb, hu⟩ := hobs e he
  refine ⟨⟨holds_beside hst.1 hb hm.1.holds, ?_, ?_, ?_, ?_⟩, ?_⟩
  · rw [hst.2, running, observed_known hm.2]
    exact hm.1.running
  · rw [hst.2, stopped, observed_known hm.2]
    exact hm.1.stopped
  · rw [hst.2, starts_append, (hu a).1, hm.1.starts]
    rfl
  · rw [hst.2, refused_append, (hu a).2, hm.1.refused]
    rfl
  · rw [hst.2, List.any_append, hm.2]
    rfl

theorem quiet_event {ev : RuntimeEvent} (h : ev.action ≠ "reconcile_recovery_exhausted") :
    quiet rid (.db (.addEvent ev)) := by
  refine ⟨trivial, fun a => ⟨rfl, rfl, ?_⟩⟩
  simpa [isRefusal] using h

theorem unseen_modify (f : AgentRuntime → AgentRuntime) : unseen (.db (.modify rid false f)) :=
  fun _ => ⟨rfl, rfl, rfl⟩

theorem assign_mid {f : AgentRuntime → AgentRuntime} (hf : Tracked f)
    (hk : ∀ c, (f c).desiredState = c.desiredState ∧ (f c).actualState = c.actualState ∧
      (f c).recoveryCount = c.recoveryCount) (hs : Mid limit i rid r b s) :
    Sat (traced (World.step rem i)) (fun _ _ => True) (fun s _ => Mid limit i rid r b s) X
      (modify rid f) s := by
  refine ⟨trivial, fun a s' hst => ?_⟩
  obtain ⟨⟨x, cur, hh, ho⟩, hans⟩ := hs
  have hu := ho.unseen (unseen_modify f) a
  change Mid limit i rid r b s'
  rw [Mid, hst.2]
  exact ⟨⟨x, f cur, holds_assign hst.1 hh hf,
    hu.congr (hk cur).1 (hk cur).2.1 (hk cur).2.2 rfl rfl rfl⟩,
    fun hb => answered_append rfl (hans hb)⟩

theorem assign_seen {f : AgentRuntime → AgentRuntime} {d : Bool} (hf : Tracked f)
    (hs : Seen i rid r b c s)
    (ho : ∀ log, running log = b → starts log = [] → refused log = false →
    Outcome limit r (f r) log)
    (hd : d = true → c = false) :
    Sat (traced (World.step rem i)) (fun _ _ => True) (fun s _ => Mid limit i rid r d s) X
      (modify rid f) s := by
  refine ⟨trivial, fun a s' hst => ⟨⟨r, f r, holds_assign hst.1 hs.holds hf, ho _ ?_ ?_ ?_⟩,
    fun hdt hstop => ?_⟩⟩
  · rw [hst.2, running_append rfl, hs.running]
  · rw [hst.2, starts_append, hs.starts]
    rfl
  · rw [hst.2, refused_append, hs.refused]
    rfl
  · rw [hst.2, stopped_append rfl, hs.stopped, hd hdt] at hstop
    cases hstop

theorem correctRunning_sat (pve : Json) (hs : Seen i rid r true false s) :
    Sat (traced (World.step rem i)) (fun _ _ => True) (fun s _ => Mid limit i rid r true s) X
      (correctRunning r pve) s := by
  have hkey : r.runtimeId = rid := hs.holds.key.1
  unfold correctRunning
  split
  next hne =>
      rw [hkey]
      refine Sat.seq (assign_seen (fun _ _ _ => ⟨rfl, by simp only [merge_own]⟩) hs
        (fun log hr hst href => ?_)
        fun _ => rfl) fun s _ hs => quiet_mid (quiet_event (by simp)) hs fun _ _ hs => hs
      refine ⟨rfl, fun h => ?_, .inl ⟨hr, hst, rfl, ?_⟩⟩
      · rw [href] at h
        cases h
      · rw [if_neg hne]
  next heq =>
      have ha : r.actualState = .running := by simpa using heq
      refine ⟨⟨r, r, hs.holds, rfl, fun h => ?_, .inl ⟨hs.running, hs.starts, ha, ?_⟩⟩,
        fun _ h => ?_⟩
      · rw [hs.refused] at h
        cases h
      · rw [if_pos ha]
      · rw [hs.stopped] at h
        cases h

theorem exhausted_sat (before : String) (hl : limit ≤ r.recoveryCount)
    (hs : Seen i rid r false c s) :
    Sat (traced (World.step rem i)) (fun _ _ => True) (fun s _ => Mid limit i rid r true s) X
      (exhausted r before) s := by
  have hkey : r.runtimeId = rid := hs.holds.key.1
  unfold exhausted
  dsimp only
  rw [hkey]
  refine Sat.seq (Q := fun s _ => Mid limit i rid r false s)
    (assign_seen (fun _ _ _ => ⟨rfl, by simp only [merge_own]⟩) hs (fun log hr hst href => ?_)
    nofun) fun s _ hs => ?_
  · exact ⟨rfl, fun _ => hl, .inr (.inl ⟨hr, hst, rfl, rfl⟩)⟩
  · refine Sat.seq (Q := fun s _ => Mid limit i rid r true s) ⟨trivial, fun a s' hst => ?_⟩
      fun _ _ hs => hs
    obtain ⟨⟨x, cur, hh, ho⟩, -⟩ := hs
    refine ⟨⟨x, cur, holds_beside hst.1 trivial hh, ho.desired, fun _ => hl, ?_⟩,
      fun _ _ => .inr (.inl ?_)⟩
    · rw [hst.2, running_append rfl, starts_append]
      simpa [startOf] using ho.ends
    · rw [hst.2, refused_append]
      simp [isRefusal]

/-- The VM has been started, with the outcome `ok` of the call. -/
structure Started (i : Nat) (rid : Uuid) (r : AgentRuntime) (ok : Bool) (s : World R × PyTrace) :
    Prop where
  holds : Holds s.1.db (s.1.sessions i) rid r r false
  running : RecoveryBudget.running s.2 = false
  starts : RecoveryBudget.starts s.2 = [ok]
  refused : RecoveryBudget.refused s.2 = false

theorem start_sat (n : String) (v : Int) (hs : Seen i rid r false c s) :
    Sat (traced (World.step rem i)) (fun _ _ => True) (fun s _ => Started i rid r true s)
      (fun s _ => Started i rid r false s) (start n v) s := by
  refine Sat.seq ((sat_pve _).mpr ⟨trivial, ?_⟩) fun _ _ h => h
  rintro (x | x) s' hst
  all_goals
    refine ⟨holds_beside hst.1 trivial hs.holds, ?_, ?_, ?_⟩
    · rw [hst.2, running_append rfl, hs.running]
    · rw [hst.2, starts_append, hs.starts]
      rfl
    · rw [hst.2, refused_append, hs.refused]
      rfl

theorem Started.mid (h : Started i rid r false s) (hl : r.recoveryCount < limit) :
    Mid limit i rid r b s := by
  refine ⟨⟨r, r, h.holds, rfl, fun hr => ?_, .inr
    (.inr (.inr ⟨h.running, h.starts, hl, rfl, rfl⟩))⟩,
    fun _ _ => .inl ?_⟩
  · rw [h.refused] at hr
    cases hr
  · rw [h.starts]
    exact List.cons_ne_nil _ _

theorem startAttempt_sat {n : String} {v : Int} (before : String) (hl : r.recoveryCount < limit)
    (hs : Seen i rid r false c s) :
    Sat (traced (World.step rem i)) (fun _ _ => True) (fun s _ => Mid limit i rid r true s)
      (fun s _ => Mid limit i rid r false s) (startAttempt r before n v) s := by
  have hkey : r.runtimeId = rid := hs.holds.key.1
  refine Sat.seq (quiet_seen (quiet_event (by simp)) hs fun _ s hs => hs) fun s _ hs => ?_
  refine Sat.seq ((start_sat n v hs).mono (fun _ _ h => h) fun _ _ h => h.mid hl) fun s _ hs => ?_
  rw [hkey]
  refine Sat.seq (Q := fun s _ => Mid limit i rid r true s) ⟨trivial, fun a s' hs' => ?_⟩
    fun _ _ h => h
  have hst : starts s'.2 = [true] := by
    rw [hs'.2, starts_append, hs.starts]
    rfl
  refine ⟨⟨_, _, holds_assign hs'.1 hs.holds (fun _ _ _ => ⟨rfl, by simp only [merge_own]⟩), rfl,
    ?_,
    .inr (.inr (.inl ⟨?_, hst, hl, rfl, rfl⟩))⟩, fun _ _ => .inl ?_⟩
  · rw [hs'.2, refused_append, hs.refused]
    exact fun h => Bool.noConfusion h
  · rw [hs'.2, running_append rfl, hs.running]
  · rw [hst]
    exact List.cons_ne_nil _ _

theorem backoff_sat (rs : ReconcileSettings) (hs : Seen i rid r b c s) :
    Sat (traced (World.step rem i)) (fun _ _ => True) (fun s _ => Seen i rid r b c s) X
      (backoff rs r) s := by
  unfold backoff
  split
  · refine Sat.seq (quiet_seen (quiet_event (by simp)) hs fun _ s hs => hs) fun s _ hs => ?_
    exact quiet_seen ⟨trivial, fun _ => ⟨rfl, rfl, rfl⟩⟩ hs fun _ s hs => hs
  · exact hs

theorem isStr_unique {x : Json} {t u : String} (h : x.isStr t = true) (hne : t ≠ u) :
    x.isStr u = false := by
  cases x with
  | str s =>
      have hs : s = t := by simpa [Json.isStr] using h
      simpa [Json.isStr, hs] using hne
  | null | bool | int | float | arr | obj => rfl

variable {cfg : Settings} {rs : ReconcileSettings}

theorem reconcileRunning_sat (before : String) (pve : Json)
    (hs : Seen i rid r (pve.isStr "running") (pve.isStr "stopped") s)
    (hk : pve.isStr "stopped" = true → s.2.any isStatus = true) :
    Sat (traced (World.step rem i)) (fun _ _ => True)
      (fun s _ => Mid rs.maxRecoveryAttempts i rid r true s)
      (fun s _ => Mid rs.maxRecoveryAttempts i rid r false s) (reconcileRunning cfg rs r before pve)
        s := by
  unfold reconcileRunning
  split
  next hrun =>
      rw [hrun, isStr_unique hrun (by decide)] at hs
      exact Sat.seq (correctRunning_sat pve hs) fun _ _ hs => hs
  next hrun =>
      rw [Bool.not_eq_true] at hrun
      rw [hrun] at hs
      split
      next hstop => exact hs.mid fun _ => by simpa using hstop
      next hstop =>
          have hseen := hk (by simpa using hstop)
          refine Sat.seq ((observing_seen (only_verifyOwned cfg r) hs hseen).mono (fun _ _ h => h)
            fun _ _ h => h.mid nofun) fun s _ hs => ?_
          split
          next hl => exact exhausted_sat before hl hs
          next hl =>
              refine Sat.seq (backoff_sat rs hs) fun s _ hs => ?_
              split
              · exact startAttempt_sat before (by omega) hs
              · exact hs.mid nofun

theorem reports_eq (n : String) (v : Int) (a : Except PyExc Json) {state : String} (hs : state ≠ "")
    (hu : state ≠ "unknown") : reports state ⟨.pve (.status n v), a⟩ =
    (statusState a).isStr state := by
  have hunknown : (Json.str "unknown").isStr state = false := by
    simpa [Json.isStr] using fun h => hu h.symm
  rcases a with x | x
  · exact hunknown.symm
  · cases x with
    | obj fs => exact (isStr_orElse hs hu).symm
    | null | bool | int | float | str | arr => exact hunknown.symm

theorem observed_first {ev : Event Eff Ans} (hl : log.any isStatus = false)
    (hev : isStatus ev = true)
    (state : String) : observed state (log ++ [ev]) = reports state ev := by
  have hn : log.find? isStatus = none := by simpa using hl
  simp [observed, List.find?_append, hn, hev]

theorem pveVmState_sat (hs : Seen i rid r false false s) (hk : s.2.any isStatus = false) :
    Sat (traced (World.step rem i)) (fun _ _ => True)
      (fun s pve => Seen i rid r (pve.isStr "running") (pve.isStr "stopped") s ∧
        (pve.isStr "stopped" = true → s.2.any isStatus = true)) X (pveVmState r.node r.vmid) s := by
  have habsent : Seen i rid r ((Json.str "absent").isStr "running")
      ((Json.str "absent").isStr "stopped") s ∧
      ((Json.str "absent").isStr "stopped" = true → s.2.any isStatus = true) :=
    ⟨hs, fun h => absurd h (by decide)⟩
  cases hn : r.node with
  | none => exact habsent
  | some n =>
      cases hv : r.vmid with
      | none => exact habsent
      | some v =>
          by_cases hne : n = ""
          · subst hne
            exact habsent
          · rw [pveVmState_eq hne]
            refine ⟨trivial, fun a s' hst => ⟨⟨holds_beside hst.1 trivial hs.holds, ?_, ?_, ?_, ?_⟩,
              fun _ => ?_⟩⟩
            · rw [hst.2, running, observed_first hk rfl]
              exact reports_eq n v a (by decide) (by decide)
            · rw [hst.2, stopped, observed_first hk rfl]
              exact reports_eq n v a (by decide) (by decide)
            · rw [hst.2, starts_append, hs.starts]
              rfl
            · rw [hst.2, refused_append, hs.refused]
              rfl
            · rw [hst.2, List.any_append]
              simp [isStatus]

theorem flush_mid (hs : Mid limit i rid r b s) :
    Sat (traced (World.step rem i)) (fun _ _ => True)
      (fun s _ => (∃ cur, Holds s.1.db (s.1.sessions i) rid cur cur false ∧
        Outcome limit r cur s.2) ∧
        (b = true → Answered s.2)) X flush s := by
  refine ⟨trivial, fun a s' hst => ?_⟩
  obtain ⟨⟨x, cur, hh, ho⟩, hans⟩ := hs
  obtain ⟨rfl, hf⟩ := holds_flush hst.1 hh
  have hu := ho.unseen (e := .db .flush) (fun _ => ⟨rfl, rfl, rfl⟩) (.ok ())
  rw [← hst.2] at hu
  refine ⟨⟨cur, hf, hu⟩, fun hb => ?_⟩
  rw [hst.2]
  exact answered_append rfl (hans hb)

theorem record_mid (res : ReconcileResult) (hs : Mid limit i rid r b s) :
    Sat (traced (World.step rem i)) (fun _ _ => True) (fun s _ => Mid limit i rid r b s) X
      (record rid res) s := by
  refine Sat.seq (quiet_mid ⟨trivial, fun _ => ⟨rfl, rfl, rfl⟩⟩ hs fun _ _ hs => hs) fun s t hs =>
    ?_
  refine Sat.seq (assign_mid (fun _ _ _ => ⟨rfl, by simp only [merge_own]⟩)
    (fun _ => ⟨rfl, rfl, rfl⟩) hs)
    fun s _ hs => ?_
  exact (flush_mid hs).mono (fun s _ ⟨⟨cur, hh, ho⟩, hans⟩ => ⟨⟨cur, cur, hh, ho⟩, hans⟩)
    fun _ _ h => h

theorem refusal_mid (x : PyExc) (hs : Mid limit i rid r false s) :
    Sat (traced (World.step rem i)) (fun _ _ => True) (fun s _ => Mid limit i rid r true s) X
      (refusal r x) s := by
  have hfail : ∀ ev : RuntimeEvent, ev.action = "reconcile_refused" ∨
      ev.action = "reconcile_failed" →
      Sat (traced (World.step rem i)) (fun _ _ => True) (fun s _ => Mid limit i rid r true s) X
        (addEvent ev) s := by
    intro ev hev
    have hq : quiet rid (.db (.addEvent ev)) := quiet_event (by rcases hev with h | h <;> simp [h])
    refine ⟨trivial, fun a s' hst => ?_⟩
    obtain ⟨⟨x, cur, hh, ho⟩, -⟩ := hs
    have hu := ho.unseen hq.2 a
    rw [← hst.2] at hu
    refine ⟨⟨x, cur, holds_beside hst.1 trivial hh, hu⟩, fun _ _ => .inr (.inr ?_)⟩
    rw [hst.2, failed, List.any_append]
    simpa [isFailure] using .inr hev
  unfold refusal
  dsimp only
  split
  · exact Sat.seq (hfail _ (.inl rfl)) fun _ _ hs => hs
  · exact Sat.seq (hfail _ (.inr rfl)) fun _ _ hs => hs

theorem reconcileRow_sat (hs : Seen i rid r false false s) (hk : s.2.any isStatus = false)
    (hd : r.desiredState = .desiredRunning) :
    Sat (traced (World.step rem i)) (fun _ _ => True)
      (fun s _ => Mid rs.maxRecoveryAttempts i rid r true s) X
      (reconcileRow cfg rs rid r) s := by
  unfold reconcileRow
  split
  · exact Sat.seq (record_mid _ (hs.mid fun _ => rfl)) fun _ _ hs => hs
  · refine Sat.seq (pveVmState_sat hs hk) fun s pve hs => ?_
    split
    next hdd => rw [hd] at hdd; cases hdd
    · split
      next hu =>
          have hm : Mid rs.maxRecoveryAttempts i rid r true s := by
            rw [isStr_unique hu (by decide), isStr_unique hu (by decide)] at hs
            exact hs.1.mid fun _ => rfl
          unfold unavailable
          refine Sat.seq (assign_mid (fun _ _ _ => ⟨rfl, by simp only [merge_own]⟩)
            (fun _ => ⟨rfl, rfl, rfl⟩)
            hm) fun s _ hs => ?_
          exact Sat.seq (record_mid _ hs) fun _ _ hs => hs
      · have hc : Sat (traced (World.step rem i)) (fun _ _ => True)
            (fun s _ => Mid rs.maxRecoveryAttempts i rid r true s) X
            (tryCatch (converge cfg rs r pve) (refusal r)) s := by
          unfold converge
          rw [if_pos hd]
          refine (sat_tryCatch _ _ _).mpr ((reconcileRunning_sat _ pve hs.1 hs.2).mono
            (fun _ _ h => h) ?_)
          exact fun s x hs => refusal_mid x hs
        refine Sat.seq hc fun s res hs => ?_
        exact Sat.seq (record_mid res hs) fun _ _ hs => hs

/-- A pass over one runtime: `POST /agent-runtimes/{id}/reconcile` makes it in
a session of its own, the loop of `reconcile_all` in the session of the round. -/
def pass (cfg : Settings) (rs : ReconcileSettings) (rid : Uuid) : Py ReconcileResult := do
  let res ← reconcileRuntime cfg rs rid
  commit
  pure res

theorem pass_sat {w : World R} (hr : Ready w.db (w.sessions i) rid r)
    (hd : r.desiredState = .desiredRunning) :
    Sat (traced (World.step rem i)) (fun _ _ => True)
      (fun s _ => (∃ r', s.1.db.runtime? rid = some r' ∧ Outcome rs.maxRecoveryAttempts r r' s.2) ∧
        Answered s.2)
      (fun _ _ => False) (pass cfg rs rid) (w, []) := by
  refine Sat.seq (Q := fun s _ => Mid rs.maxRecoveryAttempts i rid r true s) ?_ fun s _ hs => ?_
  · unfold reconcileRuntime
    rw [sat_bind, sat_getRuntime]
    refine ⟨trivial, fun a s hst => ?_⟩
    obtain ⟨rfl, hh⟩ := ready_get hst.1 hr
    have hl : s.2 = [⟨.db (.getRuntime rid), some r⟩] := hst.2
    refine reconcileRow_sat ⟨hh, ?_, ?_, ?_, ?_⟩ ?_ hd
    all_goals rw [hl]; rfl
  · rw [sat_bind]
    refine Sat.seq (flush_mid hs) fun s _ hs => ⟨trivial, fun a s' hst => ?_⟩
    obtain ⟨⟨cur, hh, ho⟩, hans⟩ := hs
    have hu := ho.unseen (e := .db .commit) (fun _ => ⟨rfl, rfl, rfl⟩) a
    rw [← hst.2] at hu
    refine ⟨⟨cur, (holds_commit hst.1 hh).2, hu⟩, ?_⟩
    rw [hst.2]
    exact answered_append rfl (hans rfl)

def Ended {α : Type} : Py α → Prop
  | .call .. => False
  | _ => True

/-- Passes one after the other over the runtime `rid`, by any processes and
with anything in between that leaves the row alone. An entry is the trace of a
pass and the row as it was committed by it. -/
inductive History (rem : Remote R) (cfg : Settings) (rs : ReconcileSettings) (rid : Uuid)
    (r₀ : AgentRuntime) :
    List (PyTrace × AgentRuntime) → AgentRuntime → Prop
  | nil : History rem cfg rs rid r₀ [] r₀
  | pass {hist : List (PyTrace × AgentRuntime)} {r r' : AgentRuntime} {w w' : World R} {i : Nat}
      {tr : PyTrace}
      {q : Py ReconcileResult} :
      History rem cfg rs rid r₀ hist r → Ready w.db (w.sessions i) rid r →
        Exec (World.step rem i) w (pass cfg rs rid) tr w' q → Ended q →
          w'.db.runtime? rid = some r' →
        History rem cfg rs rid r₀ (hist ++ [(tr, r')]) r'

variable {r₀ : AgentRuntime} {hist : List (PyTrace × AgentRuntime)}

theorem pass_outcome {w w' : World R} {tr : PyTrace} {q : Py ReconcileResult} {r' : AgentRuntime}
    (hr : Ready w.db (w.sessions i) rid r) (hd : r.desiredState = .desiredRunning)
    (hx : Exec (World.step rem i) w (pass cfg rs rid) tr w' q) (hq : Ended q)
    (hr' : w'.db.runtime? rid = some r') : Outcome rs.maxRecoveryAttempts r r' tr ∧
    Answered tr := by
  have hs := Sat.exec (pass_sat hr hd) (hx.traced [])
  cases q with
  | ret res =>
      obtain ⟨⟨r'', hr'', ho⟩, hans⟩ := hs
      have he : r'' = r' := Option.some.inj (hr''.symm.trans hr')
      subst he
      exact ⟨ho, hans⟩
  | raise x => exact False.elim hs
  | call e k => exact False.elim hq

theorem History.desired (h : History rem cfg rs rid r₀ hist r)
    (hd : r₀.desiredState = .desiredRunning) :
    r.desiredState = .desiredRunning := by
  induction h with
  | nil => exact hd
  | pass _ hr hx hq hr' ih => exact (pass_outcome hr ih hx hq hr').1.desired.trans ih

theorem History.split {l₁ l₂ : List (PyTrace × AgentRuntime)}
    (h : History rem cfg rs rid r₀ (l₁ ++ l₂) r) :
    ∃ r₁, History rem cfg rs rid r₀ l₁ r₁ ∧ History rem cfg rs rid r₁ l₂ r := by
  generalize hl : l₁ ++ l₂ = l at h
  induction h generalizing l₂ with
  | nil =>
      obtain ⟨rfl, rfl⟩ := List.append_eq_nil_iff.mp hl
      exact ⟨r₀, .nil, .nil⟩
  | @pass hist r r' w w' i tr q hh hr hx hq hr' ih =>
      rcases List.eq_nil_or_concat l₂ with rfl | ⟨l₃, x, rfl⟩
      · rw [List.append_nil] at hl
        subst hl
        exact ⟨r', .pass hh hr hx hq hr', .nil⟩
      · rw [List.concat_eq_append, ← List.append_assoc] at hl
        obtain ⟨rfl, he⟩ := List.append_inj' hl rfl
        cases he
        obtain ⟨r₁, h₁, h₂⟩ := ih rfl
        exact ⟨r₁, h₁, List.concat_eq_append ▸ .pass h₂ hr hx hq hr'⟩

def totalStarts (hist : List (PyTrace × AgentRuntime)) : Nat :=
  (hist.map (fun x => (starts x.1).length)).sum

theorem totalStarts_snoc (hist : List (PyTrace × AgentRuntime)) (x : PyTrace × AgentRuntime) :
    totalStarts (hist ++ [x]) = totalStarts hist + (starts x.1).length := by
  simp [totalStarts]

/-- Passes that do not see the VM running count every start that returns, and
make none once the limit is reached. -/
theorem History.counted (h : History rem cfg rs rid r₀ hist r)
    (hd : r₀.desiredState = .desiredRunning)
    (hrun : ∀ x ∈ hist, running x.1 = false) (hok : ∀ x ∈ hist, false ∉ starts x.1) :
    r.recoveryCount = r₀.recoveryCount + totalStarts hist ∧
      (totalStarts hist = 0 ∨ (r.recoveryCount : Int) ≤ rs.maxRecoveryAttempts) := by
  induction h with
  | nil => exact ⟨rfl, .inl rfl⟩
  | @pass hist r r' w w' i tr q hh hr hx hq hr' ih =>
      have ih' :=
        ih (fun x hm => hrun x (List.mem_append_left _ hm)) fun x hm =>
          hok x (List.mem_append_left _ hm)
      have hnot : running tr = false := hrun (tr, r') (by simp)
      have hraise : false ∉ starts tr := hok (tr, r') (by simp)
      rw [totalStarts_snoc]
      rcases (pass_outcome hr (hh.desired hd) hx hq hr').1.ends with h | h | h | h
      · rw [hnot] at h
        exact absurd h.1 Bool.false_ne_true
      · obtain ⟨-, hst, -, hc⟩ := h
        rw [hst, hc]
        simpa using ih'
      · obtain ⟨-, hst, hl, -, hc⟩ := h
        rw [hst, hc, List.length_singleton]
        exact ⟨by omega, .inr (by push_cast; omega)⟩
      · rw [h.2.1] at hraise
        exact absurd List.mem_cons_self hraise

/-- In a history in which no start call raises, the passes between two
consecutive running reports, before the first one or after the last one, make
at most `max_recovery_attempts` start calls: none if the setting is negative. -/
theorem starts_within_limit {before block after : List (PyTrace × AgentRuntime)}
    (h : History rem cfg rs rid r₀ hist r) (hd : r₀.desiredState = .desiredRunning)
    (hok : ∀ x ∈ hist, false ∉ starts x.1) (hl : hist = before ++ block ++ after)
    (hrun : ∀ x ∈ block, running x.1 = false) :
    (totalStarts block : Int) ≤ max rs.maxRecoveryAttempts 0 := by
  subst hl
  obtain ⟨r₂, h₂, -⟩ := h.split
  obtain ⟨r₁, h₁, hb⟩ := h₂.split
  have hokb : ∀ x ∈ block, false ∉ starts x.1 := fun x hm =>
    hok x (List.mem_append_left _ (List.mem_append_right _ hm))
  obtain ⟨hc, hlim⟩ := hb.counted (h₁.desired hd) hrun hokb
  rcases hlim with hz | hlim
  · omega
  · omega

/-- PVE reports this state, shows the marker of the worker, and gives this answer to a start. -/
def pveSays (state : String) (onStart : Except PyExc Json) : Oracle Unit where
  pve _ c :=
    match c with
    | .status .. => some (.ok (.obj [("status", .str state)]), ())
    | .config .. => some (.ok (.obj [("description", .str workerMarker)]), ())
    | .start .. => some (onStart, ())
    | _ => none
  kea _ _ := none
  neigh _ _ := none

/-- A pass in a session of its own over a database that has just this row. -/
def rehearsal (rs : ReconcileSettings) (orc : Oracle Unit) (r : AgentRuntime) :
    PyTrace × Machine Unit × Py ReconcileResult :=
  play (Machine.answer orc 0) 40 ⟨{ runtimes := [⟨r, 0⟩] }, [{}], 0, [], ()⟩
    (pass {} rs r.runtimeId)

def hasEnded {α : Type} : Py α → Bool
  | .call .. => false
  | _ => true

def finished (x : PyTrace × Machine Unit × Py ReconcileResult) (rid : Uuid) : Bool :=
  hasEnded x.2.2 && (x.2.1.db.runtime? rid).isSome

def entry (rs : ReconcileSettings) (orc : Oracle Unit) (r : AgentRuntime) :
    PyTrace × AgentRuntime :=
  ((rehearsal rs orc r).1, ((rehearsal rs orc r).2.1.db.runtime? r.runtimeId).getD r)

theorem ready_alone (r : AgentRuntime) : Ready { runtimes := [⟨r, 0⟩] } {} r.runtimeId r where
  row := by simp [seenRow, Db.runtime?]
  key := rfl
  obj o ho := absurd ho List.not_mem_nil
  keys o ho := absurd ho List.not_mem_nil
  new w hw := absurd hw List.not_mem_nil

theorem History.rehearse (orc : Oracle Unit) (h : History Remote.any {} rs rid r₀ hist r)
    (hk : r.runtimeId = rid)
    (hf : finished (rehearsal rs orc r) rid = true) :
    History Remote.any {} rs rid r₀ (hist ++ [entry rs orc r]) (entry rs orc r).2 := by
  subst hk
  obtain ⟨hq, hr⟩ := Bool.and_eq_true_iff.mp hf
  obtain ⟨r', hr'⟩ := Option.isSome_iff_exists.mp hr
  have he : (entry rs orc r).2 = r' := by simp [entry, hr']
  have hx := play_exec (Machine.world (fun _ => ())) (Machine.answer orc 0)
    (fun m e a m' => Machine.answer_step orc.follows_any 0 m e a m') 40
    ⟨{ runtimes := [⟨r, 0⟩] }, [{}], 0, [], ()⟩ (RecoveryBudget.pass {} rs r.runtimeId)
  have hend : Ended (rehearsal rs orc r).2.2 := by
    cases hp : (rehearsal rs orc r).2.2 with
    | ret a => trivial
    | raise x => trivial
    | call e k =>
        rw [hp] at hq
        cases hq
  have hrow : (rehearsal rs orc r).2.1.db.runtime? r.runtimeId = some (entry rs orc r).2 := by
    rw [he, hr']
  exact .pass h (ready_alone r) hx hend hrow

def oneAttempt : ReconcileSettings := { maxRecoveryAttempts := 1 }

def noStart : Oracle Unit := pveSays "stopped" (.error ⟨.runtimeError, "start failed"⟩)

def starting : Oracle Unit := pveSays "stopped" (.ok .null)

def firstFailure : PyTrace × AgentRuntime := entry oneAttempt noStart worker

def secondFailure : PyTrace × AgentRuntime := entry oneAttempt noStart firstFailure.2

theorem firstFailure_finished : (finished (rehearsal oneAttempt noStart worker) workerId &&
    !running firstFailure.1 && (starts firstFailure.1 == [false]) && firstFailure.2.runtimeId == workerId) = true := by
  decide +kernel

theorem secondFailure_finished : (finished (rehearsal oneAttempt noStart firstFailure.2) workerId &&
    !running secondFailure.1 && (starts secondFailure.1 == [false])) = true := by
  decide +kernel

/-- A start that raises is not counted: two passes that see the VM stopped make
two start calls, where one is allowed. -/
theorem raised_starts_uncounted :
    ¬ ∀ (rs : ReconcileSettings) (r₀ r : AgentRuntime) (block : List (PyTrace × AgentRuntime)),
      History Remote.any {} rs workerId r₀ block r → r₀.desiredState = .desiredRunning →
        (∀ x ∈ block, running x.1 = false) → (totalStarts block : Int) ≤
          max rs.maxRecoveryAttempts 0 := by
  intro h
  have h₁ := firstFailure_finished
  have h₂ := secondFailure_finished
  simp only [Bool.and_eq_true, Bool.not_eq_true', beq_iff_eq] at h₁ h₂
  obtain ⟨⟨⟨hf, hr⟩, hs⟩, hk⟩ := h₁
  obtain ⟨⟨hf', hr'⟩, hs'⟩ := h₂
  have hh : History Remote.any {} oneAttempt workerId worker [firstFailure] firstFailure.2 :=
    History.rehearse noStart .nil rfl hf
  have hh' : History Remote.any {} oneAttempt workerId worker [firstFailure, secondFailure]
      secondFailure.2 :=
    History.rehearse noStart hh hk hf'
  have hle :=
    h oneAttempt worker secondFailure.2 [firstFailure, secondFailure] hh' rfl (by simp [hr, hr'])
  simp only [totalStarts, hs, hs', List.map_cons, List.map_nil] at hle
  exact absurd hle (by decide)

def recovery : PyTrace × AgentRuntime := entry oneAttempt starting worker

theorem recovery_finished : (finished (rehearsal oneAttempt starting worker) workerId &&
    !running recovery.1 && (starts recovery.1 == [true]) && recovery.2.runtimeId == workerId) = true := by
  decide +kernel

theorem recovery_history : History Remote.any {} oneAttempt workerId worker
    [recovery] recovery.2 := by
  have h := recovery_finished
  simp only [Bool.and_eq_true] at h
  exact History.rehearse starting .nil rfl h.1.1.1

theorem recovery_within_limit :
    History Remote.any {} oneAttempt workerId worker [recovery] recovery.2 ∧
      starts recovery.1 = [true] ∧
      (totalStarts [recovery] : Int) ≤ max oneAttempt.maxRecoveryAttempts 0 := by
  have h := recovery_finished
  simp only [Bool.and_eq_true, Bool.not_eq_true', beq_iff_eq] at h
  obtain ⟨⟨⟨-, hr⟩, hs⟩, -⟩ := h
  refine ⟨recovery_history, hs, ?_⟩
  have hh : History Remote.any {} oneAttempt workerId worker ([] ++ [recovery] ++ []) recovery.2 :=
    recovery_history
  exact starts_within_limit hh rfl (by simp [hs]) rfl (by simp [hr])

def served (hist : List (PyTrace × AgentRuntime)) : Prop := ∃ x ∈ hist, true ∈ starts x.1

def sawRunning (hist : List (PyTrace × AgentRuntime)) : Prop := ∃ x ∈ hist, running x.1 = true

theorem served_snoc (hist : List (PyTrace × AgentRuntime)) (x : PyTrace × AgentRuntime) :
    served (hist ++ [x]) ↔ served hist ∨ true ∈ starts x.1 := by
  simp [served, or_and_right, exists_or]

theorem sawRunning_snoc (hist : List (PyTrace × AgentRuntime)) (x : PyTrace × AgentRuntime) :
    sawRunning (hist ++ [x]) ↔ sawRunning hist ∨ running x.1 = true := by
  simp [sawRunning, or_and_right, exists_or]

/-- The count that a running report leaves on a row it finds as it was at the beginning. -/
def resetCount (r₀ : AgentRuntime) : Nat :=
  if r₀.actualState = .running then r₀.recoveryCount else 0

structure After (r₀ r : AgentRuntime) (hist : List (PyTrace × AgentRuntime)) : Prop where
  started : served hist → r.actualState = .running ∧ 0 < r.recoveryCount
  seen : ¬ served hist → sawRunning hist → r.actualState = .running ∧
    r.recoveryCount = resetCount r₀
  idle : ¬ served hist → ¬ sawRunning hist →
    r.actualState = r₀.actualState ∧ r.recoveryCount = r₀.recoveryCount

theorem After.reset (h : After r₀ r hist) :
    ((if r.actualState = .running then r.recoveryCount else 0) = 0) ↔
      ¬ served hist ∧ resetCount r₀ = 0 := by
  by_cases hs : served hist
  · obtain ⟨ha, hc⟩ := h.started hs
    rw [if_pos ha]
    exact ⟨fun h0 => by omega, fun hn => absurd hs hn.1⟩
  · have hr : (if r.actualState = .running then r.recoveryCount else 0) = resetCount r₀ := by
      by_cases hsaw : sawRunning hist
      · obtain ⟨ha, hc⟩ := h.seen hs hsaw
        rw [if_pos ha, hc]
      · obtain ⟨ha, hc⟩ := h.idle hs hsaw
        rw [ha, hc]
        rfl
    rw [hr]
    exact ⟨fun h0 => ⟨hs, h0⟩, fun h0 => h0.2⟩

theorem After.congr {r' : AgentRuntime} {hist' : List (PyTrace × AgentRuntime)}
    (h : After r₀ r hist)
    (hs : served hist' ↔ served hist) (hp : sawRunning hist' ↔ sawRunning hist)
    (ha : r'.actualState = r.actualState) (hc : r'.recoveryCount = r.recoveryCount) :
    After r₀ r' hist' := by
  refine ⟨?_, ?_, ?_⟩
  all_goals rw [hs, ha, hc]
  · exact h.started
  · rw [hp]
    exact h.seen
  · rw [hp]
    exact h.idle

theorem After.snoc {r' : AgentRuntime} {tr : PyTrace} (h : After r₀ r hist)
    (ho : Outcome limit r r' tr) :
    After r₀ r' (hist ++ [(tr, r')]) := by
  have hs := served_snoc hist (tr, r')
  have hp := sawRunning_snoc hist (tr, r')
  rcases ho.ends with ⟨hrun, hst, ha, hc⟩ | ⟨hrun, hst, ha, hc⟩ | ⟨hrun, hst, hl, ha, hc⟩ | ⟨hrun,
    hst, hl, ha, hc⟩
  all_goals
    simp only [hst, hrun, List.not_mem_nil, List.mem_singleton, or_false, or_true,
      Bool.false_eq_true,
      Bool.true_eq_false, iff_true] at hs hp
  · -- a running report resets the count, unless the row already says RUNNING
    refine ⟨fun hs' => ⟨ha, ?_⟩, fun hs' _ => ⟨ha, ?_⟩, fun _ hn => absurd hp hn⟩
    · obtain ⟨hra, hrc⟩ := h.started (hs.mp hs')
      rw [hc, if_pos hra]
      exact hrc
    · have hn : ¬ served hist := fun hx => hs' (hs.mpr hx)
      rw [hc]
      by_cases hsaw : sawRunning hist
      · obtain ⟨hra, hrc⟩ := h.seen hn hsaw
        rw [if_pos hra, hrc]
      · obtain ⟨hra, hrc⟩ := h.idle hn hsaw
        rw [hra, hrc]
        rfl
  · exact h.congr hs hp ha hc
  · refine ⟨fun _ => ⟨ha, by omega⟩, fun hn => absurd hs hn, fun hn => absurd hs hn⟩
  · exact h.congr hs hp ha hc

theorem History.after (h : History rem cfg rs rid r₀ hist r)
    (hd : r₀.desiredState = .desiredRunning) :
    After r₀ r hist := by
  induction h with
  | nil =>
      exact ⟨fun ⟨_, hm, _⟩ => absurd hm List.not_mem_nil,
        fun _ ⟨_, hm, _⟩ => absurd hm List.not_mem_nil,
      fun _ _ => ⟨rfl, rfl⟩⟩
  | pass hh hr hx hq hr' ih => exact ih.snoc (pass_outcome hr (hh.desired hd) hx hq hr').1

/-- A pass that sees the VM running leaves a count of 0, and then the first
pass of the next incident starts the VM or records why it cannot; it does not
refuse for lack of attempts. -/
def FreshBudget (limit : Int) (hist : List (PyTrace × AgentRuntime)) : Prop :=
  ∀ before x after, hist = before ++ x :: after → running x.1 = true →
    x.2.recoveryCount = 0 ∧
      (0 < limit → ∀ y rest, after = y :: rest →
        refused y.1 = false ∧ (stopped y.1 = true → starts y.1 ≠ [] ∨ failed y.1 = true))

theorem History.last {x : PyTrace × AgentRuntime} (h : History rem cfg rs rid r₀ (hist ++ [x]) r)
    (hd : r₀.desiredState = .desiredRunning) :
    ∃ r₁, History rem cfg rs rid r₀ hist r₁ ∧ Outcome rs.maxRecoveryAttempts r₁ x.2 x.1 ∧
      Answered x.1 ∧ r = x.2 := by
  generalize hl : hist ++ [x] = l at h
  cases h with
  | nil => exact absurd hl (by simp)
  | pass hh hr hx hq hr' =>
      obtain ⟨rfl, he⟩ := List.append_inj' hl rfl
      cases he
      obtain ⟨ho, hans⟩ := pass_outcome hr (hh.desired hd) hx hq hr'
      exact ⟨_, hh, ho, hans, rfl⟩

/-- Every incident gets a fresh budget exactly when no pass is reported running
after a start call that returned, and the row the history begins with is not
recorded RUNNING with a count above 0 when a pass is reported running. -/
theorem budget_fresh_iff (h : History rem cfg rs rid r₀ hist r)
    (hd : r₀.desiredState = .desiredRunning) :
    FreshBudget rs.maxRecoveryAttempts hist ↔
      ∀ before x after, hist = before ++ x :: after → running x.1 = true →
        (∀ y ∈ before, true ∉ starts y.1) ∧ (r₀.actualState ≠ .running ∨ r₀.recoveryCount = 0) := by
  have hkey : ∀ before x after, hist = before ++ x :: after → running x.1 = true →
      (x.2.recoveryCount = 0 ↔
        (∀ y ∈ before, true ∉ starts y.1) ∧ (r₀.actualState ≠ .running ∨ r₀.recoveryCount = 0)) := by
    intro before x after hl hrun
    rw [List.append_cons] at hl
    subst hl
    obtain ⟨r₁, h₁, -⟩ := h.split
    obtain ⟨r₂, h₂, ho, -, -⟩ := h₁.last hd
    have hc : x.2.recoveryCount = if r₂.actualState = .running then r₂.recoveryCount else 0 := by
      rcases ho.ends with h | h | h | h
      · exact h.2.2.2
      all_goals exact absurd (hrun.symm.trans h.1) (by decide)
    rw [hc, (h₂.after hd).reset]
    refine and_congr ⟨fun hn y hm ht => hn ⟨y, hm, ht⟩, fun hn ⟨y, hm, ht⟩ => hn y hm ht⟩ ?_
    unfold resetCount
    split
    next ha => exact ⟨.inr, fun h => h.resolve_left fun hne => hne ha⟩
    next ha => exact ⟨fun _ => .inl ha, fun _ => rfl⟩
  constructor
  · intro hf before x after hl hrun
    exact (hkey before x after hl hrun).mp (hf before x after hl hrun).1
  · intro hc before x after hl hrun
    have hzero := (hkey before x after hl hrun).mpr (hc before x after hl hrun)
    refine ⟨hzero, fun hpos y rest ha => ?_⟩
    have hl' : hist = (before ++ [x] ++ [y]) ++ rest := by simp [hl, ha]
    subst hl'
    obtain ⟨r₁, h₁, -⟩ := h.split
    obtain ⟨r₂, h₂, ho, hans, -⟩ := h₁.last hd
    obtain ⟨-, -, -, -, rfl⟩ := h₂.last hd
    have hno : refused y.1 = false := by
      rw [← Bool.not_eq_true]
      intro href
      have hlim := ho.refusal href
      omega
    refine ⟨hno, fun hst => ?_⟩
    rcases hans hst with hs | hr | hf
    · exact .inl hs
    · rw [hno] at hr
      cases hr
    · exact .inr hf

def up : Oracle Unit := pveSays "running" (.ok .null)

def recovered : PyTrace × AgentRuntime := entry oneAttempt up recovery.2

theorem recovered_finished : (finished (rehearsal oneAttempt up recovery.2) workerId &&
    running recovered.1 &&
    recovered.2.recoveryCount == 1) = true := by
  decide +kernel

/-- A running report after a start that returned keeps the count: the row was
recorded RUNNING by the start itself. -/
theorem budget_not_reset :
    ¬ ∀ (rs : ReconcileSettings) (r₀ r : AgentRuntime) (hist : List (PyTrace × AgentRuntime)),
      History Remote.any {} rs workerId r₀ hist r → r₀.desiredState = .desiredRunning →
        FreshBudget rs.maxRecoveryAttempts hist := by
  intro h
  have h₁ := recovery_finished
  have h₂ := recovered_finished
  simp only [Bool.and_eq_true, beq_iff_eq] at h₁ h₂
  obtain ⟨⟨hf, hr⟩, hc⟩ := h₂
  have hh : History Remote.any {} oneAttempt workerId worker [recovery, recovered] recovered.2 :=
    History.rehearse up recovery_history h₁.2 hf
  have hzero := (h oneAttempt worker recovered.2 _ hh rfl [recovery] recovered [] rfl hr).1
  omega

def seenUp : PyTrace × AgentRuntime := entry {} up worker

theorem seenUp_finished : (finished (rehearsal {} up worker) workerId && running seenUp.1) =
    true := by
  decide +kernel

theorem seenUp_budget_fresh :
    History Remote.any {} {} workerId worker [seenUp] seenUp.2 ∧ running seenUp.1 = true ∧
      FreshBudget ({} : ReconcileSettings).maxRecoveryAttempts [seenUp] := by
  obtain ⟨hf, hr⟩ := Bool.and_eq_true_iff.mp seenUp_finished
  have hh : History Remote.any {} {} workerId worker [seenUp] seenUp.2 :=
    History.rehearse up .nil rfl hf
  refine ⟨hh, hr, (budget_fresh_iff hh rfl).mpr ?_⟩
  intro before x after hl _
  obtain ⟨rfl, -⟩ : before = [] ∧ x :: after = [seenUp] := by
    cases before with
    | nil => exact ⟨rfl, hl.symm⟩
    | cons y ys => simp at hl
  exact ⟨fun y hy => absurd hy List.not_mem_nil, .inr rfl⟩

end ServerManager.RecoveryBudget
