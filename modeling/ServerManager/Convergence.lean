import ServerManager.RecoveryBudget
import ServerManager.OwnershipVerdict

namespace ServerManager.Convergence

open Interaction PyJson Orm Effects Config ProxmoxVm Reconciliation Storage Calls Sessions Replay
  OwnershipGate RecoveryBudget

inductive Power
  | running
  | stopped
  deriving DecidableEq

def Power.text : Power → String
  | .running => "running"
  | .stopped => "stopped"

structure Vm where
  node : String
  vmid : Int
  description : String

namespace Vm

def isAt (vm : Vm) (n : String) (v : Int) : Prop := n = vm.node ∧ v = vm.vmid

/-- What PVE answers while the VM is in one power state, and the state it is in
then. A clean shutdown may raise; the forced stop after it does not. -/
def answers (vm : Vm) (p : Power) : PveCall → Except PyExc Json → Power → Prop
  | .status n v, a, p' =>
      p' = p ∧ (vm.isAt n v → ∃ fs, a = .ok (.obj fs) ∧ Dict.get? fs "status" = some (.str p.text))
  | .config n v, a, p' =>
      p' = p ∧ (vm.isAt n v → ∃ fs, a = .ok (.obj fs) ∧
        Dict.get? fs "description" = some (.str vm.description))
  | .start n v, a, p' => (vm.isAt n v → (∃ x, a = .ok x) ∧ p' = .running) ∧ (¬ vm.isAt n v → p' = p)
  | .shutdown n v _, a, p' =>
      (vm.isAt n v → ∀ x, a = .ok x → p' = .stopped) ∧ (¬ vm.isAt n v → p' = p)
  | .stop n v, a, p' => (vm.isAt n v → (∃ x, a = .ok x) ∧ p' = .stopped) ∧ (¬ vm.isAt n v → p' = p)
  | _, _, p' => p' = p

def remote (vm : Vm) : Remote Power where
  pve := vm.answers
  kea p _ _ p' := p' = p
  neigh _ _ _ := True

structure Backs (vm : Vm) (r : AgentRuntime) : Prop where
  node : r.node = some vm.node
  vmid : r.vmid = some vm.vmid
  named : vm.node ≠ ""

end Vm

variable {vm : Vm} {i : Nat} {rid : Uuid} {r x cur : AgentRuntime} {p : Power} {w w' : World Power}

def idle : Eff → Prop
  | .pve (.clone ..) | .pve (.setConfig ..) | .pve (.start ..) | .pve (.shutdown ..)
  | .pve (.stop ..)
  | .pve (.destroy ..) => False
  | .db (.addEvent _) => False
  | _ => True

/-- The row is in hand, loaded as `x` and now `cur`, and the VM is in state `p`. -/
structure Stands (i : Nat) (rid : Uuid) (x cur : AgentRuntime) (p : Power) (w : World Power) :
    Prop where
  holds : Holds w.db (w.sessions i) rid x cur false
  power : w.remote = p

def inHouse : Eff → Prop
  | .pve _ | .kea _ => False
  | _ => True

theorem step_power {rem : Remote Power} {e : Eff} {a : Ans e} (hs : w.step rem i e a w')
    (he : inHouse e) :
    w'.remote = w.remote := by
  cases e with
  | pve c => exact False.elim he
  | kea c => exact False.elim he
  | db c =>
      rcases Frames.dbStep_frame hs with ⟨s, rfl⟩ | rfl | ⟨-, t, -, rfl⟩
      · rfl
      · rfl
      · rfl
  | sys c =>
      cases c with
      | now | uuid4 | ipNeigh => obtain ⟨-, rfl⟩ := hs; rfl
      | sleep | polls | randbelow | tokenUrlsafe | guestExec | leaseInventory =>
          rw [show w' = w from hs]

section Calls

variable {α : Type} {G : World Power → Eff → Prop} {X : World Power → PyExc → Prop}

theorem stands_call {e : Eff} {k : Ans e → Py α} {Q : World Power → α → Prop} (he : beside rid e)
    (hh : inHouse e)
    (hg : G w e) (hs : Stands i rid x cur p w)
    (hk : ∀ a w, Stands i rid x cur p w → Sat (World.step vm.remote i) G Q X (k a) w) :
    Sat (World.step vm.remote i) G Q X (.call e k) w :=
  ⟨hg, fun a w' hst => hk a w' ⟨holds_beside hst he hs.holds, (step_power hst hh).trans hs.power⟩⟩

theorem stands_pve {c : PveCall} {Q : World Power → Json → Prop} (hg : G w (.pve c))
    (hs : Stands i rid x cur p w)
    (hk : ∀ a p' w, vm.answers p c a p' → Stands i rid x cur p' w → Ends Q X w a) :
    Sat (World.step vm.remote i) G Q X (pve c) w := by
  refine (sat_pve c).mpr ⟨hg, fun a w' hst => ?_⟩
  obtain ⟨p', hans, rfl⟩ := hst
  rw [hs.power] at hans
  exact hk a p' _ hans ⟨hs.holds, rfl⟩

theorem assign_stands {f : AgentRuntime → AgentRuntime} (hf : Tracked f)
    (hg : G w (.db (.modify rid false f)))
    (hs : Stands i rid x cur p w) :
    Sat (World.step vm.remote i) G (fun w _ => Stands i rid x (f cur) p w) X (modify rid f) w :=
  ⟨hg, fun _ _ hst => ⟨holds_assign hst hs.holds hf, (step_power hst trivial).trans hs.power⟩⟩

theorem flush_stands (hg : G w (.db .flush)) (hs : Stands i rid x cur p w) :
    Sat (World.step vm.remote i) G (fun w _ => Stands i rid cur cur p w) X flush w := by
  refine ⟨hg, fun a w' hst => ?_⟩
  obtain ⟨rfl, hh⟩ := holds_flush hst hs.holds
  exact ⟨hh, (step_power hst trivial).trans hs.power⟩

theorem audit_stands {y : AgentRuntime} (action result : String) (detail : Dict)
    (hs : Stands i rid x cur p w) :
    Sat (World.step vm.remote i) (fun _ _ => True) (fun w _ => Stands i rid x cur p w) X
      (audit y action result detail) w :=
  stands_call trivial trivial trivial hs fun _ _ hs => hs

end Calls

variable {X : World Power → PyExc → Prop}

theorem statusState_reports {fs : Dict} (h : Dict.get? fs "status" = some (.str p.text)) :
    statusState (.ok (.obj fs)) = .str p.text := by
  simp only [statusState, h, Option.getD_some]
  cases p with
  | running => rfl
  | stopped => rfl

theorem pveVmState_stands (hb : vm.Backs r) (hs : Stands i rid x cur p w) :
    Sat (World.step vm.remote i) (fun _ e => idle e)
      (fun w pve => pve = .str p.text ∧ Stands i rid x cur p w) X
      (pveVmState r.node r.vmid) w := by
  rw [hb.node, hb.vmid, pveVmState_eq hb.named]
  refine ⟨trivial, fun a w' hst => ?_⟩
  obtain ⟨p', ⟨rfl, hans⟩, rfl⟩ := hst
  rw [hs.power] at hans
  obtain ⟨fs, rfl, hget⟩ := hans ⟨rfl, rfl⟩
  exact ⟨statusState_reports hget, hs.holds, hs.power⟩

theorem truthy_of_get {fs : Dict} {key : String} {y : Json} (h : Dict.get? fs key = some y) :
    (Json.obj fs).truthy = true := by
  cases fs with
  | nil => cases h
  | cons f fs => rfl

theorem vmExists_stands (hs : Stands i rid x cur p w) :
    Sat (World.step vm.remote i) (fun _ _ => True)
      (fun w found => found = true ∧ Stands i rid x cur p w) X
      (vmExists vm.node vm.vmid) w := by
  refine (sat_tryCatch _ _ _).mpr (Sat.seq (Q :=
    fun w y => y.truthy = true ∧ Stands i rid x cur p w) ?_
    fun w y hy => by exact hy)
  refine stands_pve trivial hs fun a p' w hans hs' => ?_
  obtain ⟨rfl, hans⟩ := hans
  obtain ⟨fs, rfl, hget⟩ := hans ⟨rfl, rfl⟩
  exact ⟨truthy_of_get hget, hs'⟩

theorem vmConfig_stands (hs : Stands i rid x cur p w) :
    Sat (World.step vm.remote i) (fun _ _ => True)
      (fun w y => (∃ fs, y = .obj fs ∧ Dict.get? fs "description" = some (.str vm.description)) ∧
        Stands i rid x cur p w) X (vmConfig vm.node vm.vmid) w := by
  refine (sat_tryCatch _ _ _).mpr (Sat.seq (Q := fun w y => (∃ fs, y = .obj fs ∧
    Dict.get? fs "description" = some (.str vm.description)) ∧ Stands i rid x cur p w) ?_ fun w y hy => ?_)
  · refine stands_pve trivial hs fun a p' w hans hs' => ?_
    obtain ⟨rfl, hans⟩ := hans
    obtain ⟨fs, rfl, hget⟩ := hans ⟨rfl, rfl⟩
    exact ⟨⟨fs, rfl, hget⟩, hs'⟩
  · obtain ⟨⟨fs, rfl, hget⟩, hs⟩ := hy
    refine ⟨⟨fs, ?_, hget⟩, hs⟩
    unfold Json.orElse
    rw [if_pos (truthy_of_get hget)]

/-- A row the reconciler has to bring to its desired state: it is owned by the
manager, it is neither superseded nor of a protected VM, it desires a running or
a stopped VM, its attempts are not used up, and the VM's description reads as its marker. -/
structure Eligible (cfg : Settings) (rs : ReconcileSettings) (vm : Vm) (r : AgentRuntime) :
    Prop where
  owned : r.createdByAgentRuntimeManager = true
  backed : vm.Backs r
  live : r.actualState ≠ .superseded
  unprotected : vm.vmid ∉ cfg.protectedVmids
  desired : r.desiredState = .desiredRunning ∨ r.desiredState = .desiredStopped
  budget : (r.recoveryCount : Int) < rs.maxRecoveryAttempts
  marker : ∃ m, loads vm.description = some (.obj m) ∧ Marks r m

variable {cfg : Settings} {rs : ReconcileSettings}

theorem description_text {fs : Dict} (h : Dict.get? fs "description" = some (.str vm.description)) :
    ((Dict.get? fs "description").getD .null).orElse (.str "") = .str vm.description := by
  rw [h, Option.getD_some]
  unfold Json.orElse
  split
  · rfl
  next hne =>
      have he : vm.description = "" := by simpa [Json.truthy] using hne
      rw [he]

theorem verifyOwned_stands (he : Eligible cfg rs vm r) (hs : Stands i rid x cur p w) :
    Sat (World.step vm.remote i) (fun _ _ => True) (fun w _ => Stands i rid x cur p w) X
      (verifyOwned cfg r) w := by
  obtain ⟨m, hm, hmarks⟩ := he.marker
  have hfree : cfg.protectedVmids.contains vm.vmid = false := by simpa using he.unprotected
  simp only [verifyOwned, he.backed.node, he.backed.vmid, verifyOwnership, hfree,
    Bool.false_eq_true, if_false]
  refine Sat.seq (vmExists_stands hs) ?_
  rintro w found ⟨rfl, hs⟩
  simp only [he.owned, Bool.not_true, Bool.false_eq_true, if_false]
  refine Sat.seq (vmConfig_stands hs) ?_
  rintro w y ⟨⟨fs, rfl, hget⟩, hs⟩
  simp only [dictGet, sat_bind, sat_pure, description_text hget, hm,
    OwnershipVerdict.checkMarker_marks hmarks]
  exact hs

/-- The VM and the recorded state are as desired. -/
structure Converged (r : AgentRuntime) (p : Power) : Prop where
  running : r.desiredState = .desiredRunning → p = .running ∧ r.actualState = .running
  stopped : r.desiredState = .desiredStopped → p = .stopped ∧ r.actualState = .stopped

/-- The columns that say which VM and what is desired of it. -/
structure Kept (r cur : AgentRuntime) : Prop where
  node : cur.node = r.node
  vmid : cur.vmid = r.vmid
  desired : cur.desiredState = r.desiredState

theorem converged_running (hd : r.desiredState = .desiredRunning) (ha : r.actualState = .running) :
    Converged r .running := by
  refine ⟨fun _ => ⟨rfl, ha⟩, fun h => ?_⟩
  rw [hd] at h
  cases h

theorem converged_stopped (hd : r.desiredState = .desiredStopped) (ha : r.actualState = .stopped) :
    Converged r .stopped := by
  refine ⟨fun h => ?_, fun _ => ⟨rfl, ha⟩⟩
  rw [hd] at h
  cases h

/-- The row is in hand, about the same VM as `r`, and all is as desired. -/
def Reached (i : Nat) (rid : Uuid) (r : AgentRuntime) (w : World Power) : Prop :=
  ∃ x cur p, Stands i rid x cur p w ∧ Kept r cur ∧ Converged cur p

theorem correctRunning_reached (hd : r.desiredState = .desiredRunning) (pve : Json)
    (hs : Stands i rid r r .running w) :
    Sat (World.step vm.remote i) (fun _ _ => True) (fun w _ => Reached i rid r w) X
      (correctRunning r pve) w := by
  unfold correctRunning
  split
  next hne =>
      rw [hs.holds.key.1]
      refine Sat.seq (assign_stands (fun _ _ _ => ⟨rfl, by simp only [merge_own]⟩) trivial hs)
        fun w _ hs => ?_
      refine (audit_stands _ _ _ hs).mono (fun w _ hs => ?_) fun _ _ h => h
      exact ⟨_, _, _, hs, ⟨rfl, rfl, rfl⟩, converged_running hd rfl⟩
  next heq =>
      have ha : r.actualState = .running := by simpa using heq
      exact ⟨r, r, .running, hs, ⟨rfl, rfl, rfl⟩, converged_running hd ha⟩

theorem correctStopped_reached (hd : r.desiredState = .desiredStopped) (pve : Json)
    (hs : Stands i rid r r .stopped w) :
    Sat (World.step vm.remote i) (fun _ _ => True) (fun w _ => Reached i rid r w) X
      (correctStopped r pve) w := by
  unfold correctStopped
  split
  next hne =>
      rw [hs.holds.key.1]
      refine Sat.seq (assign_stands (fun _ _ _ => ⟨rfl, by simp only [merge_own]⟩) trivial hs)
        fun w _ hs => ?_
      refine (audit_stands _ _ _ hs).mono (fun w _ hs => ?_) fun _ _ h => h
      exact ⟨_, _, _, hs, ⟨rfl, rfl, rfl⟩, converged_stopped hd rfl⟩
  next heq =>
      have ha : r.actualState = .stopped := by simpa using heq
      exact ⟨r, r, .stopped, hs, ⟨rfl, rfl, rfl⟩, converged_stopped hd ha⟩

theorem backoff_stands (hs : Stands i rid x cur p w) :
    Sat (World.step vm.remote i) (fun _ _ => True) (fun w _ => Stands i rid x cur p w) X
      (backoff rs r) w := by
  unfold backoff
  split
  · refine Sat.seq (audit_stands _ _ _ hs) fun w _ hs => ?_
    exact stands_call trivial trivial trivial hs fun _ _ hs => hs
  · exact hs

theorem startAttempt_reached (hd : r.desiredState = .desiredRunning) (before : String)
    (hs : Stands i rid r r p w) :
    Sat (World.step vm.remote i) (fun _ _ => True) (fun w _ => Reached i rid r w) X
      (startAttempt r before vm.node vm.vmid) w := by
  refine Sat.seq (audit_stands _ _ _ hs) fun w _ hs => ?_
  refine Sat.seq (Q := fun w _ => Stands i rid r r .running w) ?_ fun w _ hs => ?_
  · refine Sat.seq (Q := fun w _ => Stands i rid r r .running w) ?_ fun _ _ hs => hs
    refine stands_pve trivial hs fun a p' w hans hs => ?_
    obtain ⟨⟨y, rfl⟩, rfl⟩ := hans.1 ⟨rfl, rfl⟩
    exact hs
  · rw [hs.holds.key.1]
    refine Sat.seq (assign_stands (fun _ _ _ => ⟨rfl, by simp only [merge_own]⟩) trivial hs)
      fun w _ hs => ?_
    exact ⟨_, _, _, hs, ⟨rfl, rfl, rfl⟩, converged_running hd rfl⟩

theorem reconcileRunning_reached (he : Eligible cfg rs vm r) (hd : r.desiredState = .desiredRunning)
    (before : String) (hs : Stands i rid r r p w) :
    Sat (World.step vm.remote i) (fun _ _ => True) (fun w _ => Reached i rid r w) X
      (reconcileRunning cfg rs r before (.str p.text)) w := by
  unfold reconcileRunning
  cases p with
  | running => exact Sat.seq (correctRunning_reached hd _ hs) fun _ _ hs => hs
  | stopped =>
      refine Sat.seq (verifyOwned_stands he hs) fun w _ hs => ?_
      rw [if_neg (Int.not_le.mpr he.budget)]
      refine Sat.seq (backoff_stands hs) fun w _ hs => ?_
      simp only [he.backed.node, he.backed.vmid]
      exact startAttempt_reached hd before hs

theorem shutdownVm_stands (hb : vm.Backs r) (hs : Stands i rid x cur p w) :
    Sat (World.step vm.remote i) (fun _ _ => True) (fun w _ => Stands i rid x cur .stopped w) X
      (shutdownVm r) w := by
  simp only [shutdownVm, hb.node, hb.vmid]
  refine (sat_tryCatch _ _ _).mpr (Sat.seq (Q := fun w _ => Stands i rid x cur .stopped w) ?_
    fun _ _ hs => hs)
  refine stands_pve trivial hs fun a p' w hans hs' => ?_
  cases a with
  | ok y =>
      obtain rfl := hans.1 ⟨rfl, rfl⟩ y rfl
      exact hs'
  | error e =>
      refine Sat.seq (Q := fun w _ => Stands i rid x cur .stopped w) ?_ fun _ _ hs => hs
      refine stands_pve trivial hs' fun a p'' w hans hs'' => ?_
      obtain ⟨⟨y, rfl⟩, rfl⟩ := hans.1 ⟨rfl, rfl⟩
      exact hs''

theorem waitPveState_stands (hb : vm.Backs r) (maxS : Nat) (hs : Stands i rid x cur .stopped w) :
    Sat (World.step vm.remote i) (fun _ _ => True)
      (fun w after => after = .str "stopped" ∧ Stands i rid x cur .stopped w) X
      (waitPveState r.node r.vmid "stopped" maxS) w := by
  refine Sat.seq (Q := fun w _ => Stands i rid x cur .stopped w)
    (stands_call trivial trivial trivial hs fun _ _ hs => hs) fun w n hs => ?_
  refine Sat.seq ((pveVmState_stands hb hs).weaken fun _ _ _ => trivial) ?_
  rintro w after ⟨rfl, hs⟩
  cases n with
  | zero => exact ⟨rfl, hs⟩
  | succ n => exact ⟨rfl, hs⟩

theorem reconcileStopped_reached (he : Eligible cfg rs vm r) (hd : r.desiredState = .desiredStopped)
    (before : String) (hs : Stands i rid r r p w) :
    Sat (World.step vm.remote i) (fun _ _ => True) (fun w _ => Reached i rid r w) X
      (reconcileStopped cfg rs r before (.str p.text)) w := by
  unfold reconcileStopped
  cases p with
  | stopped => exact Sat.seq (correctStopped_reached hd _ hs) fun _ _ hs => hs
  | running =>
      refine Sat.seq (verifyOwned_stands he hs) fun w _ hs => ?_
      refine Sat.seq (audit_stands _ _ _ hs) fun w _ hs => ?_
      refine Sat.seq (shutdownVm_stands he.backed hs) fun w _ hs => ?_
      refine Sat.seq (waitPveState_stands he.backed rs.shutdownWaitS hs) ?_
      rintro w after ⟨rfl, hs⟩
      unfold shutdownOutcome
      rw [hs.holds.key.1]
      refine Sat.seq (assign_stands (fun _ _ _ => ⟨rfl, by simp only [merge_own]⟩) trivial hs)
        fun w _ hs => ?_
      exact ⟨_, _, _, hs, ⟨rfl, rfl, rfl⟩, converged_stopped hd rfl⟩

/-- All that the claims of convergence are about; `lastReconcileAt` and `lastError` may differ. -/
structure Same (r cur : AgentRuntime) : Prop where
  kept : Kept r cur
  actual : cur.actualState = r.actualState
  count : cur.recoveryCount = r.recoveryCount

theorem Same.converged (h : Same r cur) (hc : Converged r p) : Converged cur p := by
  refine ⟨fun hd => ?_, fun hd => ?_⟩
  · rw [h.actual]
    exact hc.running (h.kept.desired.symm.trans hd)
  · rw [h.actual]
    exact hc.stopped (h.kept.desired.symm.trans hd)

theorem Kept.trans {y : AgentRuntime} (h : Kept r cur) (h' : Kept cur y) : Kept r y :=
  ⟨h'.node.trans h.node, h'.vmid.trans h.vmid, h'.desired.trans h.desired⟩

theorem record_stands (res : ReconcileResult) (hs : Stands i rid x cur p w) :
    Sat (World.step vm.remote i) (fun _ e => idle e)
      (fun w _ => ∃ cur', Stands i rid cur' cur' p w ∧ Same cur cur') X (record rid res) w := by
  refine Sat.seq (Q := fun w _ => Stands i rid x cur p w)
    (stands_call trivial trivial trivial hs fun _ _ hs => hs) fun w t hs => ?_
  refine Sat.seq (assign_stands (fun _ _ _ => ⟨rfl, by simp only [merge_own]⟩) trivial hs)
    fun w _ hs => ?_
  exact (flush_stands trivial hs).mono (fun w _ hs => ⟨_, hs, ⟨rfl, rfl, rfl⟩, rfl, rfl⟩)
    fun _ _ h => h

theorem text_known (p : Power) : (Json.str p.text).isStr "unknown" = false := by
  cases p with
  | running => rfl
  | stopped => rfl

theorem reconcileRow_reached (he : Eligible cfg rs vm r) (hs : Stands i rid r r p w) :
    Sat (World.step vm.remote i) (fun _ _ => True)
      (fun w _ => ∃ cur p', Stands i rid cur cur p' w ∧ Kept r cur ∧ Converged cur p')
        (fun _ _ => False)
      (reconcileRow cfg rs rid r) w := by
  unfold reconcileRow
  rw [if_neg he.live]
  refine Sat.seq ((pveVmState_stands he.backed hs).weaken fun _ _ _ => trivial) ?_
  rintro w pve ⟨rfl, hs⟩
  have hc : Sat (World.step vm.remote i) (fun _ _ => True) (fun w _ => Reached i rid r w)
      (fun _ _ => False)
      (tryCatch (converge cfg rs r (.str p.text)) (refusal r)) w := by
    refine (sat_tryCatch _ _ _).mpr ?_
    unfold converge
    rcases he.desired with hd | hd
    · rw [if_pos hd]
      exact reconcileRunning_reached he hd _ hs
    · rw [if_neg (by simp [hd])]
      exact reconcileStopped_reached he hd _ hs
  rw [if_neg (by rcases he.desired with hd | hd <;> simp [hd]), if_neg (by simp [text_known])]
  refine Sat.seq hc ?_
  rintro w res ⟨x, cur, p', hs, hk, hconv⟩
  refine Sat.seq ((record_stands res hs).weaken fun _ _ _ => trivial) ?_
  rintro w - ⟨cur', hs, hsame⟩
  exact ⟨cur', p', hs, hk.trans hsame.kept, hsame.converged hconv⟩

variable (cfg rs) in
theorem converge_calm (hc : Converged r p) (hd : r.desiredState = .desiredRunning ∨
    r.desiredState = .desiredStopped) :
    ∃ res, converge cfg rs r (.str p.text) = pure res := by
  unfold converge
  rcases hd with hd | hd
  · obtain ⟨rfl, ha⟩ := hc.running hd
    rw [if_pos hd]
    have hshown : (Json.str Power.running.text).isStr "running" = true := by decide
    have hnone : correctRunning r (.str Power.running.text) = pure () := if_neg (by simp [ha])
    unfold reconcileRunning
    rw [if_pos hshown, hnone]
    exact ⟨_, rfl⟩
  · obtain ⟨rfl, ha⟩ := hc.stopped hd
    rw [if_neg (by simp [hd])]
    have hshown : (Json.str Power.stopped.text).isStr "stopped" = true := by decide
    have hnone : correctStopped r (.str Power.stopped.text) = pure () := if_neg (by simp [ha])
    unfold reconcileStopped
    rw [if_pos hshown, hnone]
    exact ⟨_, rfl⟩

variable (cfg rs) in
theorem reconcileRow_calm (hb : vm.Backs r) (hc : Converged r p)
    (hd : r.desiredState = .desiredRunning ∨ r.desiredState = .desiredStopped)
    (hs : Stands i rid r r p w) :
    Sat (World.step vm.remote i) (fun _ e => idle e)
      (fun w _ => ∃ cur, Stands i rid cur cur p w ∧ Same r cur) (fun _ _ => False)
      (reconcileRow cfg rs rid r) w := by
  have hlive : r.actualState ≠ .superseded := by
    intro ha
    rcases hd with hd | hd
    · exact ActualState.noConfusion (ha.symm.trans (hc.running hd).2)
    · exact ActualState.noConfusion (ha.symm.trans (hc.stopped hd).2)
  unfold reconcileRow
  rw [if_neg hlive]
  refine Sat.seq (pveVmState_stands hb hs) ?_
  rintro w pve ⟨rfl, hs⟩
  obtain ⟨res, hres⟩ := converge_calm cfg rs hc hd
  rw [if_neg (by rcases hd with hd | hd <;> simp [hd]), if_neg (by simp [text_known]), hres]
  refine Sat.seq (Q := fun w _ => Stands i rid r r p w) hs fun w res hs => ?_
  refine Sat.seq (record_stands res hs) ?_
  rintro w - ⟨cur, hs, hsame⟩
  exact ⟨cur, hs, hsame⟩

/-- One reconcile: its calls, how it ended, and the row and the VM after it. -/
structure Entry where
  calls : PyTrace
  left : Py ReconcileResult
  row : AgentRuntime
  power : Power

/-- Reconciles of one runtime, from a row and a power state, in any sessions and
committed or not in between; nothing else changes the row or the VM. -/
inductive Reconciles (vm : Vm) (cfg : Settings) (rs : ReconcileSettings) (rid : Uuid) :
    AgentRuntime → Power → List Entry → Prop
  | nil (r : AgentRuntime) (p : Power) : Reconciles vm cfg rs rid r p []
  | next {r r' : AgentRuntime} {p : Power} {w w' : World Power} {i : Nat} {calls : PyTrace}
      {left : Py ReconcileResult} {rest : List Entry} :
      Ready w.db (w.sessions i) rid r → w.remote = p →
        Exec (World.step vm.remote i) w (reconcileRuntime cfg rs rid) calls w' left → Ended left →
        seenRow w'.db (w'.sessions i) rid = some r' → Reconciles vm cfg rs rid r' w'.remote rest →
        Reconciles vm cfg rs rid r p (⟨calls, left, r', w'.remote⟩ :: rest)

/-- The reconcile did not raise. -/
def Entry.Returned (x : Entry) : Prop := ∃ res, x.left = .ret res

def Entry.Idle (x : Entry) : Prop := ∀ ev ∈ x.calls, idle ev.1

theorem Same.trans {y : AgentRuntime} (h : Same r cur) (h' : Same cur y) : Same r y :=
  ⟨h.kept.trans h'.kept, h'.actual.trans h.actual, h'.count.trans h.count⟩

theorem Kept.backs (h : Kept r cur) (hb : vm.Backs r) : vm.Backs cur :=
  ⟨h.node.trans hb.node, h.vmid.trans hb.vmid, hb.named⟩

theorem Kept.desires (h : Kept r cur) (hd : r.desiredState = .desiredRunning ∨
    r.desiredState = .desiredStopped) :
    cur.desiredState = .desiredRunning ∨ cur.desiredState = .desiredStopped := by
  rw [h.desired]
  exact hd

theorem reconcileRuntime_sat {G : World Power → Eff → Prop}
    {Q : World Power → ReconcileResult → Prop}
    {X : World Power → PyExc → Prop} (hr : Ready w.db (w.sessions i) rid r) (hp : w.remote = p)
    (hg : G w (.db (.getRuntime rid)))
    (h : ∀ w, Stands i rid r r p w → Sat (World.step vm.remote i) G Q X (reconcileRow cfg rs rid r)
    w) :
    Sat (World.step vm.remote i) G Q X (reconcileRuntime cfg rs rid) w := by
  unfold reconcileRuntime
  rw [sat_bind, sat_getRuntime]
  refine ⟨hg, fun a w' hst => ?_⟩
  obtain ⟨rfl, hh⟩ := ready_get hst hr
  exact h w' ⟨hh, (step_power hst trivial).trans hp⟩

theorem stands_row {y : AgentRuntime} (hs : Stands i rid cur cur p w)
    (hy : seenRow w.db (w.sessions i) rid = some y) : y = cur :=
  Option.some.inj (hy.symm.trans hs.holds.row)

theorem first_reconcile {w w' : World Power} {calls : PyTrace} {left : Py ReconcileResult}
    {r' : AgentRuntime}
    (he : Eligible cfg rs vm r) (hr : Ready w.db (w.sessions i) rid r)
    (hx : Exec (World.step vm.remote i) w (reconcileRuntime cfg rs rid) calls w' left)
    (hl : Ended left)
    (hr' : seenRow w'.db (w'.sessions i) rid = some r') :
    (∃ res, left = .ret res) ∧ Kept r r' ∧ Converged r' w'.remote := by
  have hs := (reconcileRuntime_sat hr rfl trivial fun w hs => reconcileRow_reached he hs).exec hx
  cases left with
  | ret res =>
      obtain ⟨cur, p', hs, hk, hc⟩ := hs
      obtain rfl := stands_row hs hr'
      rw [hs.power]
      exact ⟨⟨res, rfl⟩, hk, hc⟩
  | raise e => exact False.elim hs
  | call e k => exact False.elim hl

theorem later_reconcile {w w' : World Power} {calls : PyTrace} {left : Py ReconcileResult}
    {r' : AgentRuntime}
    (hb : vm.Backs r) (hc : Converged r w.remote)
    (hd : r.desiredState = .desiredRunning ∨ r.desiredState = .desiredStopped)
    (hr : Ready w.db (w.sessions i) rid r)
    (hx : Exec (World.step vm.remote i) w (reconcileRuntime cfg rs rid) calls w' left)
    (hl : Ended left)
    (hr' : seenRow w'.db (w'.sessions i) rid = some r') :
    (∃ res, left = .ret res) ∧ (∀ ev ∈ calls, idle ev.1) ∧ w'.remote = w.remote ∧ Same r r' := by
  have hsat := reconcileRuntime_sat (G := fun _ e => idle e) hr rfl trivial fun w hs =>
    reconcileRow_calm cfg rs hb hc hd hs
  have hidle : ∀ ev ∈ calls, idle ev.1 := by
    intro ev hev
    obtain ⟨before, after, rfl⟩ := List.append_of_mem hev
    obtain ⟨u, u', k, hp, -, -⟩ := hx.split
    exact (hsat.exec hp).1
  have hs := hsat.exec hx
  cases left with
  | ret res =>
      obtain ⟨cur, hs, hsame⟩ := hs
      obtain rfl := stands_row hs hr'
      exact ⟨⟨res, rfl⟩, hidle, hs.power, hsame⟩
  | raise e => exact False.elim hs
  | call e k => exact False.elim hl

theorem Reconciles.calm {hist : List Entry} (h : Reconciles vm cfg rs rid r p hist)
    (hb : vm.Backs r)
    (hc : Converged r p) (hd : r.desiredState = .desiredRunning ∨
    r.desiredState = .desiredStopped) :
    ∀ x ∈ hist, x.Returned ∧ x.Idle ∧ x.power = p ∧ Same r x.row := by
  induction h with
  | nil => exact fun x hx => absurd hx List.not_mem_nil
  | next hr hp hx hl hr' _ ih =>
      subst hp
      obtain ⟨hret, hidle, hpow, hsame⟩ := later_reconcile hb hc hd hr hx hl hr'
      have ih' :=
        ih (hsame.kept.backs hb) (by rw [hpow]; exact hsame.converged hc) (hsame.kept.desires hd)
      intro y hy
      rcases List.mem_cons.mp hy with rfl | hy
      · exact ⟨hret, hidle, hpow, hsame⟩
      · obtain ⟨hret', hidle', hpow', hsame'⟩ := ih' y hy
        exact ⟨hret', hidle', hpow'.trans hpow, hsame.trans hsame'⟩

/-- One reconcile of an eligible row brings the VM and the recorded state to the
desired one, and every further one changes neither and makes no call that would. -/
theorem reconcile_converges {first : Entry} {later : List Entry} (he : Eligible cfg rs vm r)
    (h : Reconciles vm cfg rs rid r p (first :: later)) :
    (first.Returned ∧ Kept r first.row ∧ Converged first.row first.power) ∧
      ∀ x ∈ later, x.Returned ∧ x.Idle ∧ x.power = first.power ∧ Same first.row x.row := by
  cases h with
  | next hr hp hx hl hr' hrest =>
      obtain ⟨hret, hk, hc⟩ := first_reconcile he hr hx hl hr'
      exact ⟨⟨hret, hk, hc⟩, hrest.calm (hk.backs he.backed) hc (hk.desires he.desired)⟩

def workerVm : Vm := ⟨"miam00111", 700, workerMarker⟩

/-- The tests of `checkMarker`. -/
def passes (r : AgentRuntime) : Json → Bool
  | .obj m =>
      ((Dict.get? m "created_by_agent_runtime_manager").getD .null).truthy &&
        ((Dict.get? m "server_runtime_id").getD (.str "")).pyStr == r.runtimeId.str &&
          missingKeys m == []
  | _ => false

theorem passes_marks {y : Json} (h : passes r y = true) : ∃ m, y = .obj m ∧ Marks r m := by
  cases y with
  | obj m =>
      simp only [passes, Bool.and_eq_true, beq_iff_eq] at h
      obtain ⟨⟨hf, hi⟩, hk⟩ := h
      exact ⟨m, rfl, marks_of_tests (by simp [hf]) (by simp [hi]) (by simp [hk])⟩
  | null | bool | int | float | str | arr => cases h

theorem workerMarker_passes : (loads workerMarker).any (passes worker) = true := by decide +kernel

theorem worker_eligible : Eligible {} {} workerVm worker where
  owned := rfl
  backed := ⟨rfl, rfl, by decide⟩
  live := by decide
  unprotected := by decide
  desired := .inl rfl
  budget := by decide
  marker := by
    obtain ⟨y, hy, hp⟩ := (Option.any_eq_true _ _).mp workerMarker_passes
    obtain ⟨m, rfl, hm⟩ := passes_marks hp
    exact ⟨m, hy, hm⟩

def Vm.oracle (vm : Vm) : Oracle Power where
  pve p c :=
    match c with
    | .status .. => some (.ok (.obj [("status", .str p.text)]), p)
    | .config .. => some (.ok (.obj [("description", .str vm.description)]), p)
    | .start n v => some (.ok .null, if n = vm.node ∧ v = vm.vmid then .running else p)
    | _ => none
  kea _ _ := none
  neigh _ _ := none

theorem Vm.oracle_follows (vm : Vm) : vm.oracle.Follows id vm.remote where
  pve p c a p' h := by
    cases c with
    | status n v =>
        cases h
        exact ⟨rfl, fun _ => ⟨_, rfl, rfl⟩⟩
    | config n v =>
        cases h
        exact ⟨rfl, fun _ => ⟨_, rfl, rfl⟩⟩
    | start n v =>
        cases h
        exact ⟨fun hat => ⟨⟨_, rfl⟩, if_pos hat⟩, fun hat => if_neg hat⟩
    | nodes | nextid | storage | interfaces | clone | setConfig | shutdown | stop | destroy =>
        cases h
  kea _ _ _ _ h := by cases h
  neigh _ _ := trivial

/-- A reconcile in a session of its own over a database that has just this row. -/
def played (vm : Vm) (r : AgentRuntime) (p : Power) :
    PyTrace × Machine Power × Py ReconcileResult :=
  play (Machine.answer vm.oracle 0) 40 ⟨{ runtimes := [⟨r, 0⟩] }, [{}], 0, [], p⟩
    (reconcileRuntime {} {} r.runtimeId)

def entryOf (vm : Vm) (r : AgentRuntime) (p : Power) : Entry where
  calls := (played vm r p).1
  left := (played vm r p).2.2
  row := (seenRow (played vm r p).2.1.db ((played vm r p).2.1.session 0) r.runtimeId).getD r
  power := (played vm r p).2.1.remote

def complete (vm : Vm) (r : AgentRuntime) (p : Power) : Bool :=
  hasEnded (played vm r p).2.2 &&
    (seenRow (played vm r p).2.1.db ((played vm r p).2.1.session 0) r.runtimeId).isSome

theorem Reconciles.play {vm : Vm} {r : AgentRuntime} {p : Power} {rest : List Entry}
    (hc : complete vm r p = true)
    (h : Reconciles vm {} {} r.runtimeId (entryOf vm r p).row (entryOf vm r p).power rest) :
    Reconciles vm {} {} r.runtimeId r p (entryOf vm r p :: rest) := by
  obtain ⟨hq, hs⟩ := Bool.and_eq_true_iff.mp hc
  obtain ⟨r', hr'⟩ := Option.isSome_iff_exists.mp hs
  have hend : Ended (played vm r p).2.2 := by
    cases hp : (played vm r p).2.2 with
    | ret a => trivial
    | raise x => trivial
    | call e k =>
        rw [hp] at hq
        cases hq
  have hx := play_exec (Machine.world id) (Machine.answer vm.oracle 0)
    (fun m e a m' => Machine.answer_step vm.oracle_follows 0 m e a m') 40
    ⟨{ runtimes := [⟨r, 0⟩] }, [{}], 0, [], p⟩ (reconcileRuntime {} {} r.runtimeId)
  have hrow : seenRow (played vm r p).2.1.db ((played vm r p).2.1.session 0) r.runtimeId =
      some (entryOf vm r p).row := by
    simp [entryOf, hr']
  exact .next (ready_alone r) rfl hx hend hrow h

def started : Entry := entryOf workerVm worker .stopped

def idled : Entry := entryOf workerVm started.row started.power

theorem started_complete : (complete workerVm worker .stopped && started.row.runtimeId ==
    workerId &&
    complete workerVm started.row started.power && started.power == .running) = true := by
  decide +kernel

/-- The stopped worker is started once, and the reconcile after that leaves it running. -/
theorem worker_converges :
    Reconciles workerVm {} {} workerId worker .stopped [started, idled] ∧ started.power = .running ∧
      (started.Returned ∧ Kept worker started.row ∧ Converged started.row started.power) ∧
        ∀ x ∈ [idled], x.Returned ∧ x.Idle ∧ x.power = started.power ∧ Same started.row x.row := by
  have h := started_complete
  simp only [Bool.and_eq_true, beq_iff_eq] at h
  obtain ⟨⟨⟨h₁, hk⟩, h₂⟩, hp⟩ := h
  have hlast : Reconciles workerVm {} {} workerId started.row started.power [idled] := by
    rw [← hk]
    exact Reconciles.play h₂ (.nil _ _)
  have hh : Reconciles workerVm {} {} workerId worker .stopped [started, idled] :=
    Reconciles.play h₁ hlast
  exact ⟨hh, hp, reconcile_converges worker_eligible hh⟩

end ServerManager.Convergence
