import ServerManager.OwnershipGate

namespace ServerManager.PassCalls

open Interaction PyJson Orm Effects Config ProxmoxVm Reconciliation Api Calls OwnershipGate

/-- What a pass over the row `r` may assign: never the desired state, the
backing VM or a failure, and not the recorded state of a superseded row. -/
structure Assigns (r : AgentRuntime) (f : AgentRuntime → AgentRuntime) : Prop where
  desired : ∀ x, (f x).desiredState = x.desiredState
  node : ∀ x, (f x).node = x.node
  vmid : ∀ x, (f x).vmid = x.vmid
  error : ∀ x, (f x).actualState = .error → x.actualState = .error
  superseded : r.actualState = .superseded → ∀ x, (f x).actualState = x.actualState

/-- The calls of a pass once it has read its row as `r`. -/
inductive PassCall (rid : Uuid) (r : AgentRuntime) : Eff → Prop
  | observe {e : Eff} : observes e → PassCall rid r e
  | event (ev : RuntimeEvent) : PassCall rid r (.db (.addEvent ev))
  | flush : PassCall rid r (.db .flush)
  | modify {f : AgentRuntime → AgentRuntime} : Assigns r f →
      PassCall rid r (.db (.modify rid false f))
  | start (n : String) (v : Int) : r.desiredState = .desiredRunning →
      PassCall rid r (.pve (.start n v))
  | shutdown (n : String) (v : Int) (t : Nat) :
      r.desiredState = .desiredStopped → PassCall rid r (.pve (.shutdown n v t))
  | stop (n : String) (v : Int) : r.desiredState = .desiredStopped →
      PassCall rid r (.pve (.stop n v))

/-- Its calls up to the verdict, which leave the time of the last reconcile. -/
inductive JudgeCall (rid : Uuid) (r : AgentRuntime) : Eff → Prop
  | observe {e : Eff} : observes e → JudgeCall rid r e
  | event (ev : RuntimeEvent) : JudgeCall rid r (.db (.addEvent ev))
  | modify {f : AgentRuntime → AgentRuntime} : Assigns r f →
      (∀ x, (f x).lastReconcileAt = x.lastReconcileAt) →
      JudgeCall rid r (.db (.modify rid false f))
  | start (n : String) (v : Int) : r.desiredState = .desiredRunning →
      JudgeCall rid r (.pve (.start n v))
  | shutdown (n : String) (v : Int) (t : Nat) :
      r.desiredState = .desiredStopped → JudgeCall rid r (.pve (.shutdown n v t))
  | stop (n : String) (v : Int) : r.desiredState = .desiredStopped →
      JudgeCall rid r (.pve (.stop n v))

theorem JudgeCall.pass {rid : Uuid} {r : AgentRuntime} {e : Eff} (h : JudgeCall rid r e) :
    PassCall rid r e := by
  cases h with
  | observe h => exact .observe h
  | event ev => exact .event ev
  | modify h _ => exact .modify h
  | start n v h => exact .start n v h
  | shutdown n v t h => exact .shutdown n v t h
  | stop n v h => exact .stop n v h

variable {r : AgentRuntime}

theorem judge_audit (action result : String) (detail : Dict) :
    Only (JudgeCall r.runtimeId r) (audit r action result detail) :=
  only_audit r action result detail (.event _)

theorem judge_modify {f : AgentRuntime → AgentRuntime} (h : Assigns r f)
    (hl : ∀ x, (f x).lastReconcileAt = x.lastReconcileAt) :
    Only (JudgeCall r.runtimeId r) (modify r.runtimeId f) :=
  only_call (JudgeCall.modify h hl) fun _ => only_ret _

theorem assigns_state {f : AgentRuntime → AgentRuntime} {a : ActualState}
    (hs : r.actualState ≠ .superseded)
    (hd : ∀ x, (f x).desiredState = x.desiredState) (hn : ∀ x, (f x).node = x.node)
    (hv : ∀ x, (f x).vmid = x.vmid)
    (ha : ∀ x, (f x).actualState = a) (hne : a ≠ .error) : Assigns r f :=
  ⟨hd, hn, hv, fun x hx => absurd ((ha x).symm.trans hx) hne, fun h => absurd h hs⟩

theorem assigns_rest {f : AgentRuntime → AgentRuntime}
    (hd : ∀ x, (f x).desiredState = x.desiredState)
    (hn : ∀ x, (f x).node = x.node) (hv : ∀ x, (f x).vmid = x.vmid)
    (ha : ∀ x, (f x).actualState = x.actualState) :
    Assigns r f :=
  ⟨hd, hn, hv, fun x hx => (ha x).symm.trans hx, fun _ => ha⟩

theorem judge_observing {α : Type} {p : Py α} (h : Only observes p) :
    Only (JudgeCall r.runtimeId r) p :=
  h.mono fun _ he => .observe he

theorem pass_record (res : ReconcileResult) :
    Only (PassCall r.runtimeId r) (record r.runtimeId res) :=
  only_record _ res (.observe trivial) .flush fun _ =>
    .modify (assigns_rest (fun _ => rfl) (fun _ => rfl) (fun _ => rfl) fun _ => rfl)

theorem judge_startAttempt (hd : r.desiredState = .desiredRunning)
    (hs : r.actualState ≠ .superseded)
    (before n : String) (v : Int) : Only (JudgeCall r.runtimeId r) (startAttempt r before n v) := by
  refine Only.bind (judge_audit _ _ _) fun _ => ?_
  refine Only.bind (Only.bind (only_pve (.start n v hd)) fun _ => only_pure _) fun _ => ?_
  refine Only.bind (judge_modify ?_ fun _ => rfl) fun _ => only_pure _
  exact assigns_state hs (fun _ => rfl) (fun _ => rfl) (fun _ => rfl) (fun _ => rfl) (by decide)

theorem judge_reconcileRunning (cfg : Settings) (rs : ReconcileSettings)
    (hd : r.desiredState = .desiredRunning)
    (hs : r.actualState ≠ .superseded) (before : String) (pve : Json) :
    Only (JudgeCall r.runtimeId r) (reconcileRunning cfg rs r before pve) := by
  unfold reconcileRunning
  refine Only.ite (Only.bind ?_ fun _ => only_pure _) (Only.ite (only_pure _) ?_)
  · unfold correctRunning
    refine Only.ite (Only.bind (judge_modify ?_ fun _ => rfl) fun _ => judge_audit _ _ _)
      (only_pure _)
    exact assigns_state hs (fun _ => rfl) (fun _ => rfl) (fun _ => rfl) (fun _ => rfl) (by decide)
  · refine Only.bind (judge_observing (only_verifyOwned cfg r)) fun _ => Only.ite ?_ ?_
    · unfold exhausted
      refine Only.bind (judge_modify ?_ fun _ => rfl) fun _ =>
        Only.bind (judge_audit _ _ _) fun _ => only_pure _
      exact assigns_rest (fun _ => rfl) (fun _ => rfl) (fun _ => rfl) fun _ => rfl
    · refine Only.bind ?_ fun _ => ?_
      · unfold backoff
        refine Only.ite (Only.bind (judge_audit _ _ _) fun _ => ?_) (only_pure _)
        exact only_call (.observe trivial) fun _ => only_ret _
      · split
        · exact judge_startAttempt hd hs _ _ _
        · exact only_raised _ _

theorem judge_shutdownVm (hd : r.desiredState = .desiredStopped) :
    Only (JudgeCall r.runtimeId r) (shutdownVm r) := by
  unfold shutdownVm
  split
  · refine Only.tryCatch (Only.bind (only_pve (.shutdown _ _ _ hd)) fun _ => only_pure _) fun _ =>
      ?_
    exact Only.bind (only_pve (.stop _ _ hd)) fun _ => only_pure _
  · exact only_raised _ _

theorem judge_reconcileStopped (cfg : Settings) (rs : ReconcileSettings)
    (hd : r.desiredState = .desiredStopped)
    (hs : r.actualState ≠ .superseded) (before : String) (pve : Json) :
    Only (JudgeCall r.runtimeId r) (reconcileStopped cfg rs r before pve) := by
  unfold reconcileStopped
  refine Only.ite (Only.bind ?_ fun _ => only_pure _) (Only.ite (only_pure _) ?_)
  · unfold correctStopped
    refine Only.ite (Only.bind (judge_modify ?_ fun _ => rfl) fun _ => judge_audit _ _ _)
      (only_pure _)
    exact assigns_state hs (fun _ => rfl) (fun _ => rfl) (fun _ => rfl) (fun _ => rfl) (by decide)
  · refine Only.bind (judge_observing (only_verifyOwned cfg r)) fun _ => ?_
    refine Only.bind (judge_audit _ _ _) fun _ => Only.bind (judge_shutdownVm hd) fun _ => ?_
    refine Only.bind (judge_observing (only_waitPveState _ _ _ _)) fun after => ?_
    unfold shutdownOutcome
    refine Only.ite ?_ ?_
    · refine Only.bind (judge_modify ?_ fun _ => rfl) fun _ => only_pure _
      exact assigns_state hs (fun _ => rfl) (fun _ => rfl) (fun _ => rfl) (fun _ => rfl) (by decide)
    · refine Only.bind (judge_modify ?_ fun _ => rfl) fun _ =>
        Only.bind (judge_audit _ _ _) fun _ => only_pure _
      exact assigns_rest (fun _ => rfl) (fun _ => rfl) (fun _ => rfl) fun _ => rfl

/-- A pass up to the point where it records what it has made of the row. -/
def verdict (cfg : Settings) (rs : ReconcileSettings) (rid : Uuid) (r : AgentRuntime) :
    Py ReconcileResult := do
  if r.actualState = .superseded then
    pure (untouched r .noop none [("note", .str
      "superseded rows are historical; reconciler skips")])
  else
    let pve ← pveVmState r.node r.vmid
    if r.desiredState = .desiredDestroyed then
      pure (untouched r .noop none [("note", .str
        "destroy is API-only, reconciler never auto-destroys")])
    else if pve.isStr "unknown" then
      modify rid (fun r => { r with lastError := some "PVE unavailable at reconcile" })
      pure (untouched r .error (some "PVE unavailable") [])
    else tryCatch (converge cfg rs r pve) (refusal r)

theorem reconcileRow_eq (cfg : Settings) (rs : ReconcileSettings) (rid : Uuid) (r : AgentRuntime) :
    reconcileRow cfg rs rid r = verdict cfg rs rid r >>= fun res => record rid res >>= fun _ =>
      pure res := by
  unfold reconcileRow verdict
  split
  · rfl
  · rw [Prog.bind_assoc]
    congr 1
    funext pve
    split
    · rfl
    · split
      · rfl
      · rfl

theorem judge_verdict (cfg : Settings) (rs : ReconcileSettings) (r : AgentRuntime) :
    Only (JudgeCall r.runtimeId r) (verdict cfg rs r.runtimeId r) := by
  unfold verdict
  split
  · exact only_pure _
  next hs =>
      refine Only.bind (judge_observing (only_pveVmState _ _)) fun pve => ?_
      split
      · exact only_pure _
      next hd =>
          refine Only.ite ?_ (Only.tryCatch ?_ fun x => ?_)
          · refine Only.bind (judge_modify ?_ fun _ => rfl) fun _ => only_pure _
            exact assigns_rest (fun _ => rfl) (fun _ => rfl) (fun _ => rfl) fun _ => rfl
          · unfold converge
            split
            next hrun => exact judge_reconcileRunning cfg rs hrun hs _ _
            next hrun =>
                refine judge_reconcileStopped cfg rs ?_ hs _ _
                cases h : r.desiredState with
                | desiredRunning => exact absurd h hrun
                | desiredStopped => rfl
                | desiredDestroyed => exact absurd h hd
          · exact only_refusal r x fun ev _ => .event ev

theorem only_reconcileRow (cfg : Settings) (rs : ReconcileSettings) (r : AgentRuntime) :
    Only (PassCall r.runtimeId r) (reconcileRow cfg rs r.runtimeId r) := by
  rw [reconcileRow_eq]
  refine Only.bind ((judge_verdict cfg rs r).mono fun _ he => he.pass) fun res => ?_
  exact Only.bind (pass_record res) fun _ => only_pure _

def expire (r : AgentRuntime) : AgentRuntime := { r with desiredState := .desiredDestroyed }

def housekeeping : Eff → Prop
  | .db (.addEvent _) | .db (.selectRuntimes _) | .db .flush | .db .commit | .db .close
  | .sys .now => True
  | _ => False

/-- Permissions that cover what a reconcile operation does. -/
structure Covers {L : Type} (G : L × PyTrace → Eff → Prop) : Prop where
  aside : ∀ s e, housekeeping e → G s e
  sweep : ∀ s rid, G s (.db (.modify rid false expire))
  pass : ∀ s r e, Loaded r s.2 → PassCall r.runtimeId r e → G s e

def Keyed {L : Type} (F : L → (e : Eff) → Ans e → L → Prop) : Prop :=
  ∀ (l l' : L) (rid : Uuid) (a : Option AgentRuntime), F l (.db (.getRuntime rid)) a l' →
    ∀ r, a = some r → r.runtimeId = rid

section Operations

variable {L : Type} {F : L → (e : Eff) → Ans e → L → Prop} {G : L × PyTrace → Eff → Prop}
  {s : L × PyTrace}

theorem passCall_stays {e : Eff} (h : PassCall r.runtimeId r e) : ¬ loadsRow e := by
  cases h with
  | @observe e ho => exact (calm_of_observes ho).1
  | event | flush | modify | start | shutdown | stop => exact id

theorem sat_aside {α : Type} {p : Py α} (hG : Covers G) (h : Only housekeeping p)
    (s : L × PyTrace) :
    Sat (traced F) G (fun _ _ => True) (fun _ _ => True) p s := by
  refine (h.keeps (I := fun _ => True) (fun _ _ _ _ _ _ _ => trivial) trivial).weaken fun s e he =>
    ?_
  exact hG.aside s e he.1

theorem reconcileRuntime_sat (hF : Keyed F) (hG : Covers G) (cfg : Settings)
    (rs : ReconcileSettings) {rid : Uuid}
    (hr : ∀ s, G s (.db (.getRuntime rid))) :
    Sat (traced F) G (fun _ _ => True) (fun _ _ => True) (reconcileRuntime cfg rs rid) s := by
  unfold reconcileRuntime
  rw [sat_bind, sat_getRuntime]
  refine ⟨hr s, ?_⟩
  rintro (_ | r) s' ⟨hf, hs⟩
  · exact trivial
  · have hk : r.runtimeId = rid := hF _ _ rid _ hf r rfl
    subst hk
    have hl : Loaded r s'.2 := by
      rw [hs]
      exact loaded_now s.2 r.runtimeId r
    refine (((only_reconcileRow cfg rs r).keeps (T := traced F) (I := fun s => Loaded r s.2) ?_
      hl).weaken
      fun s e he => hG.pass s r e he.2 he.1).mono (fun _ _ _ => trivial) fun _ _ _ => trivial
    rintro s e a s' he hi ⟨-, hs⟩
    have hn := loaded_stable r s.2 ⟨e, a⟩ hi (passCall_stays he)
    exact hs ▸ hn

theorem reconcileRows_sat (hF : Keyed F) (hG : Covers G) (cfg : Settings) (rs : ReconcileSettings)
    (hr : ∀ s k, G s (.db (.getRuntime k))) (rows : List AgentRuntime) :
    Sat (traced F) G (fun _ _ => True) (fun _ _ => True) (reconcileRows cfg rs rows) s := by
  induction rows generalizing s with
  | nil => exact trivial
  | cons r rows ih =>
      refine Sat.seq (reconcileRuntime_sat hF hG cfg rs fun s => hr s r.runtimeId) fun s _ _ => ?_
      refine Sat.seq (sat_aside hG (only_commit trivial trivial) s) fun s _ _ => ?_
      exact Sat.seq ih fun s _ _ => trivial

theorem expireRows_sat (hG : Covers G) (rows : List AgentRuntime) :
    Sat (traced F) G (fun _ _ => True) (fun _ _ => True) (expireRows rows) s := by
  induction rows generalizing s with
  | nil => exact trivial
  | cons r rows ih =>
      unfold expireRows
      refine (sat_bind _ _ _).mpr ⟨hG.sweep s r.runtimeId, fun a s _ => ?_⟩
      refine Sat.seq (sat_aside hG (only_audit r _ _ _ trivial) s) fun s _ _ => ?_
      exact Sat.seq ih fun s _ _ => trivial

theorem housekeeping_select (q : Query) : Only housekeeping (selectRuntimes q) :=
  Only.bind (only_flush trivial) fun _ => only_call trivial fun _ => only_ret _

theorem reconcileAll_sat (hF : Keyed F) (hG : Covers G) (cfg : Settings) (rs : ReconcileSettings)
    (hr : ∀ s k, G s (.db (.getRuntime k))) (limit : Nat) :
    Sat (traced F) G (fun _ _ => True) (fun _ _ => True) (reconcileAll cfg rs limit) s := by
  have hsweep : Sat (traced F) G (fun _ _ => True) (fun _ _ => True) expireStaleSandboxes s := by
    refine Sat.seq (sat_aside (p := now) hG (only_call trivial fun _ => only_ret _) s) fun s t _ =>
      ?_
    exact Sat.seq (sat_aside hG (housekeeping_select _) s) fun s rows _ => expireRows_sat hG rows
  refine Sat.seq hsweep fun s _ _ => ?_
  exact Sat.seq (sat_aside hG (housekeeping_select _) s) fun s rows _ =>
    reconcileRows_sat hF hG cfg rs hr rows

theorem sat_session {α : Type} {p : Py α} (hG : Covers G)
    (h : Sat (traced F) G (fun _ _ => True) (fun _ _ => True) p s) :
    Sat (traced F) G (fun _ _ => True) (fun _ _ => True) (withSession p) s := by
  have hc : ∀ s, Sat (traced F) G (fun _ _ => True) (fun _ _ => True) close s := fun s =>
    sat_aside (p := close) hG (only_call trivial fun _ => only_ret _) s
  rw [sat_withSession]
  exact h.mono (fun s _ _ => hc s) fun s _ _ => hc s

theorem reconcileOne_sat (hF : Keyed F) (hG : Covers G) (cfg : Settings) (rs : ReconcileSettings)
    {rid : Uuid}
    (hr : ∀ s, G s (.db (.getRuntime rid))) :
    Sat (traced F) G (fun _ _ => True) (fun _ _ => True) ((Request.reconcileOne rs rid).prog cfg)
      s := by
  refine Sat.seq (sat_session hG (Sat.seq (reconcileRuntime_sat hF hG cfg rs hr) fun s res _ => ?_))
    fun s _ _ => trivial
  exact Sat.seq (sat_aside hG (only_commit trivial trivial) s) fun s _ _ => trivial

theorem reconcileEvery_sat (hF : Keyed F) (hG : Covers G) (cfg : Settings) (rs : ReconcileSettings)
    (hr : ∀ s k, G s (.db (.getRuntime k))) :
    Sat (traced F) G (fun _ _ => True) (fun _ _ => True) ((Request.reconcileEvery rs).prog cfg)
      s := by
  refine Sat.seq (sat_session hG (Sat.seq (reconcileAll_sat hF hG cfg rs hr _) fun s res _ => ?_))
    fun s _ _ => trivial
  exact Sat.seq (sat_aside hG (only_commit trivial trivial) s) fun s _ _ => trivial

end Operations

end ServerManager.PassCalls
