import ServerManager.ProxmoxVm
import ServerManager.Config

namespace ServerManager.Reconciliation

open Interaction PyJson PyText Orm Effects Config ProxmoxVm

inductive ReconcileAction
  | noop
  | started
  | shutdown
  | error
  deriving DecidableEq, Repr

structure ReconcileResult where
  runtimeId : String
  desired : String
  before : String
  after : String
  action : ReconcileAction
  error : Option String := none
  detail : Dict := []

def textOr (s : Option String) : Json := (s.map Json.str).getD .null

def intOr (n : Option Int) : Json := (n.map Json.int).getD .null

/-- The power state PVE reports; no backing VM is `absent`, an unreadable one `unknown`. -/
def pveVmState (node : Option String) (vmid : Option Int) : Py Json :=
  match node, vmid with
  | some n, some v =>
      if n = "" then pure (.str "absent")
      else
        tryCatch (do
          let st ← vmStatus n v
          let status ← dictGet st "status"
          pure (status.orElse (.str "unknown"))) (fun _ => pure (.str "unknown"))
  | _, _ => pure (.str "absent")

def waitPveLoop (node : Option String) (vmid : Option Int) (expect : String) : Nat → Json → Py Json
  | 0, state => pure state
  | n + 1, state =>
      if state.isStr expect then pure state
      else do
        sleep 3
        let state ← pveVmState node vmid
        waitPveLoop node vmid expect n state

def waitPveState (node : Option String) (vmid : Option Int) (expect : String) (maxS : Nat) :
    Py Json := do
  let n ← polls maxS
  let state ← pveVmState node vmid
  waitPveLoop node vmid expect n state

/-- Fail-closed ownership verification before any state-changing action. -/
def verifyOwned (cfg : Settings) (r : AgentRuntime) : Py Unit :=
  match r.node, r.vmid with
  | some n, some v => verifyOwnership cfg.protectedVmids n v r
  | _, _ => raised .ownershipError s!"runtime {r.runtimeId.str} has no backing VM (node/vmid null)"

def audit (r : AgentRuntime) (action result : String) (detail : Dict) : Py Unit :=
  addEvent { runtimeId := r.runtimeId, actor := "arm-reconciler", action, result, detail }

def exhaustedNote (n : Nat) : String :=
  s!"bounded strategy ladder complete: recheck → vm_start ×{n} → exhausted; PDU hard-cycle is never automatic; service/harness restarts belong to their own components"

/-- The start of a stopped VM, once its ownership is verified and attempts are left. -/
def startAttempt (r : AgentRuntime) (before : String) (n : String) (v : Int) : Py ReconcileResult :=
  do
  audit r "reconcile_start" "ok"
    [("node", .str n), ("vmid", .int v), ("failure_class", .str "vm_stopped_desired_running"),
      ("recovery_method", .str "vm_start"), ("attempt", .int (r.recoveryCount + 1)),
      ("recovery_history", .bool true)]
  start n v
  modify r.runtimeId (fun r =>
    { r with actualState := .running, recoveryCount := r.recoveryCount + 1, lastError := none })
  pure
    { runtimeId := r.runtimeId.str, desired := "DESIRED_RUNNING", before, after := "RUNNING", action := .started
      detail := [("node", .str n), ("vmid", .int v), ("attempt", .int (r.recoveryCount + 1)),
        ("recovery_method", .str "vm_start")] }

def backoffDelay (rs : ReconcileSettings) (count : Nat) : Nat :=
  min (rs.backoffBaseS * Nat.pow 2 (count - 1)) rs.backoffCapS

def backoff (rs : ReconcileSettings) (r : AgentRuntime) : Py Unit :=
  if 0 < r.recoveryCount then do
    audit r "reconcile_backoff" "ok" [("delay_s", .int (backoffDelay rs r.recoveryCount))]
    sleep (backoffDelay rs r.recoveryCount)
  else pure ()

/-- PVE says running: the recorded state is corrected if it says otherwise. -/
def correctRunning (r : AgentRuntime) (pve : Json) : Py Unit :=
  if r.actualState ≠ .running then do
    modify r.runtimeId
      (fun r => { r with actualState := .running, recoveryCount := 0, lastError := none })
    audit r "reconcile_observe" "ok"
      [("note", .str "PVE says running; actual corrected"), ("pve", pve),
        ("recovery_method", .str "recheck_observe"),
        ("time_to_recovery_note", .str "converged by observation")]
  else pure ()

def exhausted (r : AgentRuntime) (before : String) : Py ReconcileResult := do
  let count := r.recoveryCount
  let msg := s!"recovery exhausted ({count} attempts)"
  modify r.runtimeId (fun r => { r with lastError := some msg })
  audit r "reconcile_recovery_exhausted" "error"
    [("attempts", .int count), ("failure_class", .str "vm_start_recovery_exhausted"),
      ("recovery_method", .str "vm_start"), ("strategy_next", .str "human_attention"),
      ("note", .str (exhaustedNote count))]
  pure
    { runtimeId := r.runtimeId.str, desired := "DESIRED_RUNNING", before, after := before, action := .error
      error := some msg, detail := [("recovery_count", .int count)] }

def reconcileRunning (cfg : Settings) (rs : ReconcileSettings) (r : AgentRuntime) (before : String)
    (pve : Json) : Py ReconcileResult := do
  if pve.isStr "running" then
    correctRunning r pve
    pure
      { runtimeId := r.runtimeId.str, desired := "DESIRED_RUNNING", before, after := "RUNNING", action := .noop }
  else if !pve.isStr "stopped" then
    let shown := pve.pyStr
    pure
      { runtimeId := r.runtimeId.str, desired := "DESIRED_RUNNING", before, after := before, action := .noop
        detail := [("note", .str s!"VM pve_state={shown}; provisioning path owns this state")] }
  else
    verifyOwned cfg r
    if rs.maxRecoveryAttempts ≤ r.recoveryCount then exhausted r before
    else
      backoff rs r
      match r.node, r.vmid with
      | some n, some v => startAttempt r before n v
      -- verified rows have a backing VM
      | _, _ => raised .typeError "no backing VM"

/-- PVE says stopped: the recorded state is corrected if it says otherwise. -/
def correctStopped (r : AgentRuntime) (pve : Json) : Py Unit :=
  if r.actualState ≠ .stopped then do
    modify r.runtimeId (fun r => { r with actualState := .stopped })
    audit r "reconcile_observe" "ok"
      [("note", .str "PVE says stopped; actual corrected"), ("pve", pve)]
  else pure ()

def shutdownVm (r : AgentRuntime) : Py Unit :=
  match r.node, r.vmid with
  | some n, some v => shutdown n v
  -- verified rows have a backing VM
  | _, _ => raised .typeError "no backing VM"

/-- What PVE reports after the shutdown decides the outcome. -/
def shutdownOutcome (r : AgentRuntime) (before : String) (after : Json) : Py ReconcileResult := do
  if after.isStr "stopped" then
    modify r.runtimeId
      (fun r => { r with actualState := .stopped, recoveryCount := 0, lastError := none })
    pure
      { runtimeId := r.runtimeId.str, desired := "DESIRED_STOPPED", before, after := "STOPPED"
        action := .shutdown }
  else
    let shown := after.pyStr
    let msg := s!"shutdown did not converge (pve={shown})"
    modify r.runtimeId (fun r => { r with lastError := some msg })
    audit r "reconcile_shutdown_unverified" "error"
      [("pve", after), ("failure_class", .str "shutdown_unverified"),
        ("recovery_method", .str "graceful_shutdown_then_verify")]
    pure
      { runtimeId := r.runtimeId.str, desired := "DESIRED_STOPPED", before, after := before
        action := .error, error := some msg }

def reconcileStopped (cfg : Settings) (rs : ReconcileSettings) (r : AgentRuntime) (before : String)
    (pve : Json) : Py ReconcileResult := do
  if pve.isStr "stopped" then
    correctStopped r pve
    pure
      { runtimeId := r.runtimeId.str, desired := "DESIRED_STOPPED", before, after := "STOPPED", action := .noop }
  else if pve.isStr "absent" then
    pure
      { runtimeId := r.runtimeId.str, desired := "DESIRED_STOPPED", before, after := before, action := .noop
        detail := [("note", .str "no backing VM")] }
  else
    verifyOwned cfg r
    audit r "reconcile_shutdown" "ok" [("node", textOr r.node), ("vmid", intOr r.vmid)]
    shutdownVm r
    let after ← waitPveState r.node r.vmid "stopped" rs.shutdownWaitS
    shutdownOutcome r before after

/-- The last error after a pass that ended with `res`. -/
def recordedError (res : ReconcileResult) (old : Option String) : Option String :=
  if res.action = .error then res.error
  else if res.after ≠ "" ∧ res.desired ≠ "" ∧
      res.after = (if res.desired = "DESIRED_RUNNING" then "RUNNING" else "STOPPED") then none
  else old

def record (rid : Uuid) (res : ReconcileResult) : Py Unit := do
  let t ← now
  modify rid
    (fun r => { r with lastReconcileAt := some t, lastError := recordedError res r.lastError })
  flush

/-- A pass that leaves the row as it is, but for the bookkeeping. -/
def untouched (r : AgentRuntime) (action : ReconcileAction) (error : Option String)
    (detail : Dict) :
    ReconcileResult :=
  { runtimeId := r.runtimeId.str, desired := r.desiredState.value, before := r.actualState.value
    after := r.actualState.value, action, error, detail }

/-- What the two exception arms of a pass make of a raised exception. -/
def refusal (r : AgentRuntime) (e : PyExc) : Py ReconcileResult := do
  let msg := e.msg
  let cls := e.cls.name
  if e.cls = .ownershipError then
    audit r "reconcile_refused" "refused" [("reason", .str msg)]
    pure (untouched r .error (some s!"ownership: {msg}") [])
  else
    let shown := String.ofList (s!"{cls}: {msg}".toList.take 500)
    audit r "reconcile_failed" "error" [("error", .str shown)]
    pure (untouched r .error (some shown) [])

def converge (cfg : Settings) (rs : ReconcileSettings) (r : AgentRuntime) (pve : Json) :
    Py ReconcileResult :=
  if r.desiredState = .desiredRunning then reconcileRunning cfg rs r r.actualState.value pve
  else reconcileStopped cfg rs r r.actualState.value pve

def skip (rid : Uuid) (r : AgentRuntime) (note : String) : Py ReconcileResult := do
  let res := untouched r .noop none [("note", .str note)]
  record rid res
  pure res

/-- PVE unreachable: recorded, and no state flip on unknown ground truth. -/
def unavailable (rid : Uuid) (r : AgentRuntime) : Py ReconcileResult := do
  modify rid (fun r => { r with lastError := some "PVE unavailable at reconcile" })
  let res := untouched r .error (some "PVE unavailable") []
  record rid res
  pure res

def reconcileRow (cfg : Settings) (rs : ReconcileSettings) (rid : Uuid) (r : AgentRuntime) :
    Py ReconcileResult := do
  if r.actualState = .superseded then skip rid r "superseded rows are historical; reconciler skips"
  else
    let pve ← pveVmState r.node r.vmid
    if r.desiredState = .desiredDestroyed then
      skip rid r "destroy is API-only, reconciler never auto-destroys"
    else if pve.isStr "unknown" then unavailable rid r
    else
      let res ← tryCatch (converge cfg rs r pve) (refusal r)
      record rid res
      pure res

def reconcileRuntime (cfg : Settings) (rs : ReconcileSettings) (rid : Uuid) : Py ReconcileResult :=
  do
  match ← getRuntime rid with
  | none =>
      pure
        { runtimeId := rid.str, desired := "?", before := "?", after := "?", action := .error
          error := some "runtime not found" }
  | some r => reconcileRow cfg rs rid r

/-- The TTL sweep: expired sandboxes are flipped to DESIRED_DESTROYED. -/
def expireRows : List AgentRuntime → Py (List AgentRuntime)
  | [] => pure []
  | r :: rs => do
      modify r.runtimeId (fun r => { r with desiredState := .desiredDestroyed })
      audit r "sandbox_ttl_expired" "ok"
        [("expired_at", textOr (r.sandboxExpiresAt.map isoformat))]
      let rest ← expireRows rs
      pure (r :: rest)

def expireStaleSandboxes : Py (List AgentRuntime) := do
  let t ← now
  let stale ← selectRuntimes (.staleSandboxes t)
  expireRows stale

def reconcileRows (cfg : Settings) (rs : ReconcileSettings) : List AgentRuntime →
    Py (List ReconcileResult)
  | [] => pure []
  | r :: rows => do
      let res ← reconcileRuntime cfg rs r.runtimeId
      commit
      let rest ← reconcileRows cfg rs rows
      pure (res :: rest)

/-- One pass over all owned runtimes; the rows are selected once, at the beginning. -/
def reconcileAll (cfg : Settings) (rs : ReconcileSettings) (limit : Nat := 20) :
    Py (List ReconcileResult) := do
  let _ ← expireStaleSandboxes
  let rows ← selectRuntimes (.reconcilable limit)
  reconcileRows cfg rs rows

end ServerManager.Reconciliation
