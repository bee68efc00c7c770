import ServerManager.Registry

namespace ServerManager.RecoveryEngine

open Interaction PyJson FleetDb Fleet Registry
open Effects (PyExc)

def vmStartMax : Nat := 2

def serviceRestartMax : Nat := 2

def serviceRestartCooldownS : Nat := 15 * 60

def vmStart : String := "recovery_vm_start"

def serviceRestart : String := "recovery_service_restart"

def auditLogOnly (ip eventType : String) (detail : Json) : Svc Unit :=
  .call (.auditFile ip eventType detail true) .ret

/-- The statement of an audit; a failure of the `rollback` is the only one that is raised. -/
def insertAudit (cutover : Bool) (ip eventType : String) (detail : Json) : Svc Unit := do
  if cutover then
    tryCatch (adapter (.insertEvent ip eventType (dumps detail)))
      (fun _ => auditLogOnly ip eventType detail)
  else if ← pg then
    closing (tryCatch (do
      execute (.insertEvent ip eventType (dumps detail))
      commit) (fun _ => rollback))
  else pure ()

def audit (cutover : Bool) (ip eventType : String) (detail : Json) : Svc Unit :=
  .call (.auditFile ip eventType detail false) fun _ => insertAudit cutover ip eventType detail

/-- Without an answer of the database the number is one that allows no action. -/
def recentCount (cutover : Bool) (ip eventType : String) (minutes : Nat) : Svc Nat := do
  if cutover then tryCatch (adapter (.countEvents ip eventType minutes)) (fun _ => pure 99)
  else if ← pg then closing (execute (.countEvents ip eventType minutes))
  else pure 99

/-- What follows a poll of the VM or the service that finds it back: `none` when it is not. -/
def probeOk (ip : String) : Svc Bool := do
  let p ← probeHost ip
  pure (p.healthCompletion == some "ok")

def awaitVm (cutover : Bool) (ip : String) : Nat → Svc Unit
  | 0 => pure ()
  | n + 1 => .call (.sleep 15) fun _ => do
      let st ← vmStatus ip
      if st.isStr "running" then
        if ← probeOk ip then audit cutover ip "recovery_success" (.obj [("method", .str "vm_start")])
        else awaitVm cutover ip n
      else awaitVm cutover ip n

def attempt (n : Nat) : Json := .int (n + 1)

def recoverVmStart (cutover : Bool) (ip desired : String) : Svc Unit := do
  let n ← recentCount cutover ip vmStart 30
  if n ≥ vmStartMax then
    audit cutover ip "recovery_failed"
      (.obj [("reason", .str "vm start attempts exhausted"), ("desired", .str desired)])
  else
    let k ← recentCount cutover ip vmStart 30
    audit cutover ip vmStart (.obj [("reason", .str "unexpected stop"), ("attempt", attempt k)])
    let _ ← vmPower ip .start
    awaitVm cutover ip 40

def awaitService (cutover : Bool) (ip : String) : Nat → Svc Unit
  | 0 => pure ()
  | n + 1 => .call (.sleep 10) fun _ => do
      if ← probeOk ip then audit cutover ip "recovery_success" (.obj [("method", .str "service_restart")])
      else awaitService cutover ip n

def controlRestart (ip : String) : Svc Unit := .call (.restart ip) .ret

def restartService (cutover : Bool) (ip : String) : Svc Unit := do
  let k ← recentCount cutover ip serviceRestart 30
  audit cutover ip serviceRestart (.obj [("attempt", attempt k)])
  controlRestart ip
  awaitService cutover ip 60

def recoverService (cutover : Bool) (ip : String) : Svc Unit := do
  let n ← recentCount cutover ip serviceRestart 30
  if n ≥ serviceRestartMax then
    audit cutover ip "recovery_failed" (.obj [("reason",
      .str "service restart attempts exhausted")])
  else
    let last ← recentCount cutover ip serviceRestart 3
    if last ≠ 0 ∧ serviceRestartCooldownS > 180 then
      -- respect cooldown between restart attempts
      let again ← recentCount cutover ip serviceRestart 3
      if again ≥ 1 then pure () else restartService cutover ip
    else restartService cutover ip

/-- The policy for a managed host whose VM and probe are known. -/
def enforce (cutover : Bool) (h : HostRow) (vmst : Json) (state : Option String) : Svc Unit :=
  if h.desiredPowerState = "STOPPED_INTENTIONAL" then
    if vmst.isStr "running" then
      audit cutover h.guestIp "intentional_state_pending"
        (.obj [("vm_status", vmst), ("note", .str "awaiting operator power-off")])
    else pure ()
  else if vmst.isStr "running" = false then do
    audit cutover h.guestIp "outage_detected"
      (.obj [("vm_status", vmst), ("desired", .str h.desiredPowerState)])
    recoverVmStart cutover h.guestIp h.desiredPowerState
  else if state = some "unhealthy" then
    if h.desiredServiceState = "MAINTENANCE" then
      audit cutover h.guestIp "maintenance_skip"
        (.obj [("probe_state", .str "unhealthy"),
          ("note", .str "recovery suppressed in MAINTENANCE")])
    else do
      audit cutover h.guestIp "service_degraded" (.obj [("probe_state", .str "unhealthy")])
      recoverService cutover h.guestIp
  else pure ()

/-- `states.get(ip, {}).get("state")`, where a later entry replaces an earlier one. -/
def stateOf (summary : List HostSummary) (ip : String) : Option String :=
  (summary.reverse.find? (·.ip == ip)).map (·.state)

/-- One pass of the loop: the VM is asked before the mode is looked at. -/
def hostTurn (cutover : Bool) (summary : List HostSummary) (h : HostRow) : Svc Unit := do
  let vmst ← vmStatus h.guestIp
  if h.managementMode = "MANAGED" then enforce cutover h vmst (stateOf summary h.guestIp)
    else pure ()

def turns (cutover : Bool) (summary : List HostSummary) : List HostRow → Svc Unit
  | [] => pure ()
  | h :: hs => do
      hostTurn cutover summary h
      turns cutover summary hs

def readHosts : Svc (Option (List HostRow)) := do
  if ← pg then
    closing (do
      let hosts ← execute .tickHosts
      pure (some hosts))
  else pure none

def afterSync (cutover : Bool) : SyncResult → Svc Unit
  | .error _ => pure ()
  | .hosts summary => do
      match ← readHosts with
      | none => pure ()
      | some hosts => turns cutover summary hosts

def tick (cutover : Bool) : Svc Unit := do
  let s ← syncRegistry cutover
  afterSync cutover s

/-- `try: p() except Exception: traceback.print_exc()`. -/
def guarded (p : Svc Unit) : Svc Unit := tryCatch p (fun _ => pure ())

def ticks (cutover : Bool) : Nat → Svc Unit
  | 0 => pure ()
  | n + 1 => do
      guarded (tick cutover)
      ticks cutover n

/-- `main` through its first `n` ticks. Its waiting makes no contact with anything. -/
def main (cutover : Bool) (n : Nat) : Svc Unit := do
  guarded (do
    let _ ← syncRegistry cutover
    pure ())
  ticks cutover n

end ServerManager.RecoveryEngine
