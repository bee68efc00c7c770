import ServerManager.Provisioning
import ServerManager.Reconciliation

namespace ServerManager.Api

open Interaction PyJson Orm Effects Config ProxmoxVm SandboxNetwork Provisioning Reconciliation

def httpError {α : Type} (status : Nat) (detail : String) : Py α :=
  raised (.httpException status) detail

/-- `POST /agent-runtimes`; `actor` is the service of the caller's token. -/
def createAgentRuntime (cfg : Settings) (req : ProvisionRequest) (actor : String) :
    Py (Uuid × Bool) :=
  withSession do
    let (job, created) ← submit cfg req actor "sprint_execution_context"
    if created then
      runJob cfg job.jobId
    pure (job.jobId, created)

/-- `POST /agent-runtimes/{id}/desired-state`. -/
def setDesiredState (rid : Uuid) (desired reason actor : String) : Py Unit :=
  withSession do
    match ← getRuntime rid with
    | none => httpError 404 "runtime not found"
    | some _ =>
        match RuntimeState.ofText desired with
        | none => httpError 422 s!"unknown desired state {desired}"
        | some d =>
            modify rid (fun r => { r with desiredState := d })
            addEvent
              { runtimeId := rid, actor, action := "desired_state_set"
                detail := [("desired", .str desired), ("reason", .str reason)] }
            commit

/-- The row becomes historical evidence, linked to the live retry. -/
def markSuperseded (rid : Uuid) (live : AgentRuntime) (reason : Option String) (actor : String) :
    Py Unit := do
  modify rid (fun r => { r with actualState := .superseded })
  let t ← now
  modifyMeta rid (fun d =>
    Dict.set (Dict.set (Dict.set (Dict.set d
      "superseded_by_runtime_id" (.str live.runtimeId.str))
      "superseded_by_request" (.str live.provisioningRequestId))
      "superseded_at" (.str (isoformat t)))
      "superseded_reason" (textOr reason))
  addEvent
    { runtimeId := rid, actor, action := "runtime_superseded"
      detail := [("superseded_by", .str live.runtimeId.str),
        ("previous_state", .str ActualState.error.value), ("reason", textOr reason)] }
  commit

/-- `POST /agent-runtimes/{id}/supersede`; `by_` is the parsed target, if the text was a UUID. -/
def supersedeAgentRuntime (rid : Uuid) (by_ : Option Uuid) (reason : Option String)
    (actor : String) : Py Unit :=
  withSession do
    match ← getRuntime rid with
    | none => httpError 404 "runtime not found"
    | some r =>
        match by_ with
        | none => httpError 422 "superseded_by_runtime_id is not a UUID"
        | some lid =>
            match ← getRuntime lid with
            | none => httpError 404 "superseded_by runtime not found"
            | some live =>
                if r.runtimeId = live.runtimeId then
                  httpError 422 "a runtime cannot supersede itself"
                else if r.actualState = .superseded then
                  httpError 409 "runtime already SUPERSEDED"
                else if r.vmid ≠ none ∨ r.node ≠ none then
                  httpError 409
                    "refusing to supersede a runtime with backing resources (node/vmid set)"
                else if r.actualState = .running then
                  httpError 409 "refusing to supersede a RUNNING runtime"
                else markSuperseded rid live reason actor

/-- The release of a destroyed sandbox's reservation; failure is audited, never fatal. -/
def releaseReservation (cfg : Settings) (rid : Uuid) (om : Dict) (actor : String) : Py Unit := do
  let sip := (Dict.get? om "sandbox_ip").getD .null
  let sres := (Dict.get? om "sandbox_reservation_uuid").getD .null
  if sip.truthy && sres.truthy then
    tryCatch (do
        let _ ← newService cfg
        release sip.pyStr
        addEvent
          { runtimeId := rid, actor, action := "sandbox_reservation_released"
            detail := [("ip", .str sip.pyStr)] })
      (fun e => addEvent
        { runtimeId := rid, actor, action := "sandbox_reservation_release_failed", result := "error"
          detail := [("ip", .str sip.pyStr), ("error", .str (String.ofList (e.msg.toList.take 300)))] })
  else pure ()

/-- The arm for a failed verification: a refusal is audited and answered with 403. -/
def destroyRefused (rid : Uuid) (actor : String) (e : PyExc) : Py Unit := do
  if e.cls = .ownershipError then
    let msg := e.msg
    addEvent
      { runtimeId := rid, actor, action := "destroy_refused", result := "refused"
        detail := [("reason", .str msg)] }
    commit
    httpError 403 s!"destroy refused: {msg}"
  else throw e

/-- The VM is gone: the row says so, the reservation is released, one commit. -/
def destroyComplete (cfg : Settings) (rid : Uuid) (r : AgentRuntime) (actor : String) : Py Unit :=
  do
  modify rid (fun r =>
    { r with actualState := .destroyed, desiredState := .desiredDestroyed, vmid := none, node := none })
  addEvent
    { runtimeId := rid, actor, action := "destroy_complete"
      detail := [("note", .str "ACMS persistent identity/history NOT deleted")] }
  releaseReservation cfg rid r.ownershipMeta actor
  commit

/-- `DELETE /agent-runtimes/{id}`: verify, audit and commit, then the destructive calls. -/
def destroyAgentRuntime (cfg : Settings) (rid : Uuid) (actor : String) : Py Unit :=
  withSession do
    match ← getRuntime rid with
    | none => httpError 404 "runtime not found"
    | some r =>
        match r.node, r.vmid with
        | some n, some v =>
            tryCatch (verifyOwnership cfg.protectedVmids n v r) (destroyRefused rid actor)
            addEvent
              { runtimeId := rid, actor, action := "destroy_audit"
                detail := [("vmid", .int v), ("node", .str n)] }
            commit
            shutdown n v
            destroy n v
            destroyComplete cfg rid r actor
        | _, _ => httpError 409 "runtime has no backing VM"

/-- `POST /agent-runtimes/{id}/reconcile`. -/
def reconcileOne (cfg : Settings) (rs : ReconcileSettings) (rid : Uuid) : Py ReconcileResult :=
  withSession do
    let res ← reconcileRuntime cfg rs rid
    commit
    pure res

/-- `POST /reconcile`. -/
def reconcileEvery (cfg : Settings) (rs : ReconcileSettings) : Py (List ReconcileResult) :=
  withSession do
    let results ← reconcileAll cfg rs
    commit
    pure results

/-- `POST /agent-runtimes/{id}/extend-ttl`. -/
def extendSandboxTtl (cfg : Settings) (rid : Uuid) (hours : Int) (reason actor : String) :
    Py Time :=
  withSession do
    match ← getRuntime rid with
    | none => httpError 404 "runtime not found"
    | some r =>
        if r.runtimeClass ≠ "sandbox" then httpError 422 "not a sandbox runtime"
        else
          let h := max 1 (min hours cfg.armSandboxMaxTtlHours)
          let t ← now
          modify rid (fun r => { r with sandboxExpiresAt := some (t + h * 3600) })
          setMeta rid "ttl_hours" (.int h)
          addEvent
            { runtimeId := rid, actor, action := "sandbox_ttl_extended"
              detail := [("hours", .int h), ("reason", .str reason)] }
          commit
          pure (t + h * 3600)

inductive Request
  | create (req : ProvisionRequest) (actor : String)
  | desiredState (rid : Uuid) (desired reason actor : String)
  | supersede (rid : Uuid) (by_ : Option Uuid) (reason : Option String) (actor : String)
  | destroy (rid : Uuid) (actor : String)
  | reconcileOne (rs : ReconcileSettings) (rid : Uuid)
  | reconcileEvery (rs : ReconcileSettings)

def Request.prog (cfg : Settings) : Request → Py Unit
  | .create req actor => do
      let _ ← createAgentRuntime cfg req actor
  | .desiredState rid desired reason actor => setDesiredState rid desired reason actor
  | .supersede rid by_ reason actor => supersedeAgentRuntime rid by_ reason actor
  | .destroy rid actor => destroyAgentRuntime cfg rid actor
  | .reconcileOne rs rid => do
      let _ ← Api.reconcileOne cfg rs rid
  | .reconcileEvery rs => do
      let _ ← Api.reconcileEvery cfg rs

end ServerManager.Api
