import ServerManager.Placement
import ServerManager.CloneHygiene
import ServerManager.SandboxNetwork

namespace ServerManager.Provisioning

open Interaction PyJson PyText Orm Effects Config ProxmoxVm Placement CloneHygiene SandboxNetwork

structure ProvisionRequest where
  acmsAgentId : String
  requestId : String
  name : String
  harness : String := "hermes"
  runtimeClass : String := "software_development_worker"
  site : String := "marion-ia-usa"
  modelRoute : Option String := none
  bridgeProfile : Option Dict := none
  desiredState : RuntimeState := .desiredRunning
  sandboxTtlHours : Option Int := none
  templateVmid : Int := 135
  templateNode : String := "miam00111"

def newRuntime (req : ProvisionRequest) (rid : Uuid) : AgentRuntime :=
  let source := s!"{req.templateNode}/qemu/{req.templateVmid}"
  { runtimeId := rid
    acmsAgentId := req.acmsAgentId
    provisioningRequestId := req.requestId
    name := req.name
    harness := req.harness
    runtimeClass := req.runtimeClass
    site := req.site
    modelRoute := req.modelRoute
    desiredState := req.desiredState
    actualState := .absent
    createdByAgentRuntimeManager := true
    templateSource := some source
    ownershipMeta := [("bridge_profile", .obj (req.bridgeProfile.getD []))] }

def ttlHours (cfg : Settings) (asked : Option Int) : Int :=
  max 1 (min ((asked.filter (· ≠ 0)).getD cfg.armSandboxDefaultTtlHours) cfg.armSandboxMaxTtlHours)

def stampTtl (cfg : Settings) (req : ProvisionRequest) (t : Time) (r : AgentRuntime) :
    AgentRuntime :=
  let hours := ttlHours cfg req.sandboxTtlHours
  { r with
    sandboxExpiresAt := some (t + hours * 3600)
    ownershipMeta := Dict.set (Dict.set r.ownershipMeta "kind" (.str "sandbox")) "ttl_hours" (.int hours) }

/-- The new row as it is inserted; only the sandbox class carries a TTL. -/
def buildRuntime (cfg : Settings) (req : ProvisionRequest) (rid : Uuid) : Py AgentRuntime := do
  if req.runtimeClass = "sandbox" then
    let t ← now
    pure (stampTtl cfg req t (newRuntime req rid))
  else pure (newRuntime req rid)

/-- Idempotent submit: the same request id gives the original job. -/
def submit (cfg : Settings) (req : ProvisionRequest) (requestedBy authority : String) :
    Py (ProvisioningJob × Bool) := do
  match ← findJob req.requestId with
  | some existing => pure (existing, false)
  | none =>
      let rid ← uuid4
      let runtime ← buildRuntime cfg req rid
      addRuntime runtime
      flush
      let jid ← uuid4
      let job : ProvisioningJob :=
        { jobId := jid, requestId := req.requestId, runtimeId := rid, requestedBy, authority, state := .queued }
      addJob job
      addEvent
        { runtimeId := rid, actor := requestedBy, action := "provision_submitted"
          detail := [("request_id", .str req.requestId), ("authority", .str authority)] }
      commit
      pure (job, true)

/-- A step is recorded twice per sequence number, so this is an upsert. -/
def recordStep (job : Uuid) (seq : Nat) (step : String) (state : StepState := .running)
    (detail : Option String := none) : Py Unit := do
  flush
  match ← findStep job seq with
  | some _ => setStep { jobId := job, seq, step, state, detail }
  | none => addStep { jobId := job, seq, step, state, detail }
  commit

def setMeta (rid : Uuid) (key : String) (v : Json) : Py Unit :=
  modifyMeta rid (fun d => Dict.set d key v)

/-- `tpl_source.split("/qemu/", 1)`. -/
def splitQemu : List Char → Option (List Char × List Char)
  | [] => none
  | c :: cs =>
      if "/qemu/".toList.isPrefixOf (c :: cs) then some ([], (c :: cs).drop 6)
      else (splitQemu cs).map (fun p => (c :: p.1, p.2))

/-- Template node and VMID of the recorded source, or the proven default. -/
def templateOf (source : Option String) : String × Int :=
  let src := (source.filter (· != "")).getD "miam00111/qemu/135"
  match splitQemu src.toList with
  | none => ("miam00111", 135)
  | some (node, path) =>
      match pyIntText (String.ofList path) with
      | none => ("miam00111", 135)
      | some vmid => (if node.isEmpty then "miam00111" else String.ofList node, vmid)

def event (rid : Uuid) (action result : String) (detail : Dict) : Py Unit :=
  addEvent { runtimeId := rid, actor := "arm", action, result, detail }

/-- The MAC that `net0` of a VM's configuration shows. -/
def net0Mac (cfg : Json) : Py String := do
  let net0 ← dictGet cfg "net0"
  match net0.orElse (.str "") with
  | .str text => pure ((macSearch text.toList).getD "")
  | _ => raised .typeError "expected string or bytes-like object"

/-- The decoded description, or an empty marker when it does not decode. -/
def guestMarker (cfg : Json) : Py Json := do
  let desc ← dictGet cfg "description"
  match desc.orElse (.str "\x7b\x7d") with
  | .str text => pure ((loads text).getD (.obj []))
  | _ => pure (.obj [])

def otherRuntimeIps (rid : Uuid) : Py (List String) := do
  let rows ← selectRuntimes (.others rid)
  pure (rows.filterMap (fun r =>
    let ip := (Dict.get? r.ownershipMeta "ip").getD .null
    if ip.truthy then some ip.pyStr else none))

def reportJson (checks : List Check) : Json :=
  .arr (checks.map (fun c => .arr [.str c.1, .bool true, .str c.2]))

/-- The identity gate; a failed check is recorded and fails the job. -/
def runCloneHygiene (runtime : AgentRuntime) (node : String) (vmid : Int) (ip : String) : Py Unit :=
  do
  let rid := runtime.runtimeId
  let cfg ← vmConfig node vmid
  let mac ← net0Mac cfg
  let marker ← guestMarker cfg
  let others ← otherRuntimeIps rid
  let guestId ← dictGet marker "acms_agent_id"
  let report ← tryCatch (do
      let checks ← verifyCloneIdentity vmid runtime.name mac ip runtime.acmsAgentId guestId others
      pure (Except.ok checks))
    (fun e => if e.cls = .hygieneError then pure (Except.error e) else throw e)
  match report with
  | .ok checks =>
      let t ← now
      setMeta rid "clone_hygiene"
        (.obj [("ok", .bool true), ("checks", reportJson checks),
          ("verified_at", .str (isoformat t))])
  | .error e =>
      let msg := e.msg
      let shown := String.ofList (msg.toList.take 400)
      setMeta rid "clone_hygiene" (.obj [("ok", .bool false), ("error", .str shown)])
      event rid "clone_hygiene_failed" "error"
        [("error", .str shown), ("vmid", .int vmid), ("ip", .str ip),
          ("policy", .str "fail_closed_no_ready")]
      raised .runtimeError s!"clone hygiene gate rejected VM {vmid}: {msg}"

/-- PLACING: the node of the decision, or a rejection recorded in the ledger. -/
def placeVm (job : Uuid) (runtime : AgentRuntime) (templateNode : String) : Py String := do
  recordStep job 3 "PLACING"
  let cls :=
    if runtime.runtimeClass = "" then "software_development_worker" else runtime.runtimeClass
  let decision ← selectNode cls templateNode
  let reason := decision.rejectionReason.getD "None"
  if decision.rejected || decision.node = "" then
    recordStep job 3 "PLACING" .failed decision.rejectionReason
    raised .runtimeError s!"placement policy rejected provisioning: {reason} (§5)"
  else
    event runtime.runtimeId "placement_selected" "ok"
      [("node", .str decision.node), ("score", .int decision.score),
        ("reasons", .arr (decision.reasons.map .str))]
    recordStep job 3 "PLACING" .done (some decision.node)
    pure decision.node

/-- CLONING_VM: storage gate, clone, lock wait and the audit row. -/
def cloneVm (job : Uuid) (runtime : AgentRuntime) (node templateNode : String)
    (templateVmid : Int) :
    Py (Int × VMSpec) := do
  recordStep job 3 "CLONING_VM"
  let vmid ← nextVmid
  let source := (runtime.templateSource.filter (· != "")).getD "miam00111/qemu/121"
  let spec : VMSpec :=
    { name := runtime.name, node, templateVmid, templateNode
      descriptionMeta := ownershipMarker runtime node vmid source }
  let tstore ← templateStorage spec
  let active ← if tstore = "" then pure true else storageActive node tstore
  if !active then
    raised .runtimeError
      s!"template storage '{tstore}' not active on placed node '{node}'; cross-node clone would fail (live-found constraint, plan §26)"
  else
    cloneTemplate spec vmid
    waitCloneLockRelease node vmid
    event runtime.runtimeId "vm_cloned" "ok"
      [("vmid", .int vmid), ("node", .str node), ("template", .int templateVmid)]
    recordStep job 3 "CLONING_VM" .done
    pure (vmid, spec)

/-- CONFIGURING_CLOUD_INIT; a sandbox gets its MAC pinned in `net0`. The result
is the row's `ownership_meta` afterwards. -/
def configureVm (job : Uuid) (runtime : AgentRuntime) (spec : VMSpec) (vmid : Int) : Py Dict := do
  recordStep job 4 "CONFIGURING_CLOUD_INIT"
  configureCloudInit spec vmid
  if runtime.runtimeClass = "sandbox" then
    let mac ← generateMac
    let bridge := spec.bridge
    configureCloudInit spec vmid (some s!"virtio={mac},bridge={bridge}")
    setMeta runtime.runtimeId "sandbox_mac" (.str mac)
    recordStep job 4 "CONFIGURING_CLOUD_INIT" .done
    pure (Dict.set runtime.ownershipMeta "sandbox_mac" (.str mac))
  else
    configureCloudInit spec vmid
    recordStep job 4 "CONFIGURING_CLOUD_INIT" .done
    pure runtime.ownershipMeta

/-- The MAC to reserve: the pinned one, else the one the configuration shows. -/
def sandboxMac (om : Dict) (node : String) (vmid : Int) : Py String := do
  match ((Dict.get? om "sandbox_mac").getD .null).orElse (.str "") with
  | .str "" => do
      let cfg ← vmConfig node vmid
      net0Mac cfg
  | x => pure x.pyStr

def workUid (om : Dict) (requestId : String) : String :=
  (((Dict.get? om "work_uid").getD .null).orElse (.str requestId)).pyStr

def sandboxHost (runtime : AgentRuntime) (vmid : Int) : String :=
  if runtime.name = "" then s!"sbx-{vmid}" else runtime.name

/-- Allocate, reserve and verify, then record the reservation in the row. -/
def reserveAddress (cfg : Settings) (p : Pool) (runtime : AgentRuntime) (om : Dict) (vmid : Int)
    (mac : String) : Py String := do
  let (ip, existing) ← allocate p
  let rec_ ← reserveForMac cfg ip mac (sandboxHost runtime vmid)
    (workUid om runtime.provisioningRequestId)
    (String.ofList (runtime.acmsAgentId.toList.take 48)) existing
  verifyReserved ip
  modifyMeta runtime.runtimeId (fun d =>
    Dict.set (Dict.set (Dict.set d "sandbox_ip" (.str rec_.ip)) "sandbox_mac" (.str rec_.mac))
      "sandbox_reservation_uuid" (.str rec_.uuid))
  event runtime.runtimeId "sandbox_reservation_created" "ok"
    [("ip", .str rec_.ip), ("mac", .str rec_.mac), ("reservation_uuid", .str rec_.uuid)]
  pure rec_.ip

def reserveSandbox (cfg : Settings) (job : Uuid) (runtime : AgentRuntime) (om : Dict)
    (node : String) (vmid : Int) : Py Unit := do
  recordStep job 4 "SANDBOX_DHCP_RESERVE"
  let mac ← sandboxMac om node vmid
  if cfg.sandboxNetworkEnabled ≠ 0 then
    let p ← newService cfg
    let ip ← tryCatch (reserveAddress cfg p runtime om vmid mac) (fun e =>
      if e.cls = .sandboxNetworkError then do
        let msg := e.msg
        recordStep job 4 "SANDBOX_DHCP_RESERVE" .failed (some (String.ofList (msg.toList.take 300)))
        event runtime.runtimeId "sandbox_reservation_failed" "error"
          [("error", .str (String.ofList (msg.toList.take 400))), ("vmid", .int vmid),
            ("mac", .str mac)]
        raised .runtimeError s!"sandbox DHCP reservation failed (fail-closed, no boot): {msg}"
      else throw e)
    recordStep job 4 "SANDBOX_DHCP_RESERVE" .done (some ip)
  else
    recordStep job 4 "SANDBOX_DHCP_RESERVE" .failed
      (some "sandbox network gate disabled (SERVER_MANAGER_SANDBOX_NETWORK_ENABLED!=1)")
    raised .runtimeError "sandbox provisioning blocked: DHCP isolation gate disabled (W4.1)"

def bootVm (job : Uuid) (runtime : AgentRuntime) (node : String) (vmid : Int) : Py Unit := do
  recordStep job 5 "BOOTING"
  start node vmid
  let ip ← waitForIp node vmid 420
  match ip.filter (· != "") with
  | none => raised .runtimeError "no guest IP after boot (420s)"
  | some ip => do
      setMeta runtime.runtimeId "ip" (.str ip)
      recordStep job 5 "BOOTING" .done (some ip)
      recordStep job 6 "HYGIENE_GATE"
      runCloneHygiene runtime node vmid ip
      recordStep job 6 "HYGIENE_GATE" .done

def validate (job : Uuid) (runtime : AgentRuntime) : Py Unit := do
  recordStep job 1 "VALIDATING"
  if runtime.acmsAgentId = "" then raised .valueError "acms_agent_id required (§9)"
  else
    recordStep job 1 "VALIDATING" .done
    recordStep job 2 "RESERVING" .done

def provisionVm (cfg : Settings) (job : Uuid) (runtime : AgentRuntime) : Py (Int × String) := do
  let (templateNode, templateVmid) := templateOf runtime.templateSource
  validate job runtime
  let node ← placeVm job runtime templateNode
  let (vmid, spec) ← cloneVm job runtime node templateNode templateVmid
  let om ← configureVm job runtime spec vmid
  if runtime.runtimeClass = "sandbox" then
    reserveSandbox cfg job runtime om node vmid
    bootVm job runtime node vmid
  else bootVm job runtime node vmid
  pure (vmid, node)

def bridgeCredential (rid : Uuid) : String :=
  let head := String.ofList (rid.hexChars.take 12)
  s!"bridge-{head}"

def lastFour (s : String) : String := String.ofList (s.toList.drop (s.toList.length - 4))

def stateBranch (agent : String) : String :=
  let head := String.ofList (agent.toList.take 8)
  s!"agent/{head}"

def bootstrapHermes (job : Uuid) (runtime : AgentRuntime) : Py Unit := do
  let rid := runtime.runtimeId
  recordStep job 6 "WAITING_GUEST" .done
  let token ← tokenUrlsafe 24
  setMeta rid "bridge_credential_id" (.str (bridgeCredential rid))
  setMeta rid "bridge_token_last4" (.str (lastFour token))
  recordStep job 7 "INJECTING_BRIDGE_CONFIG"
  let t ← now
  setMeta rid "bridge_bootstrap"
    (.obj [("status", .str "deferred_to_step8"), ("injected_at", .str (isoformat t))])
  addBridge
    { runtimeId := rid, acmsAgentId := runtime.acmsAgentId, bridgeCredentialId := bridgeCredential rid }
  recordStep job 7 "INJECTING_BRIDGE_CONFIG" .done
  recordStep job 8 "HERMES_STATE_BRANCH"
  modify rid (fun r =>
    { r with
      hermesStateRepo := some "startupteams/hermes-base-setup"
      hermesStateBranch := some (stateBranch runtime.acmsAgentId)
      stateSyncHealth := some "PENDING" })
  recordStep job 8 "HERMES_STATE_BRANCH" .done (some (stateBranch runtime.acmsAgentId))

/-- The body that `run_job` guards: the steps, then the outcome in one commit. -/
def completeJob (cfg : Settings) (job : Uuid) (runtime : AgentRuntime) : Py Unit := do
  let (vmid, node) ← provisionVm cfg job runtime
  bootstrapHermes job runtime
  modify runtime.runtimeId (fun r =>
    { r with actualState := .running, vmid := some vmid, node := some node })
  modifyJob job (fun j => { j with state := .done })
  event runtime.runtimeId "provision_complete" "ok" [("vmid", .int vmid), ("node", .str node)]
  commit

def failJob (job : Uuid) (rid : Uuid) (e : PyExc) : Py Unit := do
  let cls := e.cls.name
  let msg := e.msg
  let shown := String.ofList (s!"{cls}: {msg}".toList.take 800)
  modifyJob job (fun j => { j with state := .failed, error := some shown })
  modify rid (fun r => { r with actualState := .error })
  event rid "provision_failed" "error" [("error", .str shown)]
  commit

def runJob (cfg : Settings) (jid : Uuid) : Py Unit := do
  match ← getJob jid with
  | none => pure ()
  | some job =>
      if job.state ≠ .queued then pure ()
      else
        modifyJob jid (fun j => { j with state := .running })
        let found ← getRuntime job.runtimeId
        commit
        match found with
        | none => raised .attributeError "'NoneType' object has no attribute 'actual_state'"
        | some runtime => tryCatch (completeJob cfg jid runtime) (failJob jid runtime.runtimeId)

end ServerManager.Provisioning
