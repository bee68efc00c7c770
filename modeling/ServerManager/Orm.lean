import ServerManager.PyJson

namespace ServerManager.Orm

open PyJson

abbrev Time := Int

structure Uuid where
  bits : BitVec 128
  deriving DecidableEq, Repr

namespace Uuid

def hexDigits : Nat → Nat → List Char
  | 0, _ => []
  | width + 1, n => hexDigits width (n / 16) ++ [hexDigit (n % 16)]

/-- The 32 hexadecimal digits, `u.hex`. -/
def hexChars (u : Uuid) : List Char := hexDigits 32 u.bits.toNat

def hex (u : Uuid) : String := String.ofList u.hexChars

/-- The canonical text, `str(u)`. -/
@[irreducible] def str (u : Uuid) : String :=
  let h := u.hexChars
  String.ofList (h.take 8 ++ '-' :: (h.drop 8).take 4 ++ '-' :: (h.drop 12).take 4 ++
    '-' :: (h.drop 16).take 4 ++ '-' :: h.drop 20)

end Uuid

inductive RuntimeState
  | desiredRunning
  | desiredStopped
  | desiredDestroyed
  deriving DecidableEq, Repr

def RuntimeState.value : RuntimeState → String
  | .desiredRunning => "DESIRED_RUNNING"
  | .desiredStopped => "DESIRED_STOPPED"
  | .desiredDestroyed => "DESIRED_DESTROYED"

/-- `RuntimeState(text)`, which raises `ValueError` on any other text. -/
def RuntimeState.ofText (s : String) : Option RuntimeState :=
  if s = "DESIRED_RUNNING" then some .desiredRunning
  else if s = "DESIRED_STOPPED" then some .desiredStopped
  else if s = "DESIRED_DESTROYED" then some .desiredDestroyed
  else none

inductive ActualState
  | absent
  | provisioning
  | running
  | stopped
  | error
  | destroyed
  | superseded
  deriving DecidableEq, Repr

def ActualState.value : ActualState → String
  | .absent => "ABSENT"
  | .provisioning => "PROVISIONING"
  | .running => "RUNNING"
  | .stopped => "STOPPED"
  | .error => "ERROR"
  | .destroyed => "DESTROYED"
  | .superseded => "SUPERSEDED"

inductive JobState
  | queued
  | running
  | done
  | failed
  | cancelled
  deriving DecidableEq, Repr

/-- A row of `agent_runtimes`, less `updated_at`, which only the database
sets and reads. `createdAt` is the server default of the insert. -/
structure AgentRuntime where
  runtimeId : Uuid
  acmsAgentId : String
  provisioningRequestId : String
  name : String
  provider : String := "proxmox_vm"
  node : Option String := none
  vmid : Option Int := none
  harness : String := "hermes"
  runtimeClass : String := "software_development_worker"
  site : String := "marion-ia-usa"
  modelRoute : Option String := none
  desiredState : RuntimeState := .desiredRunning
  actualState : ActualState := .absent
  createdByAgentRuntimeManager : Bool := false
  templateSource : Option String := none
  ownershipMeta : Dict := []
  hermesStateRepo : Option String := none
  hermesStateBranch : Option String := none
  stateSyncHealth : Option String := none
  createdAt : Option Time := none
  lastReconcileAt : Option Time := none
  lastError : Option String := none
  recoveryCount : Nat := 0
  sandboxExpiresAt : Option Time := none

structure ProvisioningJob where
  jobId : Uuid
  requestId : String
  runtimeId : Uuid
  requestedBy : String
  authority : String := "sprint_execution_context"
  state : JobState := .queued
  error : Option String := none

inductive StepState
  | running
  | done
  | failed
  deriving DecidableEq, Repr

structure ProvisioningStep where
  jobId : Uuid
  seq : Nat
  step : String
  state : StepState := .running
  detail : Option String := none

structure RuntimeEvent where
  runtimeId : Uuid
  actor : String
  action : String
  result : String := "ok"
  detail : Dict := []

structure BridgeRegistration where
  runtimeId : Uuid
  acmsAgentId : String
  bridgeCredentialId : String

/-- The marker keys every VM of the Runtime Manager must carry. -/
def ownershipRequiredKeys : List String :=
  ["server_runtime_id", "acms_agent_id", "provisioning_request_id", "provider", "node", "vmid",
    "created_by_agent_runtime_manager", "created_at", "template_source"]

/-- What the update of a loaded object writes: the columns whose value differs
from the loaded one. The JSON column is flagged by every in-place change, so it
is written when `dirty` says so. -/
def AgentRuntime.merge (loaded cur : AgentRuntime) (dirty : Bool) (db : AgentRuntime) :
    AgentRuntime :=
  { db with
    node := if cur.node = loaded.node then db.node else cur.node
    vmid := if cur.vmid = loaded.vmid then db.vmid else cur.vmid
    desiredState :=
      if cur.desiredState = loaded.desiredState then db.desiredState else cur.desiredState
    actualState := if cur.actualState = loaded.actualState then db.actualState else cur.actualState
    ownershipMeta := if dirty then cur.ownershipMeta else db.ownershipMeta
    hermesStateRepo :=
      if cur.hermesStateRepo = loaded.hermesStateRepo then db.hermesStateRepo
        else cur.hermesStateRepo
    hermesStateBranch :=
      if cur.hermesStateBranch = loaded.hermesStateBranch then db.hermesStateBranch
        else cur.hermesStateBranch
    stateSyncHealth :=
      if cur.stateSyncHealth = loaded.stateSyncHealth then db.stateSyncHealth
        else cur.stateSyncHealth
    lastReconcileAt :=
      if cur.lastReconcileAt = loaded.lastReconcileAt then db.lastReconcileAt
        else cur.lastReconcileAt
    lastError := if cur.lastError = loaded.lastError then db.lastError else cur.lastError
    recoveryCount :=
      if cur.recoveryCount = loaded.recoveryCount then db.recoveryCount else cur.recoveryCount
    sandboxExpiresAt :=
      if cur.sandboxExpiresAt = loaded.sandboxExpiresAt then db.sandboxExpiresAt else cur.sandboxExpiresAt }

end ServerManager.Orm
