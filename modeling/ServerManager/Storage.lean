import ServerManager.Effects
import Mathlib.Logic.Function.Basic

namespace ServerManager.Storage

open PyJson Orm Effects

/-- A persistent object of a session: the column values it was last in step
with and its present ones. `dirty` records a change inside `ownership_meta`. -/
structure Obj where
  loaded : AgentRuntime
  cur : AgentRuntime
  dirty : Bool := false

structure JobObj where
  loaded : ProvisioningJob
  cur : ProvisioningJob

inductive Write
  | updateRuntime (loaded cur : AgentRuntime) (dirty : Bool)
  | updateJob (loaded cur : ProvisioningJob)
  | updateStep (st : ProvisioningStep)
  | insertRuntime (r : AgentRuntime)
  | insertJob (j : ProvisioningJob)
  | insertStep (st : ProvisioningStep)
  | insertEvent (ev : RuntimeEvent)
  | insertBridge (b : BridgeRegistration)

/-- A stored runtime with the `updated_at` that every update of it refreshes. -/
structure Stored where
  row : AgentRuntime
  updatedAt : Time

/-- The committed contents of the `agent_runtime_manager` database. -/
structure Db where
  runtimes : List Stored := []
  jobs : List ProvisioningJob := []
  steps : List ProvisioningStep := []
  events : List RuntimeEvent := []
  bridges : List BridgeRegistration := []

def Db.runtime? (db : Db) (rid : Uuid) : Option AgentRuntime :=
  (db.runtimes.find? (fun x => x.row.runtimeId = rid)).map (·.row)

def Db.job? (db : Db) (jid : Uuid) : Option ProvisioningJob :=
  db.jobs.find? (fun j => j.jobId = jid)

/-- An update names its row by primary key and sets the changed columns only. -/
def Db.apply (t : Time) (db : Db) : Write → Db
  | .updateRuntime loaded cur dirty =>
      { db with runtimes := db.runtimes.map (fun x =>
          if x.row.runtimeId = loaded.runtimeId then ⟨loaded.merge cur dirty x.row, t⟩ else x) }
  | .updateJob loaded cur =>
      { db with jobs := db.jobs.map (fun j =>
          if j.jobId = loaded.jobId then
            { j with
              state := if cur.state = loaded.state then j.state else cur.state
              error := if cur.error = loaded.error then j.error else cur.error }
          else j) }
  | .updateStep st =>
      { db with steps := db.steps.map (fun x => if x.jobId = st.jobId ∧ x.seq = st.seq then st
        else x) }
  | .insertRuntime r => { db with runtimes := db.runtimes ++ [⟨r, t⟩] }
  | .insertJob j => { db with jobs := db.jobs ++ [j] }
  | .insertStep st => { db with steps := db.steps ++ [st] }
  | .insertEvent ev => { db with events := db.events ++ [ev] }
  | .insertBridge b => { db with bridges := db.bridges ++ [b] }

def Db.applyAll (t : Time) (db : Db) (ws : List Write) : Db := ws.foldl (Db.apply t) db

/-- An SQLAlchemy session: its identity map, what is pending, and the
statements its open transaction has sent. -/
structure Session where
  objs : List Obj := []
  jobs : List JobObj := []
  new : List Write := []
  txn : List Write := []

/-- Some mapped scalar column differs from its loaded value. -/
def changed (loaded cur : AgentRuntime) : Bool :=
  cur.node ≠ loaded.node || cur.vmid ≠ loaded.vmid || cur.desiredState ≠ loaded.desiredState ||
    cur.actualState ≠ loaded.actualState || cur.hermesStateRepo ≠ loaded.hermesStateRepo ||
    cur.hermesStateBranch ≠ loaded.hermesStateBranch || cur.stateSyncHealth ≠
      loaded.stateSyncHealth ||
    cur.lastReconcileAt ≠ loaded.lastReconcileAt || cur.lastError ≠ loaded.lastError ||
    cur.recoveryCount ≠ loaded.recoveryCount || cur.sandboxExpiresAt ≠ loaded.sandboxExpiresAt

theorem changed_self (r : AgentRuntime) : changed r r = false := by
  simp [changed]

def Obj.write (o : Obj) : List Write :=
  if changed o.loaded o.cur || o.dirty then [.updateRuntime o.loaded o.cur o.dirty] else []

theorem Obj.write_self (r : AgentRuntime) : Obj.write ⟨r, r, false⟩ = [] := by
  simp [Obj.write, changed]

def JobObj.write (o : JobObj) : List Write :=
  if o.cur.state ≠ o.loaded.state || o.cur.error ≠ o.loaded.error then [.updateJob o.loaded o.cur]
    else []

/-- The server default of `created_at`. -/
def stamped (t : Time) : Write → Write
  | .insertRuntime r => .insertRuntime { r with createdAt := some t }
  | w => w

namespace Session

def pending (t : Time) (s : Session) : List Write :=
  s.objs.flatMap Obj.write ++ s.jobs.flatMap JobObj.write ++ s.new.map (stamped t)

def inserted : List Write → List Obj
  | [] => []
  | .insertRuntime r :: ws => ⟨r, r, false⟩ :: inserted ws
  | _ :: ws => inserted ws

def insertedJobs : List Write → List JobObj
  | [] => []
  | .insertJob j :: ws => ⟨j, j⟩ :: insertedJobs ws
  | _ :: ws => insertedJobs ws

def flush (t : Time) (s : Session) : Session where
  objs := s.objs.map (fun o => ⟨o.cur, o.cur, false⟩) ++ inserted (s.new.map (stamped t))
  jobs := s.jobs.map (fun o => ⟨o.cur, o.cur⟩) ++ insertedJobs s.new
  new := []
  txn := s.txn ++ s.pending t

def obj? (s : Session) (rid : Uuid) : Option Obj := s.objs.find? (fun o => o.cur.runtimeId = rid)

def job? (s : Session) (jid : Uuid) : Option JobObj := s.jobs.find? (fun o => o.cur.jobId = jid)

/-- Assignments to the columns of one object; the code assigns no primary key. -/
def modify (s : Session) (rid : Uuid) (metaChanged : Bool) (f : AgentRuntime → AgentRuntime) :
    Session :=
  { s with objs := s.objs.map (fun o =>
      if o.cur.runtimeId = rid then
        ⟨o.loaded, { f o.cur with runtimeId := o.cur.runtimeId }, o.dirty || metaChanged⟩
      else o) }

def modifyJob (s : Session) (jid : Uuid) (f : ProvisioningJob → ProvisioningJob) : Session :=
  { s with jobs := s.jobs.map (fun o =>
      if o.cur.jobId = jid then ⟨o.loaded, { f o.cur with jobId := o.cur.jobId }⟩ else o) }

/-- A row that a query delivers: the object the identity map already has for
its key, unrefreshed, or a new object. -/
def load (s : Session) (r : AgentRuntime) : AgentRuntime × Session :=
  match s.obj? r.runtimeId with
  | some o => (o.cur, s)
  | none => (r, { s with objs := s.objs ++ [⟨r, r, false⟩] })

def loadJob (s : Session) (j : ProvisioningJob) : ProvisioningJob × Session :=
  match s.job? j.jobId with
  | some o => (o.cur, s)
  | none => (j, { s with jobs := s.jobs ++ [⟨j, j⟩] })

def loadAll (s : Session) : List AgentRuntime → List AgentRuntime × Session
  | [] => ([], s)
  | r :: rs =>
      let (r', s₁) := s.load r
      let (rs', s₂) := loadAll s₁ rs
      (r' :: rs', s₂)

end Session

def Query.run (q : Query) (db : Db) : List AgentRuntime :=
  match q with
  | .staleSandboxes t =>
      (db.runtimes.map (·.row)).filter (fun r =>
        r.runtimeClass = "sandbox" && (r.sandboxExpiresAt.any (fun e => e < t)) &&
          r.desiredState ≠ .desiredDestroyed)
  | .reconcilable limit =>
      (((db.runtimes.filter (fun x =>
        x.row.desiredState ≠ .desiredDestroyed && x.row.createdByAgentRuntimeManager)).mergeSort
          (fun x y => x.updatedAt ≤ y.updatedAt)).take limit).map (·.row)
  | .others rid => (db.runtimes.map (·.row)).filter (fun r => r.runtimeId ≠ rid)

/-- `(node, runtime_class)` of the rows that have a node and are not ABSENT. -/
def Db.placedNodes (db : Db) : List (String × String) :=
  db.runtimes.filterMap (fun x =>
    if x.row.actualState = .absent then none else x.row.node.map (fun n => (n, x.row.runtimeClass)))

/-- Two statements of different transactions of which the second waits: they
update one row, or insert the same key of the unique index on `request_id`. -/
def Write.conflicts : Write → Write → Prop
  | .updateRuntime l _ _, .updateRuntime l' _ _ => l.runtimeId = l'.runtimeId
  | .updateJob l _, .updateJob l' _ => l.jobId = l'.jobId
  | .insertJob j, .insertJob j' => j.requestId = j'.requestId
  | _, _ => False

/-- A key of the unique index on `request_id` that is already there. -/
def Db.duplicate (db : Db) (ws : List Write) : Prop :=
  ∃ j, .insertJob j ∈ ws ∧ ∃ j' ∈ db.jobs, j'.requestId = j.requestId

/-- The remote systems: Proxmox, Kea and the local network. -/
structure Remote (R : Type) where
  pve : R → PveCall → Except PyExc Json → R → Prop
  kea : R → (c : KeaCall) → KeaAns c → R → Prop
  neigh : R → String → Option String → Prop

/-- Remote systems that may answer anything at any time. -/
def Remote.any : Remote Unit where
  pve _ _ _ _ := True
  kea _ _ _ _ := True
  neigh _ _ _ := True

structure World (R : Type) where
  db : Db
  sessions : Nat → Session
  clock : Time
  uuids : List Uuid
  remote : R

namespace World

variable {R : Type}

/-- What a statement of process `i` sees under READ COMMITTED: the committed
rows and what its own transaction has written. -/
def view (w : World R) (i : Nat) : Db := w.db.applyAll w.clock (w.sessions i).txn

def setSession (w : World R) (i : Nat) (s : Session) : World R :=
  { w with sessions := Function.update w.sessions i s }

/-- Some statement of `ws` has to wait for another open transaction. -/
def blocked (w : World R) (i : Nat) (ws : List Write) : Prop :=
  ∃ j, j ≠ i ∧ ∃ x ∈ ws, ∃ y ∈ (w.sessions j).txn, x.conflicts y

def dbStep (w : World R) (i : Nat) : (c : DbCall) → DbAns c → World R → Prop
  | .getRuntime rid, a, w' =>
      match (w.sessions i).obj? rid with
      | some o => a = some o.cur ∧ w' = w
      | none =>
          match (w.view i).runtime? rid with
          | some r => a = some r ∧ w' = w.setSession i ((w.sessions i).load r).2
          | none => a = none ∧ w' = w
  | .getJob jid, a, w' =>
      match (w.sessions i).job? jid with
      | some o => a = some o.cur ∧ w' = w
      | none =>
          match (w.view i).job? jid with
          | some j => a = some j ∧ w' = w.setSession i ((w.sessions i).loadJob j).2
          | none => a = none ∧ w' = w
  | .findJob q, a, w' =>
      match (w.view i).jobs.find? (fun j => j.requestId = q) with
      | some j =>
          a = some ((w.sessions i).loadJob j).1 ∧ w' = w.setSession i ((w.sessions i).loadJob j).2
      | none => a = none ∧ w' = w
  | .selectRuntimes q, a, w' =>
      a = ((w.sessions i).loadAll (Query.run q (w.view i))).1 ∧
        w' = w.setSession i ((w.sessions i).loadAll (Query.run q (w.view i))).2
  | .placedNodes, a, w' => a = (w.view i).placedNodes ∧ w' = w
  | .findStep jid seq, a, w' =>
      a = (w.view i).steps.find? (fun st => st.jobId = jid ∧ st.seq = seq) ∧ w' = w
  | .modify rid b f, _, w' => w' = w.setSession i ((w.sessions i).modify rid b f)
  | .modifyJob jid f, _, w' => w' = w.setSession i ((w.sessions i).modifyJob jid f)
  | .setStep st, _, w' =>
      w' = w.setSession i { w.sessions i with new := (w.sessions i).new ++ [.updateStep st] }
  | .addRuntime r, _, w' =>
      w' = w.setSession i { w.sessions i with new := (w.sessions i).new ++ [.insertRuntime r] }
  | .addJob j, _, w' =>
      w' = w.setSession i { w.sessions i with new := (w.sessions i).new ++ [.insertJob j] }
  | .addStep st, _, w' =>
      w' = w.setSession i { w.sessions i with new := (w.sessions i).new ++ [.insertStep st] }
  | .addEvent ev, _, w' =>
      w' = w.setSession i { w.sessions i with new := (w.sessions i).new ++ [.insertEvent ev] }
  | .addBridge b, _, w' =>
      w' = w.setSession i { w.sessions i with new := (w.sessions i).new ++ [.insertBridge b] }
  | .flush, a, w' =>
      ¬ w.blocked i ((w.sessions i).pending w.clock) ∧
        match a with
        | .ok _ =>
            ¬ w.db.duplicate ((w.sessions i).pending w.clock) ∧
              w' = w.setSession i ((w.sessions i).flush w.clock)
        -- the unique index refuses the insert and the transaction is rolled back
        | .error x =>
            w.db.duplicate ((w.sessions i).pending w.clock) ∧ x.cls = .integrityError ∧
              w' = w.setSession i {}
  | .commit, _, w' =>
      ∃ t, w.clock ≤ t ∧
        w' = { w.setSession i { w.sessions i with txn := [] } with
          db := w.db.applyAll t (w.sessions i).txn, clock := t }
  | .close, _, w' => w' = w.setSession i {}

def sysStep (rem : Remote R) (w : World R) : (c : SysCall) → SysAns c → World R → Prop
  | .now, t, w' => w.clock ≤ t ∧ w' = { w with clock := t }
  | .uuid4, u, w' => u ∉ w.uuids ∧ w' = { w with uuids := u :: w.uuids }
  | .ipNeigh ip, a, w' => rem.neigh w.remote ip a ∧ w' = w
  | _, _, w' => w' = w

/-- One call of process `i`. -/
def step (rem : Remote R) (i : Nat) (w : World R) : (e : Eff) → Ans e → World R → Prop
  | .pve c, a, w' => ∃ r, rem.pve w.remote c a r ∧ w' = { w with remote := r }
  | .kea c, a, w' => ∃ r, rem.kea w.remote c a r ∧ w' = { w with remote := r }
  | .db c, a, w' => w.dbStep i c a w'
  | .sys c, a, w' => w.sysStep rem c a w'

end World

end ServerManager.Storage
