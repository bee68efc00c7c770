import ServerManager.Interaction
import ServerManager.Orm

namespace ServerManager.Effects

open Interaction PyJson Orm

/-- The exception classes the modelled code raises or tells apart. All of them
are subclasses of `Exception`. -/
inductive ExcClass
  | ownershipError
  | sandboxNetworkError
  | hygieneError
  | runtimeError
  | valueError
  | typeError
  | attributeError
  | keyError
  | integrityError
  | httpException (status : Nat)
  | other (name : String)
  deriving DecidableEq, Repr

def ExcClass.name : ExcClass → String
  | .ownershipError => "OwnershipError"
  | .sandboxNetworkError => "SandboxNetworkError"
  | .hygieneError => "HygieneError"
  | .runtimeError => "RuntimeError"
  | .valueError => "ValueError"
  | .typeError => "TypeError"
  | .attributeError => "AttributeError"
  | .keyError => "KeyError"
  | .integrityError => "IntegrityError"
  | .httpException _ => "HTTPException"
  | .other name => name

/-- A raised exception: its class and `str(e)`. -/
structure PyExc where
  cls : ExcClass
  msg : String
  deriving DecidableEq, Repr

/-- The requests `ProxmoxVMProvider._call` sends, with the data that vary. -/
inductive PveCall
  | nodes
  | nextid
  | config (node : String) (vmid : Int)
  | status (node : String) (vmid : Int)
  | storage (node : String)
  | interfaces (node : String) (vmid : Int)
  | clone (templateNode : String) (templateVmid : Int) (newid : Int) (name : String)
      (target : String)
  | setConfig (node : String) (vmid : Int) (body : List (String × String))
  | start (node : String) (vmid : Int)
  | shutdown (node : String) (vmid : Int) (timeout : Nat)
  | stop (node : String) (vmid : Int)
  | destroy (node : String) (vmid : Int) (query : String)

/-- A row of Kea's reservation table as `search_reservation` lists it. -/
structure KeaRow where
  uuid : Option String
  ipAddress : Option String
  hwAddress : Option String
  hostname : Option String := none
  description : Option String
  deriving DecidableEq, Repr

structure KeaLease where
  address : Option String
  state : Option Int

structure KeaSubnet where
  uuid : Option String
  subnet : Option String

/-- The API calls of `KeaReservationClient._post_json`. -/
inductive KeaCall
  | searchReservation
  | searchLeases
  | searchSubnet
  | addReservation (subnet ip hw hostname description : String)
  | delReservation (uuid : String)
  | reconfigure

/-- The fields of the answers that are read; a call may also raise. -/
def KeaAns : KeaCall → Type
  | .searchReservation => Except PyExc (List KeaRow)
  | .searchLeases => Except PyExc (List KeaLease)
  | .searchSubnet => Except PyExc (List KeaSubnet)
  | .addReservation .. => Except PyExc (Option String × Option String)
  | .delReservation _ => Except PyExc (Option String)
  | .reconfigure => Except PyExc (Option String)

/-- The `select(AgentRuntime)` statements of the code. -/
inductive Query
  | staleSandboxes (now : Time)
  | reconcilable (limit : Nat)
  | others (rid : Uuid)

/-- What the code does with its SQLAlchemy session. `modify`, `modifyJob`,
`setStep` and `add` only change objects of the session; `flush` sends the
pending statements and `commit` ends the transaction. -/
inductive DbCall
  | getRuntime (rid : Uuid)
  | getJob (jid : Uuid)
  | findJob (requestId : String)
  | selectRuntimes (q : Query)
  | placedNodes
  | findStep (jid : Uuid) (seq : Nat)
  | modify (rid : Uuid) (metaChanged : Bool) (f : AgentRuntime → AgentRuntime)
  | modifyJob (jid : Uuid) (f : ProvisioningJob → ProvisioningJob)
  | setStep (st : ProvisioningStep)
  | addRuntime (r : AgentRuntime)
  | addJob (j : ProvisioningJob)
  | addStep (st : ProvisioningStep)
  | addEvent (ev : RuntimeEvent)
  | addBridge (b : BridgeRegistration)
  | flush
  | commit
  | close

def DbAns : DbCall → Type
  | .getRuntime _ => Option AgentRuntime
  | .getJob _ => Option ProvisioningJob
  | .findJob _ => Option ProvisioningJob
  | .selectRuntimes _ => List AgentRuntime
  | .placedNodes => List (String × String)
  | .findStep .. => Option ProvisioningStep
  | .flush => Except PyExc Unit
  | _ => Unit

/-- Clock, randomness and local commands. A loop that polls until a deadline
first asks how many of its time checks come before the deadline. -/
inductive SysCall
  | now
  | sleep (seconds : Nat)
  | polls (maxS : Nat)
  | randbelow (n : Nat)
  | uuid4
  | tokenUrlsafe (n : Nat)
  | ipNeigh (ip : String)
  | guestExec (vmid : Int)
  | leaseInventory

/-- What `subprocess.run` gives for a command that has ended. -/
structure CompletedProcess where
  returncode : Int
  stdout : String
  stderr : String

def SysAns : SysCall → Type
  | .now => Time
  | .sleep _ => Unit
  | .polls _ => Nat
  | .randbelow n => Fin n
  | .uuid4 => Uuid
  | .tokenUrlsafe _ => String
  | .ipNeigh _ => Option String
  | .guestExec _ => Option CompletedProcess
  | .leaseInventory => Except PyExc (List String)

inductive Eff
  | pve (c : PveCall)
  | kea (c : KeaCall)
  | db (c : DbCall)
  | sys (c : SysCall)

/-- `_call` gives any JSON value or raises. -/
def Ans : Eff → Type
  | .pve _ => Except PyExc Json
  | .kea c => KeaAns c
  | .db c => DbAns c
  | .sys c => SysAns c

abbrev Py := Prog Eff Ans PyExc

abbrev PyTrace := Trace Eff Ans

def raised {α : Type} (cls : ExcClass) (msg : String) : Py α := throw ⟨cls, msg⟩

/-- A call whose answer may be an exception raises it. -/
def orRaise {α : Type} : Except PyExc α → Py α
  | .ok a => pure a
  | .error x => throw x

def pve (c : PveCall) : Py Json := .call (.pve c) orRaise

def searchReservation : Py (List KeaRow) := .call (.kea .searchReservation) orRaise

def searchLeases : Py (List KeaLease) := .call (.kea .searchLeases) orRaise

def searchSubnet : Py (List KeaSubnet) := .call (.kea .searchSubnet) orRaise

def addReservation (subnet ip hw hostname description : String) :
    Py (Option String × Option String) :=
  .call (.kea (.addReservation subnet ip hw hostname description)) orRaise

def delReservation (uuid : String) : Py (Option String) :=
  .call (.kea (.delReservation uuid)) orRaise

def keaReconfigure : Py (Option String) := .call (.kea .reconfigure) orRaise

def getRuntime (rid : Uuid) : Py (Option AgentRuntime) := .call (.db (.getRuntime rid)) .ret

def getJob (jid : Uuid) : Py (Option ProvisioningJob) := .call (.db (.getJob jid)) .ret

def findJob (requestId : String) : Py (Option ProvisioningJob) :=
  .call (.db (.findJob requestId)) .ret

def placedNodes : Py (List (String × String)) := .call (.db .placedNodes) .ret

def findStep (jid : Uuid) (seq : Nat) : Py (Option ProvisioningStep) :=
  .call (.db (.findStep jid seq)) .ret

def flush : Py Unit := .call (.db .flush) orRaise

def selectRuntimes (q : Query) : Py (List AgentRuntime) := do
  flush
  .call (.db (.selectRuntimes q)) .ret

def modify (rid : Uuid) (f : AgentRuntime → AgentRuntime) : Py Unit :=
  .call (.db (.modify rid false f)) .ret

/-- A change of the tracked dictionary `ownership_meta`. -/
def modifyMeta (rid : Uuid) (f : Dict → Dict) : Py Unit :=
  .call (.db (.modify rid true (fun r => { r with ownershipMeta := f r.ownershipMeta }))) .ret

def modifyJob (jid : Uuid) (f : ProvisioningJob → ProvisioningJob) : Py Unit :=
  .call (.db (.modifyJob jid f)) .ret

def setStep (st : ProvisioningStep) : Py Unit := .call (.db (.setStep st)) .ret

def addRuntime (r : AgentRuntime) : Py Unit := .call (.db (.addRuntime r)) .ret

def addJob (j : ProvisioningJob) : Py Unit := .call (.db (.addJob j)) .ret

def addStep (st : ProvisioningStep) : Py Unit := .call (.db (.addStep st)) .ret

def addEvent (ev : RuntimeEvent) : Py Unit := .call (.db (.addEvent ev)) .ret

def addBridge (b : BridgeRegistration) : Py Unit := .call (.db (.addBridge b)) .ret

/-- `session.commit()`: the pending statements, then `COMMIT`. -/
def commit : Py Unit := do
  flush
  .call (.db .commit) .ret

def close : Py Unit := .call (.db .close) .ret

/-- `with Session() as session`: leaving the block closes the session. -/
def withSession {α : Type} (body : Py α) : Py α := do
  let a ← tryCatch body (fun x => do
    close
    throw x)
  close
  pure a

def now : Py Time := .call (.sys .now) .ret

def sleep (seconds : Nat) : Py Unit := .call (.sys (.sleep seconds)) .ret

def polls (maxS : Nat) : Py Nat := .call (.sys (.polls maxS)) .ret

def randbelow (n : Nat) : Py (Fin n) := .call (.sys (.randbelow n)) .ret

def uuid4 : Py Uuid := .call (.sys .uuid4) .ret

def tokenUrlsafe (n : Nat) : Py String := .call (.sys (.tokenUrlsafe n)) .ret

def ipNeigh (ip : String) : Py (Option String) := .call (.sys (.ipNeigh ip)) .ret

/-- `none` stands for `OSError` and `TimeoutExpired`. -/
def guestExec (vmid : Int) : Py (Option CompletedProcess) := .call (.sys (.guestExec vmid)) .ret

def leaseInventory : Py (List String) := .call (.sys .leaseInventory) orRaise

section Rules

variable {S : Type} {step : S → (e : Eff) → Ans e → S → Prop} {G : S → Eff → Prop}
  {X : S → PyExc → Prop} {s : S}

/-- An answer that is a value or an exception ends the call normally or not. -/
def Ends {α : Type} (Q : S → α → Prop) (X : S → PyExc → Prop) (s : S) : Except PyExc α → Prop
  | .ok a => Q s a
  | .error x => X s x

@[simp] theorem ends_ok {α : Type} (Q : S → α → Prop) (a : α) : Ends Q X s (.ok a) ↔ Q s a :=
  Iff.rfl

theorem sat_orRaise {α : Type} {Q : S → α → Prop} (x : Except PyExc α) :
    Sat step G Q X (orRaise x) s ↔ Ends Q X s x := by
  cases x with
  | ok a => rfl
  | error e => rfl

@[simp] theorem sat_pve {Q : S → Json → Prop} (c : PveCall) :
    Sat step G Q X (pve c) s ↔
      G s (.pve c) ∧ ∀ (a : Except PyExc Json) s', step s (.pve c) a s' → Ends Q X s' a := by
  refine and_congr Iff.rfl (forall_congr' fun a => forall_congr' fun s' => imp_congr Iff.rfl ?_)
  exact sat_orRaise a

@[simp] theorem sat_searchReservation {Q : S → List KeaRow → Prop} :
    Sat step G Q X searchReservation s ↔ G s (.kea .searchReservation) ∧
      ∀ (a : Except PyExc (List KeaRow)) s', step s (.kea .searchReservation) a s' →
        Ends Q X s' a :=
  and_congr Iff.rfl (forall_congr' fun a => forall_congr' fun _ =>
    imp_congr Iff.rfl (sat_orRaise a))

@[simp] theorem sat_searchLeases {Q : S → List KeaLease → Prop} :
    Sat step G Q X searchLeases s ↔ G s (.kea .searchLeases) ∧
      ∀ (a : Except PyExc (List KeaLease)) s', step s (.kea .searchLeases) a s' → Ends Q X s' a :=
  and_congr Iff.rfl (forall_congr' fun a => forall_congr' fun _ =>
    imp_congr Iff.rfl (sat_orRaise a))

@[simp] theorem sat_ipNeigh {Q : S → Option String → Prop} (ip : String) :
    Sat step G Q X (ipNeigh ip) s ↔ G s (.sys (.ipNeigh ip)) ∧
      ∀ (a : Option String) s', step s (.sys (.ipNeigh ip)) a s' → Q s' a := Iff.rfl

@[simp] theorem sat_getRuntime {Q : S → Option AgentRuntime → Prop} (rid : Uuid) :
    Sat step G Q X (getRuntime rid) s ↔
      G s (.db (.getRuntime rid)) ∧
        ∀ (a : Option AgentRuntime) s', step s (.db (.getRuntime rid)) a s' → Q s' a := Iff.rfl

theorem sat_withSession {α : Type} {Q : S → α → Prop} {body : Py α} :
    Sat step G Q X (withSession body) s ↔
      Sat step G (fun s a => Sat step G (fun s _ => Q s a) X close s)
        (fun s x => Sat step G (fun s _ => X s x) X close s) body s := by
  simp only [withSession, sat_bind, sat_tryCatch, sat_pure, sat_throw]

end Rules

end ServerManager.Effects
