import ServerManager.AgentVisibility
import ServerManager.Interleaving
import ServerManager.KeyedTable
import ServerManager.ProxmoxVm
import Mathlib.Algebra.Order.Field.Rat

namespace ServerManager.AgentManager

open Interaction Interleaving PyJson PyText
open Effects (PyExc ExcClass)
open ProxmoxVm (pyTypeName)
open Presets (trim)
open AgentVisibility (Access field nameOk harnesses principals newAgent)

structure Agent extends AgentVisibility.Agent where
  agentToken : Option String
  deriving DecidableEq

structure Job where
  jobId : Nat
  agentId : Nat
  state : String
  step : Option String
  error : Option String
  vmid : Option Int
  finished : Bool
  deriving DecidableEq

structure StepRow where
  jobId : Nat
  seq : Nat
  step : String
  state : String
  detail : Option String
  deriving DecidableEq

structure Session where
  sessionId : Nat
  agentId : Nat
  remoteSessionId : Option String
  createdBy : String
  deriving DecidableEq

inductive Role
  | user
  | assistant
  deriving DecidableEq

structure Message where
  sessionId : Nat
  role : Role
  content : String
  model : Option String
  deriving DecidableEq

structure Db where
  agents : List Agent
  access : List Access
  jobs : List Job
  steps : List StepRow
  sessions : List Session
  messages : List Message

def Db.empty : Db := ⟨[], [], [], [], [], []⟩

inductive Write
  | insertAgent (a : Agent)
  | grant (x : Access)
  | insertJob (j : Job)
  | setStep (row : StepRow)
  | jobStep (jobId : Nat) (state step : String)
  | jobVmid (jobId : Nat) (vmid : Int)
  | jobReady (jobId : Nat)
  | jobError (jobId : Nat) (error : String)
  | agentReady (agentId : Nat) (vmid : Int) (node agentIp agentToken : String)
  | agentState (agentId : Nat) (state : String)
  | deleteAgent (agentId : Nat)
  | insertSession (s : Session)
  | setRemote (sessionId : Nat) (remote : Option String)
  | insertMessage (m : Message)

def Db.hasAgent (db : Db) (agentId : Nat) : Bool :=
  db.agents.any (fun a => decide (a.agentId = agentId))

def Db.hasJob (db : Db) (jobId : Nat) : Bool := db.jobs.any (fun j => decide (j.jobId = jobId))

def Db.hasSession (db : Db) (sessionId : Nat) : Bool :=
  db.sessions.any (fun s => decide (s.sessionId = sessionId))

def Db.accepts (db : Db) : Write → Bool
  | .insertAgent a => db.agents.all (fun b => decide (b.name ≠ a.name))
  | .insertJob j => db.hasAgent j.agentId
  | .setStep row => db.hasJob row.jobId
  | .grant x => db.hasAgent x.agentId
  | .insertSession s => db.hasAgent s.agentId
  | .insertMessage m => db.hasSession m.sessionId
  | _ => true

def Db.updateAgent (db : Db) (agentId : Nat) (change : Agent → Agent) : Db :=
  { db with agents := db.agents.map (fun a => if a.agentId = agentId then change a else a) }

def Db.updateJob (db : Db) (jobId : Nat) (change : Job → Job) : Db :=
  { db with jobs := db.jobs.map (fun j => if j.jobId = jobId then change j else j) }

/-- The jobs and the sessions of an agent go with it, and their rows with these. -/
def Db.delete (db : Db) (agentId : Nat) : Db where
  agents := db.agents.filter (fun a => decide (a.agentId ≠ agentId))
  access := db.access.filter (fun x => decide (x.agentId ≠ agentId))
  jobs := db.jobs.filter (fun j => decide (j.agentId ≠ agentId))
  steps :=
    db.steps.filter (fun r => db.jobs.all (fun j =>
      decide (¬ (j.jobId = r.jobId ∧ j.agentId = agentId))))
  sessions := db.sessions.filter (fun s => decide (s.agentId ≠ agentId))
  messages := db.messages.filter
    (fun m => db.sessions.all (fun s => decide
    (¬ (s.sessionId = m.sessionId ∧ s.agentId = agentId))))

def Db.apply (db : Db) : Write → Db
  | .insertAgent a => { db with agents := db.agents ++ [a] }
  | .grant x =>
      if db.access.all (fun y => decide (¬ (y.agentId = x.agentId ∧ y.principal = x.principal)))
        then
        { db with access := db.access ++ [x] }
      else db
  | .insertJob j => { db with jobs := db.jobs ++ [j] }
  | .setStep row =>
      { db with steps := KeyedTable.upsert (fun r : StepRow => (r.jobId, r.seq)) db.steps row }
  | .jobStep jobId state step =>
      db.updateJob jobId (fun j => { j with state := state, step := some step })
  | .jobVmid jobId vmid => db.updateJob jobId (fun j => { j with vmid := some vmid })
  | .jobReady jobId => db.updateJob jobId (fun j => { j with state := "READY", finished := true })
  | .jobError jobId error =>
      db.updateJob jobId
        (fun j => { j with state := "ERROR", error := some error, finished := true })
  | .agentReady agentId vmid node agentIp agentToken =>
      db.updateAgent agentId (fun a =>
        { a with
          state := "READY", vmid := some vmid, node := some node, agentIp := some agentIp
          agentToken := some agentToken })
  | .agentState agentId state => db.updateAgent agentId (fun a => { a with state := state })
  | .deleteAgent agentId => db.delete agentId
  | .insertSession s => { db with sessions := db.sessions ++ [s] }
  | .setRemote sessionId remote =>
      { db with
        sessions := db.sessions.map (fun s => if s.sessionId = sessionId then { s with remoteSessionId := remote } else s) }
  | .insertMessage m => { db with messages := db.messages ++ [m] }

/-- The statements of a transaction, up to the first that is refused. -/
def Db.applyAll (db : Db) : List Write → Option Db
  | [] => some db
  | w :: ws => if db.accepts w then (db.apply w).applyAll ws else none

inductive Query
  | jobExists (jobId : Nat)
  | agentName (agentId : Nat)
  | nameTaken (name : String)
  | agentRow (agentId : Nat)
  | sessionOf (sessionId agentId : Nat)
  | remoteOf (sessionId : Nat)
  | listed (user role : String)
  | jobRow (jobId : Nat)
  | stepRows (jobId : Nat)

@[reducible] def Rows : Query → Type
  | .jobExists _ => Bool
  | .agentName _ => Option String
  | .nameTaken _ => Bool
  | .agentRow _ => Option Agent
  | .sessionOf .. => Bool
  | .remoteOf _ => Option (Option String)
  | .listed .. => List AgentVisibility.Agent
  | .jobRow _ => Option Job
  | .stepRows _ => List StepRow

def Db.agent? (db : Db) (agentId : Nat) : Option Agent :=
  db.agents.find? (fun a => decide (a.agentId = agentId))

def Db.job? (db : Db) (jobId : Nat) : Option Job :=
  db.jobs.find? (fun j => decide (j.jobId = jobId))

/-- The rows of a job, `ORDER BY seq`. -/
def Db.ledger (db : Db) (jobId : Nat) : List StepRow :=
  (db.steps.filter (fun r => decide (r.jobId = jobId))).insertionSort (fun a b => a.seq ≤ b.seq)

def Db.ask (db : Db) : (q : Query) → Rows q
  | .jobExists jobId => db.hasJob jobId
  | .agentName agentId => (db.agent? agentId).map (·.name)
  | .nameTaken name => db.agents.any (fun a => decide (a.name = name))
  | .agentRow agentId => db.agent? agentId
  | .sessionOf sessionId agentId =>
      db.sessions.any (fun s => decide (s.sessionId = sessionId ∧ s.agentId = agentId))
  | .remoteOf sessionId =>
      (db.sessions.find? (fun s => decide (s.sessionId = sessionId))).map (·.remoteSessionId)
  | .listed user role => AgentVisibility.query user role ⟨db.agents.map (·.toAgent), db.access, 0⟩
  | .jobRow jobId => db.job? jobId
  | .stepRows jobId => db.ledger jobId

/-- The requests of `pve` and `pve_exec`, with the data that vary. -/
inductive PveCall
  /-- `GET /cluster/nextid` -/
  | nextid
  /-- `GET /cluster/resources?type=vm` -/
  | resources
  /-- `POST …/qemu/{template}/clone` -/
  | clone (node : String) (template : Nat) (newid : Int) (name : String)
  | config (node : String) (vmid : Int)
  | setConfig (node : String) (vmid : Int) (body : List (String × String))
  /-- `POST …/status/start`; the columns of the agent may be null. -/
  | start (node : Option String) (vmid : Option Int)
  | stop (node : Option String) (vmid : Option Int)
  /-- `GET …/status/current` -/
  | current (node : String) (vmid : Int)
  | interfaces (node : String) (vmid : Int)
  /-- `POST …/agent/exec` -/
  | exec (node : String) (vmid : Int) (command : List String)
  | execStatus (node : String) (vmid : Int) (pid : Json)

/-- A status 401 is told from the other errors. -/
inductive PveAns
  | ok (x : Json)
  | unauthorized (x : PyExc)
  | raised (x : PyExc)

structure KeyResponse where
  status : Nat
  text : String
  json : Except PyExc Json

/-- `connect` opens the connection of a request or a thread; `begin` is the start
of a thread that some request has asked for. -/
inductive Eff
  | connect
  | read (q : Query)
  | write (w : Write)
  | commit
  | close
  | uuid
  | clock
  | token
  | sleep (seconds : Nat)
  | secret (name : String)
  | spawn (jobId agentId : Nat) (name : String)
  | begin
  | pve (c : PveCall)
  /-- `POST /key/generate` of LiteLLM, with the validity and the budget of the environment. -/
  | keyGenerate (master keyAlias : String)
  | health (ip token : String)
  /-- A request to `st-agentd` and the decoding of its answer. -/
  | postSession (ip token context : String)
  | postMessage (ip token remote message : String)

@[reducible] def Ans : Eff → Type
  | .connect => Except PyExc Unit
  | .read q => Except PyExc (Rows q)
  | .write _ => Except PyExc Unit
  | .commit => Except PyExc Unit
  | .close => Unit
  | .uuid => Nat
  | .clock => ℚ
  | .token => String
  | .sleep _ => Unit
  | .secret _ => Option String
  | .spawn .. => Unit
  | .begin => Nat × Nat × String
  | .pve _ => PveAns
  | .keyGenerate .. => Except PyExc KeyResponse
  | .health .. => Except PyExc Nat
  | .postSession .. => Except PyExc Json
  | .postMessage .. => Except PyExc Json

abbrev Am := Prog Eff Ans PyExc

def orRaise {α : Type} : Except PyExc α → Am α
  | .ok a => pure a
  | .error x => throw x

def connect : Am Unit := .call .connect orRaise

def read (q : Query) : Am (Rows q) := .call (.read q) orRaise

def write (w : Write) : Am Unit := .call (.write w) orRaise

def commit : Am Unit := .call .commit orRaise

def close : Am Unit := .call .close pure

def uuid4 : Am Nat := .call .uuid pure

def clock : Am ℚ := .call .clock pure

def sleep (seconds : Nat) : Am Unit := .call (.sleep seconds) pure

def secret (name : String) : Am (Option String) := .call (.secret name) pure

def raised {α : Type} (cls : ExcClass) (msg : String) : Am α := throw ⟨cls, msg⟩

/-- How a part of a program ends, an exception included. -/
def attempt {α : Type} (p : Am α) : Am (Except PyExc α) :=
  tryCatch (p >>= fun a => pure (.ok a)) (fun x => pure (.error x))

/-- `try: … finally: …`. -/
def finally_ {α : Type} (p : Am α) (last : Am Unit) : Am α := do
  let r ← attempt p
  last
  orRaise r

/-- `x.get(key, default)`. -/
def get (x : Json) (key : String) (dflt : Json) : Except PyExc Json :=
  match x with
  | .obj fs => .ok ((Dict.get? fs key).getD dflt)
  | _ => .error ⟨.attributeError, s!"'{pyTypeName x}' object has no attribute 'get'"⟩

/-- `x[key]`. -/
def item (x : Json) (key : String) : Except PyExc Json :=
  match x with
  | .obj fs =>
      match Dict.get? fs key with
      | some v => .ok v
      | none => .error ⟨.keyError, s!"'{key}'"⟩
  | .arr _ => .error ⟨.typeError, "list indices must be integers or slices, not str"⟩
  | .str _ => .error ⟨.typeError, "string indices must be integers, not 'str'"⟩
  | _ => .error ⟨.typeError, s!"'{pyTypeName x}' object is not subscriptable"⟩

/-- `int(x)`. -/
def toInt (x : Json) : Except PyExc Int :=
  match x with
  | .int n => .ok n
  | .bool b => .ok (if b then 1 else 0)
  | .str s =>
      match pyIntText s with
      | some n => .ok n
      | none => .error ⟨.valueError, s!"invalid literal for int() with base 10: '{s}'"⟩
  | _ => .error
      ⟨.typeError,
        s!"int() argument must be a string, a bytes-like object or a real number, not '{pyTypeName x}'"⟩

/-- `x[:n]` in an f-string. -/
def sliced (x : Json) (n : Nat) : Except PyExc String :=
  match x with
  | .str s => .ok (String.ofList (s.toList.take n))
  | .arr xs => .ok (Json.arr (xs.take n)).pyStr
  | _ => .error ⟨.typeError, s!"'{pyTypeName x}' object is not subscriptable"⟩

def cut (s : String) (n : Nat) : String := String.ofList (s.toList.take n)

def falsyText (s : Option String) : Bool := s.all (fun t => t == "")

/-- `x == 0`. -/
def isZero (x : Json) : Bool :=
  match x with
  | .int n => n == 0
  | .bool b => !b
  | .float lit => !(Json.float lit).truthy
  | _ => false

/-- What a `for` loop runs over, if `x` can be iterated. -/
def iterate (x : Json) : Option (List Json) :=
  match x with
  | .arr xs => some xs
  | .obj fs => some (fs.map (fun p => .str p.1))
  | .str s => some (s.toList.map (fun c => .str (String.ofList [c])))
  | _ => none

def templateVmid : Nat := 121

def templateNode : String := "miam00111"

def bridge : String := "vmbr0"

def request (c : PveCall) : Am Json :=
  .call (.pve c) fun a =>
    match a with
    | .ok x => pure x
    | .unauthorized x => throw x
    | .raised x => throw x

/-- A request that is refused with 401 is sent once more. -/
def pve (c : PveCall) : Am Json :=
  .call (.pve c) fun a =>
    match a with
    | .ok x => pure x
    | .unauthorized _ => request c
    | .raised x => throw x

def nextVmid : Am Int := do
  let r ← pve .nextid
  let data ← orRaise (item r "data")
  orRaise (toInt data)

/-- Each round sleeps two seconds, so that `n = timeout / 2` of them pass the deadline. -/
def pollExec (node : String) (vmid : Int) (pid : Json) (deadline : ℚ) : Nat →
    Am (Json × Json × Json)
  | 0 => pure (.str "", .str "TIMEOUT", .int (-1))
  | n + 1 => do
      let now ← clock
      if now < deadline then do
        sleep 2
        let st ← attempt (pve (.execStatus node vmid pid))
        match st with
        | .error _ => pollExec node vmid pid deadline n
        | .ok st => do
            let data ← orRaise (get (st.orElse (.obj [])) "data" .null)
            let st := data.orElse (.obj [])
            let exited ← orRaise (get st "exited" .null)
            if exited.truthy then do
              let out ← orRaise (get st "out-data" (.str ""))
              let err ← orRaise (get st "err-data" (.str ""))
              let rc ← orRaise (get st "exitcode" (.int (-1)))
              pure (out, err, rc)
            else pollExec node vmid pid deadline n
      else pure (.str "", .str "TIMEOUT", .int (-1))

/-- `pdata["pid"] if isinstance(pdata, dict) else pdata`. -/
def pidOf (pdata : Json) : Except PyExc Json :=
  match pdata with
  | .obj _ => item pdata "pid"
  | _ => .ok pdata

def pveExec (node : String) (vmid : Int) (command : List String) : Am (Json × Json × Json) := do
  let r ← request (.exec node vmid command)
  let pdata ← orRaise (item r "data")
  let pid ← orRaise (pidOf pdata)
  let now ← clock
  pollExec node vmid pid (now + 90) 45

def step (jobId seq : Nat) (name : String) (state : String) : Am Unit := do
  write (.setStep ⟨jobId, seq, name, state, none⟩)
  write (.jobStep jobId (if state ≠ "DONE" then state else "RUNNING") name)

/-- The wait for the lock of the clone; an answer that is no dictionary raises. -/
def waitUnlocked (vmid : Int) : Nat → Am Unit
  | 0 => pure ()
  | n + 1 => do
      let cfg ← attempt do
        let r ← pve (.config templateNode vmid)
        let data ← orRaise (get (r.orElse (.obj [])) "data" .null)
        pure (data.orElse (.obj []))
      match cfg with
      | .error _ => do
          sleep 2
          waitUnlocked vmid n
      | .ok cfg => do
          let lock ← orRaise (get cfg "lock" .null)
          if lock.truthy then do
            sleep 2
            waitUnlocked vmid n
          else pure ()

/-- The address that is kept after `a`, or an exception. -/
def address (a : Json) (ip : Option String) : Except PyExc (Option String) := do
  let ipaddr ← get a "ip-address" (.str "")
  let kind ← get a "ip-address-type" .null
  if kind.isStr "ipv4" then
    match ipaddr with
    | .str t => .ok (if startsWith t "127." then ip else some t)
    | _ => .error ⟨.attributeError, s!"'{pyTypeName ipaddr}' object has no attribute 'startswith'"⟩
  else .ok ip

/-- A loop that keeps what it has found, also when it raises. -/
def scan (f : Json → Option String → Option String × Bool) : List Json → Option String →
    Option String × Bool
  | [], ip => (ip, true)
  | x :: xs, ip =>
      match f x ip with
      | (ip, true) => scan f xs ip
      | (ip, false) => (ip, false)

/-- The addresses of one interface; `false` stands for an exception. -/
def interface (ifc : Json) (ip : Option String) : Option String × Bool :=
  match get ifc "ip-addresses" .null with
  | .error _ => (ip, false)
  | .ok xs =>
      match iterate (xs.orElse (.arr [])) with
      | none => (ip, false)
      | some xs =>
          scan (fun a ip =>
            match address a ip with
            | .ok ip => (ip, true)
            | .error _ => (ip, false)) xs ip

def interfaces (ifs : Json) (ip : Option String) : Option String × Bool :=
  match (do get (← get ifs "data" (.obj [])) "result" .null) with
  | .error _ => (ip, false)
  | .ok xs =>
      match iterate (xs.orElse (.arr [])) with
      | none => (ip, false)
      | some xs => scan interface xs ip

def waitIp (vmid : Int) : Nat → Option String → Am (Option String)
  | 0, ip => pure ip
  | n + 1, ip => do
      let r ← attempt (pve (.interfaces templateNode vmid))
      let found := match r with
        | .error _ => (ip, false)
        | .ok ifs => interfaces ifs ip
      if found.2 && !falsyText found.1 then pure found.1
      else do
        sleep 3
        waitIp vmid n found.1

def waitHealth (ip token : String) : Nat → Am Bool
  | 0 => pure false
  | n + 1 =>
      .call (.health ip token) fun r =>
        match r with
        | .ok status => if status = 200 then pure true else waitHealth ip token n
        | .error _ => do
            sleep 2
            waitHealth ip token n

def injectToken (token : String) : List String :=
  ["bash", "-c", s!"mkdir -p /etc/st-agentd && echo '{token}' > /etc/st-agentd/token && " ++
    "chmod 600 /etc/st-agentd/token && systemctl enable --now st-agentd && systemctl restart st-agentd"]

def injectKey (key : String) : List String :=
  ["bash", "-c", s!"echo '{key}' > /etc/st-agentd/llm_key && chmod 600 /etc/st-agentd/llm_key"]

def cloneVm (jobId : Nat) (name : String) : Am Int := do
  let vmid ← nextVmid
  step jobId 2 "RESERVING" "DONE"
  step jobId 3 "CLONING_VM" "RUNNING"
  write (.jobVmid jobId vmid)
  commit
  let _ ← pve (.clone templateNode templateVmid vmid (cut name 63))
  waitUnlocked vmid 120
  step jobId 3 "DONE" "DONE"
  step jobId 4 "CONFIGURING_CLOUD_INIT" "RUNNING"
  commit
  let _ ← pve (.setConfig templateNode vmid [("net0", s!"virtio,bridge={bridge}"),
      ("ipconfig0", "ip=dhcp"), ("ciuser", "stagent")])
  step jobId 4 "DONE" "DONE"
  step jobId 5 "BOOTING" "RUNNING"
  let _ ← pve (.start (some templateNode) (some vmid))
  commit
  pure vmid

def prepareGuest (jobId : Nat) (vmid : Int) : Am (String × String) := do
  let ip ← waitIp vmid 90 none
  if falsyText ip then raised .runtimeError "no IP after boot (270s)"
  else do
    let ip := ip.getD ""
    step jobId 5 "DONE" "DONE"
    step jobId 6 "WAITING_GUEST" "DONE"
    step jobId 7 "INJECTING_AGENT_CONFIG" "RUNNING"
    let token ← .call .token pure
    let (_, err, rc) ← pveExec templateNode vmid (injectToken token)
    if isZero rc then do
      step jobId 7 "DONE" "DONE"
      pure (ip, token)
    else do
      let err ← orRaise (sliced err 200)
      raised .runtimeError s!"agentd inject failed: {err}"

def issuedKey (resp : KeyResponse) : Am Json := do
  let failed : Am Json :=
    raised .runtimeError s!"llm key issue failed: {resp.status} {cut resp.text 150}"
  if resp.status ≠ 200 then failed
  else do
    let json ← orRaise resp.json
    let key ← orRaise (get json "key" .null)
    if key.truthy then pure key else failed

def provisionKey (jobId : Nat) (vmid : Int) (name : String) : Am Unit := do
  step jobId 75 "PROVISIONING_LLM_KEY" "RUNNING"
  let master ← secret "litellm_master_key"
  if falsyText master then raised .runtimeError "litellm_master_key secret missing — cannot provision LLM key"
  else do
    let resp ← .call (.keyGenerate (master.getD "") name) orRaise
    let key ← issuedKey resp
    let (_, err, rc) ← pveExec templateNode vmid (injectKey key.pyStr)
    if isZero rc then step jobId 75 "PROVISIONING_LLM_KEY" "DONE"
    else do
      let err ← orRaise (sliced err 200)
      raised .runtimeError s!"llm key inject failed: {err}"

def testAgent (jobId : Nat) (ip token : String) : Am Unit := do
  step jobId 8 "STARTING_ST_AGENTD" "DONE"
  step jobId 9 "STARTING_HARNESS" "DONE"
  step jobId 10 "TESTING_LLM" "RUNNING"
  let ok ← waitHealth ip token 10
  if ok then do
    step jobId 10 "DONE" "DONE"
    step jobId 11 "TESTING_CHAT" "DONE"
    step jobId 12 "READY" "DONE"
  else raised .runtimeError "st-agentd health check failed from control plane"

def provision (jobId agentId : Nat) (name : String) : Am Unit := do
  step jobId 1 "VALIDATING" "RUNNING"
  let _ ← read (.agentName agentId)
  commit
  let vmid ← cloneVm jobId name
  let (ip, token) ← prepareGuest jobId vmid
  provisionKey jobId vmid name
  testAgent jobId ip token
  write (.agentReady agentId vmid templateNode ip token)
  write (.jobReady jobId)
  commit

/-- An exception is written down, if that is still possible. -/
def recordError (jobId agentId : Nat) (x : PyExc) : Am Unit :=
  tryCatch (do
    write (.jobError jobId (cut x.msg 500))
    write (.agentState agentId "ERROR")
    commit) (fun _ => pure ())

def provisionJob (jobId agentId : Nat) (name : String) : Am Unit := do
  connect
  finally_ (tryCatch (do
    let found ← read (.jobExists jobId)
    if found then provision jobId agentId name else close) (recordError jobId agentId)) close

inductive Reply
  | error (status : Nat) (text : String)
  | created (agentId jobId : Nat)
  | chat (reply : Json) (sessionId : Nat) (agent : String)
  | deleted (name : String) (vmDestroyed : Bool)
  | status (state : String)
  | agents (rows : List AgentVisibility.Agent)
  | job (row : Job) (steps : List StepRow)
  | done

def authRequired : Am Reply := pure (.error 401 "auth required")

section
-- what psycopg2 and PostgreSQL make of a value that is inserted in a text column, and of one that
-- is compared with an id
variable (textColumn : Json → Option (Option String)) (idOf : Json → Option Nat)

def insertAll (agentId jobId : Nat) (a : Agent) (user : String) : Am Unit := do
  write (.insertAgent a)
  (principals user).forM fun p => write (.grant ⟨agentId, p.1, p.2, user⟩)
  write (.insertJob ⟨jobId, agentId, "REQUESTED", none, none, none, false⟩)
  commit

/-- The transaction of `create_agent`; `true` stands for a name that exists. -/
def insertNamed (agentId jobId : Nat) (user name harness : String) (body : Dict) : Am Bool := do
  let taken ← read (.nameTaken name)
  if taken then pure true
  else do
    let now ← clock
    match newAgent textColumn ⟨[], [], agentId⟩ user name harness body now.floor with
    | none => raised (.other "Error") "value not accepted"
    | some a => do
        insertAll agentId jobId ⟨a, none⟩ user
        pure false

/-- `create_agent` with a request that is in order. -/
def makeAgent (user name harness : String) (body : Dict) : Am Reply := do
  let agentId ← uuid4
  let jobId ← uuid4
  connect
  let taken ← finally_ (insertNamed textColumn agentId jobId user name harness body) close
  if taken then pure (.error 409 "name exists")
  else do
    .call (.spawn jobId agentId name) pure
    pure (.created agentId jobId)

def createAgent (user : Option String) (body : Dict) : Am Reply :=
  match user with
  | none => authRequired
  | some user =>
      match (field body "name").orElse (.str "") with
      | .str text =>
          let name := trim text
          if !nameOk name then pure (.error 400 "name must be 3-41 chars [a-z0-9-]")
          else
            match harnesses.find? ((Dict.get? body "harness").getD (.str "HERMES")).isStr with
            | none => pure (.error 400 "bad harness")
            | some harness => makeAgent textColumn user name harness body
      | x => raised .attributeError s!"'{pyTypeName x}' object has no attribute 'strip'"

/-- The session of a chat message: a new one, the one that is named, or none at all. -/
def chatSession (user : String) (agentId : Nat) (sessionId : Json) : Am Nat :=
  if sessionId.truthy then do
    let sid ← uuid4
    match idOf sessionId with
    | none => raised (.other "InvalidTextRepresentation") "invalid input syntax for type uuid"
    | some given => do
        let known ← read (.sessionOf given agentId)
        pure (if known then given else sid)
  else do
    let sid ← uuid4
    write (.insertSession ⟨sid, agentId, none, user⟩)
    pure sid

def column (x : Json) : Am (Option String) :=
  match textColumn x with
  | some t => pure t
  | none => raised (.other "ProgrammingError") "can't adapt type"

def keepRemote (sid : Nat) (remote : Json) : Am Unit :=
  tryCatch (do
    connect
    write (.setRemote sid (← column textColumn remote))
    commit
    close) (fun _ => pure ())

def remoteSession (sid : Nat) (ip token name : String) (remote : Option String) : Am String :=
  if falsyText remote then do
    let r ← .call (.postSession ip token name) orRaise
    let remote ← orRaise (get r "session_id" .null)
    keepRemote textColumn sid remote
    pure remote.pyStr
  else pure (remote.getD "")

def askAgent (sid : Nat) (ip token name message : String) (remote : Option String) : Am Json := do
  let remote ← remoteSession textColumn sid ip token name remote
  let r ← .call (.postMessage ip token remote message) orRaise
  orRaise (get r "reply" (.str ""))

def storeReply (sid : Nat) (reply : Json) : Am Unit := do
  connect
  match ← column textColumn reply with
  | none => raised (.other "NotNullViolation") "null value in column \"content\""
  | some content => do
      write (.insertMessage ⟨sid, .assistant, content, some "hermes-local"⟩)
      commit
      close

def chatWith (user message : String) (agentId : Nat) (sessionId : Json) (name ip token : String) :
    Am Reply := do
  let sid ← chatSession idOf user agentId sessionId
  let remote ← read (.remoteOf sid)
  write (.insertMessage ⟨sid, .user, message, none⟩)
  commit
  close
  let reply ← attempt (askAgent textColumn sid ip token name message remote.join)
  match reply with
  | .error x => pure (.error 502 s!"agent unreachable: {x.cls.name}")
  | .ok reply => do
      storeReply textColumn sid reply
      pure (.chat reply sid name)

def agentChat (user : Option String) (agentId : Nat) (body : Dict) : Am Reply :=
  match user with
  | none => authRequired
  | some user =>
      match (field body "message").orElse (.str "") with
      | .str text =>
          let message := trim text
          if message = "" then pure (.error 400 "message required")
          else do
            connect
            let row ← read (.agentRow agentId)
            match row with
            | none => do
                close
                pure (.error 404 "agent not found")
            | some a =>
                if a.state ≠ "READY" ∨ falsyText a.agentIp ∨ falsyText a.agentToken then do
                  close
                  pure (.error 409 s!"agent not READY (state={a.state})")
                else
                  chatWith textColumn idOf user message agentId (field body "session_id") a.name
                    (a.agentIp.getD "")
                    (a.agentToken.getD "")
      | x => raised .attributeError s!"'{pyTypeName x}' object has no attribute 'strip'"

end

def vmGone (node : Option String) (vmid : Option Int) : Am Bool :=
  match vmid, node with
  | some vmid, some node =>
      if vmid = 0 ∨ node = "" then pure true
      else do
        let r ← attempt do
          let r ← pve (.current node vmid)
          let data ← orRaise (get (r.orElse (.obj [])) "data" .null)
          if data.truthy then do
            let _ ← attempt (pve (.stop (some node) (some vmid)))
            pure false
          else pure true
        match r with
        | .ok gone => pure gone
        | .error _ => pure true
  | _, _ => pure true

def deleteAgent (user : Option String) (role : String) (agentId : Nat) : Am Reply :=
  match user with
  | none => authRequired
  | some user =>
      if role ≠ "Admin" ∧ role ≠ "Security-Admin" ∧ user ≠ "root" then pure (.error 403 "forbidden")
      else do
        connect
        let row ← read (.agentRow agentId)
        match row with
        | none => do
            close
            pure (.error 404 "not found")
        | some a => do
            let gone ← vmGone a.node a.vmid
            write (.deleteAgent agentId)
            commit
            close
            pure (.deleted a.name (!gone))

/-- `agent_stop` and `agent_start`. -/
def agentPower (call : Option String → Option Int → PveCall) (state : String) (user : Option String)
    (agentId : Nat) : Am Reply :=
  match user with
  | none => authRequired
  | some _ => do
      connect
      let row ← read (.agentRow agentId)
      close
      match row with
      | none => pure (.error 404 "not found")
      | some a => do
          let _ ← pve (call a.node a.vmid)
          connect
          write (.agentState agentId state)
          commit
          close
          pure (.status state)

def agentStop : Option String → Nat → Am Reply := agentPower .stop "STOPPED"

def agentStart : Option String → Nat → Am Reply := agentPower .start "READY"

def vmIds : List Json → Except PyExc (List Int)
  | [] => .ok []
  | g :: gs => do
      let vmid ← get g "vmid" .null
      let rest ← vmIds gs
      match vmid with
      | .int n => .ok (n :: rest)
      | .arr _ | .obj _ => .error ⟨.typeError, s!"unhashable type: '{pyTypeName vmid}'"⟩
      | _ => .ok rest

def reconcile (user role : String) (rows : List AgentVisibility.Agent) :
    Am (List AgentVisibility.Agent) := do
  let r ← pve .resources
  let data ← orRaise (get r "data" .null)
  match iterate (data.orElse (.arr [])) with
  | none => raised .typeError "object is not iterable"
  | some gs => do
      let vms ← orRaise (vmIds gs)
      let fixes := AgentVisibility.fixes vms rows
      if fixes = [] then pure rows
      else do
        connect
        fixes.forM fun aid => write (.agentState aid "ERROR")
        commit
        close
        connect
        let rows ← read (.listed user role)
        close
        pure rows

def listAgents (user : Option String) (role : String) : Am Reply :=
  match user with
  | none => authRequired
  | some user => do
      connect
      let rows ← read (.listed user role)
      close
      let rows ← tryCatch (reconcile user role rows) (fun _ => pure rows)
      pure (.agents rows)

def jobStatus (user : Option String) (jobId : Nat) : Am Reply :=
  match user with
  | none => authRequired
  | some _ => do
      connect
      let row ← read (.jobRow jobId)
      match row with
      | none => do
          close
          pure (.error 404 "not found")
      | some row => do
          let steps ← read (.stepRows jobId)
          close
          pure (.job row steps)

/-- What runs in the process: requests, and the threads that they start. -/
inductive Task
  | create (user : Option String) (body : Dict)
  | chat (user : Option String) (agentId : Nat) (body : Dict)
  | delete (user : Option String) (role : String) (agentId : Nat)
  | stop (user : Option String) (agentId : Nat)
  | start (user : Option String) (agentId : Nat)
  | list (user : Option String) (role : String)
  | jobStatus (user : Option String) (jobId : Nat)
  | thread

def thread : Am Reply :=
  .call .begin fun t => do
    provisionJob t.1 t.2.1 t.2.2
    pure .done

def Task.prog (textColumn : Json → Option (Option String)) (idOf : Json → Option Nat) : Task →
    Am Reply
  | .create user body => createAgent textColumn user body
  | .chat user agentId body => agentChat textColumn idOf user agentId body
  | .delete user role agentId => deleteAgent user role agentId
  | .stop user agentId => agentStop user agentId
  | .start user agentId => agentStart user agentId
  | .list user role => listAgents user role
  | .jobStatus user jobId => AgentManager.jobStatus user jobId
  | .thread => AgentManager.thread

inductive Txn
  | closed
  | live (ws : List Write)
  | aborted

structure World (R : Type) where
  db : Db
  txn : Nat → Txn
  nextId : Nat
  threads : List (Nat × Nat × String)
  remote : R

variable {R : Type}

def World.setTxn (w : World R) (i : Nat) (t : Txn) : World R :=
  { w with txn := Function.update w.txn i t }

/-- A statement sees what is committed and what its own transaction has done;
what fails ends the transaction. -/
def stmt (i : Nat) (w w' : World R) (ok : List Write → Db → World R → Prop) (failed : Prop) :
    Prop :=
  (∃ ws db, w.txn i = .live ws ∧ w.db.applyAll ws = some db ∧ ok ws db w') ∨
    failed ∧ (w' = w ∧ w.txn i = .closed ∨ w' = w.setTxn i .aborted)

def isError {α : Type} : Except PyExc α → Prop
  | .error _ => True
  | .ok _ => False

/-- A commit that brings back an error may have happened. Locks, which only make
a statement wait, are left out: what they exclude is refused at the commit. -/
def move (remote : R → PveCall → PveAns → R → Prop) (i : Nat) (w : World R) : (e : Eff) → Ans e →
    World R → Prop
  | .connect, .ok _, w' => w' = w.setTxn i (.live [])
  | .connect, .error _, w' => w' = w.setTxn i .closed
  | .read q, r, w' => stmt i w w' (fun _ db w' => r = .ok (db.ask q) ∧ w' = w) (isError r)
  | .write s, r, w' =>
      stmt i w w' (fun ws db w' => r = .ok () ∧ db.accepts s = true ∧
        w' = w.setTxn i (.live (ws ++ [s]))) (isError r)
  | .commit, .ok _, w' =>
      (∃ ws db, w.txn i = .live ws ∧ w.db.applyAll ws = some db ∧
        w' = { w.setTxn i (.live []) with db := db }) ∨
        w.txn i = .aborted ∧ w' = w.setTxn i (.live [])
  | .commit, .error _, w' =>
      w' = w.setTxn i .aborted ∨
        ∃ ws db, w.txn i = .live ws ∧ w.db.applyAll ws = some db ∧
          w' = { w.setTxn i .aborted with db := db }
  | .close, _, w' => w' = w.setTxn i .closed
  | .uuid, n, w' => n = w.nextId ∧ w' = { w with nextId := w.nextId + 1 }
  | .clock, _, w' => w' = w
  | .token, _, w' => w' = w
  | .sleep _, _, w' => w' = w
  | .secret _, _, w' => w' = w
  | .spawn jobId agentId name, _, w' =>
      w' = { w with threads := w.threads ++ [(jobId, agentId, name)] }
  | .begin, t, w' =>
      ∃ before after, w.threads = before ++ t :: after ∧ w' = { w with threads := before ++ after }
  | .pve c, a, w' => ∃ r, remote w.remote c a r ∧ w' = { w with remote := r }
  | .keyGenerate .., _, w' => w' = w
  | .health .., _, w' => w' = w
  | .postSession .., _, w' => w' = w
  | .postMessage .., _, w' => w' = w

abbrev Parties (R : Type) := Conf (World R) Eff Ans PyExc Reply

def World.init (r : R) : World R := ⟨.empty, fun _ => .closed, 0, [], r⟩

def begin_ (textColumn : Json → Option (Option String)) (idOf : Json → Option Nat) (r : R)
    (tasks : Nat → Task) : Parties R :=
  start (World.init r) (fun i => (tasks i).prog textColumn idOf)

def Always (_ : Parties R) (_ : Nat) (_ : Event Eff Ans) : Prop := True

/-- The states of every run of any requests, whatever PVE, LiteLLM, the agents and the database
answer. -/
def Reachable (remote : R → PveCall → PveAns → R → Prop)
    (textColumn : Json → Option (Option String))
    (idOf : Json → Option Nat) (c : Parties R) : Prop :=
  ∃ r tasks, Reach (move remote) Always (begin_ textColumn idOf r tasks) c

end ServerManager.AgentManager
