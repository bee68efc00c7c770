import ServerManager.ProxmoxVm
import ServerManager.PyText
import ServerManager.RecencyList

namespace ServerManager.Presets

open PyJson ProxmoxVm PyText

structure Preset where
  id : Int
  scopeKey : String
  engine : String
  friendlyName : String
  content : String
  contentHash : String
  sortOrder : Int
  createdAt : Nat
  lastUsedAt : Option Nat
  useCount : Nat
  createdBy : String
  /-- `deleted_at IS NOT NULL`. -/
  deleted : Bool

structure Store where
  rows : List Preset := []
  /-- Of the sequence of the ids. -/
  next : Int := 1

inductive Fault
  | none
  /-- A statement or the commit fails, and everything is rolled back. -/
  | failed (text : String)
  /-- The commit goes through, but the connection breaks. -/
  | lost (text : String)

/-- What surrounds a request: who makes it, the time and its texts, whether
`_pg()` connects, and how many ids the sequence has lost. -/
structure Env where
  user : String
  role : String
  now : Nat
  day : String
  minute : String
  connected : Bool
  gap : Nat
  fault : Fault

inductive Answer
  | presets (rows : List Preset) (engine : String)
  | created (id : Int)
  | reused (id : Int)
  | used (content : String)
  | ok
  | error (status : Nat) (text : String)

/-- `body` is `none` where `request.json()` raises. -/
inductive Request
  | list (ip : String) (rc : Int) (unit : String) (env : Env)
  | create (ip : String) (body : Option Json) (env : Env)
  | use (ip : String) (pid : Int) (env : Env)
  | rename (ip : String) (pid : Int) (body : Option Json) (env : Env)
  | delete (ip : String) (pid : Int) (env : Env)
  | reorder (ip : String) (body : Option Json) (env : Env)

/-- `.replace("\r\n", "\n")`. -/
def unixLines : List Char → List Char
  | '\r' :: '\n' :: cs => '\n' :: unixLines cs
  | c :: cs => c :: unixLines cs
  | [] => []

def normalise (text : String) : String := String.ofList (rstrip (unixLines text.toList))

def trim (text : String) : String := String.ofList (strip text.toList)

def vllmHosts : List String :=
  ["10.0.20.168", "10.0.20.161", "10.0.20.162", "10.0.20.163", "10.0.20.164", "10.0.20.165"]

def canEditDeploy : List String := ["Admin", "Security-Admin"]

def engineForIp (ip : String) : String := if ip = "10.0.20.165" then "llamacpp" else "vllm"

def Env.edits (env : Env) : Bool := env.user != "" && canEditDeploy.contains env.role

def refused : Answer := .error 403 "role does not permit deployment edits"

def unknownHost : Answer := .error 400 "unknown host"

def badJson : Answer := .error 400 "bad json"

def unavailable : Answer := .error 503 "postgres unavailable"

def notFound : Answer := .error 404 "preset not found"

def unhandled : Answer := .error 500 "Internal Server Error"

namespace Store

/-- `WHERE scope_key = ip AND deleted_at IS NULL`. -/
def ofHost (s : Store) (ip : String) : List Preset :=
  s.rows.filter (fun p => p.scopeKey = ip && !p.deleted)

/-- `WHERE scope_key = ip AND engine = … AND deleted_at IS NULL`. -/
def active (s : Store) (ip : String) : List Preset :=
  s.rows.filter (fun p => p.scopeKey = ip && p.engine = engineForIp ip && !p.deleted)

/-- `WHERE id = pid AND scope_key = ip AND deleted_at IS NULL`. -/
def get? (s : Store) (ip : String) (pid : Int) : Option Preset :=
  s.rows.find? (fun p => p.id = pid && p.scopeKey = ip && !p.deleted)

def update (s : Store) (p : Preset → Bool) (f : Preset → Preset) : Store :=
  { s with rows := s.rows.map (fun r => if p r then f r else r) }

def insert (s : Store) (gap : Nat) (preset : Int → Preset) : Store :=
  ⟨s.rows ++ [preset (s.next + gap)], s.next + gap + 1⟩

end Store

/-- `ORDER BY sort_order ASC, created_at ASC`. -/
def precedes (p q : Preset) : Bool :=
  p.sortOrder < q.sortOrder || (p.sortOrder == q.sortOrder && p.createdAt ≤ q.createdAt)

def Store.listed (s : Store) (ip : String) : List Preset := (s.active ip).mergeSort precedes

/-- `MIN(sort_order)`. -/
def minOrder (rows : List Preset) : Option Int := (rows.map (·.sortOrder)).min?

def int4 (n : Int) : Except Answer Int :=
  if -2147483648 ≤ n ∧ n ≤ 2147483647 then .ok n
    else .error (.error 500 "NumericValueOutOfRange: integer out of range")

/-- One transaction; its body ends with an error where nothing is committed. -/
def transaction (s : Store) (env : Env) (body : Except Answer (Store × Answer)) : Store × Answer :=
  if !env.connected then (s, unavailable)
  else
    match env.fault, body with
    | .none, .ok r => r
    | .none, .error a => (s, a)
    | .failed text, _ => (s, .error 500 text)
    | .lost text, .ok r => (r.1, .error 500 text)
    | .lost _, .error a => (s, a)

/-- `_touch_preset`. -/
def touchPreset (s : Store) (pid : Int) (env : Env) : Except Answer Store :=
  let here := fun p : Preset => p.id = pid && !p.deleted
  if s.rows.any here then do
    let lowest :=
      (s.rows.find? (fun p => p.id = pid)).bind (fun p => minOrder (s.ofHost p.scopeKey))
    let top ← int4 ((lowest.map (· - 1)).getD 0)
    pure
      (s.update here
      (fun p => { p with lastUsedAt := some env.now, useCount := p.useCount + 1, sortOrder := top }))
  else pure s

variable (sha256 : String → String)

def importable (rc : Int) (unit : String) : Option String :=
  if rc = 0 ∧ unit ≠ "" ∧ containsText unit "ExecStart=" then some (normalise unit) else none

def imported (ip text : String) (env : Env) (id : Int) : Preset where
  id
  scopeKey := ip
  engine := engineForIp ip
  friendlyName := "Imported active command - " ++ env.day
  content := text
  contentHash := sha256 text
  sortOrder := 0
  createdAt := env.now
  lastUsedAt := none
  useCount := 0
  createdBy := env.user
  deleted := false

/-- `api_presets_list`. -/
def presetsList (s : Store) (ip : String) (rc : Int) (unit : String) (env : Env) : Store × Answer :=
  if env.user = "" then (s, .error 401 "auth required")
  else if !vllmHosts.contains ip then (s, unknownHost)
  else transaction s env <|
    if (s.listed ip).isEmpty then
      match importable rc unit with
      | some text =>
          let s' := s.insert env.gap (imported sha256 ip text env)
          .ok (s', .presets (s'.listed ip) (engineForIp ip))
      | none => .ok (s, .presets [] (engineForIp ip))
    else .ok (s, .presets (s.listed ip) (engineForIp ip))

/-- `body.get(key)`. -/
def field (fs : Dict) (key : String) : Json := (Dict.get? fs key).getD .null

/-- `body.get(key) or ""`, where it is a text. -/
def textField (fs : Dict) (key : String) : Option String :=
  match (field fs key).orElse (.str "") with
  | .str text => some text
  | _ => none

/-- `body.get`. -/
def bodyDict : Option Json → Except Answer Dict
  | none => .error badJson
  | some (.obj fs) => .ok fs
  | some _ => .error unhandled

def textOf (fs : Dict) (key : String) : Except Answer String :=
  match textField fs key with
  | some text => .ok text
  | none => .error unhandled

/-- The content and the name of a create request, and whether it gives a name. -/
def createFields (body : Option Json) (env : Env) : Except Answer (String × String × Bool) := do
  let fs ← bodyDict body
  let text ← textOf fs "content"
  let content := normalise text
  let given ← textOf fs "friendly_name"
  let name := if trim given = "" then "Command - " ++ env.minute else trim given
  if !containsText content "ExecStart=" || !containsText content "[Service]" then
    .error (.error 400 "unit text must contain [Service] and ExecStart=")
  else pure (content, name, (field fs "friendly_name").truthy)

def renameField (body : Option Json) : Except Answer String := do
  let fs ← bodyDict body
  let text ← textOf fs "friendly_name"
  if trim text = "" then .error (.error 400 "friendly_name required") else pure (trim text)

def orderField (body : Option Json) : Except Answer Json := do
  let fs ← bodyDict body
  let order := field fs "order"
  if !order.truthy then .error (.error 400 "order list required") else pure order

def newPreset (ip name content : String) (top : Int) (env : Env) (id : Int) : Preset where
  id
  scopeKey := ip
  engine := engineForIp ip
  friendlyName := name
  content := content
  contentHash := sha256 content
  sortOrder := top
  createdAt := env.now
  lastUsedAt := some env.now
  useCount := 1
  createdBy := env.user
  deleted := false

/-- The transaction of `api_presets_create`. -/
def createPreset (s : Store) (ip name content : String) (named : Bool) (env : Env) :
    Except Answer (Store × Answer) :=
  match (s.active ip).find? (fun p => p.contentHash = sha256 content) with
  | some old => do
      let s' :=
        if named then s.update (fun p => p.id = old.id) (fun p => { p with friendlyName := name })
          else s
      let s'' ← touchPreset s' old.id env
      pure (s'', .reused old.id)
  | none => do
      let top ← int4 ((minOrder (s.ofHost ip)).getD 0 - 1)
      pure (s.insert env.gap (newPreset sha256 ip name content top env),
        .created (s.next + env.gap))

/-- `api_presets_create`. -/
def presetsCreate (s : Store) (ip : String) (body : Option Json) (env : Env) : Store × Answer :=
  if !env.edits then (s, refused)
  else if !vllmHosts.contains ip then (s, unknownHost)
  else
    match createFields body env with
    | .error a => (s, a)
    | .ok (content, name, named) =>
        transaction s env (createPreset sha256 s ip name content named env)

/-- `api_presets_use`. -/
def presetsUse (s : Store) (ip : String) (pid : Int) (env : Env) : Store × Answer :=
  if !env.edits then (s, refused)
  else if !vllmHosts.contains ip then (s, unknownHost)
  else transaction s env <|
    match s.get? ip pid with
    | none => .error notFound
    | some p => do
        let s' ← touchPreset s pid env
        pure (s', .used p.content)

/-- `UPDATE … WHERE id = pid AND scope_key = ip AND deleted_at IS NULL`, which must find a row. -/
def updateOne (s : Store) (ip : String) (pid : Int) (f : Preset → Preset) :
    Except Answer (Store × Answer) :=
  if (s.get? ip pid).isSome then
    .ok (s.update (fun p => p.id = pid && p.scopeKey = ip && !p.deleted) f, .ok)
  else .error notFound

/-- `api_presets_rename`. -/
def presetsRename (s : Store) (ip : String) (pid : Int) (body : Option Json) (env : Env) :
    Store × Answer :=
  if !env.edits then (s, refused)
  else
    match renameField body with
    | .error a => (s, a)
    | .ok name => transaction s env (updateOne s ip pid (fun p => { p with friendlyName := name }))

/-- `api_presets_delete`. -/
def presetsDelete (s : Store) (ip : String) (pid : Int) (env : Env) : Store × Answer :=
  if !env.edits then (s, refused)
  else transaction s env (updateOne s ip pid (fun p => { p with deleted := true }))

/-- What `enumerate(order)` goes through. -/
def orderItems : Json → Except Answer (List Json)
  | .arr xs => .ok xs
  | .str text => .ok (text.toList.map (fun c => .str (String.singleton c)))
  | .obj fs => .ok (fs.map (fun p => .str p.1))
  | x =>
      let name := pyTypeName x
      .error (.error 500 s!"TypeError: '{name}' object is not iterable")

variable (idOf : Json → Except Answer (Option Int))

/-- The loop of `api_presets_reorder`; `idOf` is the id that PostgreSQL compares with. -/
def reorderFrom (ip : String) (i : Nat) (s : Store) : List Json → Except Answer Store
  | [] => .ok s
  | x :: xs => do
      let pid ← idOf x
      let place ← int4 i
      let s' :=
        s.update (fun p => some p.id = pid && p.scopeKey = ip && !p.deleted)
          (fun p => { p with sortOrder := place })
      reorderFrom ip (i + 1) s' xs

/-- `api_presets_reorder`. -/
def presetsReorder (s : Store) (ip : String) (body : Option Json) (env : Env) : Store × Answer :=
  if !env.edits then (s, refused)
  else
    match orderField body with
    | .error a => (s, a)
    | .ok order => transaction s env do
        let items ← orderItems order
        let s' ← reorderFrom idOf ip 0 s items
        pure (s', .ok)

def step (s : Store) : Request → Store × Answer
  | .list ip rc unit env => presetsList sha256 s ip rc unit env
  | .create ip body env => presetsCreate sha256 s ip body env
  | .use ip pid env => presetsUse s ip pid env
  | .rename ip pid body env => presetsRename s ip pid body env
  | .delete ip pid env => presetsDelete s ip pid env
  | .reorder ip body env => presetsReorder idOf s ip body env

def run (reqs : List Request) : Store := reqs.foldl (fun s r => (step sha256 idOf s r).1) {}

end ServerManager.Presets
