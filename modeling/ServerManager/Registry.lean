import ServerManager.Fleet

namespace ServerManager.Registry

open Interaction PyJson PyText FleetDb Fleet
open Effects (PyExc ExcClass)
open ProxmoxVm (pyTypeName)

/-- An entry of `out["models"]`; nothing reads its `root`. -/
structure ListedModel where
  id : Json
  maxModelLen : Json

structure Probe where
  models : Option (List ListedModel) := none
  healthCompletion : Option String := none
  error : Option String := none

/-- `for m in data`. -/
def iter (x : Json) : Except PyExc (List Json) :=
  match x with
  | .arr xs => .ok xs
  | .obj fs => .ok (fs.map (fun p => .str p.1))
  | .str s => .ok (s.toList.map (fun c => .str (String.ofList [c])))
  | _ => .error ⟨.typeError, s!"'{pyTypeName x}' object is not iterable"⟩

def listModel (m : Json) : Except PyExc ListedModel := do
  let id ← dictGet m "id"
  let maxModelLen ← dictGet m "max_model_len"
  pure ⟨id, maxModelLen⟩

/-- `data[0]["id"]`, when there is a first entry. -/
def firstId (data : List Json) : Except PyExc (Option Json) :=
  match data with
  | [] => .ok none
  | .obj fs :: _ =>
      match Dict.get? fs "id" with
      | some mid => .ok (some mid)
      | none => .error ⟨.keyError, "'id'"⟩
  | x :: _ => .error ⟨.typeError, s!"'{pyTypeName x}' object is not subscriptable"⟩

def errorText (x : PyExc) : String := x.cls.name ++ ": " ++ (x.msg.take 80).toString

def completionText : Except PyExc Nat → String
  | .ok 200 => "ok"
  | .ok code => s!"http {code}"
  | .error x => "error " ++ x.cls.name

/-- `r.json().get("data") or []`, as the entries it iterates over. -/
def modelData (body : Except PyExc Json) : Except PyExc (List Json) := do
  let body ← body
  let data ← dictGet body "data"
  iter (data.orElse (.arr []))

/-- The probe after the models answer, and the model that the completion is then
asked for. An answer that cannot be read is an error; one whose first entry has
no id is one too, but its list is kept. -/
def readModels : Except PyExc (Nat × Except PyExc Json) → Probe × Option Json
  | .error x => ({ error := some (errorText x) }, none)
  | .ok (status, body) =>
      if status ≠ 200 then ({ error := some s!"models http {status}" }, none)
      else
        match modelData body with
        | .error x => ({ error := some (errorText x) }, none)
        | .ok data =>
            match data.mapM listModel with
            | .error x => ({ error := some (errorText x) }, none)
            | .ok models =>
                match firstId data with
                | .error x => ({ models := some models, error := some (errorText x) }, none)
                | .ok mid => ({ models := some models }, mid)

def probeHost (ip : String) : Svc Probe :=
  .call (.getModels ip) fun answer =>
    match readModels answer with
    | (p, none) => pure p
    | (p, some mid) =>
        .call (.completion ip mid) fun code =>
          pure { p with healthCompletion := some (completionText code) }

/-- `p["models"]` where its truth is tested. -/
def Probe.listed (p : Probe) : List ListedModel := p.models.getD []

def Probe.healthy (p : Probe) : Bool := !p.listed.isEmpty && p.healthCompletion == some "ok"

def Probe.state (p : Probe) : String :=
  if p.healthy then "healthy"
  else if p.error.isSome || p.healthCompletion.isSome then "unhealthy"
  else "unknown"

structure HostSummary where
  ip : String
  name : String
  state : String
  routable : Bool
  deriving DecidableEq, Repr

inductive SyncResult
  | error (text : String)
  | hosts (summary : List HostSummary)
  deriving DecidableEq, Repr

def engineOf (ip : String) : String := if ip == "10.0.20.165" then "llamacpp" else "vllm"

def backendUrl (ip : String) : String := s!"http://{ip}:8000/v1"

def upsertModels (cutover : Bool) (hid : Int) (ip state : String) (routable : Bool) :
    List ListedModel → Svc Unit
  | [] => pure ()
  | m :: ms => do
      let _ ← send cutover (.upsertModel m.id hid (engineOf ip) (backendUrl ip) m.maxModelLen state
          routable)
      upsertModels cutover hid ip state routable ms

/-- `row if row else ("RUNNING", "MANAGED")`, and whether the gate is open. -/
def gate (p : Probe) (flags : Option (String × String)) : Bool :=
  let (desired, mode) := flags.getD ("RUNNING", "MANAGED")
  p.healthy && desired == "RUNNING" && mode == "MANAGED"

def writeHost (cutover : Bool) (hid : Int) (ip : String) (p : Probe) (routable : Bool) : Svc Unit :=
  do
  if p.listed.isEmpty then
    -- host down: mark its rows not routable, keep last known model
    let _ ← send cutover (.markHost hid p.state)
    pure ()
  else upsertModels cutover hid ip p.state routable p.listed

def syncHost (cutover : Bool) (host : Int × String × String) : Svc HostSummary := do
  let (hid, ip, name) := host
  let p ← probeHost ip
  let flags ← send cutover (.hostFlags hid)
  writeHost cutover hid ip p (gate p flags)
  pure ⟨ip, name, p.state, gate p flags⟩

def syncHosts (cutover : Bool) : List (Int × String × String) → Svc (List HostSummary)
  | [] => pure []
  | host :: hosts => do
      let row ← syncHost cutover host
      let rows ← syncHosts cutover hosts
      pure (row :: rows)

def aliases : List (String × Option String) :=
  [("fast", some "qwen3.6-35b-a3b"), ("code", some "qwen3.8-flash-next"), ("frontier", none)]

/-- The legacy statement leaves `backend_url` out, the adapter sends `""`. -/
def aliasUrl (cutover : Bool) : Option String := if cutover then some "" else none

def syncAlias (cutover : Bool) (name target : String) : Svc Unit := do
  let n : Nat ← send cutover (.countRoutable target)
  let ok := decide (n > 0)
  let _ ← send cutover
    (.insertAlias name target (if ok then "healthy" else "unhealthy") (aliasUrl cutover) ok)
  pure ()

def syncAliases (cutover : Bool) : List (String × Option String) → Svc Unit
  | [] => pure ()
  | (_, none) :: rest => syncAliases cutover rest
  | (name, some target) :: rest => do
      syncAlias cutover name target
      syncAliases cutover rest

def aliasesOn (row : Option String) : Bool :=
  match row with
  | some value => asciiLower value == "true"
  | none => false

/-- The statements of the `try` block up to its `commit`. -/
def syncBody (cutover : Bool) : Svc (List HostSummary) := do
  let hosts ← execute .hostInventory
  let summary ← syncHosts cutover hosts
  let row ← execute .aliasSetting
  let _ ← send cutover .deleteAliases
  syncAliases cutover (if aliasesOn row then aliases else [])
  pure summary

def syncRegistry (cutover : Bool) : Svc SyncResult := do
  if ← pg then
    closing (tryCatch (do
      let summary ← syncBody cutover
      commit
      pure (.hosts summary)) (fun e => do
      rollback
      pure (.error (shown e))))
  else pure (.error "pg unavailable")

/-- `sorted`, by code points. -/
def sorted (names : List String) : List String := names.insertionSort (fun a b => a ≤ b)

def routableModels (cutover : Bool) : Svc (List String) := do
  if cutover then
    let names ← adapter .routableNames
    pure (sorted names)
  else if ← pg then
    closing (do
      let names ← execute .routableNames
      pure (sorted names))
  else pure []

end ServerManager.Registry
