import ServerManager.Effects
import ServerManager.PyText

namespace ServerManager.ProxmoxVm

open Interaction PyJson PyText Orm Effects

def pyTypeName : Json → String
  | .null => "NoneType"
  | .bool _ => "bool"
  | .int _ => "int"
  | .float _ => "float"
  | .str _ => "str"
  | .arr _ => "list"
  | .obj _ => "dict"

/-- `x.get(key)`, with `None` for a missing key. -/
def dictGet (x : Json) (key : String) : Py Json :=
  match x with
  | .obj fs => pure ((Dict.get? fs key).getD .null)
  | _ => raised .attributeError s!"'{pyTypeName x}' object has no attribute 'get'"

/-- `for _ in x`, as far as the code uses it: over the list of an answer. -/
def listOf (x : Json) : Py (List Json) :=
  match x with
  | .arr xs => pure xs
  | .obj fs => pure (fs.map (fun p => .str p.1))
  | .str s => pure (s.toList.map (fun c => .str (String.ofList [c])))
  | _ => raised .typeError s!"'{pyTypeName x}' object is not iterable"

/-- `int(x)` on an answer; PVE sends the next id as text. -/
def pyInt (x : Json) : Py Int :=
  match x with
  | .int n => pure n
  | .bool b => pure (if b then 1 else 0)
  | .str s =>
      match pyIntText s with
      | some n => pure n
      | none => raised .valueError s!"invalid literal for int() with base 10: '{s}'"
  | _ => raised .typeError
      s!"int() argument must be a string, a bytes-like object or a real number, not '{pyTypeName x}'"

structure VMSpec where
  name : String
  node : String
  templateVmid : Int
  templateNode : String
  bridge : String := "vmbr0"
  ciuser : String := "stagent"
  ipMode : String := "dhcp"
  descriptionMeta : Dict := []

/-- `[(node, status)]` of the cluster. -/
def listNodes : Py (List (String × Json)) := do
  let data ← pve .nodes
  let rows ← listOf (data.orElse (.arr []))
  rows.mapM (fun d =>
    match d with
    | .obj fs =>
        match Dict.get? fs "node" with
        | some n => pure (n.pyStr, (Dict.get? fs "status").getD (.str "unknown"))
        | none => raised .keyError "'node'"
    | _ => raised .typeError s!"'{pyTypeName d}' object is not subscriptable")

def nextVmid : Py Int := do
  let x ← pve .nextid
  pyInt x

def hex2 (n : Fin 256) : String :=
  asciiUpper (String.ofList [hexDigit (n.val / 16), hexDigit (n.val % 16)])

def macText (a b c : Fin 256) : String := "BC:24:11:" ++ hex2 a ++ ":" ++ hex2 b ++ ":" ++ hex2 c

def generateMac : Py String := do
  let a ← randbelow 256
  let b ← randbelow 256
  let c ← randbelow 256
  pure (macText a b c)

def isDiskKey (k : String) : Bool :=
  startsWith k "scsi" || startsWith k "virtio" || startsWith k "sata" || startsWith k "ide"

def storageOfDisks : Dict → String
  | [] => ""
  | (k, .str v) :: fs =>
      if isDiskKey k && v.toList.contains ':' then String.ofList (v.toList.takeWhile (· != ':'))
      else storageOfDisks fs
  | _ :: fs => storageOfDisks fs

/-- The storage behind the template's root disk, empty if undetermined. -/
def templateStorage (spec : VMSpec) : Py String := do
  let cfg ← pve (.config spec.templateNode spec.templateVmid)
  match cfg.orElse (.obj []) with
  | .obj fs => pure (storageOfDisks fs)
  | x => raised .attributeError s!"'{pyTypeName x}' object has no attribute 'items'"

def activeIn (storage : String) : List Json → Py Bool
  | [] => pure false
  | s :: rows => do
      let name ← dictGet s "storage"
      if name.isStr storage then
        let active ← dictGet s "active"
        pure active.truthy
      else activeIn storage rows

def storageActive (node storage : String) : Py Bool := do
  let rows ← pve (.storage node)
  let rows ← listOf (rows.orElse (.arr []))
  activeIn storage rows

/-- The destination is the placed node, the source the template's. -/
def cloneTemplate (spec : VMSpec) (newVmid : Int) : Py Unit := do
  let _ ← pve (.clone spec.templateNode spec.templateVmid newVmid
    (String.ofList (spec.name.toList.take 63)) spec.node)

def waitCloneLoop (node : String) (vmid : Int) (maxS : Nat) : Nat → Py Unit
  | 0 => raised .runtimeError s!"clone lock still held on {node}/{vmid} after {maxS}s"
  | n + 1 => do
      let cfg ← tryCatch (do
        let x ← pve (.config node vmid)
        pure (some (x.orElse (.obj [])))) (fun _ => pure none)
      match cfg with
      | some cfg => do
          let lock ← dictGet cfg "lock"
          if lock.truthy then
            sleep 3
            waitCloneLoop node vmid maxS n
          else pure ()
      | none => do
          -- a failed read is not lock-free
          sleep 3
          waitCloneLoop node vmid maxS n

def waitCloneLockRelease (node : String) (vmid : Int) (maxS : Nat := 240) : Py Unit := do
  let n ← polls maxS
  waitCloneLoop node vmid maxS n

/-- The lock guard before a configure: a failed read counts as still locked. -/
def unlockedWithin (node : String) (vmid : Int) : Nat → Py Unit
  | 0 => raised .runtimeError s!"VM {vmid} still locked before configure"
  | n + 1 => do
      let cfg ← tryCatch (do
        let x ← pve (.config node vmid)
        pure (x.orElse (.obj []))) (fun _ => pure (.obj [("lock", .str "clone")]))
      let lock ← dictGet cfg "lock"
      if lock.truthy then
        sleep 3
        unlockedWithin node vmid n
      else pure ()

def configBody (spec : VMSpec) (net0 : Option String) : List (String × String) :=
  [("net0", net0.getD s!"virtio,bridge={spec.bridge}"),
    ("ipconfig0", s!"ip={spec.ipMode}"),
    ("ciuser", spec.ciuser),
    ("description", String.ofList ((dumps (.obj spec.descriptionMeta)).toList.take 8190))]

/-- The lock is read on the placed node, the body is sent to the template's;
`net0` is the one key that callers override. -/
def configureCloudInit (spec : VMSpec) (vmid : Int) (net0 : Option String := none)
    (retries : Nat := 3) : Py Unit := do
  unlockedWithin spec.node vmid retries
  let _ ← pve (.setConfig spec.templateNode vmid (configBody spec net0))

def start (node : String) (vmid : Int) : Py Unit := do
  let _ ← pve (.start node vmid)

def stopForce (node : String) (vmid : Int) : Py Unit := do
  let _ ← pve (.stop node vmid)

/-- A clean stop where possible, a forced one when that raises. -/
def shutdown (node : String) (vmid : Int) (timeoutS : Nat := 180) : Py Unit :=
  tryCatch (do
    let _ ← pve (.shutdown node vmid timeoutS)) (fun _ => stopForce node vmid)

def destroyQuery (purge destroyUnreferenced : Bool) : String :=
  match purge, destroyUnreferenced with
  | true, true => "?purge=1&destroy-unreferenced-disks=1"
  | true, false => "?purge=1"
  | false, true => "?destroy-unreferenced-disks=1"
  | false, false => ""

def destroy (node : String) (vmid : Int) (purge : Bool := true)
    (destroyUnreferenced : Bool := true) :
    Py Unit := do
  let _ ← pve (.destroy node vmid (destroyQuery purge destroyUnreferenced))

def vmConfig (node : String) (vmid : Int) : Py Json :=
  tryCatch (do
    let x ← pve (.config node vmid)
    pure (x.orElse (.obj []))) (fun _ => pure (.obj []))

def vmStatus (node : String) (vmid : Int) : Py Json :=
  tryCatch (do
    let x ← pve (.status node vmid)
    pure (x.orElse (.obj []))) (fun _ => pure (.obj []))

def vmExists (node : String) (vmid : Int) : Py Bool :=
  tryCatch (do
    let x ← pve (.status node vmid)
    pure x.truthy) (fun _ => pure false)

/-- `some a` is a finished search, `none` an exception on the way. -/
def ipOfAddresses : List Json → Option (Option String)
  | [] => some none
  | .obj a :: rest =>
      if ((Dict.get? a "ip-address-type").getD .null).isStr "ipv4" then
        match (Dict.get? a "ip-address").getD (.str "") with
        | .str ip => if startsWith ip "127." then ipOfAddresses rest else some (some ip)
        | _ => none
      else ipOfAddresses rest
  | _ :: _ => none

def ipOfInterfaces : List Json → Option (Option String)
  | [] => some none
  | .obj i :: rest =>
      match ((Dict.get? i "ip-addresses").getD .null).orElse (.arr []) with
      | .arr as =>
          match ipOfAddresses as with
          | some none => ipOfInterfaces rest
          | found => found
      | _ => none
  | _ :: _ => none

/-- The first IPv4 address outside 127/8 that the guest agent lists. -/
def guestIp (x : Json) : Option String :=
  match x.orElse (.obj []) with
  | .obj fs =>
      match ((Dict.get? fs "result").getD .null).orElse (.arr []) with
      | .arr is => (ipOfInterfaces is).join
      | _ => none
  | _ => none

def waitForIpLoop (node : String) (vmid : Int) : Nat → Py (Option String)
  | 0 => pure none
  | n + 1 => do
      let ip ← tryCatch (do
        let x ← pve (.interfaces node vmid)
        pure (guestIp x)) (fun _ => pure none)
      match ip with
      | some ip => pure (some ip)
      | none => do
          sleep 3
          waitForIpLoop node vmid n

def waitForIp (node : String) (vmid : Int) (maxS : Nat := 300) : Py (Option String) := do
  let n ← polls maxS
  waitForIpLoop node vmid n

/-- The keys of the required set, the creation flag apart, that the marker lacks. -/
def missingKeys (marker : Dict) : List String :=
  ownershipRequiredKeys.filter (fun k => !Dict.has marker k &&
    k != "created_by_agent_runtime_manager")

def checkMarker (node : String) (vmid : Int) (runtime : AgentRuntime) : Json → Py Unit
  | .obj marker => do
      let missing := missingKeys marker
      let listed := (Json.arr (missing.map .str)).pyStr
      if !((Dict.get? marker "created_by_agent_runtime_manager").getD .null).truthy then
        raised .ownershipError s!"VM {node}/{vmid} marker lacks created_by_agent_runtime_manager"
      else if ((Dict.get? marker "server_runtime_id").getD (.str "")).pyStr != runtime.runtimeId.str
        then
        raised .ownershipError s!"VM {node}/{vmid} marker runtime-id mismatch (foreign VM)"
      else if missing != [] then
        raised .ownershipError s!"VM {node}/{vmid} ownership marker incomplete: missing {listed}"
      else pure ()
  -- the marker is read with `.get`, which only a dictionary has
  | x => raised .attributeError s!"'{pyTypeName x}' object has no attribute 'get'"

def verifyOwnership (protectedVmids : List Int) (node : String) (vmid : Int)
    (runtime : AgentRuntime) :
    Py Unit := do
  if protectedVmids.contains vmid then
    raised .ownershipError s!"VMID {vmid} is protected — destruction refused (§8)"
  else
    let found ← vmExists node vmid
    if !found then
      raised .ownershipError s!"VM {node}/{vmid} does not exist — nothing to act on"
    else if !runtime.createdByAgentRuntimeManager then
      raised .ownershipError
        s!"runtime {runtime.runtimeId.str} is not marked created_by_agent_runtime_manager"
    else
      let cfg ← vmConfig node vmid
      let desc ← dictGet cfg "description"
      match desc.orElse (.str "") with
      | .str text =>
          match loads text with
          | some marker => checkMarker node vmid runtime marker
          | none => raised .ownershipError s!"VM {node}/{vmid} has no parseable ownership marker"
      | _ => raised .ownershipError s!"VM {node}/{vmid} has no parseable ownership marker"

def zeroPad (width : Nat) (n : Int) : String :=
  let ds := (toString n.toNat).toList
  String.ofList (List.replicate (width - ds.length) '0' ++ ds)

/-- `datetime.isoformat()` of a UTC time, by the proleptic Gregorian calendar. -/
def isoformat (t : Time) : String :=
  let z := t / 86400 + 719468
  let era := z / 146097
  let doe := z - era * 146097
  let yoe := (doe - doe / 1460 + doe / 36524 - doe / 146096) / 365
  let doy := doe - (365 * yoe + yoe / 4 - yoe / 100)
  let mp := (5 * doy + 2) / 153
  let d := doy - (153 * mp + 2) / 5 + 1
  let m := if mp < 10 then mp + 3 else mp - 9
  let y := yoe + era * 400 + (if m ≤ 2 then 1 else 0)
  let s := t % 86400
  zeroPad 4 y ++ "-" ++ zeroPad 2 m ++ "-" ++ zeroPad 2 d ++ "T" ++ zeroPad 2 (s / 3600) ++ ":" ++
    zeroPad 2 (s / 60 % 60) ++ ":" ++ zeroPad 2 (s % 60) ++ "+00:00"

example : isoformat 1790640000 = "2026-09-29T00:00:00+00:00" := by decide

def ownershipMarker (runtime : AgentRuntime) (node : String) (vmid : Int) (template : String) :
    Dict :=
  [("server_runtime_id", .str runtime.runtimeId.str),
    ("acms_agent_id", .str runtime.acmsAgentId),
    ("provisioning_request_id", .str runtime.provisioningRequestId),
    ("provider", .str "proxmox_vm"),
    ("node", .str node),
    ("vmid", .int vmid),
    ("created_by_agent_runtime_manager", .bool true),
    ("created_at", (runtime.createdAt.map (fun t => Json.str (isoformat t))).getD .null),
    ("template_source", .str template),
    ("managed_by", .str "server-manager/agent-runtime-manager")]

end ServerManager.ProxmoxVm
