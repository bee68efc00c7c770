import ServerManager.ProxmoxVm
import ServerManager.Config

namespace ServerManager.SandboxNetwork

open Interaction PyJson PyText Effects Config ProxmoxVm

def subnetDescriptionTag : String := "ACMS_SANDBOX"

structure ReservationRecord where
  ip : String
  mac : String
  hostname : String
  uuid : String
  description : String := ""

def networkError {α : Type} (msg : String) : Py α := raised .sandboxNetworkError msg

/-- The lower case is that of ASCII; no other letter becomes a hex digit. -/
@[irreducible] def macNorm (mac : String) : String :=
  String.ofList ((strip mac.toList).map (fun c => if c == '-' then ':' else c.toLower))

@[irreducible] def validMac (mac : String) : Bool := macShape isHexLower (macNorm mac).toList

@[irreducible] def ipText (n : Nat) : String :=
  s!"{n / 16777216 % 256}.{n / 65536 % 256}.{n / 256 % 256}.{n % 256}"

def octet (ds : List Char) : Option Nat :=
  if ds.length ≤ 3 && (ds.length == 1 || ds.head? != some '0') && digitsVal ds ≤ 255 then
    some (digitsVal ds)
  else none

def skipSpace : List Char → List Char
  | [] => []
  | c :: cs => if isSpace c then skipSpace cs else c :: cs

def rangeHere (cs : List Char) : Option (List (List Char) × List (List Char)) :=
  match quad cs with
  | some (lo, rest) =>
      match skipSpace rest with
      | '-' :: rest =>
          match quad (skipSpace rest) with
          | some (hi, _) => some (lo, hi)
          | none => none
      | _ => none
  | none => none

def rangeSearch : List Char → Option (List (List Char) × List (List Char))
  | [] => none
  | c :: cs =>
      match rangeHere (c :: cs) with
      | some m => some m
      | none => rangeSearch cs

def ipv4Address (parts : List (List Char)) : Py Nat :=
  match parts.mapM octet with
  | some [a, b, c, d] => pure (((a * 256 + b) * 256 + c) * 256 + d)
  | _ => raised (.other "AddressValueError") "Octet not permitted"

/-- `"a.b.c.d - w.x.y.z"`, fail-closed. -/
def parsePoolRange (spec : String) : Py (Nat × Nat) := do
  match rangeSearch spec.toList with
  | none => networkError s!"invalid sandbox DHCP range spec: '{spec}'"
  | some (lo, hi) =>
      let start ← ipv4Address lo
      let stop ← ipv4Address hi
      if stop < start then networkError s!"sandbox DHCP range start>end: '{spec}'"
      else pure (start, stop)

def newClient (cfg : Settings) : Py Unit :=
  if cfg.sandboxOpnsenseUrl = "" ∨ cfg.sandboxOpnsensePassword = "" then
    networkError "OPNsense base URL / password not configured (sandbox network gate)"
  else pure ()

def subnetUuid (cfg : Settings) : Py String := do
  let rows ← searchSubnet
  match rows with
  | [] => networkError "no Kea subnet4 found on OPNsense"
  | [r] =>
      match r.uuid with
      | some u => pure u
      | none => raised .keyError "'uuid'"
  | _ =>
      let subnets := (Json.arr (rows.map (fun r => (r.subnet.map Json.str).getD .null))).pyStr
      if cfg.sandboxKeaSubnetUuid ≠ "" then pure cfg.sandboxKeaSubnetUuid
      else networkError s!"ambiguous Kea subnets {subnets}; set SERVER_MANAGER_SANDBOX_KEA_SUBNET_UUID"

def activeLeaseIps : Py (List String) := do
  let rows ← searchLeases
  pure (rows.filterMap (fun r =>
    if r.state = some 0 then r.address.filter (· != "") else none))

def reconfigure : Py Unit := do
  let status ← keaReconfigure
  let shown := status.getD "None"
  if status = some "ok" then pure () else networkError s!"Kea reconfigure failed: {shown}"

def createReservation (cfg : Settings) (ip mac hostname description : String) : Py String := do
  let subnet ← subnetUuid cfg
  let (result, uuid) ← addReservation subnet ip (macNorm mac) hostname description
  let shown := result.getD "None"
  match uuid with
  | some u =>
      if result = some "saved" ∧ u ≠ "" then
        reconfigure
        pure u
      else networkError s!"reservation create failed: {shown}"
  | none => networkError s!"reservation create failed: {shown}"

def deleteReservation (uuid : String) : Py Unit := do
  let result ← delReservation uuid
  let shown := result.getD "None"
  if result = some "deleted" then reconfigure
  else networkError s!"reservation delete failed: {shown}"

structure Pool where
  first : Nat
  last : Nat

def newService (cfg : Settings) : Py Pool := do
  newClient cfg
  let (first, last) ← parsePoolRange cfg.sandboxDhcpRange
  pure ⟨first, last⟩

def Pool.addresses (p : Pool) : List Nat := List.range' p.first (p.last + 1 - p.first)

/-- The row that the dictionary of `_reserved_ips` holds for an address: the
last one listed for it. -/
def reservedAt (rows : List KeaRow) (ip : String) : Option KeaRow :=
  if ip = "" then none else rows.reverse.find? (fun r => r.ipAddress = some ip)

def tagged (r : KeaRow) : Bool := startsWith (r.description.getD "") subnetDescriptionTag

def smOwned (rows : List KeaRow) (ip : String) : Bool := (reservedAt rows ip).any tagged

def answersAlive (stdout : String) : Bool :=
  containsText stdout "lladdr" && !containsText stdout "FAILED"

/-- The probed addresses that are alive; a failing probe counts as silent. -/
def aliveIps : List String → Py (List String)
  | [] => pure []
  | ip :: ips => do
      let out ← ipNeigh ip
      let rest ← aliveIps ips
      pure (if out.any answersAlive then ip :: rest else rest)

/-- The addresses probed when the first candidate already has a tagged reservation. -/
def probeSet (p : Pool) (rows : List KeaRow) : List String :=
  (p.addresses.map ipText).filter (fun x => smOwned rows x || (reservedAt rows x).isNone)

/-- `alive` is computed once, for whatever the first candidate that needs it asks. -/
def aliveOr (alive : Option (List String)) (ips : List String) : Py (List String) :=
  match alive with
  | some known => pure known
  | none => aliveIps ips

def allocateLoop (p : Pool) (rows : List KeaRow) (leased : List String) :
    List Nat → Option (List String) → Py (String × Option String)
  | [], _ => networkError "sandbox DHCP pool exhausted (fail-closed; no general-pool borrow)"
  | i :: is, alive =>
      let ip := ipText i
      match reservedAt rows ip with
      | some r =>
          -- foreign reservation (static infra): skip forever
          if !tagged r then allocateLoop p rows leased is alive
          else if leased.contains ip then allocateLoop p rows leased is alive
          else do
            let known ← aliveOr alive (probeSet p rows)
            if known.contains ip then allocateLoop p rows leased is (some known)
            else
              match r.uuid with
              | some u => pure (ip, some u)
              | none => raised .keyError "'uuid'"
      | none =>
          if leased.contains ip then allocateLoop p rows leased is alive
          else do
            let known ← aliveOr alive [ip]
            if known.contains ip then allocateLoop p rows leased is (some known)
            else pure (ip, none)

def allocate (p : Pool) : Py (String × Option String) := do
  let rows ← searchReservation
  let leased ← activeLeaseIps
  allocateLoop p rows leased p.addresses none

def rowOf (rows : List KeaRow) (uuid : String) : Option KeaRow :=
  rows.reverse.find? (fun r => r.uuid = some uuid)

def reservationText (workUid agentName hostname : String) : String :=
  s!"{subnetDescriptionTag}: work={workUid} agent={agentName} host={hostname}"

def createFor (cfg : Settings) (ip mac hostname workUid agentName : String) :
    Py ReservationRecord := do
  let desc := reservationText workUid agentName hostname
  let u ← createReservation cfg ip mac hostname desc
  pure ⟨ip, macNorm mac, hostname, u, desc⟩

def reserveForMac (cfg : Settings) (ip mac hostname workUid agentName : String)
    (existingUuid : Option String) : Py ReservationRecord := do
  if !validMac mac then networkError s!"invalid MAC for reservation: '{mac}'"
  else
    match existingUuid.filter (· != "") with
    | some u =>
        let rows ← searchReservation
        match rowOf rows u with
        | some r =>
            if r.ipAddress = some ip ∧ macNorm (r.hwAddress.getD "") = macNorm mac then
              pure ⟨ip, macNorm mac, hostname, u, r.description.getD ""⟩
            else
              deleteReservation u
              createFor cfg ip mac hostname workUid agentName
        | none =>
            deleteReservation u
            createFor cfg ip mac hostname workUid agentName
    | none => createFor cfg ip mac hostname workUid agentName

def verifyReserved (ip : String) : Py Unit := do
  let rows ← searchReservation
  match reservedAt rows ip with
  | some _ => pure ()
  | none => networkError s!"reservation verification failed for {ip}"

/-- Deletes the tagged reservation of an address; a foreign one is refused. -/
def release (ip : String) : Py Unit := do
  let rows ← searchReservation
  match reservedAt rows ip with
  | none => pure ()
  | some r =>
      let desc := r.description.getD ""
      let shown := String.ofList (desc.toList.take 60)
      if !startsWith desc subnetDescriptionTag then
        networkError s!"refusing to release foreign reservation {ip}: {shown}"
      else
        match r.uuid with
        | some u => deleteReservation u
        | none => raised .keyError "'uuid'"

end ServerManager.SandboxNetwork
