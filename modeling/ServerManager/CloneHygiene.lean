import ServerManager.ProxmoxVm

namespace ServerManager.CloneHygiene

open Interaction PyJson PyText Effects ProxmoxVm

/-- One entry of the report: the check's name and its detail text. -/
abbrev Check := String × String

/-- `HygieneReport.require`: a passed check is added to the report, a failed one raises. -/
def require (checks : List Check) (name : String) (passed : Bool) (detail : String) :
    Py (List Check) :=
  if passed then pure (checks ++ [(name, detail)])
  else raised .hygieneError s!"clone hygiene FAIL [{name}]: {detail}"

/-- The text that `_run` gives: what was printed, whatever the exit status; a
command that could not be run or timed out is folded into the empty text. -/
def runText : Option CompletedProcess → String
  | some out => out.stdout ++ out.stderr
  | none => ""

def guestNetplanStaticIps (vmid : Int) : Py (List String) := do
  let out ← guestExec vmid
  pure (ipv4Tokens (runText out))

def macValid (mac : String) : Bool :=
  macShape isHexAny mac.toList && !startsWith (asciiUpper mac) "BC:24:11:00"

def hostnameValid (hostname : String) : Bool :=
  hostname ≠ "" && !startsWith (asciiLower hostname) "template"

/-- The checks on the address: no other runtime holds it and the guest
declares no other one. The lease inventory is read and not used. -/
def verifyAddress (checks : List Check) (vmid : Int) (ip : String) (otherRuntimeIps : List String) :
    Py (List Check) := do
  let _ ← leaseInventory
  let checks ← require checks "ip_not_owned_by_other_runtime" (!otherRuntimeIps.contains ip)
    s!"ip={ip} already bound to another runtime's metadata"
  let statics ← guestNetplanStaticIps vmid
  let bad := statics.filter (· != ip)
  let shown := (Json.arr (bad.map .str)).pyStr
  require checks "netplan_reidentified" bad.isEmpty
    s!"guest still holds static netplan address(es) {shown} != intended {ip} (shared-template clone not re-identified; fix netplan before READY)"

def verifyCloneIdentity (vmid : Int) (hostname mac ip expectedAgentId : String)
    (guestAgentId : Json)
    (otherRuntimeIps : List String) : Py (List Check) := do
  let checks ← require [] "vmid_valid" (vmid ≠ 0) s!"vmid={vmid}"
  let checks ← require checks "mac_valid" (macValid mac)
    s!"mac={mac} (template-default or malformed MACs rejected)"
  let checks ← require checks "hostname_reidentified" (hostnameValid hostname)
      s!"hostname={hostname}"
  let checks ← if ip ≠ "" then verifyAddress checks vmid ip otherRuntimeIps else pure checks
  let shown := guestAgentId.pyRepr
  require checks "guest_identity_matches" (guestAgentId.isStr expectedAgentId)
    s!"guest reports agent_id={shown}, ARM expects '{expectedAgentId}'"

end ServerManager.CloneHygiene
