import ServerManager.Registry

namespace ServerManager.HostsApi

open Interaction PyJson FleetDb Fleet Registry
open Effects (PyExc ExcClass)

/-- A request as the handlers read it: the session and what `request.json()` gives or raises. -/
structure HostRequest where
  user : Option String
  role : Option String
  body : Except PyExc Json

/-- A `JSONResponse` with an error, or the dictionary that is returned. -/
inductive Reply
  | error (text : String) (status : Nat)
  | host (ip desiredPowerState managementMode : String)
  | power (status : String)
  deriving DecidableEq, Repr

def noneHasNo (name : String) : PyExc :=
  ⟨.attributeError, "'NoneType' object has no attribute '" ++ name ++ "'"⟩

def notSubscriptable : PyExc := ⟨.typeError, "'NoneType' object is not subscriptable"⟩

/-- `x in (a, b, None)`. -/
def oneOf (x : Json) (a b : String) : Bool :=
  match x with
  | .null => true
  | .str s => s == a || s == b
  | _ => false

def admins : List String := ["Admin", "Security-Admin"]

def refusal (req : HostRequest) (ip : String) : Option Reply :=
  if (req.user.getD "").isEmpty then some (.error "auth required" 401)
  else if !(admins.contains (req.role.getD "")) then some (.error "forbidden" 403)
  else if !(hostIps.contains ip) then some (.error "unknown host" 400)
  else none

def jsonUser (req : HostRequest) : Json := .str (req.user.getD "")

def changeDetail (req : HostRequest) (dps mode : Json) : String :=
  dumps (.obj [("user", jsonUser req), ("desired_power_state", dps), ("management_mode", mode)])

/-- `if value: UPDATE hosts SET column = value`. -/
def updateHost (cutover : Bool) (ip : String) (column : HostColumn) (value : Json) : Svc Unit :=
  if value.truthy then do
    let _ ← send cutover (.updateHost ip column value.pyStr)
    pure ()
  else pure ()

def changeHost (cutover : Bool) (ip : String) (dps mode : Json) (detail : String) :
    Svc (Option (String × String × String)) := do
  updateHost cutover ip .desiredPowerState dps
  updateHost cutover ip .managementMode mode
  let _ ← send cutover (.insertEvent ip "desired_state_change" detail)
  send cutover (.hostState ip)

def storeDesiredState (cutover : Bool) (ip : String) (dps mode : Json) (detail : String) :
    Svc (Option (String × String × String)) := do
  if cutover then changeHost cutover ip dps mode detail
  else if ← pg then
    closing (do
      let row ← changeHost cutover ip dps mode detail
      commit
      pure row)
  else throw (noneHasNo "close")

def hostReply (row : Option (String × String × String)) : Except PyExc Reply :=
  match row with
  | some (ip, dps, mode) => .ok (.host ip dps mode)
  | none => .error notSubscriptable

/-- After the change: the forced sync, whose result is not looked at. -/
def finishChange (cutover : Bool) (dps : Json) (row : Option (String × String × String)) :
    Svc Reply := do
  if dps.isStr "STOPPED_INTENTIONAL" then
    -- drain immediately: registry gate flips on next sync; force now
    let _ ← syncRegistry cutover
    orRaise (hostReply row)
  else orRaise (hostReply row)

/-- The checks of `set_desired_state`: what is raised, what is refused, or the two values. -/
def readChange (ip : String) (req : HostRequest) : Except PyExc (Except Reply (Json × Json)) :=
  match refusal req ip with
  | some reply => .ok (.error reply)
  | none => do
      let body ← req.body
      let dps ← dictGet body "desired_power_state"
      let mode ← dictGet body "management_mode"
      if !(oneOf dps "RUNNING" "STOPPED_INTENTIONAL") then
        pure (.error (.error "desired_power_state must be RUNNING|STOPPED_INTENTIONAL" 400))
      else if !(oneOf mode "MANAGED" "UNMANAGED") then
        pure (.error (.error "management_mode must be MANAGED|UNMANAGED" 400))
      else pure (.ok (dps, mode))

def setDesiredState (cutover : Bool) (ip : String) (req : HostRequest) : Svc Reply :=
  match readChange ip req with
  | .error x => throw x
  | .ok (.error reply) => pure reply
  | .ok (.ok (dps, mode)) => do
      let row ← storeDesiredState cutover ip dps mode (changeDetail req dps mode)
      finishChange cutover dps row

def readDesired (ip : String) : Svc (Option String) := do
  if ← pg then
    closing (do
      let row ← execute (.desiredState ip)
      commit
      pure row)
  else throw (noneHasNo "close")

def recordPowerOff (cutover : Bool) (ip : String) (detail : String) : Svc Unit := do
  if cutover then
    let _ ← adapter (.insertEvent ip "intentional_power_off" detail)
    pure ()
  else if ← pg then
    closing (do
      let _ ← execute (.insertEvent ip "intentional_power_off" detail)
      commit)
  else throw (noneHasNo "close")

def powerOff (cutover : Bool) (ip : String) (req : HostRequest) : Svc Reply := do
  match refusal req ip with
  | some reply => pure reply
  | none =>
      let row ← readDesired ip
      if row != some "STOPPED_INTENTIONAL" then
        pure (.error "set desired state to STOPPED_INTENTIONAL before power-off" 409)
      else
        let ok ← vmPower ip .shutdown
        recordPowerOff cutover ip (dumps (.obj [("user", jsonUser req), ("ok", .bool ok)]))
        pure (.power (if ok then "ok" else "error"))

end ServerManager.HostsApi
