import ServerManager.Api

namespace ServerManager.Calls

open Interaction PyJson Orm Effects Config ProxmoxVm SandboxNetwork Reconciliation Api

/-- Calls that change neither the database, nor a VM, nor Kea's table. -/
def observes : Eff → Prop
  | .pve .nodes | .pve .nextid | .pve (.config ..) | .pve (.status ..) | .pve (.storage _)
  | .pve (.interfaces ..) => True
  | .kea .searchReservation | .kea .searchLeases | .kea .searchSubnet => True
  | .sys .uuid4 => False
  | .sys _ => True
  | _ => False

def target : Eff → Option (String × Int)
  | .pve (.start n v) | .pve (.shutdown n v _) | .pve (.stop n v) | .pve (.destroy n v _) =>
      some (n, v)
  | _ => none

def destroys : Eff → Prop
  | .pve (.destroy ..) => True
  | _ => False

def loadsRow : Eff → Prop
  | .db (.getRuntime _) => True
  | _ => False

variable {φ : Eff → Prop}

theorem only_orRaise {α : Type} (x : Except PyExc α) : Only φ (orRaise x) := by
  cases x with
  | ok a => exact only_pure a
  | error e => exact only_throw e

theorem only_raised {α : Type} (cls : ExcClass) (msg : String) : Only φ (raised cls msg : Py α) :=
  only_throw _

theorem only_pve {c : PveCall} (h : φ (.pve c)) : Only φ (pve c) := only_call h only_orRaise

theorem only_dictGet (x : Json) (key : String) : Only φ (dictGet x key) := by
  cases x with
  | obj fs => exact only_pure _
  | null | bool | int | float | str | arr => exact only_raised _ _

theorem only_vmStatus (n : String) (v : Int) : Only observes (vmStatus n v) :=
  Only.tryCatch (Only.bind (only_pve trivial) fun _ => only_pure _) fun _ => only_pure _

theorem only_vmExists (n : String) (v : Int) : Only observes (vmExists n v) :=
  Only.tryCatch (Only.bind (only_pve trivial) fun _ => only_pure _) fun _ => only_pure _

theorem only_vmConfig (n : String) (v : Int) : Only observes (vmConfig n v) :=
  Only.tryCatch (Only.bind (only_pve trivial) fun _ => only_pure _) fun _ => only_pure _

theorem only_checkMarker (n : String) (v : Int) (r : AgentRuntime) (m : Json) :
    Only φ (checkMarker n v r m) := by
  unfold checkMarker
  split
  · refine Only.ite (only_raised _ _) (Only.ite (only_raised _ _) ?_)
    exact Only.ite (only_raised _ _) (only_pure _)
  · exact only_raised _ _

theorem only_verifyOwnership (protectedVmids : List Int) (n : String) (v : Int) (r : AgentRuntime) :
    Only observes (verifyOwnership protectedVmids n v r) := by
  unfold verifyOwnership
  refine Only.ite (only_raised _ _) ?_
  refine Only.bind (only_vmExists n v) fun found => ?_
  refine Only.ite (only_raised _ _) (Only.ite (only_raised _ _) ?_)
  refine Only.bind (only_vmConfig n v) fun cfg => Only.bind (only_dictGet cfg _) fun desc => ?_
  split
  · split
    · exact only_checkMarker n v r _
    · exact only_raised _ _
  · exact only_raised _ _

theorem only_pveVmState (node : Option String) (vmid : Option Int) :
    Only observes (pveVmState node vmid) := by
  unfold pveVmState
  split
  · refine Only.ite (only_pure _) (Only.tryCatch ?_ fun _ => only_pure _)
    exact Only.bind (only_vmStatus _ _) fun st => Only.bind (only_dictGet st _) fun _ => only_pure _
  · exact only_pure _

/-- The power state that the answer to a status read stands for. -/
def statusState : Except PyExc Json → Json
  | .ok (.obj fs) => ((Dict.get? fs "status").getD .null).orElse (.str "unknown")
  | _ => .str "unknown"

theorem pveVmState_eq {n : String} (hn : n ≠ "") (v : Int) :
    pveVmState (some n) (some v) =
      .call (.pve (.status n v)) (fun a : Except PyExc Json => .ret (statusState a)) := by
  simp only [pveVmState, hn, if_false]
  refine congrArg (Prog.call (Eff.pve (.status n v))) (funext fun a => ?_)
  rcases a with x | x
  · rfl
  · change tryCatch (do
        let status ← dictGet (x.orElse (.obj [])) "status"
        pure (status.orElse (.str "unknown"))) (fun _ => pure (.str "unknown")) = Prog.ret (statusState (.ok x))
    unfold Json.orElse
    split
    · cases x with
      | obj fs => rfl
      | null | bool | int | float | str | arr => rfl
    next hx =>
        cases x with
        | obj fs =>
            cases fs with
            | nil => rfl
            | cons f fs => exact absurd rfl hx
        | null | bool | int | float | str | arr => rfl

theorem isStr_truthy {x : Json} {t : String} (ht : t ≠ "") (h : x.isStr t = true) :
    x.truthy = true := by
  cases x with
  | str s =>
      have hs : s = t := by simpa [Json.isStr] using h
      simpa [Json.truthy, hs] using ht
  | null | bool | int | float | arr | obj => cases h

theorem isStr_orElse {x : Json} {t : String} (ht : t ≠ "") (hu : t ≠ "unknown") :
    (x.orElse (.str "unknown")).isStr t = x.isStr t := by
  unfold Json.orElse
  split
  · rfl
  next hx =>
      cases hs : x.isStr t with
      | true => exact absurd (isStr_truthy ht hs) hx
      | false => simpa [Json.isStr] using fun h => hu h.symm

theorem only_waitPveLoop (node : Option String) (vmid : Option Int) (expect : String) (n : Nat)
    (state : Json) :
    Only observes (waitPveLoop node vmid expect n state) := by
  induction n generalizing state with
  | zero => exact only_pure _
  | succ n ih =>
      refine Only.ite (only_pure _) (Only.bind (only_call trivial fun _ => only_ret _) fun _ => ?_)
      exact Only.bind (only_pveVmState node vmid) ih

theorem only_waitPveState (node : Option String) (vmid : Option Int) (expect : String)
    (maxS : Nat) :
    Only observes (waitPveState node vmid expect maxS) :=
  Only.bind (only_call trivial fun _ => only_ret _) fun n =>
    Only.bind (only_pveVmState node vmid) fun state => only_waitPveLoop node vmid expect n state

theorem only_verifyOwned (cfg : Settings) (r : AgentRuntime) :
    Only observes (verifyOwned cfg r) := by
  unfold verifyOwned
  split
  · exact only_verifyOwnership _ _ _ _
  · exact only_raised _ _

theorem only_flush (h : φ (.db .flush)) : Only φ flush := only_call h only_orRaise

theorem only_commit (hf : φ (.db .flush)) (hc : φ (.db .commit)) : Only φ commit :=
  Only.bind (only_flush hf) fun _ => only_call hc fun _ => only_ret _

theorem only_withSession {α : Type} {body : Py α} (hc : φ (.db .close)) (hb : Only φ body) :
    Only φ (withSession body) := by
  have hclose : Only φ close := only_call hc fun _ => only_ret _
  refine Only.bind (Only.tryCatch hb fun x => ?_) fun a => ?_
  · exact Only.bind hclose fun _ => only_throw x
  · exact Only.bind hclose fun _ => only_pure a

theorem only_audit (r : AgentRuntime) (action result : String) (detail : Dict)
    (h : φ (.db (.addEvent
      { runtimeId := r.runtimeId, actor := "arm-reconciler", action, result, detail }))) :
    Only φ (audit r action result detail) :=
  only_call h fun _ => only_ret _

theorem only_refusal (r : AgentRuntime) (x : PyExc)
    (h : ∀ ev : RuntimeEvent, ev.action = "reconcile_refused" ∨ ev.action = "reconcile_failed" →
      φ (.db (.addEvent ev))) : Only φ (refusal r x) := by
  unfold refusal
  dsimp only
  split
  · exact Only.bind (only_audit r _ _ _ (h _ (.inl rfl))) fun _ => only_pure _
  · exact Only.bind (only_audit r _ _ _ (h _ (.inr rfl))) fun _ => only_pure _

def bookkeeping (res : ReconcileResult) (t : Time) (r : AgentRuntime) : AgentRuntime :=
  { r with lastReconcileAt := some t, lastError := recordedError res r.lastError }

theorem only_record (rid : Uuid) (res : ReconcileResult) (hn : φ (.sys .now)) (hf : φ (.db .flush))
    (hm : ∀ t, φ (.db (.modify rid false (bookkeeping res t)))) : Only φ (record rid res) :=
  Only.bind (only_call hn fun _ => only_ret _) fun t =>
    Only.bind (only_call (hm t) fun _ => only_ret _) fun _ => only_flush hf

theorem only_newClient (cfg : Settings) : Only φ (newClient cfg) := by
  unfold newClient networkError
  exact Only.ite (only_raised _ _) (only_pure _)

theorem only_ipv4Address (parts : List (List Char)) : Only φ (ipv4Address parts) := by
  unfold ipv4Address
  split
  · exact only_pure _
  · exact only_raised _ _

theorem only_parsePoolRange (spec : String) : Only φ (parsePoolRange spec) := by
  unfold parsePoolRange networkError
  split
  · exact only_raised _ _
  · refine Only.bind (only_ipv4Address _) fun lo => Only.bind (only_ipv4Address _) fun hi => ?_
    exact Only.ite (only_raised _ _) (only_pure _)

theorem only_newService (cfg : Settings) : Only φ (newService cfg) :=
  Only.bind (only_newClient cfg) fun _ => Only.bind (only_parsePoolRange _) fun _ => only_pure _

theorem only_reconfigure (h : φ (.kea .reconfigure)) : Only φ reconfigure := by
  unfold reconfigure networkError
  refine Only.bind (only_call h only_orRaise) fun status => ?_
  exact Only.ite (only_pure _) (only_raised _ _)

theorem only_deleteReservation (u : String) (hd : φ (.kea (.delReservation u)))
    (hr : φ (.kea .reconfigure)) : Only φ (deleteReservation u) := by
  unfold deleteReservation networkError
  refine Only.bind (only_call hd only_orRaise) fun result => ?_
  exact Only.ite (only_reconfigure hr) (only_raised _ _)

theorem only_subnetUuid (cfg : Settings) (h : φ (.kea .searchSubnet)) :
    Only φ (subnetUuid cfg) := by
  unfold subnetUuid networkError
  refine Only.bind (only_call h only_orRaise) fun rows => ?_
  split
  · exact only_raised _ _
  · split
    · exact only_pure _
    · exact only_raised _ _
  · exact Only.ite (only_pure _) (only_raised _ _)

theorem only_createReservation (cfg : Settings) (ip mac hostname description : String)
    (hs : φ (.kea .searchSubnet)) (hr : φ (.kea .reconfigure))
    (ha : ∀ subnet, φ (.kea (.addReservation subnet ip (macNorm mac) hostname description))) :
    Only φ (createReservation cfg ip mac hostname description) := by
  unfold createReservation networkError
  refine Only.bind (only_subnetUuid cfg hs) fun subnet => ?_
  refine Only.bind (only_call (ha subnet) only_orRaise) fun answer => ?_
  dsimp only
  split
  · refine Only.ite (Only.bind (only_reconfigure hr) fun _ => only_pure _) (only_raised _ _)
  · exact only_raised _ _

theorem only_createFor (cfg : Settings) (ip mac hostname workUid agentName : String)
    (hs : φ (.kea .searchSubnet)) (hr : φ (.kea .reconfigure))
    (ha : ∀ subnet, φ (.kea (.addReservation subnet ip (macNorm mac) hostname
      (reservationText workUid agentName hostname)))) :
    Only φ (createFor cfg ip mac hostname workUid agentName) :=
  Only.bind (only_createReservation cfg ip mac hostname _ hs hr ha) fun _ => only_pure _

theorem only_reserveForMac (cfg : Settings) (ip mac hostname workUid agentName : String)
    (existing : Option String) (ht : φ (.kea .searchReservation)) (hs : φ (.kea .searchSubnet))
    (hr : φ (.kea .reconfigure)) (hd : ∀ u, existing = some u → φ (.kea (.delReservation u)))
    (ha : ∀ subnet, φ (.kea (.addReservation subnet ip (macNorm mac) hostname
      (reservationText workUid agentName hostname)))) :
    Only φ (reserveForMac cfg ip mac hostname workUid agentName existing) := by
  unfold reserveForMac networkError
  have hc := only_createFor cfg ip mac hostname workUid agentName hs hr ha
  refine Only.ite (only_raised _ _) ?_
  split
  next u hu =>
      have hd' := only_deleteReservation u (hd u (Option.filter_eq_some_iff.mp hu).1) hr
      refine Only.bind (only_call ht only_orRaise) fun rows => ?_
      split
      · exact Only.ite (only_pure _) (Only.bind hd' fun _ => hc)
      · exact Only.bind hd' fun _ => hc
  · exact hc

theorem only_verifyReserved (ip : String) (h : φ (.kea .searchReservation)) :
    Only φ (verifyReserved ip) := by
  unfold verifyReserved networkError
  refine Only.bind (only_call h only_orRaise) fun rows => ?_
  split
  · exact only_pure _
  · exact only_raised _ _

theorem only_release (ip : String) (hs : φ (.kea .searchReservation))
    (hd : ∀ u, φ (.kea (.delReservation u))) (hr : φ (.kea .reconfigure)) :
    Only φ (release ip) := by
  unfold release networkError
  refine Only.bind (only_call hs only_orRaise) fun rows => ?_
  split
  · exact only_pure _
  · refine Only.ite (only_raised _ _) ?_
    split
    · exact only_deleteReservation _ (hd _) hr
    · exact only_raised _ _

theorem only_releaseReservation (cfg : Settings) (rid : Uuid) (om : Dict) (actor : String)
    (hk : ∀ c, φ (.kea c)) (he : ∀ ev, φ (.db (.addEvent ev))) :
    Only φ (releaseReservation cfg rid om actor) := by
  unfold releaseReservation
  refine Only.ite (Only.tryCatch ?_ fun x => only_call (he _) fun _ => only_ret _) (only_pure _)
  refine Only.bind (only_newService cfg) fun _ => ?_
  exact Only.bind (only_release _ (hk _) (fun _ => hk _) (hk _)) fun _ => only_call (he _) fun _ =>
    only_ret _

end ServerManager.Calls
