import ServerManager.Calls

namespace ServerManager.JobCalls

open Interaction PyJson Orm Effects Config ProxmoxVm Placement CloneHygiene SandboxNetwork
  Provisioning Calls

def ledger : Eff → Prop
  | .db (.findStep ..) | .db (.setStep _) | .db (.addStep _) | .db (.addEvent _)
  | .db (.addBridge _)
  | .db .placedNodes | .db .flush | .db .commit => True
  | _ => False

def routine (e : Eff) : Prop := observes e ∨ ledger e

/-- The keys of `ownership_meta` that a job sets once the VM is up. -/
def noteKeys : List String :=
  ["ip", "clone_hygiene", "bridge_credential_id", "bridge_token_last4", "bridge_bootstrap"]

def bridgeKeys : List String := ["bridge_credential_id", "bridge_token_last4", "bridge_bootstrap"]

def metaCall (rid : Uuid) (f : Dict → Dict) : Eff :=
  .db (.modify rid true (fun r => { r with ownershipMeta := f r.ownershipMeta }))

def noteCall (rid : Uuid) (key : String) (v : Json) : Eff :=
  metaCall rid (fun d => Dict.set d key v)

variable {φ : Eff → Prop}

theorem only_mapM {α β : Type} {f : α → Py β} (h : ∀ a, Only φ (f a)) (as : List α) :
    Only φ (as.mapM f) := by
  have hl : ∀ bs, Only φ (List.mapM.loop f as bs) := by
    induction as with
    | nil => intro bs; exact only_pure _
    | cons a as ih => intro bs; exact Only.bind (h a) fun b => ih (b :: bs)
  exact hl []

theorem only_listOf (x : Json) : Only φ (listOf x) := by
  unfold listOf
  split
  · exact only_pure _
  · exact only_pure _
  · exact only_pure _
  · exact only_raised _ _

theorem only_pyInt (x : Json) : Only φ (pyInt x) := by
  unfold pyInt
  split
  · exact only_pure _
  · exact only_pure _
  · split
    · exact only_pure _
    · exact only_raised _ _
  · exact only_raised _ _

theorem only_activeIn (storage : String) (rows : List Json) : Only φ (activeIn storage rows) := by
  induction rows with
  | nil => exact only_pure _
  | cons s rows ih =>
      refine Only.bind (only_dictGet s _) fun name => Only.ite ?_ ih
      exact Only.bind (only_dictGet s _) fun _ => only_pure _

theorem only_net0Mac (cfg : Json) : Only φ (net0Mac cfg) := by
  refine Only.bind (only_dictGet cfg _) fun net0 => ?_
  split
  · exact only_pure _
  · exact only_raised _ _

theorem only_guestMarker (cfg : Json) : Only φ (guestMarker cfg) := by
  refine Only.bind (only_dictGet cfg _) fun desc => ?_
  split
  · exact only_pure _
  · exact only_pure _

theorem only_require (checks : List Check) (name : String) (passed : Bool) (detail : String) :
    Only φ (CloneHygiene.require checks name passed detail) :=
  Only.ite (only_pure _) (only_raised _ _)

/-- The VM whose configuration, state or addresses are read; the command in the
guest is run for a VMID, with no node. -/
def asks : Eff → Option (Option String × Int)
  | .pve (.config n v) | .pve (.status n v) | .pve (.interfaces n v) => some (some n, v)
  | .sys (.guestExec v) => some (none, v)
  | _ => none

def books : Eff → Prop
  | .db (.findStep ..) | .db .placedNodes | .db .flush | .db .commit => True
  | _ => False

/-- Permissions for the routine of a job: it reads the VMs of `V`, records the
steps named in `ns` and audits the actions listed in `as`. -/
structure Allows (φ : Eff → Prop) (V : Option String → Int → Prop) (ns as : List String) :
    Prop where
  aside : ∀ e, observes e → asks e = none → φ e
  read : ∀ e, observes e → ∀ n v, asks e = some (n, v) → V n v → φ e
  book : ∀ e, books e → φ e
  step : ∀ st : ProvisioningStep, st.step ∈ ns → φ (.db (.setStep st)) ∧ φ (.db (.addStep st))
  event : ∀ ev : RuntimeEvent, ev.action ∈ as → φ (.db (.addEvent ev))

section Allowed

variable {V : Option String → Int → Prop} {ns as : List String}

theorem Allows.sub {ns' as' : List String} (hA : Allows φ V ns as) (hn : ns' ⊆ ns) (ha : as' ⊆ as) :
    Allows φ V ns' as' :=
  ⟨hA.aside, hA.read, hA.book, fun st hs => hA.step st (hn hs), fun ev he => hA.event ev (ha he)⟩

theorem Allows.mono {ψ : Eff → Prop} (hA : Allows φ V ns as) (h : ∀ e, φ e → ψ e) :
    Allows ψ V ns as :=
  ⟨fun e he ha => h e (hA.aside e he ha), fun e he n v ha hv => h e (hA.read e he n v ha hv),
    fun e he => h e (hA.book e he), fun st hs => ⟨h _ (hA.step st hs).1, h _ (hA.step st hs).2⟩,
    fun ev he => h _ (hA.event ev he)⟩

theorem Allows.named {step : String} (hA : Allows φ V ns as) (h : step ∈ ns) :
    Allows φ V [step] as :=
  hA.sub (fun _ hx => List.mem_singleton.mp hx ▸ h) fun _ hx => hx

theorem Allows.acted {action : String} (hA : Allows φ V ns as) (h : action ∈ as) :
    Allows φ V ns [action] :=
  hA.sub (fun _ hx => hx) fun _ hx => List.mem_singleton.mp hx ▸ h

theorem only_event (rid : Uuid) (action result : String) (detail : Dict)
    (hA : Allows φ V ns [action]) :
    Only φ (event rid action result detail) :=
  only_call (hA.event _ (List.mem_singleton.mpr rfl)) fun _ => only_ret _

theorem only_recordStep (job : Uuid) (seq : Nat) (step : String) (state : StepState)
    (detail : Option String)
    (hA : Allows φ V [step] as) : Only φ (recordStep job seq step state detail) := by
  have hst := hA.step { jobId := job, seq, step, state, detail } (List.mem_singleton.mpr rfl)
  refine Only.bind (only_flush (hA.book _ trivial)) fun _ => ?_
  refine Only.bind (only_call (hA.book _ trivial) fun _ => only_ret _) fun found => ?_
  split
  · exact Only.bind (only_call hst.1 fun _ => only_ret _) fun _ =>
      only_commit (hA.book _ trivial) (hA.book _ trivial)
  · exact Only.bind (only_call hst.2 fun _ => only_ret _) fun _ =>
      only_commit (hA.book _ trivial) (hA.book _ trivial)

theorem only_validate (job : Uuid) (runtime : AgentRuntime)
    (hA : Allows φ V ["VALIDATING", "RESERVING"] as) :
    Only φ (validate job runtime) := by
  have hstep := fun seq step state detail (hs : step ∈ ["VALIDATING", "RESERVING"]) =>
    only_recordStep job seq step state detail (hA.named hs)
  refine Only.bind (hstep _ _ _ _ (by simp)) fun _ => Only.ite (only_raised _ _) ?_
  exact Only.bind (hstep _ _ _ _ (by simp)) fun _ => hstep _ _ _ _ (by simp)

theorem only_listNodes (hA : Allows φ V ns as) : Only φ listNodes := by
  refine Only.bind (only_pve (hA.aside _ trivial rfl)) fun data => ?_
  refine Only.bind (only_listOf _) fun rows => only_mapM (fun d => ?_) rows
  split
  · split
    · exact only_pure _
    · exact only_raised _ _
  · exact only_raised _ _

theorem only_selectNode (runtimeClass templateNode : String) (hA : Allows φ V ns as) :
    Only φ (selectNode runtimeClass templateNode) := by
  refine Only.bind (only_flush (hA.book _ trivial)) fun _ => ?_
  refine Only.bind (only_call (hA.book _ trivial) fun _ => only_ret _) fun total => ?_
  refine Only.bind (only_call (hA.book _ trivial) fun _ => only_ret _) fun inference => ?_
  refine Only.ite (only_pure _) (Only.bind ?_ fun nodes => ?_)
  · exact Only.bind (Only.tryCatch (only_listNodes hA) fun _ => only_pure _) fun _ => only_pure _
  · dsimp only
    split
    · exact only_pure _
    · exact only_pure _

theorem only_placeVm (job : Uuid) (runtime : AgentRuntime) (templateNode : String)
    (hA : Allows φ V ["PLACING"] ["placement_selected"]) :
    Only φ (placeVm job runtime templateNode) := by
  unfold placeVm
  refine Only.bind (only_recordStep _ _ _ _ _ hA) fun _ => ?_
  refine Only.bind (only_selectNode _ _ hA) fun decision => Only.ite ?_ ?_
  · exact Only.bind (only_recordStep _ _ _ _ _ hA) fun _ => only_raised _ _
  · refine Only.bind (only_event _ _ _ _ hA) fun _ => ?_
    exact Only.bind (only_recordStep _ _ _ _ _ hA) fun _ => only_pure _

theorem only_readVm (node : String) (vmid : Int) (hA : Allows φ V ns as) (hv : V (some node) vmid) :
    Only φ (vmConfig node vmid) :=
  Only.tryCatch (Only.bind (only_pve (hA.read _ trivial _ _ rfl hv)) fun _ => only_pure _) fun _ =>
    only_pure _

theorem only_templateStorage (spec : VMSpec) (hA : Allows φ V ns as)
    (hv : V (some spec.templateNode) spec.templateVmid) :
    Only φ (templateStorage spec) := by
  refine Only.bind (only_pve (hA.read _ trivial _ _ rfl hv)) fun cfg => ?_
  split
  · exact only_pure _
  · exact only_raised _ _

theorem only_storageActive (node storage : String) (hA : Allows φ V ns as) :
    Only φ (storageActive node storage) :=
  Only.bind (only_pve (hA.aside _ trivial rfl)) fun _ => Only.bind (only_listOf _) fun _ =>
    only_activeIn _ _

theorem only_sleep (n : Nat) (hA : Allows φ V ns as) : Only φ (sleep n) :=
  only_call (hA.aside _ trivial rfl) fun _ => only_ret _

theorem only_waitCloneLoop (node : String) (vmid : Int) (maxS n : Nat) (hA : Allows φ V ns as)
    (hv : V (some node) vmid) :
    Only φ (waitCloneLoop node vmid maxS n) := by
  induction n with
  | zero => exact only_raised _ _
  | succ n ih =>
      refine Only.bind (Only.tryCatch ?_ fun _ => only_pure _) fun cfg => ?_
      · exact Only.bind (only_pve (hA.read _ trivial _ _ rfl hv)) fun _ => only_pure _
      · split
        · refine Only.bind (only_dictGet _ _) fun lock => Only.ite ?_ (only_pure _)
          exact Only.bind (only_sleep 3 hA) fun _ => ih
        · exact Only.bind (only_sleep 3 hA) fun _ => ih

theorem only_waitCloneLockRelease (node : String) (vmid : Int) (maxS : Nat) (hA : Allows φ V ns as)
    (hv : V (some node) vmid) :
    Only φ (waitCloneLockRelease node vmid maxS) :=
  Only.bind (only_call (hA.aside _ trivial rfl) fun _ => only_ret _) fun n =>
    only_waitCloneLoop node vmid maxS n hA hv

theorem only_unlockedWithin (node : String) (vmid : Int) (n : Nat) (hA : Allows φ V ns as)
    (hv : V (some node) vmid) :
    Only φ (unlockedWithin node vmid n) := by
  induction n with
  | zero => exact only_raised _ _
  | succ n ih =>
      refine Only.bind (Only.tryCatch ?_ fun _ => only_pure _) fun cfg => ?_
      · exact Only.bind (only_pve (hA.read _ trivial _ _ rfl hv)) fun _ => only_pure _
      · refine Only.bind (only_dictGet _ _) fun lock => Only.ite ?_ (only_pure _)
        exact Only.bind (only_sleep 3 hA) fun _ => ih

theorem only_generateMac (hA : Allows φ V ns as) : Only φ generateMac := by
  have hr : Only φ (randbelow 256) := only_call (hA.aside _ trivial rfl) fun _ => only_ret _
  exact Only.bind hr fun _ => Only.bind hr fun _ => Only.bind hr fun _ => only_pure _

theorem only_sandboxMac (om : Dict) (node : String) (vmid : Int) (hA : Allows φ V ns as)
    (hv : V (some node) vmid) :
    Only φ (sandboxMac om node vmid) := by
  unfold sandboxMac
  split
  · exact Only.bind (only_readVm _ _ hA hv) fun cfg => only_net0Mac cfg
  · exact only_pure _

theorem only_aliveIps (ips : List String) (hA : Allows φ V ns as) : Only φ (aliveIps ips) := by
  induction ips with
  | nil => exact only_pure _
  | cons ip ips ih =>
      exact Only.bind (only_call (hA.aside _ trivial rfl) fun _ => only_ret _) fun out =>
        Only.bind ih fun _ => only_pure _

theorem only_aliveOr (alive : Option (List String)) (ips : List String) (hA : Allows φ V ns as) :
    Only φ (aliveOr alive ips) := by
  cases alive with
  | some known => exact only_pure _
  | none => exact only_aliveIps ips hA

theorem only_allocateLoop (p : Pool) (rows : List KeaRow) (leased : List String) (is : List Nat)
    (alive : Option (List String)) (hA : Allows φ V ns as) :
    Only φ (allocateLoop p rows leased is alive) := by
  induction is generalizing alive with
  | nil => exact only_raised _ _
  | cons i is ih =>
      rw [allocateLoop]
      split
      · refine Only.ite (ih alive) (Only.ite (ih alive) ?_)
        refine Only.bind (only_aliveOr _ _ hA) fun known => Only.ite (ih _) ?_
        split
        · exact only_pure _
        · exact only_raised _ _
      · refine Only.ite (ih alive) ?_
        exact Only.bind (only_aliveOr _ _ hA) fun known => Only.ite (ih _) (only_pure _)

theorem only_allocate (p : Pool) (hA : Allows φ V ns as) : Only φ (allocate p) := by
  refine Only.bind (only_call (hA.aside _ trivial rfl) only_orRaise) fun rows => ?_
  refine Only.bind (Only.bind (only_call (hA.aside _ trivial rfl) only_orRaise) fun _ =>
    only_pure _) fun leased => ?_
  exact only_allocateLoop p rows leased _ _ hA

theorem only_waitForIpLoop (node : String) (vmid : Int) (n : Nat) (hA : Allows φ V ns as)
    (hv : V (some node) vmid) :
    Only φ (waitForIpLoop node vmid n) := by
  induction n with
  | zero => exact only_pure _
  | succ n ih =>
      refine Only.bind (Only.tryCatch ?_ fun _ => only_pure _) fun ip => ?_
      · exact Only.bind (only_pve (hA.read _ trivial _ _ rfl hv)) fun _ => only_pure _
      · split
        · exact only_pure _
        · exact Only.bind (only_sleep 3 hA) fun _ => ih

theorem only_waitForIp (node : String) (vmid : Int) (maxS : Nat) (hA : Allows φ V ns as)
    (hv : V (some node) vmid) :
    Only φ (waitForIp node vmid maxS) :=
  Only.bind (only_call (hA.aside _ trivial rfl) fun _ => only_ret _) fun n =>
    only_waitForIpLoop node vmid n hA hv

theorem only_verifyAddress (checks : List Check) (vmid : Int) (ip : String) (others : List String)
    (hA : Allows φ V ns as) (hg : V none vmid) : Only φ (verifyAddress checks vmid ip others) := by
  refine Only.bind (only_call (hA.aside _ trivial rfl) only_orRaise) fun _ => ?_
  refine Only.bind (only_require _ _ _ _) fun _ => ?_
  refine Only.bind (Only.bind (only_call (hA.read _ trivial _ _ rfl hg) fun _ => only_ret _)
    fun _ => only_pure _) fun _ => ?_
  exact only_require _ _ _ _

theorem only_verifyCloneIdentity (vmid : Int) (hostname mac ip expected : String) (guest : Json)
    (others : List String) (hA : Allows φ V ns as) (hg : V none vmid) :
    Only φ (verifyCloneIdentity vmid hostname mac ip expected guest others) := by
  unfold verifyCloneIdentity
  refine Only.bind (only_require _ _ _ _) fun _ => Only.bind (only_require _ _ _ _) fun _ => ?_
  refine Only.bind (only_require _ _ _ _) fun checks => Only.ite ?_ ?_
  · exact Only.bind (only_verifyAddress _ _ _ _ hA hg) fun _ => only_require _ _ _ _
  · exact Only.bind (only_pure _) fun _ => only_require _ _ _ _

/-- What `cloneVm` makes of a new VMID. -/
def cloneSpec (runtime : AgentRuntime) (node templateNode : String) (templateVmid vmid : Int) :
    VMSpec :=
  { name := runtime.name, node, templateVmid, templateNode
    descriptionMeta := ownershipMarker runtime node vmid
      ((runtime.templateSource.filter (· != "")).getD "miam00111/qemu/121") }

def prepareClone (job : Uuid) (runtime : AgentRuntime) (node templateNode : String)
    (templateVmid : Int) : Py Int := do
  recordStep job 3 "CLONING_VM"
  let vmid ← nextVmid
  let tstore ← templateStorage (cloneSpec runtime node templateNode templateVmid vmid)
  let active ← if tstore = "" then pure true else storageActive node tstore
  if !active then
    raised .runtimeError
      s!"template storage '{tstore}' not active on placed node '{node}'; cross-node clone would fail (live-found constraint, plan §26)"
  else pure vmid

def takeClone (job : Uuid) (runtime : AgentRuntime) (spec : VMSpec) (vmid : Int) :
    Py (Int × VMSpec) := do
  cloneTemplate spec vmid
  waitCloneLockRelease spec.node vmid
  event runtime.runtimeId "vm_cloned" "ok"
    [("vmid", .int vmid), ("node", .str spec.node), ("template", .int spec.templateVmid)]
  recordStep job 3 "CLONING_VM" .done
  pure (vmid, spec)

theorem cloneVm_eq (job : Uuid) (runtime : AgentRuntime) (node templateNode : String)
    (templateVmid : Int) :
    cloneVm job runtime node templateNode templateVmid = (do
      let vmid ← prepareClone job runtime node templateNode templateVmid
      takeClone job runtime (cloneSpec runtime node templateNode templateVmid vmid) vmid) := by
  unfold cloneVm prepareClone
  rw [Prog.bind_assoc]
  congr 1
  funext _
  rw [Prog.bind_assoc]
  congr 1
  funext vmid
  dsimp only
  rw [Prog.bind_assoc]
  congr 1
  funext tstore
  split
  · rfl
  · rw [Prog.bind_assoc]
    congr 1
    funext active
    cases active with
    | true => rfl
    | false => rfl

theorem only_prepareClone (job : Uuid) (runtime : AgentRuntime) (node templateNode : String)
    (templateVmid : Int)
    (hA : Allows φ V ["CLONING_VM"] as) (ht : V (some templateNode) templateVmid) :
    Only φ (prepareClone job runtime node templateNode templateVmid) := by
  unfold prepareClone
  refine Only.bind (only_recordStep _ _ _ _ _ hA) fun _ => ?_
  refine Only.bind (Only.bind (only_pve (hA.aside _ trivial rfl)) fun x => only_pyInt x) fun vmid =>
    ?_
  refine Only.bind (only_templateStorage _ hA ht) fun tstore => ?_
  refine Only.ite (Only.bind (only_pure _) fun active => ?_)
    (Only.bind (only_storageActive _ _ hA) fun active => ?_)
  · exact Only.ite (only_raised _ _) (only_pure _)
  · exact Only.ite (only_raised _ _) (only_pure _)

theorem only_takeClone (job : Uuid) (runtime : AgentRuntime) (spec : VMSpec) (vmid : Int)
    (hA : Allows φ V ["CLONING_VM"] ["vm_cloned"]) (hv : V (some spec.node) vmid)
    (hc : ∀ name, φ (.pve (.clone spec.templateNode spec.templateVmid vmid name spec.node))) :
    Only φ (takeClone job runtime spec vmid) := by
  refine Only.bind (Only.bind (only_pve (hc _)) fun _ => only_pure _) fun _ => ?_
  refine Only.bind (only_waitCloneLockRelease _ _ _ hA hv) fun _ => ?_
  refine Only.bind (only_event _ _ _ _ hA) fun _ => ?_
  exact Only.bind (only_recordStep _ _ _ _ _ hA) fun _ => only_pure _

theorem only_cloneVm (job : Uuid) (runtime : AgentRuntime) (node templateNode : String)
    (templateVmid : Int)
    (hA : Allows φ V ["CLONING_VM"] ["vm_cloned"]) (ht : V (some templateNode) templateVmid)
    (hv : ∀ vmid, V (some node) vmid)
    (hc : ∀ newid name, φ (.pve (.clone templateNode templateVmid newid name node))) :
    Only φ (cloneVm job runtime node templateNode templateVmid) := by
  rw [cloneVm_eq]
  exact Only.bind (only_prepareClone _ _ _ _ _ hA ht) fun vmid =>
    only_takeClone _ _ _ _ hA (hv vmid) fun name => hc vmid name

theorem only_configureCloudInit (spec : VMSpec) (vmid : Int) (net0 : Option String) (retries : Nat)
    (hA : Allows φ V ns as) (hv : V (some spec.node) vmid)
    (hc : φ (.pve (.setConfig spec.templateNode vmid (configBody spec net0)))) :
    Only φ (configureCloudInit spec vmid net0 retries) :=
  Only.bind (only_unlockedWithin _ _ _ hA hv) fun _ => Only.bind (only_pve hc) fun _ => only_pure _

/-- What `configureVm` does after the first configuration. -/
def pinMac (job : Uuid) (runtime : AgentRuntime) (spec : VMSpec) (vmid : Int) : Py Dict := do
  if runtime.runtimeClass = "sandbox" then
    let mac ← generateMac
    let bridge := spec.bridge
    configureCloudInit spec vmid (some s!"virtio={mac},bridge={bridge}")
    setMeta runtime.runtimeId "sandbox_mac" (.str mac)
    recordStep job 4 "CONFIGURING_CLOUD_INIT" .done
    pure (Dict.set runtime.ownershipMeta "sandbox_mac" (.str mac))
  else
    configureCloudInit spec vmid
    recordStep job 4 "CONFIGURING_CLOUD_INIT" .done
    pure runtime.ownershipMeta

theorem configureVm_eq (job : Uuid) (runtime : AgentRuntime) (spec : VMSpec) (vmid : Int) :
    configureVm job runtime spec vmid = (do
      recordStep job 4 "CONFIGURING_CLOUD_INIT"
      configureCloudInit spec vmid
      pinMac job runtime spec vmid) := rfl

theorem only_pinMac (job : Uuid) (runtime : AgentRuntime) (spec : VMSpec) (vmid : Int)
    (hA : Allows φ V ["CONFIGURING_CLOUD_INIT"] as) (hv : V (some spec.node) vmid)
    (hc : ∀ net0, φ (.pve (.setConfig spec.templateNode vmid (configBody spec net0))))
    (hm : ∀ mac, φ (noteCall runtime.runtimeId "sandbox_mac" (.str mac))) :
    Only φ (pinMac job runtime spec vmid) := by
  unfold pinMac
  refine Only.ite ?_ ?_
  · refine Only.bind (only_generateMac hA) fun mac => ?_
    refine Only.bind (only_configureCloudInit _ _ _ _ hA hv (hc _)) fun _ => ?_
    refine Only.bind (only_call (hm mac) fun _ => only_ret _) fun _ => ?_
    exact Only.bind (only_recordStep _ _ _ _ _ hA) fun _ => only_pure _
  · refine Only.bind (only_configureCloudInit _ _ _ _ hA hv (hc _)) fun _ => ?_
    exact Only.bind (only_recordStep _ _ _ _ _ hA) fun _ => only_pure _

theorem only_configureVm (job : Uuid) (runtime : AgentRuntime) (spec : VMSpec) (vmid : Int)
    (hA : Allows φ V ["CONFIGURING_CLOUD_INIT"] as) (hv : V (some spec.node) vmid)
    (hc : ∀ net0, φ (.pve (.setConfig spec.templateNode vmid (configBody spec net0))))
    (hm : ∀ mac, φ (noteCall runtime.runtimeId "sandbox_mac" (.str mac))) :
    Only φ (configureVm job runtime spec vmid) := by
  rw [configureVm_eq]
  refine Only.bind (only_recordStep _ _ _ _ _ hA) fun _ => ?_
  exact Only.bind (only_configureCloudInit _ _ _ _ hA hv (hc _)) fun _ =>
    only_pinMac _ _ _ _ hA hv hc hm

theorem only_runCloneHygiene (runtime : AgentRuntime) (node : String) (vmid : Int) (ip : String)
    (hA : Allows φ V ns ["clone_hygiene_failed"]) (hv : V (some node) vmid) (hg : V none vmid)
    (hn : ∀ v, φ (noteCall runtime.runtimeId "clone_hygiene" v))
    (ho : φ (.db (.selectRuntimes (.others runtime.runtimeId)))) :
    Only φ (runCloneHygiene runtime node vmid ip) := by
  unfold runCloneHygiene
  refine Only.bind (only_readVm _ _ hA hv) fun cfg => ?_
  refine Only.bind (only_net0Mac cfg) fun mac => Only.bind (only_guestMarker cfg) fun marker => ?_
  refine Only.bind ?_ fun others => Only.bind (only_dictGet _ _) fun guestId => ?_
  · refine Only.bind (Only.bind (only_flush (hA.book _ trivial)) fun _ => ?_) fun _ => only_pure _
    exact only_call ho fun _ => only_ret _
  · refine Only.bind (Only.tryCatch ?_ fun e => Only.ite (only_pure _) (only_throw _)) fun report =>
      ?_
    · exact Only.bind (only_verifyCloneIdentity _ _ _ _ _ _ _ hA hg) fun _ => only_pure _
    · split
      · refine Only.bind (only_call (hA.aside _ trivial rfl) fun _ => only_ret _) fun t => ?_
        exact only_call (hn _) fun _ => only_ret _
      · refine Only.bind (only_call (hn _) fun _ => only_ret _) fun _ => ?_
        exact Only.bind (only_event _ _ _ _ hA) fun _ => only_raised _ _

theorem only_bootVm (job : Uuid) (runtime : AgentRuntime) (node : String) (vmid : Int)
    (hA : Allows φ V ["BOOTING", "HYGIENE_GATE"] ["clone_hygiene_failed"]) (hv : V (some node) vmid)
    (hg : V none vmid)
    (hs : φ (.pve (.start node vmid))) (hn : ∀ key ∈ noteKeys, ∀ v,
    φ (noteCall runtime.runtimeId key v))
    (ho : φ (.db (.selectRuntimes (.others runtime.runtimeId)))) :
    Only φ (bootVm job runtime node vmid) := by
  have hkey : "ip" ∈ noteKeys := by simp [noteKeys]
  have hstep := fun seq step state detail (hs : step ∈ ["BOOTING", "HYGIENE_GATE"]) =>
    only_recordStep job seq step state detail (hA.named hs)
  refine Only.bind (hstep _ _ _ _ (by simp)) fun _ => ?_
  refine Only.bind (Only.bind (only_pve hs) fun _ => only_pure _) fun _ => ?_
  refine Only.bind (only_waitForIp _ _ _ hA hv) fun ip => ?_
  split
  · exact only_raised _ _
  · refine Only.bind (only_call (hn _ hkey _) fun _ => only_ret _) fun _ => ?_
    refine Only.bind (hstep _ _ _ _ (by simp)) fun _ => Only.bind (hstep _ _ _ _ (by simp)) fun _ =>
      ?_
    exact Only.bind (only_runCloneHygiene _ _ _ _ hA hv hg (hn _ (by simp [noteKeys])) ho) fun _ =>
      hstep _ _ _ _ (by simp)

def stateColumns (agent : String) (r : AgentRuntime) : AgentRuntime :=
  { r with
    hermesStateRepo := some "startupteams/hermes-base-setup"
    hermesStateBranch := some (stateBranch agent)
    stateSyncHealth := some "PENDING" }

def bootstrapSteps : List String :=
  ["WAITING_GUEST", "INJECTING_BRIDGE_CONFIG", "HERMES_STATE_BRANCH"]

theorem only_bootstrapHermes (job : Uuid) (runtime : AgentRuntime)
    (hA : Allows φ V bootstrapSteps as)
    (hn : ∀ key ∈ bridgeKeys, ∀ v, φ (noteCall runtime.runtimeId key v))
    (hb : ∀ b : BridgeRegistration, b.runtimeId = runtime.runtimeId → φ (.db (.addBridge b)))
    (hm : φ (.db (.modify runtime.runtimeId false (stateColumns runtime.acmsAgentId)))) :
    Only φ (bootstrapHermes job runtime) := by
  have hset : ∀ key ∈ bridgeKeys, ∀ v, Only φ (setMeta runtime.runtimeId key v) :=
    fun key hk v => only_call (hn key hk v) fun _ => only_ret _
  have hstep := fun seq step state detail (hs : step ∈ bootstrapSteps) =>
    only_recordStep job seq step state detail (hA.named hs)
  unfold bootstrapHermes
  refine Only.bind (hstep _ _ _ _ (by simp [bootstrapSteps])) fun _ => ?_
  refine Only.bind (only_call (hA.aside _ trivial rfl) fun _ => only_ret _) fun token => ?_
  refine Only.bind (hset _ (by simp [bridgeKeys]) _) fun _ =>
    Only.bind (hset _ (by simp [bridgeKeys]) _) fun _ => ?_
  refine Only.bind (hstep _ _ _ _ (by simp [bootstrapSteps])) fun _ => ?_
  refine Only.bind (only_call (hA.aside _ trivial rfl) fun _ => only_ret _) fun t => ?_
  refine Only.bind (hset _ (by simp [bridgeKeys]) _) fun _ => ?_
  refine Only.bind (only_call (hb _ rfl) fun _ => only_ret _) fun _ => ?_
  refine Only.bind (hstep _ _ _ _ (by simp [bootstrapSteps])) fun _ => ?_
  refine Only.bind (hstep _ _ _ _ (by simp [bootstrapSteps])) fun _ => ?_
  exact Only.bind (only_call hm fun _ => only_ret _) fun _ =>
    hstep _ _ _ _ (by simp [bootstrapSteps])

def recordedReservation (x : ReservationRecord) (d : Dict) : Dict :=
  Dict.set (Dict.set (Dict.set d "sandbox_ip" (.str x.ip)) "sandbox_mac" (.str x.mac))
    "sandbox_reservation_uuid" (.str x.uuid)

theorem only_reserveAddress (cfg : Settings) (p : Pool) (runtime : AgentRuntime) (om : Dict)
    (vmid : Int)
    (mac : String) (hA : Allows φ V ns ["sandbox_reservation_created"]) (hk : ∀ c, φ (.kea c))
    (hm : ∀ x, φ (metaCall runtime.runtimeId (recordedReservation x))) :
    Only φ (reserveAddress cfg p runtime om vmid mac) := by
  unfold reserveAddress
  refine Only.bind (only_allocate p hA) fun x => ?_
  refine Only.bind (only_reserveForMac _ _ _ _ _ _ _ (hk _) (hk _) (hk _) (fun _ _ => hk _) fun _ =>
    hk _) fun rec_ => ?_
  refine Only.bind (only_verifyReserved _ (hk _)) fun _ => ?_
  refine Only.bind (only_call (hm rec_) fun _ => only_ret _) fun _ => ?_
  exact Only.bind (only_event _ _ _ _ hA) fun _ => only_pure _

def reservationActions : List String :=
  ["sandbox_reservation_created", "sandbox_reservation_failed"]

theorem only_reserveSandbox (cfg : Settings) (job : Uuid) (runtime : AgentRuntime) (om : Dict)
    (node : String)
    (vmid : Int) (hA : Allows φ V ["SANDBOX_DHCP_RESERVE"] reservationActions)
    (hv : V (some node) vmid)
    (hk : ∀ c, φ (.kea c)) (hm : ∀ x, φ (metaCall runtime.runtimeId (recordedReservation x))) :
    Only φ (reserveSandbox cfg job runtime om node vmid) := by
  have hstep :=
    fun seq state detail => only_recordStep job seq "SANDBOX_DHCP_RESERVE" state detail hA
  unfold reserveSandbox
  refine Only.bind (hstep _ _ _) fun _ => Only.bind (only_sandboxMac _ _ _ hA hv) fun mac =>
    Only.ite ?_ ?_
  · refine Only.bind (only_newService cfg) fun p => ?_
    have hr :=
      only_reserveAddress cfg p runtime om vmid mac (hA.acted (by simp [reservationActions])) hk hm
    refine Only.bind (Only.tryCatch hr fun e => ?_) fun ip => hstep _ _ _
    refine Only.ite ?_ (only_throw _)
    refine Only.bind (hstep _ _ _) fun _ => ?_
    exact Only.bind (only_event _ _ _ _ (hA.acted (by simp [reservationActions]))) fun _ =>
      only_raised _ _
  · exact Only.bind (hstep _ _ _) fun _ => only_raised _ _

/-- What `provisionVm` does with a configured clone. -/
def bringUp (cfg : Settings) (job : Uuid) (runtime : AgentRuntime) (node : String) (vmid : Int)
    (om : Dict) :
    Py (Int × String) := do
  if runtime.runtimeClass = "sandbox" then
    reserveSandbox cfg job runtime om node vmid
    bootVm job runtime node vmid
  else bootVm job runtime node vmid
  pure (vmid, node)

def deploy (cfg : Settings) (job : Uuid) (runtime : AgentRuntime) (node : String)
    (x : Int × VMSpec) :
    Py (Int × String) := do
  let om ← configureVm job runtime x.2 x.1
  bringUp cfg job runtime node x.1 om

theorem provisionVm_eq (cfg : Settings) (job : Uuid) (runtime : AgentRuntime) :
    provisionVm cfg job runtime = (do
      validate job runtime
      let node ← placeVm job runtime (templateOf runtime.templateSource).1
      let x ← cloneVm job runtime node (templateOf runtime.templateSource).1
          (templateOf runtime.templateSource).2
      deploy cfg job runtime node x) := rfl

def deploySteps : List String :=
  ["CONFIGURING_CLOUD_INIT", "SANDBOX_DHCP_RESERVE", "BOOTING", "HYGIENE_GATE"]

def deployActions : List String :=
  ["sandbox_reservation_created", "sandbox_reservation_failed", "clone_hygiene_failed"]

/-- Permissions for the calls by which a clone becomes a running guest. -/
structure Deploys (φ : Eff → Prop) (rid : Uuid) (spec : VMSpec) (node : String) (vmid : Int) :
    Prop where
  config : ∀ net0, φ (.pve (.setConfig spec.templateNode vmid (configBody spec net0)))
  start : φ (.pve (.start node vmid))
  kea : ∀ c, φ (.kea c)
  mac : ∀ mac, φ (noteCall rid "sandbox_mac" (.str mac))
  reserved : ∀ x, φ (metaCall rid (recordedReservation x))
  notes : ∀ key ∈ noteKeys, ∀ v, φ (noteCall rid key v)
  others : φ (.db (.selectRuntimes (.others rid)))

theorem only_bringUp (cfg : Settings) (job : Uuid) (runtime : AgentRuntime) {spec : VMSpec}
    {node : String} {vmid : Int}
    (om : Dict) (hA : Allows φ V deploySteps deployActions) (hv : V (some node) vmid)
    (hg : V none vmid)
    (hD : Deploys φ runtime.runtimeId spec node vmid) :
    Only φ (bringUp cfg job runtime node vmid om) := by
  have hboot : Only φ (bootVm job runtime node vmid) :=
    only_bootVm _ _ _ _ (hA.sub (by decide) (by decide)) hv hg hD.start hD.notes hD.others
  unfold bringUp
  refine Only.ite ?_ ?_
  · refine Only.bind (only_reserveSandbox _ _ _ _ _ _ (hA.sub (by decide) (by decide)) hv hD.kea
      hD.reserved) fun _ => ?_
    exact Only.bind hboot fun _ => only_pure _
  · exact Only.bind hboot fun _ => only_pure _

theorem only_deploy (cfg : Settings) (job : Uuid) (runtime : AgentRuntime) (node : String)
    (x : Int × VMSpec)
    (hA : Allows φ V deploySteps deployActions) (hs : V (some x.2.node) x.1)
    (hv : V (some node) x.1) (hg : V none x.1)
    (hD : Deploys φ runtime.runtimeId x.2 node x.1) : Only φ (deploy cfg job runtime node x) := by
  unfold deploy
  refine Only.bind (only_configureVm _ _ _ _ (hA.named (by decide)) hs hD.config hD.mac) fun om =>
    ?_
  exact only_bringUp cfg job runtime om hA hv hg hD

end Allowed

def placed (vmid : Int) (node : String) (r : AgentRuntime) : AgentRuntime :=
  { r with actualState := .running, vmid := some vmid, node := some node }

def markFailed (r : AgentRuntime) : AgentRuntime := { r with actualState := .error }

def jobDone (j : ProvisioningJob) : ProvisioningJob := { j with state := .done }

def jobFailed (error : String) (j : ProvisioningJob) : ProvisioningJob :=
  { j with state := .failed, error := some error }

/-- The calls of a running job with its own row and its own job. -/
inductive JobCall (jid rid : Uuid) : Eff → Prop
  | routine {e : Eff} : routine e → JobCall jid rid e
  | clone (tn : String) (tv newid : Int) (name node : String) :
      JobCall jid rid (.pve (.clone tn tv newid name node))
  | setConfig (n : String) (v : Int) (body : List (String × String)) :
      JobCall jid rid (.pve (.setConfig n v body))
  | start (n : String) (v : Int) : JobCall jid rid (.pve (.start n v))
  | kea (c : KeaCall) : JobCall jid rid (.kea c)
  | others : JobCall jid rid (.db (.selectRuntimes (.others rid)))
  | note (key : String) (v : Json) : key ∈ "sandbox_mac" :: noteKeys →
      JobCall jid rid (noteCall rid key v)
  | reserved (x : ReservationRecord) : JobCall jid rid (metaCall rid (recordedReservation x))
  | state (agent : String) : JobCall jid rid (.db (.modify rid false (stateColumns agent)))
  | placed (v : Int) (n : String) : JobCall jid rid (.db (.modify rid false (placed v n)))
  | done : JobCall jid rid (.db (.modifyJob jid jobDone))
  | failed (error : String) : JobCall jid rid (.db (.modifyJob jid (jobFailed error)))
  | error : JobCall jid rid (.db (.modify rid false markFailed))

section Job

variable (jid : Uuid) (runtime : AgentRuntime)

theorem job_notes {key : String} (h : key ∈ noteKeys) (v : Json) :
    JobCall jid runtime.runtimeId (noteCall runtime.runtimeId key v) :=
  .note key v (List.mem_cons_of_mem _ h)

theorem job_allows (ns as : List String) : Allows (JobCall jid runtime.runtimeId)
    (fun _ _ => True) ns as where
  aside _ he _ := .routine (.inl he)
  read _ he _ _ _ _ := .routine (.inl he)
  book e he := by
    refine .routine (.inr ?_)
    unfold books at he
    split at he
    · trivial
    · trivial
    · trivial
    · trivial
    · exact False.elim he
  step _ _ := ⟨.routine (.inr trivial), .routine (.inr trivial)⟩
  event _ _ := .routine (.inr trivial)

theorem job_deploys (spec : VMSpec) (node : String) (vmid : Int) :
    Deploys (JobCall jid runtime.runtimeId) runtime.runtimeId spec node vmid where
  config _ := .setConfig ..
  start := .start ..
  kea := .kea
  mac _ := .note _ _ List.mem_cons_self
  reserved := .reserved
  notes _ hk v := job_notes jid runtime hk v
  others := .others

theorem only_provisionVm (cfg : Settings) :
    Only (JobCall jid runtime.runtimeId) (provisionVm cfg jid runtime) := by
  have hA := job_allows jid runtime
  rw [provisionVm_eq]
  refine Only.bind (only_validate _ _ (hA _ [])) fun _ =>
    Only.bind (only_placeVm _ _ _ (hA _ _)) fun node => ?_
  refine Only.bind (only_cloneVm _ _ _ _ _ (hA _ _) trivial (fun _ => trivial) fun _ _ => .clone ..)
    fun x => ?_
  exact only_deploy _ _ _ _ _ (hA _ _) trivial trivial trivial (job_deploys jid runtime _ _ _)

theorem only_completeJob (cfg : Settings) :
    Only (JobCall jid runtime.runtimeId) (completeJob cfg jid runtime) := by
  have hA := job_allows jid runtime
  refine Only.bind (only_provisionVm jid runtime cfg) fun x => ?_
  refine Only.bind (only_bootstrapHermes _ _ (hA _ [])
    (fun _ hk v => job_notes jid runtime (List.mem_cons_of_mem _ (List.mem_cons_of_mem _ hk)) v)
    (fun _ _ => .routine (.inr trivial)) (.state _)) fun _ => ?_
  refine Only.bind (only_call (JobCall.placed _ _) fun _ => only_ret _) fun _ => ?_
  refine Only.bind (only_call JobCall.done fun _ => only_ret _) fun _ => ?_
  refine Only.bind (only_event _ _ _ _ (hA [] _)) fun _ => ?_
  exact only_commit ((hA [] []).book _ trivial) ((hA [] []).book _ trivial)

theorem only_failJob (x : PyExc) : Only (JobCall jid runtime.runtimeId)
    (failJob jid runtime.runtimeId x) := by
  have hA := job_allows jid runtime
  refine Only.bind (only_call (JobCall.failed _) fun _ => only_ret _) fun _ => ?_
  refine Only.bind (only_call JobCall.error fun _ => only_ret _) fun _ => ?_
  refine Only.bind (only_event _ _ _ _ (hA [] _)) fun _ => ?_
  exact only_commit ((hA [] []).book _ trivial) ((hA [] []).book _ trivial)

end Job

end ServerManager.JobCalls
