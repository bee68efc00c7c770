import ServerManager.JobCalls

namespace ServerManager.OwnRows

open Interaction PyJson Orm Effects Config ProxmoxVm Placement CloneHygiene SandboxNetwork
  Provisioning Calls JobCalls

def owned (jid rid : Uuid) : Eff → Prop
  | .db (.setStep st) | .db (.addStep st) => st.jobId = jid
  | .db (.addEvent ev) => ev.runtimeId = rid
  | .db (.addBridge b) => b.runtimeId = rid
  | .db (.modify k _ _) => k = rid
  | .db (.modifyJob k _) => k = jid
  | .db (.addRuntime _) | .db (.addJob _) => False
  | _ => True

variable (jid : Uuid) {rid : Uuid}

theorem owned_allows : Allows (owned jid rid) (fun _ _ => True) [] [] where
  aside e he _ := by
    unfold observes at he
    split at he
    all_goals first | exact trivial | exact False.elim he
  read e he _ _ _ _ := by
    unfold observes at he
    split at he
    all_goals first | exact trivial | exact False.elim he
  book e he := by
    unfold books at he
    split at he
    all_goals first | exact trivial | exact False.elim he
  step _ h := absurd h List.not_mem_nil
  event _ h := absurd h List.not_mem_nil

theorem own_flush : Only (owned jid rid) flush := only_flush trivial

theorem own_commit : Only (owned jid rid) commit := only_commit trivial trivial

theorem own_recordStep (seq : Nat) (step : String) (state : StepState) (detail : Option String) :
    Only (owned jid rid) (recordStep jid seq step state detail) := by
  refine Only.bind (own_flush jid) fun _ => Only.bind (only_call trivial fun _ => only_ret _)
    fun found => ?_
  cases found with
  | some st => exact Only.bind (only_call rfl fun _ => only_ret _) fun _ => own_commit jid
  | none => exact Only.bind (only_call rfl fun _ => only_ret _) fun _ => own_commit jid

theorem own_event (action result : String) (detail : Dict) :
    Only (owned jid rid) (event rid action result detail) :=
  only_call rfl fun _ => only_ret _

theorem own_setMeta (key : String) (v : Json) : Only (owned jid rid) (setMeta rid key v) :=
  only_call rfl fun _ => only_ret _

variable (runtime : AgentRuntime)

theorem own_validate : Only (owned jid rid) (validate jid runtime) := by
  refine Only.bind (own_recordStep ..) fun _ => Only.ite (only_raised _ _) ?_
  exact Only.bind (own_recordStep ..) fun _ => own_recordStep ..

theorem own_placeVm (templateNode : String) :
    Only (owned jid runtime.runtimeId) (placeVm jid runtime templateNode) := by
  refine Only.bind (own_recordStep ..) fun _ =>
    Only.bind (only_selectNode _ _ (owned_allows jid)) fun decision => ?_
  refine Only.ite ?_ ?_
  · exact Only.bind (own_recordStep ..) fun _ => only_raised _ _
  · exact Only.bind (own_event ..) fun _ => Only.bind (own_recordStep ..) fun _ => only_pure _

theorem own_prepareClone (node templateNode : String) (templateVmid : Int) :
    Only (owned jid runtime.runtimeId) (prepareClone jid runtime node templateNode
      templateVmid) := by
  have hA : Allows (owned jid runtime.runtimeId) (fun _ _ => True) [] [] := owned_allows jid
  unfold prepareClone
  refine Only.bind (own_recordStep ..) fun _ => ?_
  refine Only.bind (Only.bind (only_pve trivial) fun _ => only_pyInt _) fun vmid => ?_
  refine Only.bind (only_templateStorage _ hA trivial) fun tstore => ?_
  refine Only.ite (Only.bind (only_pure _) fun active => ?_)
    (Only.bind (only_storageActive _ _ hA) fun active => ?_)
  · exact Only.ite (only_raised _ _) (only_pure _)
  · exact Only.ite (only_raised _ _) (only_pure _)

theorem own_configureVm (spec : VMSpec) (vmid : Int) :
    Only (owned jid runtime.runtimeId) (configureVm jid runtime spec vmid) := by
  have hA : Allows (owned jid runtime.runtimeId) (fun _ _ => True) [] [] := owned_allows jid
  have hc := fun net0 => only_configureCloudInit spec vmid net0 3 hA trivial trivial
  rw [configureVm_eq]
  refine Only.bind (own_recordStep ..) fun _ => Only.bind (hc _) fun _ => ?_
  unfold pinMac
  refine Only.ite ?_ ?_
  · refine Only.bind (only_generateMac hA) fun mac => Only.bind (hc _) fun _ => ?_
    exact Only.bind (own_setMeta ..) fun _ => Only.bind (own_recordStep ..) fun _ => only_pure _
  · exact Only.bind (hc _) fun _ => Only.bind (own_recordStep ..) fun _ => only_pure _

theorem own_reserveSandbox (cfg : Settings) (om : Dict) (node : String) (vmid : Int) :
    Only (owned jid runtime.runtimeId) (reserveSandbox cfg jid runtime om node vmid) := by
  have hA : Allows (owned jid runtime.runtimeId) (fun _ _ => True) [] [] := owned_allows jid
  unfold reserveSandbox
  refine Only.bind (own_recordStep ..) fun _ =>
    Only.bind (only_sandboxMac _ _ _ hA trivial) fun mac => Only.ite ?_ ?_
  · refine Only.bind (only_newService cfg) fun p =>
      Only.bind (Only.tryCatch ?_ fun e => ?_) fun ip => own_recordStep ..
    · unfold reserveAddress
      refine Only.bind (only_allocate p hA) fun x => ?_
      refine Only.bind (only_reserveForMac _ _ _ _ _ _ _ trivial trivial trivial
        (fun _ _ => trivial) fun _ => trivial)
        fun rec_ => ?_
      refine Only.bind (only_verifyReserved _ trivial) fun _ => ?_
      refine Only.bind (only_call rfl fun _ => only_ret _) fun _ => ?_
      exact Only.bind (own_event ..) fun _ => only_pure _
    · refine Only.ite (Only.bind (own_recordStep ..) fun _ => ?_) (only_throw _)
      exact Only.bind (own_event ..) fun _ => only_raised _ _
  · exact Only.bind (own_recordStep ..) fun _ => only_raised _ _

theorem own_runCloneHygiene (node : String) (vmid : Int) (ip : String) :
    Only (owned jid runtime.runtimeId) (runCloneHygiene runtime node vmid ip) := by
  have hA : Allows (owned jid runtime.runtimeId) (fun _ _ => True) [] [] := owned_allows jid
  unfold runCloneHygiene
  refine Only.bind (only_readVm _ _ hA trivial) fun cfg => ?_
  refine Only.bind (only_net0Mac cfg) fun mac => Only.bind (only_guestMarker cfg) fun marker => ?_
  refine Only.bind (Only.bind (Only.bind (own_flush jid) fun _ => only_call trivial fun _ =>
    only_ret _) fun _ => only_pure _)
    fun others => Only.bind (only_dictGet _ _) fun guestId => ?_
  refine Only.bind (Only.tryCatch ?_ fun e => Only.ite (only_pure _) (only_throw _)) fun report =>
    ?_
  · exact Only.bind (only_verifyCloneIdentity _ _ _ _ _ _ _ hA trivial) fun _ => only_pure _
  · cases report with
    | ok checks => exact Only.bind (only_call trivial fun _ => only_ret _) fun t => own_setMeta ..
    | error e =>
        exact Only.bind (own_setMeta ..) fun _ => Only.bind (own_event ..) fun _ => only_raised _ _

theorem own_bootVm (node : String) (vmid : Int) :
    Only (owned jid runtime.runtimeId) (bootVm jid runtime node vmid) := by
  have hA : Allows (owned jid runtime.runtimeId) (fun _ _ => True) [] [] := owned_allows jid
  refine Only.bind (own_recordStep ..) fun _ =>
    Only.bind (Only.bind (only_pve trivial) fun _ => only_pure _) fun _ => ?_
  refine Only.bind (only_waitForIp _ _ _ hA trivial) fun ip => ?_
  split
  · exact only_raised _ _
  · refine Only.bind (own_setMeta ..) fun _ => ?_
    refine Only.bind (own_recordStep ..) fun _ => Only.bind (own_recordStep ..) fun _ => ?_
    exact Only.bind (own_runCloneHygiene ..) fun _ => own_recordStep ..

theorem own_deploy (cfg : Settings) (node : String) (x : Int × VMSpec) :
    Only (owned jid runtime.runtimeId) (deploy cfg jid runtime node x) := by
  refine Only.bind (own_configureVm ..) fun om => Only.ite ?_ ?_
  · refine Only.bind (own_reserveSandbox ..) fun _ => ?_
    exact Only.bind (own_bootVm ..) fun _ => only_pure _
  · exact Only.bind (own_bootVm ..) fun _ => only_pure _

theorem own_bootstrapHermes : Only (owned jid runtime.runtimeId) (bootstrapHermes jid runtime) := by
  unfold bootstrapHermes
  refine Only.bind (own_recordStep ..) fun _ =>
    Only.bind (only_call trivial fun _ => only_ret _) fun token => ?_
  refine Only.bind (own_setMeta ..) fun _ => Only.bind (own_setMeta ..) fun _ =>
    Only.bind (own_recordStep ..) fun _ => ?_
  refine Only.bind (only_call trivial fun _ => only_ret _) fun t =>
    Only.bind (own_setMeta ..) fun _ => ?_
  refine Only.bind (only_call rfl fun _ => only_ret _) fun _ => ?_
  refine Only.bind (own_recordStep ..) fun _ => Only.bind (own_recordStep ..) fun _ => ?_
  exact Only.bind (only_call rfl fun _ => only_ret _) fun _ => own_recordStep ..

end ServerManager.OwnRows
