import ServerManager.JobRuns
import ServerManager.Replay

namespace ServerManager.JobOutcome

open Interaction PyJson Orm Effects Config ProxmoxVm Placement CloneHygiene SandboxNetwork
  Provisioning Storage Calls
open Frames JobCalls JobLedger JobRuns Replay

def cloned : Eff → Option (String × Int)
  | .pve (.clone _ _ v _ n) => some (n, v)
  | _ => none

/-- This VM was asked for, and no other. -/
def Made (n : String) (v : Int) (tr : PyTrace) : Prop :=
  (∃ ev ∈ tr, cloned ev.1 = some (n, v)) ∧ ∀ ev ∈ tr, ∀ m, cloned ev.1 = some m → m = (n, v)

/-- The guest agent of the VM has shown this address. -/
def Addressed (n : String) (v : Int) (ip : String) (tr : PyTrace) : Prop :=
  ∃ x, (⟨.pve (.interfaces n v), Except.ok x⟩ : Event Eff Ans) ∈ tr ∧ guestIp x = some ip

def Uncloned (tr : PyTrace) : Prop := ∀ ev ∈ tr, cloned ev.1 = none

theorem uncloned_append {a b : PyTrace} (ha : Uncloned a) (hb : Uncloned b) :
    Uncloned (a ++ b) := by
  intro ev hev
  rcases List.mem_append.mp hev with hev | hev
  · exact ha ev hev
  · exact hb ev hev

theorem uncloned_filing {tr : PyTrace} (h : ∀ ev ∈ tr, filing ev.1) : Uncloned tr := by
  intro ev hev
  have hf := h ev hev
  unfold cloned
  split
  next he => rw [he] at hf; exact False.elim hf
  · rfl

theorem clone_unique {a b a' b' : PyTrace} {x x' : Event Eff Ans} (h : a ++ x :: b = a' ++ x' :: b')
    (ha : Uncloned a) (hb : Uncloned b) (hx : cloned x'.1 ≠ none) : a = a' ∧ x = x' ∧ b = b' :=
  split_unique (P := fun ev => cloned ev.1 ≠ none) h (fun y hy => not_not.mpr (ha y hy))
    (fun y hy => not_not.mpr (hb y hy)) hx

theorem uncloned_snoc {past : PyTrace} {ev : Event Eff Ans} (h : Uncloned past)
    (he : cloned ev.1 = none) :
    Uncloned (past ++ [ev]) := by
  refine uncloned_append h fun x hx => ?_
  rw [List.mem_singleton.mp hx]
  exact he

theorem cloned_observes {e : Eff} (h : observes e) : cloned e = none := by
  unfold cloned
  split
  · exact False.elim h
  · rfl

theorem cloned_books {e : Eff} (h : books e) : cloned e = none := by
  unfold cloned
  split
  · exact False.elim h
  · rfl

theorem uncloned_allows (ns as : List String) :
    Allows (fun e => cloned e = none) (fun _ _ => True) ns as where
  aside _ he _ := cloned_observes he
  read _ he _ _ _ _ := cloned_observes he
  book _ he := cloned_books he
  step _ _ := ⟨rfl, rfl⟩
  event _ _ := rfl

def finalActions : List String := ["provision_complete", "provision_failed"]

/-- Calls of a job that settle nothing; they change `ownership_meta` as `F` allows. -/
inductive Interim (rid : Uuid) (F : (Dict → Dict) → Prop) : Eff → Prop
  | remote {e : Eff} : (∀ c, e ≠ .db c) → Interim rid F e
  | book {e : Eff} : books e → Interim rid F e
  | setStep (st : ProvisioningStep) : Interim rid F (.db (.setStep st))
  | addStep (st : ProvisioningStep) : Interim rid F (.db (.addStep st))
  | event {ev : RuntimeEvent} : ev.action ∉ finalActions → Interim rid F (.db (.addEvent ev))
  | others : Interim rid F (.db (.selectRuntimes (.others rid)))
  | note {f : Dict → Dict} : F f → Interim rid F (metaCall rid f)

inductive Moved (F : (Dict → Dict) → Prop) (x : Record) : Record → Prop
  | same : Moved F x x
  | steps (ss : List ProvisioningStep) : Moved F x
      { x with tables := { x.tables with steps := ss } }
  | event {ev : RuntimeEvent} : ev.action ∉ finalActions →
      Moved F x { x with tables := { x.tables with events := x.tables.events ++ [ev] } }
  | note {f : Dict → Dict} : F f →
      Moved F x { x with row := { x.row with ownershipMeta := f x.row.ownershipMeta } }

variable {jid rid : Uuid} {F : (Dict → Dict) → Prop} {L : Ledger} {bs : List BridgeRegistration}

theorem interim_moves {e : Eff} (he : Interim rid F e) : Moved F L.now (L.step jid rid e).now := by
  cases he with
  | remote hr =>
      rw [ledger_remote hr]
      exact .same
  | book hb =>
      unfold books at hb
      split at hb
      · exact .same
      · exact .same
      · exact .same
      · exact .same
      · exact False.elim hb
  | setStep st =>
      simp only [Ledger.step, adds, Tables.put]
      split
      · exact .steps _
      · exact .same
  | addStep st =>
      simp only [Ledger.step, adds, Tables.put]
      split
      · exact .steps _
      · exact .same
  | event hev =>
      simp only [Ledger.step, adds, Tables.put]
      split
      · exact .event hev
      · exact .same
  | others => exact .same
  | note hF => exact .note hF

theorem moved_note {key : String} {v : Json} (h : F (fun d => Dict.set d key v)) :
    Moved F L.now (L.step jid rid (noteCall rid key v)).now :=
  .note (f := fun d => Dict.set d key v) h

structure Unsettled (bs : List BridgeRegistration) (x : Record) : Prop where
  vm : x.row.node = none ∧ x.row.vmid = none
  bridges : x.tables.bridges = bs
  events : ∀ ev ∈ x.tables.events, ev.action ∉ finalActions

theorem Unsettled.moved {x y : Record} (h : Unsettled bs x) (hm : Moved F x y) :
    Unsettled bs y := by
  cases hm with
  | same => exact h
  | steps ss => exact ⟨h.vm, h.bridges, h.events⟩
  | note => exact ⟨h.vm, h.bridges, h.events⟩
  | event hev =>
      refine ⟨h.vm, h.bridges, fun ev hm => ?_⟩
      rcases List.mem_append.mp hm with hm | hm
      · exact h.events ev hm
      · rw [List.mem_singleton.mp hm]
        exact hev

/-- Permission to go on: interim calls, and no further clone. -/
def Quiet (rid : Uuid) (F : (Dict → Dict) → Prop) (e : Eff) : Prop :=
  Interim rid F e ∧ cloned e = none

theorem quiet_observes {e : Eff} (h : observes e) : Quiet rid F e := by
  refine ⟨.remote fun c hc => ?_, cloned_observes h⟩
  subst hc
  exact h

theorem quiet_allows (rid : Uuid) (F : (Dict → Dict) → Prop) (ns as : List String)
    (h : ∀ a ∈ as, a ∉ finalActions) :
    Allows (Quiet rid F) (fun _ _ => True) ns as where
  aside _ he _ := quiet_observes he
  read _ he _ _ _ _ := quiet_observes he
  book _ he := ⟨.book he, cloned_books he⟩
  step st _ := ⟨⟨.setStep st, rfl⟩, .addStep st, rfl⟩
  event _ he := ⟨.event (h _ he), rfl⟩

/-- What quiet calls keep: facts about the record that interim calls keep, and
facts about the trace that outlast calls which clone nothing. -/
structure Lasting (F : (Dict → Dict) → Prop) (I : Ledger × PyTrace → Prop) : Prop where
  keeps : ∀ {L : Ledger} {past : PyTrace} {L' : Ledger} {ev : Event Eff Ans}, I (L, past) →
    Moved F L.now L'.now →
    cloned ev.1 = none → I (L', past ++ [ev])

theorem Lasting.and {I J : Ledger × PyTrace → Prop} (hI : Lasting F I) (hJ : Lasting F J) :
    Lasting F (fun s => I s ∧ J s) :=
  ⟨fun h hm hc => ⟨hI.keeps h.1 hm hc, hJ.keeps h.2 hm hc⟩⟩

theorem lasting_unsettled : Lasting F (fun s => Unsettled bs s.1.now) := ⟨fun h hm _ => h.moved hm⟩

theorem Made.snoc {n : String} {v : Int} {past : PyTrace} {ev : Event Eff Ans} (h : Made n v past)
    (hc : cloned ev.1 = none) : Made n v (past ++ [ev]) := by
  refine ⟨?_, fun x hx m hm => ?_⟩
  · obtain ⟨x, hx, hm⟩ := h.1
    exact ⟨x, List.mem_append_left _ hx, hm⟩
  · rcases List.mem_append.mp hx with hx | hx
    · exact h.2 x hx m hm
    · rw [List.mem_singleton.mp hx, hc] at hm
      cases hm

theorem Addressed.snoc {n : String} {v : Int} {ip : String} {past : PyTrace}
    (h : Addressed n v ip past)
    (ev : Event Eff Ans) : Addressed n v ip (past ++ [ev]) := by
  obtain ⟨x, hx, hip⟩ := h
  exact ⟨x, List.mem_append_left _ hx, hip⟩

theorem lasting_made (n : String) (v : Int) : Lasting F (fun s => Made n v s.2) :=
  ⟨fun h _ hc => h.snoc hc⟩

theorem lasting_addressed (n : String) (v : Int) (ip : String) :
    Lasting F (fun s => Addressed n v ip s.2) :=
  ⟨fun h _ _ => h.snoc _⟩

theorem lasting_uncloned : Lasting F (fun s => Uncloned s.2) := ⟨fun h _ hc => uncloned_snoc h hc⟩

theorem setMeta_books {key : String} {v : Json} {past : PyTrace}
    {Q : Ledger × PyTrace → Unit → Prop}
    {X : Ledger × PyTrace → PyExc → Prop}
    (h : Q (L.step jid rid (noteCall rid key v), past ++ [⟨noteCall rid key v, ()⟩]) ()) :
    Sat (traced (booked jid rid)) (fun _ _ => True) Q X (setMeta rid key v) (L, past) :=
  (sat_booked _ _).mpr ⟨trivial, fun _ _ => h⟩

theorem quiet_note {key : String} {v : Json} (h : F (fun d => Dict.set d key v)) :
    Only (Quiet rid F) (setMeta rid key v) :=
  only_call ⟨.note (f := fun d => Dict.set d key v) h, rfl⟩ fun _ => only_ret _

theorem sat_quiet {α : Type} {p : Py α} {I : Ledger × PyTrace → Prop} {s : Ledger × PyTrace}
    (ho : Only (Quiet rid F) p)
    (hI : Lasting F I) (hs : I s) :
    Sat (traced (booked jid rid)) (fun _ _ => True) (fun s _ => I s) (fun s _ => I s) p s :=
  sat_kept jid rid ho (fun _ _ _ _ he hi => hI.keeps hi (interim_moves he.1) he.2) hs

section Stages

variable {s : Ledger × PyTrace}

/-- Nothing is settled, neither by a record nor by a clone. -/
def Unmade (s : Ledger × PyTrace) : Prop := Unsettled [] s.1.now ∧ Uncloned s.2

def Waiting (n : String) (v : Int) (s : Ledger × PyTrace) : Prop :=
  Unsettled [] s.1.now ∧ Made n v s.2

theorem lasting_unmade : Lasting F Unmade := lasting_unsettled.and lasting_uncloned

theorem lasting_waiting (n : String) (v : Int) : Lasting F (Waiting n v) :=
  lasting_unsettled.and (lasting_made n v)

theorem sat_stage {α : Type} {p : Py α} {I : Ledger × PyTrace → Prop} (ho : Only (Quiet rid F) p)
    (hI : Lasting F I)
    (hu : ∀ s, I s → Unsettled [] s.1.now) (hs : I s) :
    Sat (traced (booked jid rid)) (fun _ _ => True) (fun s _ => I s)
      (fun s _ => Unsettled [] s.1.now) p s :=
  (sat_quiet ho hI hs).mono (fun _ _ h => h) fun s _ h => hu s h

theorem takeClone_sat (runtime : AgentRuntime) (spec : VMSpec) (v : Int) (hs : Unmade s) :
    Sat (traced (booked jid rid)) (fun _ _ => True) (fun s x => Waiting spec.node x.1 s)
      (fun s _ => Unsettled [] s.1.now) (takeClone jid runtime spec v) s := by
  have hA := fun ns => quiet_allows rid (fun _ => True) ns ["vm_cloned"] (by simp [finalActions])
  obtain ⟨L, past⟩ := s
  unfold takeClone cloneTemplate
  refine Sat.seq (Q := fun s _ => Waiting spec.node v s) ?_ fun s _ hs => ?_
  · refine (sat_bind _ _ _).mpr ((sat_booked _ _).mpr ⟨trivial, fun a _ => (sat_orRaise a).mpr ?_⟩)
    have hmade : Made spec.node v (past ++ [⟨.pve (.clone spec.templateNode spec.templateVmid v
        (String.ofList (spec.name.toList.take 63)) spec.node), a⟩]) := by
      refine ⟨⟨_, List.mem_append_right _ (List.mem_singleton.mpr rfl), rfl⟩, fun x hx m hm => ?_⟩
      rcases List.mem_append.mp hx with hx | hx
      · rw [hs.2 x hx] at hm
        cases hm
      · rw [List.mem_singleton.mp hx] at hm
        exact (Option.some.inj hm).symm
    cases a with
    | ok x => exact ⟨hs.1, hmade⟩
    | error x => exact hs.1
  · have hI := lasting_waiting (F := fun _ => True) spec.node v
    refine Sat.seq (sat_stage (only_waitCloneLockRelease _ _ _ (hA []) trivial) hI (fun _ h => h.1)
      hs) fun s _ hs => ?_
    refine Sat.seq (sat_stage (only_event _ _ _ _ (hA [])) hI (fun _ h => h.1) hs) fun s _ hs => ?_
    exact Sat.seq (sat_stage (only_recordStep _ _ _ _ _ (hA _)) hI (fun _ h => h.1) hs)
      fun s _ hs => hs

theorem cloneVm_sat (runtime : AgentRuntime) (n tn : String) (tv : Int) (hs : Unmade s) :
    Sat (traced (booked jid rid)) (fun _ _ => True) (fun s x => Waiting n x.1 s)
      (fun s _ => Unsettled [] s.1.now)
      (cloneVm jid runtime n tn tv) s := by
  have hA := quiet_allows rid (fun _ => True) ["CLONING_VM"] [] (by simp)
  have hun := lasting_unmade (F := fun _ => True)
  rw [cloneVm_eq]
  refine Sat.seq (sat_stage (only_prepareClone _ _ _ _ _ hA trivial) hun (fun _ h => h.1) hs)
    fun s v hs => ?_
  exact takeClone_sat runtime (cloneSpec runtime n tn tv v) v hs

theorem waitForIpLoop_sat (n : String) (v : Int) (k : Nat) (past : PyTrace) :
    Sat log (fun _ _ => True) (fun s a => ∀ ip, a = some ip → Addressed n v ip s) (fun _ _ => True)
      (waitForIpLoop n v k) past := by
  induction k generalizing past with
  | zero => exact fun ip h => Option.noConfusion rfl (heq_of_eq h)
  | succ k ih =>
      refine Sat.seq (Q := fun s a => ∀ ip, a = some ip → Addressed n v ip s) ?_ fun s a hs => ?_
      · refine (sat_tryCatch _ _ _).mpr ((sat_bind _ _ _).mpr ((sat_pve _).mpr ⟨trivial, ?_⟩))
        rintro (x | x) s rfl
        · exact fun ip h => Option.noConfusion rfl (heq_of_eq h)
        · exact fun ip h => ⟨x, List.mem_append_right _ (List.mem_singleton.mpr rfl), h⟩
      · cases a with
        | some ip => exact hs
        | none => exact (sat_bind _ _ _).mpr ⟨trivial, fun _ s _ => ih s⟩

theorem waitForIp_sat (n : String) (v : Int) (k : Nat) (past : PyTrace) :
    Sat log (fun _ _ => True) (fun s a => ∀ ip, a = some ip → Addressed n v ip s) (fun _ _ => True)
      (waitForIp n v k) past :=
  (sat_bind _ _ _).mpr ⟨trivial, fun m s _ => waitForIpLoop_sat n v m s⟩

/-- What the row of a job says about a booted VM. -/
def Reached (n : String) (v : Int) (ip : String) (s : Ledger × PyTrace) : Prop :=
  Waiting n v s ∧ Addressed n v ip s.2 ∧ Dict.get? s.1.now.row.ownershipMeta "ip" = some (.str ip)

def Hygienic (d : Dict) : Prop :=
  ∃ fs, Dict.get? d "clone_hygiene" = some (.obj fs) ∧ Dict.get? fs "ok" = some (.bool true)

/-- The change leaves the address and the verdict of the gate. -/
def Spares (f : Dict → Dict) : Prop :=
  ∀ d, Dict.get? (f d) "ip" = Dict.get? d "ip" ∧
    Dict.get? (f d) "clone_hygiene" = Dict.get? d "clone_hygiene"

theorem spares_set {key : String} (h₁ : "ip" ≠ key) (h₂ : "clone_hygiene" ≠ key) (v : Json) :
    Spares (fun d => Dict.set d key v) := fun d =>
  ⟨Dict.get?_set_of_ne d v h₁, Dict.get?_set_of_ne d v h₂⟩

theorem lasting_meta (P : Option Json → Option Json → Prop) :
    Lasting Spares (fun s => P (Dict.get? s.1.now.row.ownershipMeta "ip")
      (Dict.get? s.1.now.row.ownershipMeta "clone_hygiene")) := by
  refine ⟨fun {L _ L' _} h hm _ => ?_⟩
  generalize L'.now = y at hm
  cases hm with
  | same | steps | event => exact h
  | @note f hf =>
      have hd := hf L.now.row.ownershipMeta
      rw [hd.1, hd.2]
      exact h

theorem lasting_reached (n : String) (v : Int) (ip : String) : Lasting Spares (Reached n v ip) :=
  (lasting_waiting n v).and ((lasting_addressed n v ip).and
    (lasting_meta fun x _ => x = some (.str ip)))

theorem lasting_hygienic : Lasting Spares (fun s => Hygienic s.1.now.row.ownershipMeta) :=
  lasting_meta fun _ y => ∃ fs, y = some (.obj fs) ∧ Dict.get? fs "ok" = some (.bool true)

theorem runCloneHygiene_sat (runtime : AgentRuntime) {n : String} {v : Int} {ip : String}
    (hk : runtime.runtimeId = rid)
    (hs : Reached n v ip s) :
    Sat (traced (booked jid rid)) (fun _ _ => True)
      (fun s _ => Reached n v ip s ∧ Hygienic s.1.now.row.ownershipMeta)
        (fun s _ => Unsettled [] s.1.now)
      (runCloneHygiene runtime n v ip) s := by
  subst hk
  have hA := quiet_allows runtime.runtimeId Spares [] ["clone_hygiene_failed"]
    (by simp [finalActions])
  have hI := lasting_reached n v ip
  have hu : ∀ s, Reached n v ip s → Unsettled [] s.1.now := fun _ h => h.1.1
  unfold runCloneHygiene
  refine Sat.seq (sat_stage (only_readVm _ _ hA trivial) hI hu hs) fun s cfg hs => ?_
  refine Sat.seq (sat_stage (only_net0Mac cfg) hI hu hs) fun s mac hs => ?_
  refine Sat.seq (sat_stage (only_guestMarker cfg) hI hu hs) fun s marker hs => ?_
  refine Sat.seq (sat_stage ?_ hI hu hs) fun s others hs => ?_
  · refine Only.bind (Only.bind (only_flush (hA.book _ trivial)) fun _ => ?_) fun _ => only_pure _
    exact only_call ⟨.others, rfl⟩ fun _ => only_ret _
  refine Sat.seq (sat_stage (only_dictGet _ _) hI hu hs) fun s guestId hs => ?_
  refine Sat.seq (sat_stage (Only.tryCatch (Only.bind
    (only_verifyCloneIdentity _ _ _ _ _ _ _ hA trivial) fun _ => only_pure _)
    fun e => Only.ite (only_pure _) (only_throw _)) hI hu hs) fun s report hs => ?_
  cases report with
  | ok checks =>
      refine Sat.seq (sat_stage (p := now) (only_call (hA.aside _ trivial rfl) fun _ => only_ret _)
        hI hu hs) fun s t hs => ?_
      obtain ⟨L, past⟩ := s
      refine setMeta_books ⟨⟨?_, ?_, ?_⟩, ?_⟩
      · exact (lasting_waiting (F := fun _ => True) n v).keeps hs.1 (moved_note trivial) rfl
      · exact hs.2.1.snoc _
      · exact (Dict.get?_set_of_ne _ _ (by decide)).trans hs.2.2
      · exact ⟨_, Dict.get?_set_self _ _ _, rfl⟩
  | error e =>
      have hU : Lasting (fun _ => True) (fun s => Unsettled [] s.1.now) := lasting_unsettled
      have hA' := quiet_allows runtime.runtimeId (fun _ => True) [] ["clone_hygiene_failed"]
        (by simp [finalActions])
      refine Sat.seq (sat_stage (quiet_note trivial) hU (fun _ h => h) hs.1.1) fun s _ hs => ?_
      exact Sat.seq (sat_stage (only_event _ _ _ _ hA') hU (fun _ h => h) hs) fun s _ hs => hs

theorem bootVm_sat (runtime : AgentRuntime) {n : String} {v : Int} (hk : runtime.runtimeId = rid)
    (hs : Waiting n v s) :
    Sat (traced (booked jid rid)) (fun _ _ => True)
      (fun s _ => ∃ ip, Reached n v ip s ∧ Hygienic s.1.now.row.ownershipMeta)
        (fun s _ => Unsettled [] s.1.now)
      (bootVm jid runtime n v) s := by
  have hA := fun ns => quiet_allows rid Spares ns [] (by simp)
  have hW := lasting_waiting (F := Spares) n v
  have hu : ∀ s, Waiting n v s → Unsettled [] s.1.now := fun _ h => h.1
  unfold bootVm
  refine Sat.seq (sat_stage (only_recordStep _ _ _ _ _ (hA _)) hW hu hs) fun s _ hs => ?_
  refine Sat.seq (sat_stage (Only.bind (only_pve ⟨.remote fun c hc => Eff.noConfusion hc, rfl⟩)
    fun _ => only_pure _) hW hu
    hs) fun s _ hs => ?_
  have hwait := ((waitForIp_sat n v 420 s.2).traced (T := booked jid rid) s.1).and
    (sat_stage (only_waitForIp n v 420 (hA []) trivial) hW hu hs)
  refine Sat.seq ((hwait.weaken fun _ _ _ => trivial).mono (fun _ _ h => h) fun _ _ h => h.2)
    fun s ip hs => ?_
  obtain ⟨hip, hw⟩ := hs
  cases hf : ip.filter (· != "") with
  | none => exact hw.1
  | some ip' =>
      have haddr := hip ip' (Option.filter_eq_some_iff.mp hf).1
      obtain ⟨L, past⟩ := s
      have hreach : Reached n v ip' (L.step jid rid (noteCall rid "ip" (.str ip')),
          past ++ [⟨noteCall rid "ip" (.str ip'), ()⟩]) := by
        refine ⟨?_, ?_, Dict.get?_set_self _ _ _⟩
        · exact (lasting_waiting (F := fun _ => True) n v).keeps hw (moved_note trivial) rfl
        · exact haddr.snoc _
      rw [hk]
      refine (sat_bind _ _ _).mpr (setMeta_books ?_)
      have hI := lasting_reached n v ip'
      have hu' : ∀ s, Reached n v ip' s → Unsettled [] s.1.now := fun _ h => h.1.1
      refine Sat.seq (sat_stage (only_recordStep _ _ _ _ _ (hA _)) hI hu' hreach) fun s _ hs => ?_
      refine Sat.seq (sat_stage (only_recordStep _ _ _ _ _ (hA _)) hI hu' hs) fun s _ hs => ?_
      refine Sat.seq (runCloneHygiene_sat runtime hk hs) fun s _ hs => ?_
      exact (sat_stage (only_recordStep _ _ _ _ _ (hA _)) (hI.and lasting_hygienic)
        (fun _ h => h.1.1.1) hs).mono
        (fun _ _ h => ⟨ip', h⟩) fun _ _ h => h

theorem provisionVm_sat (cfg : Settings) (runtime : AgentRuntime) (hk : runtime.runtimeId = rid)
    (hs : Unmade s) :
    Sat (traced (booked jid rid)) (fun _ _ => True)
      (fun s x => ∃ ip, Reached x.2 x.1 ip s ∧ Hygienic s.1.now.row.ownershipMeta)
        (fun s _ => Unsettled [] s.1.now)
      (provisionVm cfg jid runtime) s := by
  have hA := fun ns as => quiet_allows rid (fun _ => True) ns as
  have hun := lasting_unmade (F := fun _ => True)
  unfold provisionVm
  dsimp only
  refine Sat.seq (sat_stage (only_validate _ _ (hA _ [] (by simp))) hun (fun _ h => h.1) hs)
    fun s _ hs => ?_
  refine Sat.seq (sat_stage (only_placeVm _ _ _ (hA _ _ (by simp [finalActions]))) hun
    (fun _ h => h.1) hs) fun s n hs => ?_
  refine Sat.seq (cloneVm_sat runtime n _ _ hs) fun s x hs => ?_
  obtain ⟨v, spec⟩ := x
  have hW := lasting_waiting (F := fun _ => True) n v
  have hconf : Only (Quiet rid fun _ => True) (configureVm jid runtime spec v) := by
    refine only_configureVm _ _ _ _ (hA _ [] (by simp)) trivial
      (fun _ => ⟨.remote fun c hc => Eff.noConfusion hc, rfl⟩) ?_
    intro mac
    rw [hk]
    exact ⟨.note (f := fun d => Dict.set d "sandbox_mac" (.str mac)) trivial, rfl⟩
  refine Sat.seq (sat_stage hconf hW (fun _ h => h.1) hs) fun s om hs => ?_
  have hboot : ∀ s, Waiting n v s → Sat (traced (booked jid rid)) (fun _ _ => True)
      (fun s x => ∃ ip, Reached x.2 x.1 ip s ∧ Hygienic s.1.now.row.ownershipMeta)
        (fun s _ => Unsettled [] s.1.now)
      (do
        bootVm jid runtime n v
        pure (v, n)) s := fun s hs => Sat.seq (bootVm_sat runtime hk hs) fun s _ hs => hs
  split
  · have hres : Only (Quiet rid fun _ => True) (reserveSandbox cfg jid runtime om n v) := by
      refine only_reserveSandbox _ _ _ _ _ _ (hA _ _ (by simp [finalActions, reservationActions]))
        trivial
        (fun c => ⟨.remote fun c hc => Eff.noConfusion hc, rfl⟩) ?_
      intro x
      rw [hk]
      exact ⟨.note trivial, rfl⟩
    exact Sat.seq (sat_stage hres hW (fun _ h => h.1) hs) fun s _ hs => hboot s hs
  · exact hboot s hs

/-- What stands in the ledger once the bridge is registered. -/
def Registered (n : String) (v : Int) (ip : String) (bs : List BridgeRegistration)
    (s : Ledger × PyTrace) : Prop :=
  Unsettled bs s.1.now ∧ Made n v s.2 ∧ Addressed n v ip s.2 ∧
    Dict.get? s.1.now.row.ownershipMeta "ip" = some (.str ip) ∧ Hygienic s.1.now.row.ownershipMeta

theorem lasting_registered (n : String) (v : Int) (ip : String) :
    Lasting Spares (Registered n v ip bs) :=
  lasting_unsettled.and ((lasting_made n v).and ((lasting_addressed n v ip).and
    ((lasting_meta fun x _ => x = some (.str ip)).and lasting_hygienic)))

theorem sat_sure {p : Py Unit} {I : Ledger × PyTrace → Prop}
    (h : Sat (traced (booked jid rid)) (fun _ _ => True)
      (fun _ _ => True) (fun _ _ => False) p s) (ho : Only (Quiet rid F) p) (hI : Lasting F I) (hs : I s) :
    Sat (traced (booked jid rid)) (fun _ _ => True) (fun s _ => I s) (fun _ _ => False) p s :=
  ((h.and (sat_quiet ho hI hs)).weaken fun _ _ _ => trivial).mono (fun _ _ h => h.2) fun _ _ h =>
    h.1

theorem bootstrapHermes_sure (runtime : AgentRuntime) (hk : runtime.runtimeId = rid) :
    Sat (traced (booked jid rid)) (fun _ _ => True) (fun _ _ => True) (fun _ _ => False)
      (bootstrapHermes jid runtime) s := by
  have hstep : ∀ (seq : Nat) (step : String) (state : StepState) (detail : Option String) (s :
      Ledger × PyTrace),
      Sat (traced (booked jid rid)) (fun _ _ => True) (fun _ _ => True) (fun _ _ => False)
        (recordStep jid seq step state detail) s :=
          fun _ _ _ _ _ => recordStep_books _ _ _ _ fun _ _ => trivial
  have hcall : ∀ {α : Type} (e : Eff) (k : Ans e → Py α) (s : Ledger × PyTrace),
      (∀ a s, Sat (traced (booked jid rid)) (fun _ _ => True) (fun _ _ => True) (fun _ _ => False)
        (k a) s) →
      Sat (traced (booked jid rid)) (fun _ _ => True) (fun _ _ => True) (fun _ _ => False)
        (.call e k) s :=
    fun e k s h => ⟨trivial, fun a s' _ => h a s'⟩
  have hset : ∀ (key : String) (x : Json) (s : Ledger × PyTrace),
      Sat (traced (booked jid rid)) (fun _ _ => True)
      (fun _ _ => True) (fun _ _ => False) (setMeta rid key x) s :=
        fun key x s => hcall _ _ s fun _ _ => trivial
  unfold bootstrapHermes
  rw [hk]
  dsimp only
  refine Sat.seq (hstep _ _ _ _ s) fun s _ _ =>
    Sat.seq (hcall _ _ s fun _ _ => trivial) fun s token _ => ?_
  refine Sat.seq (hset _ _ s) fun s _ _ => Sat.seq (hset _ _ s) fun s _ _ => ?_
  refine Sat.seq (hstep _ _ _ _ s) fun s _ _ =>
    Sat.seq (hcall _ _ s fun _ _ => trivial) fun s t _ => ?_
  refine Sat.seq (hset _ _ s) fun s _ _ => Sat.seq (hcall _ _ s fun _ _ => trivial) fun s _ _ => ?_
  refine Sat.seq (hstep _ _ _ _ s) fun s _ _ => Sat.seq (hstep _ _ _ _ s) fun s _ _ => ?_
  exact Sat.seq (hcall _ _ s fun _ _ => trivial) fun s _ _ => hstep _ _ _ _ s

theorem bootstrapHermes_sat (runtime : AgentRuntime) {n : String} {v : Int} {ip : String}
    (hk : runtime.runtimeId = rid)
    (hs : Registered n v ip [] s) :
    Sat (traced (booked jid rid)) (fun _ _ => True) (fun s _ => ∃ b, Registered n v ip [b] s)
      (fun _ _ => False)
      (bootstrapHermes jid runtime) s := by
  have hA := fun ns => quiet_allows rid Spares ns [] (by simp)
  have hstep : ∀ {bs} (seq : Nat) (step : String) (state : StepState) (detail : Option String) (s :
      Ledger × PyTrace),
      Registered n v ip bs s → Sat (traced (booked jid rid)) (fun _ _ => True)
        (fun s _ => Registered n v ip bs s)
        (fun _ _ => False) (recordStep jid seq step state detail) s :=
          fun seq step state detail s hs =>
    sat_sure (recordStep_books _ _ _ _ fun _ _ => trivial) (only_recordStep _ _ _ _ _ (hA _))
      (lasting_registered n v ip) hs
  have hset : ∀ (key : String) (x : Json) (s : Ledger × PyTrace), "ip" ≠ key →
      "clone_hygiene" ≠ key →
      Registered n v ip [] s → Sat (traced (booked jid rid)) (fun _ _ => True)
        (fun s _ => Registered n v ip [] s)
        (fun _ _ => False) (setMeta rid key x) s := fun key x s h₁ h₂ hs =>
    sat_sure (setMeta_books trivial) (quiet_note (spares_set h₁ h₂ x)) (lasting_registered n v ip)
      hs
  unfold bootstrapHermes
  rw [hk]
  dsimp only
  refine Sat.seq (hstep _ _ _ _ s hs) fun s _ hs => ?_
  refine Sat.seq (Q := fun s _ => Registered n v ip [] s) ?_ fun s token hs => ?_
  · obtain ⟨L, past⟩ := s
    exact (sat_booked _ _).mpr ⟨trivial, fun a _ => (lasting_registered n v ip).keeps hs .same rfl⟩
  refine Sat.seq (hset _ _ s (by decide) (by decide) hs) fun s _ hs => ?_
  refine Sat.seq (hset _ _ s (by decide) (by decide) hs) fun s _ hs => ?_
  refine Sat.seq (hstep _ _ _ _ s hs) fun s _ hs => ?_
  refine Sat.seq (Q := fun s _ => Registered n v ip [] s) ?_ fun s t hs => ?_
  · obtain ⟨L, past⟩ := s
    exact (sat_booked _ _).mpr ⟨trivial, fun a _ => (lasting_registered n v ip).keeps hs .same rfl⟩
  refine Sat.seq (hset _ _ s (by decide) (by decide) hs) fun s _ hs => ?_
  refine Sat.seq (Q := fun s _ => ∃ b, Registered n v ip [b] s) ?_ fun s _ hs => ?_
  · obtain ⟨L, past⟩ := s
    refine (sat_booked _ _).mpr ⟨trivial, fun a _ => ?_⟩
    obtain ⟨hun, hmade, haddr, hip, hyg⟩ := hs
    refine ⟨⟨rid, runtime.acmsAgentId, bridgeCredential rid⟩, ⟨hun.vm, ?_, ?_⟩, ?_, ?_, hip, hyg⟩
    · have hb : L.now.tables.bridges = [] := hun.bridges
      simp [Ledger.step, adds, Tables.put, hb]
    · simpa only [Ledger.step, adds, Tables.put, if_true] using hun.events
    · exact hmade.snoc rfl
    · exact haddr.snoc _
  obtain ⟨b, hs⟩ := hs
  refine Sat.seq (hstep _ _ _ _ s hs) fun s _ hs => ?_
  refine Sat.seq (hstep _ _ _ _ s hs) fun s _ hs => ?_
  refine Sat.seq (Q := fun s _ => Registered n v ip [b] s) ?_ fun s _ hs => ?_
  · obtain ⟨L, past⟩ := s
    refine (sat_booked _ _).mpr ⟨trivial, fun a _ => ?_⟩
    obtain ⟨hun, hmade, haddr, hip, hyg⟩ := hs
    refine ⟨⟨hun.vm, hun.bridges, hun.events⟩, ?_, ?_, hip, hyg⟩
    · exact hmade.snoc rfl
    · exact haddr.snoc _
  exact (hstep _ _ _ _ s hs).mono (fun _ _ h => ⟨b, h⟩) fun _ _ h => h

/-- The record of a job that has gone through. -/
structure Completed (n : String) (v : Int) (ip : String) (x : Record) : Prop where
  job : x.job.state = .done
  running : x.row.actualState = .running
  vm : x.row.node = some n ∧ x.row.vmid = some v
  hygiene : Hygienic x.row.ownershipMeta
  address : Dict.get? x.row.ownershipMeta "ip" = some (.str ip)
  bridge : ∃ b, x.tables.bridges = [b]
  event : ∃ ev, x.tables.events.filter (fun ev => ev.action = "provision_complete") = [ev]

def Done (s : Ledger × PyTrace) : Prop :=
  ∃ n v ip x, s.1 = .settled x ∧ Completed n v ip x ∧ Made n v s.2 ∧ Addressed n v ip s.2

theorem final_filter {evs : List RuntimeEvent} {action : String}
    (h : ∀ ev ∈ evs, ev.action ∉ finalActions)
    (ha : action ∈ finalActions) : evs.filter (fun ev => ev.action = action) = [] := by
  refine List.filter_eq_nil_iff.mpr fun ev hev hd => h ev hev ?_
  rw [of_decide_eq_true hd]
  exact ha

theorem completeJob_sat (cfg : Settings) (runtime : AgentRuntime) (hk : runtime.runtimeId = rid)
    (hs : Unmade s) :
    Sat (traced (booked jid rid)) (fun _ _ => True) (fun s _ => Done s)
      (fun s _ => Unsettled [] s.1.now)
      (completeJob cfg jid runtime) s := by
  unfold completeJob
  refine Sat.seq (provisionVm_sat cfg runtime hk hs) fun s x hs => ?_
  obtain ⟨v, n⟩ := x
  obtain ⟨ip, ⟨⟨hun, hmade⟩, haddr, hip⟩, hyg⟩ := hs
  refine Sat.seq ((bootstrapHermes_sat runtime hk ⟨hun, hmade, haddr, hip, hyg⟩).mono
    (fun _ _ h => h)
    fun _ _ h => False.elim h) fun s _ hs => ?_
  obtain ⟨b, hun, hmade, haddr, hip, hyg⟩ := hs
  obtain ⟨L, past⟩ := s
  rw [hk]
  refine (sat_bind _ _ _).mpr ((sat_booked _ _).mpr ⟨trivial, fun _ _ => ?_⟩)
  refine (sat_bind _ _ _).mpr ((sat_booked _ _).mpr ⟨trivial, fun _ _ => ?_⟩)
  refine (sat_bind _ _ _).mpr ((sat_booked _ _).mpr ⟨trivial, fun _ _ => ?_⟩)
  refine commit_books fun seg hseg => ⟨n, v, ip, _, rfl,
    ⟨rfl, rfl, ⟨rfl, rfl⟩, hyg, hip, ⟨b, ?_⟩, ?_⟩, ?_, ?_⟩
  · simpa only [Ledger.step, adds, Tables.put, if_true] using hun.bridges
  · refine ⟨⟨rid, "arm", "provision_complete", "ok", [("vmid", .int v), ("node", .str n)]⟩, ?_⟩
    simp only [Ledger.step, adds, Tables.put, if_true, List.filter_append]
    rw [final_filter hun.events (by simp [finalActions])]
    simp
  · refine ⟨?_, fun ev hev m hm => ?_⟩
    · obtain ⟨x, hx, hc⟩ := hmade.1
      exact ⟨x, by simp [hx], hc⟩
    · simp only [List.mem_append, List.mem_singleton, or_assoc] at hev
      rcases hev with hev | rfl | rfl | rfl | hev
      · exact hmade.2 ev hev m hm
      · cases hm
      · cases hm
      · cases hm
      · rw [cloned_books (hseg ev hev)] at hm
        cases hm
  · obtain ⟨x, hx, hc⟩ := haddr
    exact ⟨x, by simp [hx], hc⟩

end Stages

variable {R : Type} {rem : Remote R} {i : Nat} {cfg : Settings} {req : ProvisionRequest}
  {requestedBy authority : String}
  {job : ProvisioningJob} {tr : PyTrace} {w' : World R} {q : Py Unit}

theorem submittedRow_blank (cfg : Settings) (req : ProvisionRequest) (rid : Uuid) (t t' : Time) :
    (submittedRow cfg req rid t t').runtimeId = rid ∧ (submittedRow cfg req rid t t').node = none ∧
      (submittedRow cfg req rid t t').vmid = none := by
  unfold submittedRow
  split
  · exact ⟨rfl, rfl, rfl⟩
  · exact ⟨rfl, rfl, rfl⟩

def templateNode (req : ProvisionRequest) (rid : Uuid) : String :=
  (templateOf (newRuntime req rid).templateSource).1

theorem templateNode_row (cfg : Settings) (req : ProvisionRequest) (rid : Uuid) (t t' : Time) :
    (templateOf (submittedRow cfg req rid t t').templateSource).1 = templateNode req rid := by
  unfold submittedRow
  split
  · rfl
  · rfl

theorem submitted_unmade (requestedBy authority : String) (t t' : Time) {pre : PyTrace}
    (hpre : ∀ ev ∈ pre, filing ev.1) :
    Unmade (.settled (submittedRecord cfg req requestedBy authority jid rid t t').begun, pre) := by
  refine ⟨⟨(submittedRow_blank cfg req rid t t').2, rfl, fun ev hev => ?_⟩, uncloned_filing hpre⟩
  rw [List.mem_singleton.mp hev]
  simp [submittedEvent, finalActions]

theorem jobRun_settled (hx : JobRun rem i cfg req requestedBy authority job tr w' q)
    (hq : ∀ e k, q ≠ .call e k)
    {Q : Uuid → Ledger × PyTrace → Prop} {X : Uuid → Ledger × PyTrace → PyExc → Prop}
    (h : ∀ jid rid t t' pre, (∀ ev ∈ pre, filing ev.1) →
      Sat (traced (booked jid rid)) (fun _ _ => True) (fun s _ => Q rid s) (X rid)
        (completeJob cfg jid (submittedRow cfg req rid t t'))
        (.settled (submittedRecord cfg req requestedBy authority jid rid t t').begun, pre)) :
    ∃ L, Reflects i job.jobId job.runtimeId w' L ∧
      Ended job.runtimeId (fun s => Done s ∧ Q job.runtimeId s)
      (fun s x => Unsettled [] s.1.now ∧ X job.runtimeId s x) (L, tr) := by
  have hend := jobRun_ended hx hq (Q := fun rid s => Done s ∧ Q rid s)
    (X := fun rid s x => Unsettled [] s.1.now ∧ X rid s x)
    fun jid rid t t' pre hpre => by
      have hboth := (completeJob_sat cfg _ (submittedRow_blank cfg req rid t t').1
        (submitted_unmade requestedBy authority t t' hpre)).and (h jid rid t t' pre hpre)
      exact hboth.weaken fun _ _ _ => trivial
  obtain ⟨-, rid, L, hjob, hL, he⟩ := hend
  have hrid : job.runtimeId = rid := by rw [hjob]; rfl
  rw [hrid]
  exact ⟨L, hL, he⟩

/-- Terminal coherence: a job that is run to its end is DONE or FAILED, and the
committed rows of its runtime are those of the outcome. -/
theorem job_terminal_coherence (hx : JobRun rem i cfg req requestedBy authority job tr w' q)
    (hq : ∀ e k, q ≠ .call e k) :
    q = .ret () ∧ ∃ j r, w'.db.job? job.jobId = some j ∧ w'.db.runtime? job.runtimeId = some r ∧
      ((j.state = .done ∧ r.actualState = .running ∧
          (∃ n v ip, r.node = some n ∧ r.vmid = some v ∧ Made n v tr ∧ Addressed n v ip tr ∧
            Dict.get? r.ownershipMeta "ip" = some (.str ip)) ∧
          Hygienic r.ownershipMeta ∧
          (∃ b, w'.db.bridges.filter (fun b => b.runtimeId = job.runtimeId) = [b]) ∧
          ∃ ev, (w'.db.events.filter (fun ev => ev.runtimeId = job.runtimeId)).filter
            (fun ev => ev.action = "provision_complete") = [ev]) ∨
        (j.state = .failed ∧ j.error ≠ none ∧ r.actualState = .error ∧ r.node = none ∧
          r.vmid = none ∧
          w'.db.bridges.filter (fun b => b.runtimeId = job.runtimeId) = [] ∧
          ∃ ev, (w'.db.events.filter (fun ev => ev.runtimeId = job.runtimeId)).filter
            (fun ev => ev.action = "provision_failed") = [ev])) := by
  have hend := jobRun_ended hx hq (Q := fun _ => Done) (X := fun _ s _ => Unsettled [] s.1.now)
    fun jid rid t t' pre hpre => completeJob_sat cfg _ (submittedRow_blank cfg req rid t t').1
      (submitted_unmade requestedBy authority t t' hpre)
  obtain ⟨rfl, rid, L, hjob, hL, he⟩ := hend
  have hrid : job.runtimeId = rid := by rw [hjob]; rfl
  rw [hrid]
  have hev : w'.db.events.filter (fun ev => ev.runtimeId = rid) = L.kept.tables.events :=
    congrArg Tables.events hL.tables
  have hbr : w'.db.bridges.filter (fun b => b.runtimeId = rid) = L.kept.tables.bridges :=
    congrArg Tables.bridges hL.tables
  refine ⟨rfl, L.kept.job, L.kept.row, hL.job, hL.row, ?_⟩
  rw [hev, hbr]
  rcases he with ⟨n, v, ip, x, hset, hc, hmade, haddr⟩ | ⟨L₀, past, x, seg, hun, hseg, hset⟩
  · have hkept : L.kept = x := congrArg Ledger.kept hset
    rw [hkept]
    exact .inl ⟨hc.job, hc.running, ⟨n, v, ip, hc.vm.1, hc.vm.2, hmade, haddr, hc.address⟩,
      hc.hygiene, hc.bridge,
      hc.event⟩
  · have hkept : L.kept = L₀.now.failed rid x := congrArg (fun s => Ledger.kept s.1) hset
    rw [hkept]
    refine .inr ⟨rfl, Option.some_ne_none _, rfl, hun.vm.1, hun.vm.2, hun.bridges,
      failedEvent rid x, ?_⟩
    simp only [Record.failed, List.filter_append]
    rw [final_filter hun.events (by simp [finalActions])]
    simp [failedEvent]

/-- A cluster of one node that does what it is asked; the guest of a clone
answers with one address and its marker is in place. -/
def oneNode : Oracle Unit where
  pve u c :=
    match c with
    | .nodes => some (.ok (.arr [.obj [("node", .str "miam00111"), ("status", .str "online")]]), u)
    | .nextid => some (.ok (.int 700), u)
    | .config _ 700 => some (.ok (.obj [("net0", .str "virtio=BC:24:11:AA:BB:CC,bridge=vmbr0"),
        ("description", .str "\x7b\"acms_agent_id\": \"agent-1\"\x7d")]), u)
    | .interfaces .. => some (.ok (.obj [("result", .arr [.obj [("ip-addresses", .arr [.obj
        [("ip-address-type", .str "ipv4"), ("ip-address", .str "10.0.20.31")]])]])]), u)
    | _ => some (.ok .null, u)
  kea _ _ := none
  neigh _ _ := none

/-- The cluster of `oneNode`, with other answers to some requests. -/
def oneNodeBut (answer : PveCall → Option (Except PyExc Json)) : Oracle Unit where
  pve u c :=
    match answer c with
    | some a => some (a, u)
    | none => oneNode.pve u c
  kea := oneNode.kea
  neigh := oneNode.neigh

def workerRequest : ProvisionRequest :=
  { acmsAgentId := "agent-1", requestId := "req-1", name := "worker-1" }

def blank : Machine Unit := ⟨{}, [{}], 0, [], ()⟩

theorem known_blank : Known (blank.world fun _ => ()) := fun _ _ => rfl

def workerRun : Option (ProvisioningJob × PyTrace × Machine Unit × Py Unit) :=
  rehearse oneNode {} workerRequest blank

theorem workerRun_coherent :
    ∃ job tr m, workerRun = some (job, tr, m, .ret ()) ∧ ∃ j r, m.db.job? job.jobId = some j ∧
      j.state = .done ∧
      m.db.runtime? job.runtimeId = some r ∧ r.actualState = .running ∧ Hygienic r.ownershipMeta ∧
      ∃ b, m.db.bridges.filter (fun b => b.runtimeId = job.runtimeId) = [b] := by
  have hdone : settles workerRun (fun job _ m => leaves .done job m) = true := by decide +kernel
  obtain ⟨job, tr, m, hrun, hm⟩ := settles_run hdone
  obtain ⟨j, hj, hst⟩ := leaves_state hm
  have hx := rehearse_run oneNode.follows_any hrun rfl known_blank
  obtain ⟨-, j', r, hj', hr, hout⟩ := job_terminal_coherence hx (Prog.ret_ne_call ())
  have hjj : j' = j := Option.some.inj (hj'.symm.trans hj)
  subst hjj
  refine ⟨job, tr, m, hrun, j', r, hj, hst, hr, ?_⟩
  rcases hout with ⟨-, hrun, -, hyg, hb, -⟩ | ⟨hf, -⟩
  · exact ⟨hrun, hyg, hb⟩
  · rw [hst] at hf
    cases hf

end ServerManager.JobOutcome
