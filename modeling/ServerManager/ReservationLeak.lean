import ServerManager.JobOutcome
import ServerManager.SandboxBoot
import ServerManager.Api

namespace ServerManager.ReservationLeak

open Interaction PyJson Orm Effects Config ProxmoxVm SandboxNetwork Provisioning Storage Calls Api
  Kea
open Sessions Frames JobCalls JobLedger JobRuns JobOutcome Replay

def adds : Eff → Prop
  | .kea (.addReservation ..) => True
  | _ => False

def dels : Eff → Prop
  | .kea (.delReservation _) => True
  | _ => False

/-- The event shows that Kea has the reservation. -/
inductive Shown (u : String) : Event Eff Ans → Prop
  | added (subnet ip hw hostname description : String) :
      Shown u ⟨.kea (.addReservation subnet ip hw hostname description),
        Except.ok (some "saved", some u)⟩
  | listed {rows : List KeaRow} {r : KeaRow} : r ∈ rows → r.uuid = some u →
      Shown u ⟨.kea .searchReservation, Except.ok rows⟩

/-- Kea has shown the reservation, and nothing was deleted since. -/
def Secured (u : String) (tr : PyTrace) : Prop :=
  ∃ before ev after, tr = before ++ ev :: after ∧ Shown u ev ∧ ∀ y ∈ after, ¬ dels y.1

def AddsLast (tr : PyTrace) : Prop := tr.Pairwise fun x y => adds x.1 → ¬ dels y.1

variable {u : String} {tr : PyTrace}

theorem Secured.append {seg : PyTrace} (h : Secured u tr) (hs : ∀ y ∈ seg, ¬ dels y.1) :
    Secured u (tr ++ seg) := by
  obtain ⟨before, ev, after, rfl, hev, ha⟩ := h
  refine ⟨before, ev, after ++ seg, by simp, hev, fun y hy => ?_⟩
  rcases List.mem_append.mp hy with hy | hy
  · exact ha y hy
  · exact hs y hy

theorem AddsLast.append {seg : PyTrace} (h : AddsLast tr) (hs : ∀ y ∈ seg, ¬ dels y.1) :
    AddsLast (tr ++ seg) := by
  refine List.pairwise_append.mpr ⟨h, ?_, fun _ _ y hy _ => hs y hy⟩
  exact List.Pairwise.imp_of_mem (R := fun _ _ => True) (fun _ hy _ _ => hs _ hy)
    (List.pairwise_of_forall fun _ _ => trivial)

theorem addsLast_of_none (h : ∀ y ∈ tr, ¬ adds y.1) : AddsLast tr :=
  List.Pairwise.imp_of_mem (R := fun _ _ => True) (fun hx _ _ ha => absurd ha (h _ hx))
    (List.pairwise_of_forall fun _ _ => trivial)

theorem AddsLast.secured {subnet ip hw hostname description : String} (h : AddsLast tr)
    (hm : (⟨.kea (.addReservation subnet ip hw hostname description),
    Except.ok (some "saved", some u)⟩ : Event Eff Ans) ∈ tr) :
    Secured u tr := by
  obtain ⟨before, after, rfl⟩ := List.append_of_mem hm
  obtain ⟨-, hafter, -⟩ := List.pairwise_append.mp h
  exact ⟨before, _, after, rfl, .added subnet ip hw hostname description,
    fun y hy => (List.pairwise_cons.mp hafter).1 y hy trivial⟩

theorem dels_db {c : DbCall} : ¬ dels (.db c) := fun h => h

theorem adds_db {c : DbCall} : ¬ adds (.db c) := fun h => h

theorem calm_observes {e : Eff} (h : observes e) : ¬ adds e ∧ ¬ dels e := by
  constructor
  · intro ha
    unfold adds at ha
    split at ha
    · exact h
    · exact ha
  · intro hd
    unfold dels at hd
    split at hd
    · exact h
    · exact hd

theorem calm_books {e : Eff} (h : books e) : ¬ adds e ∧ ¬ dels e := by
  cases e with
  | db c => exact ⟨adds_db, dels_db⟩
  | pve | kea | sys => exact False.elim h

theorem calm_filing {e : Eff} (h : filing e) : ¬ adds e ∧ ¬ dels e := by
  cases e with
  | db c => exact ⟨adds_db, dels_db⟩
  | pve | kea | sys => exact False.elim h

def uuidOf (L : Ledger) : Option Json :=
  Dict.get? L.now.row.ownershipMeta "sandbox_reservation_uuid"

def sparesUuid (jid rid : Uuid) (e : Eff) : Prop :=
  ∀ L : Ledger, uuidOf (L.step jid rid e) = uuidOf L

variable {jid rid : Uuid}

theorem sparesUuid_remote {e : Eff} (h : ∀ c, e ≠ .db c) : sparesUuid jid rid e := fun L => by
  rw [ledger_remote h]

theorem sparesUuid_note {key : String} (h : "sandbox_reservation_uuid" ≠ key) (v : Json) :
    sparesUuid jid rid (noteCall rid key v) := fun _ => Dict.get?_set_of_ne _ _ h

/-- No reservation is made or deleted, and the row keeps its uuid. -/
def calm (jid rid : Uuid) (e : Eff) : Prop := (¬ adds e ∧ ¬ dels e) ∧ sparesUuid jid rid e

theorem calm_allows (jid rid : Uuid) (ns as : List String) :
    Allows (calm jid rid) (fun _ _ => True) ns as where
  aside _ he _ := ⟨calm_observes he, sparesUuid_remote fun c hc => by subst hc; exact he⟩
  read _ he _ _ _ _ := ⟨calm_observes he, sparesUuid_remote fun c hc => by subst hc; exact he⟩
  book e he := by
    refine ⟨calm_books he, fun L => ?_⟩
    unfold books at he
    split at he
    · rfl
    · rfl
    · rfl
    · rfl
    · exact False.elim he
  step _ _ := ⟨⟨⟨adds_db, dels_db⟩, fun _ => rfl⟩, ⟨adds_db, dels_db⟩, fun _ => rfl⟩
  event _ _ := ⟨⟨adds_db, dels_db⟩, fun _ => rfl⟩

theorem calm_pve {c : PveCall} : calm jid rid (.pve c) :=
  ⟨⟨fun h => h, fun h => h⟩, sparesUuid_remote fun _ h => Eff.noConfusion h⟩

theorem calm_search {c : KeaCall} (h : observes (.kea c)) : calm jid rid (.kea c) :=
  ⟨calm_observes h, sparesUuid_remote fun _ h => Eff.noConfusion h⟩

theorem calm_note {key : String} (h : "sandbox_reservation_uuid" ≠ key) (v : Json) :
    calm jid rid (noteCall rid key v) := ⟨⟨adds_db, dels_db⟩, sparesUuid_note h v⟩

theorem calm_notes {key : String} (h : key ∈ noteKeys) (v : Json) :
    calm jid rid (noteCall rid key v) := by
  refine calm_note ?_ v
  rintro rfl
  simp [noteKeys] at h

structure Unreserved (s : Ledger × PyTrace) : Prop where
  adds : ∀ ev ∈ s.2, ¬ adds ev.1
  row : uuidOf s.1 = none

/-- Every reservation that was made, and the one in the row, is kept. -/
structure Kept (s : Ledger × PyTrace) : Prop where
  adds : AddsLast s.2
  row : ∀ u, uuidOf s.1 = some (.str u) → Secured u s.2

theorem Unreserved.kept {s : Ledger × PyTrace} (h : Unreserved s) : Kept s := by
  refine ⟨addsLast_of_none h.adds, fun u hu => ?_⟩
  rw [h.row] at hu
  cases hu

section Stages

variable {s : Ledger × PyTrace} {α : Type} {p : Py α}

theorem Unreserved.step (jid rid : Uuid) {L : Ledger} {past : PyTrace} {e : Eff}
    (h : Unreserved (L, past)) (he : ¬ ReservationLeak.adds e)
    (hu : sparesUuid jid rid e) (a : Ans e) : Unreserved (L.step jid rid e, past ++ [⟨e, a⟩]) := by
  refine ⟨fun ev hev => ?_, (hu L).trans h.row⟩
  rcases List.mem_append.mp hev with hev | hev
  · exact h.adds ev hev
  · rw [List.mem_singleton.mp hev]
    exact he

theorem Kept.step (jid rid : Uuid) {L : Ledger} {past : PyTrace} {e : Eff} (h : Kept (L, past))
    (he : ¬ dels e)
    (hu : sparesUuid jid rid e) (a : Ans e) : Kept (L.step jid rid e, past ++ [⟨e, a⟩]) := by
  have hseg : ∀ y ∈ [(⟨e, a⟩ : Event Eff Ans)], ¬ dels y.1 :=
    fun y hy => List.mem_singleton.mp hy ▸ he
  exact ⟨h.adds.append hseg, fun u hr => (h.row u ((hu L).symm.trans hr)).append hseg⟩

theorem unreserved_sat (ho : Only (calm jid rid) p) (hs : Unreserved s) :
    Sat (traced (booked jid rid)) (fun _ _ => True) (fun s _ => Unreserved s) (fun s _ => Kept s) p
      s :=
  (sat_kept jid rid (I := Unreserved) ho (fun _ _ _ a he hi => hi.step jid rid he.1.1 he.2 a)
    hs).mono (fun _ _ h => h)
    fun _ _ h => h.kept

theorem kept_sat (ho : Only (calm jid rid) p) (hs : Kept s) :
    Sat (traced (booked jid rid)) (fun _ _ => True) (fun s _ => Kept s) (fun s _ => Kept s) p s :=
  sat_kept jid rid (I := Kept) ho (fun _ _ _ a he hi => hi.step jid rid he.1.2 he.2 a) hs

/-- While the reservation `u` is to be recorded. -/
theorem secured_sat (ho : Only (calm jid rid) p) (hs : Kept s ∧ Secured u s.2) :
    Sat (traced (booked jid rid)) (fun _ _ => True) (fun s _ => Kept s ∧ Secured u s.2)
      (fun s _ => Kept s) p s := by
  refine (sat_kept jid rid (I := fun s => Kept s ∧ Secured u s.2) ho ?_ hs).mono (fun _ _ h => h)
    fun _ _ h => h.1
  intro L past e a he hi
  exact ⟨hi.1.step jid rid he.1.2 he.2 a, hi.2.append fun y hy => List.mem_singleton.mp hy ▸ he.1.2⟩

theorem calm_reconfigure : Only (calm jid rid) SandboxNetwork.reconfigure :=
  only_reconfigure ⟨⟨fun h => h, fun h => h⟩, sparesUuid_remote fun _ h => Eff.noConfusion h⟩

theorem createFor_kept (cfg : Settings) (ip mac hostname workUid agentName : String)
    (hs : Unreserved s) :
    Sat (traced (booked jid rid)) (fun _ _ => True) (fun s x => Kept s ∧ Secured x.uuid s.2)
      (fun s _ => Kept s)
      (createFor cfg ip mac hostname workUid agentName) s := by
  unfold createFor createReservation
  refine Sat.seq (Q := fun s u => Kept s ∧ Secured u s.2) ?_ fun s u hs => hs
  refine Sat.seq (unreserved_sat (only_subnetUuid cfg (calm_search trivial)) hs) fun s subnet hs =>
    ?_
  obtain ⟨L, past⟩ := s
  refine (sat_bind _ _ _).mpr ((sat_booked _ _).mpr ⟨trivial, fun a _ => (sat_orRaise a).mpr ?_⟩)
  have hkept := hs.kept.step jid rid (e := .kea (.addReservation subnet ip (macNorm mac) hostname
    (reservationText workUid agentName hostname))) (fun h => h) (sparesUuid_remote fun _ h => Eff.noConfusion h) a
  cases a with
  | error e => exact hkept
  | ok x =>
      obtain ⟨result, uuid⟩ := x
      rw [ends_ok]
      cases uuid with
      | none => exact hkept
      | some u =>
          change Sat _ _ _ _ (ite _ _ _) _
          split
          next hok =>
              refine Sat.seq (secured_sat calm_reconfigure (u := u) ⟨hkept, ?_⟩) fun s _ hs => hs
              rw [hok.1]
              exact ⟨past, _, [], rfl, .added subnet ip (macNorm mac) hostname
                (reservationText workUid agentName hostname),
                fun _ h => absurd h List.not_mem_nil⟩
          · exact hkept

theorem deleteReservation_unreserved (v : String) (hs : Unreserved s) :
    Sat (traced (booked jid rid)) (fun _ _ => True) (fun s _ => Unreserved s) (fun s _ => Kept s)
      (deleteReservation v) s := by
  obtain ⟨L, past⟩ := s
  unfold deleteReservation
  refine (sat_bind _ _ _).mpr ((sat_booked _ _).mpr ⟨trivial, fun a _ => (sat_orRaise a).mpr ?_⟩)
  have hun := hs.step jid rid (e := .kea (.delReservation v)) (fun h => h)
    (sparesUuid_remote fun _ h => Eff.noConfusion h) a
  cases a with
  | error e => exact hun.kept
  | ok result =>
      rw [ends_ok]
      change Sat _ _ _ _ (ite _ _ _) _
      split
      · exact unreserved_sat calm_reconfigure hun
      · exact hun.kept

theorem reserveForMac_kept (cfg : Settings) (ip mac hostname workUid agentName : String)
    (existing : Option String)
    (hs : Unreserved s) :
    Sat (traced (booked jid rid)) (fun _ _ => True) (fun s x => Kept s ∧ Secured x.uuid s.2)
      (fun s _ => Kept s)
      (reserveForMac cfg ip mac hostname workUid agentName existing) s := by
  unfold reserveForMac networkError
  split
  · exact hs.kept
  · split
    next v hv =>
        obtain ⟨L, past⟩ := s
        refine (sat_bind _ _ _).mpr ((sat_booked _ _).mpr
          ⟨trivial, fun a _ => (sat_orRaise a).mpr ?_⟩)
        have hun := hs.step jid rid (e := .kea .searchReservation) (fun h => h)
          (sparesUuid_remote fun _ h => Eff.noConfusion h) a
        have hnew : ∀ s, Unreserved s → Sat (traced (booked jid rid)) (fun _ _ => True)
            (fun s x => Kept s ∧ Secured x.uuid s.2) (fun s _ => Kept s)
            (do
              deleteReservation v
              createFor cfg ip mac hostname workUid agentName) s := fun s hs =>
          Sat.seq (deleteReservation_unreserved v hs) fun s _ hs =>
            createFor_kept cfg ip mac hostname workUid agentName hs
        cases a with
        | error e => exact hun.kept
        | ok rows =>
            rw [ends_ok]
            split
            next r hr =>
                split
                next heq =>
                    refine ⟨hun.kept, past, _, [], rfl, .listed (r := r) ?_ ?_,
                      fun _ h => absurd h List.not_mem_nil⟩
                    · exact List.mem_reverse.mp (List.mem_of_find?_eq_some hr)
                    · simpa using List.find?_some hr
                · exact hnew _ hun
            · exact hnew _ hun
    · exact createFor_kept cfg ip mac hostname workUid agentName hs

theorem reserveAddress_kept (cfg : Settings) (p : Pool) (runtime : AgentRuntime) (om : Dict)
    (vmid : Int) (mac : String)
    (hk : runtime.runtimeId = rid) (hs : Unreserved s) :
    Sat (traced (booked jid rid)) (fun _ _ => True) (fun s _ => Kept s) (fun s _ => Kept s)
      (reserveAddress cfg p runtime om vmid mac) s := by
  unfold reserveAddress
  refine Sat.seq (unreserved_sat (only_allocate p (calm_allows jid rid [] [])) hs) fun s x hs => ?_
  obtain ⟨ip, existing⟩ := x
  refine Sat.seq (reserveForMac_kept cfg ip mac _ _ _ existing hs) fun s rec_ hs => ?_
  refine Sat.seq (secured_sat (only_verifyReserved ip (calm_search trivial)) hs) fun s _ hs => ?_
  obtain ⟨L, past⟩ := s
  obtain ⟨hkept, hsec⟩ := hs
  rw [hk]
  refine (sat_bind _ _ _).mpr ((sat_booked _ _).mpr ⟨trivial, fun a _ => ?_⟩)
  refine Sat.seq (kept_sat (only_event _ _ _ _ (calm_allows jid rid [] _)) ?_) fun s _ hs => hs
  have hseg : ∀ y ∈ [(⟨metaCall rid (recordedReservation rec_), a⟩ : Event Eff Ans)], ¬ dels y.1 :=
    fun y hy =>
    List.mem_singleton.mp hy ▸ dels_db
  refine ⟨hkept.adds.append hseg, fun u hu => ?_⟩
  have hset : uuidOf (L.step jid rid (metaCall rid (recordedReservation rec_))) =
      some (.str rec_.uuid) :=
    Dict.get?_set_self _ _ _
  have hu' : some (Json.str rec_.uuid) = some (.str u) := hset.symm.trans hu
  cases hu'
  exact hsec.append hseg

theorem reserveSandbox_kept (cfg : Settings) (runtime : AgentRuntime) (om : Dict) (n : String)
    (vmid : Int)
    (hk : runtime.runtimeId = rid) (hs : Unreserved s) :
    Sat (traced (booked jid rid)) (fun _ _ => True) (fun s _ => Kept s) (fun s _ => Kept s)
      (reserveSandbox cfg jid runtime om n vmid) s := by
  have hA := fun ns as => calm_allows jid rid ns as
  unfold reserveSandbox
  refine Sat.seq (unreserved_sat (only_recordStep _ _ _ _ _ (hA _ [])) hs) fun s _ hs => ?_
  refine Sat.seq (unreserved_sat (only_sandboxMac _ _ _ (hA [] []) trivial) hs) fun s mac hs => ?_
  split
  · refine Sat.seq (unreserved_sat (only_newService cfg) hs) fun s p hs => ?_
    refine Sat.seq (Q := fun s _ => Kept s) ?_ fun s ip hs =>
      kept_sat (only_recordStep _ _ _ _ _ (hA _ [])) hs
    refine (sat_tryCatch _ _ _).mpr ((reserveAddress_kept cfg p runtime om vmid mac hk hs).mono
      (fun _ _ h => h) ?_)
    intro s e hs
    dsimp only
    split
    · refine Sat.seq (kept_sat (only_recordStep _ _ _ _ _ (hA _ [])) hs) fun s _ hs => ?_
      exact Sat.seq (kept_sat (only_event _ _ _ _ (hA [] _)) hs) fun s _ hs => hs
    · exact hs
  · exact Sat.seq (unreserved_sat (only_recordStep _ _ _ _ _ (hA _ [])) hs) fun s _ hs => hs.kept

theorem completeJob_kept (jid : Uuid) (cfg : Settings) (runtime : AgentRuntime)
    (hk : runtime.runtimeId = rid)
    (hs : Unreserved s) :
    Sat (traced (booked jid rid)) (fun _ _ => True) (fun s _ => Kept s) (fun s _ => Kept s)
      (completeJob cfg jid runtime) s := by
  have hA := fun ns as => calm_allows jid rid ns as
  have hnotes : ∀ key ∈ noteKeys, ∀ v, calm jid rid (noteCall runtime.runtimeId key v) :=
    fun key h v => hk ▸ calm_notes h v
  have hdb : ∀ f, (∀ r, (f r).ownershipMeta = r.ownershipMeta) →
      calm jid rid (.db (.modify runtime.runtimeId false f)) := by
    intro f hf
    refine ⟨⟨adds_db, dels_db⟩, fun L => ?_⟩
    rw [hk]
    simp [uuidOf, Ledger.step, hf]
  unfold completeJob
  rw [provisionVm_eq]
  refine Sat.seq (Q := fun s _ => Kept s) ?_ fun s x hs => ?_
  · refine Sat.seq (unreserved_sat (only_validate _ _ (hA _ [])) hs) fun s _ hs => ?_
    refine Sat.seq (unreserved_sat (only_placeVm _ _ _ (hA _ _)) hs) fun s n hs => ?_
    refine Sat.seq (unreserved_sat (only_cloneVm _ _ _ _ _ (hA _ _) trivial (fun _ => trivial)
      fun _ _ => calm_pve) hs)
      fun s x hs => ?_
    unfold deploy bringUp
    refine Sat.seq (unreserved_sat (only_configureVm _ _ _ _ (hA _ []) trivial (fun _ => calm_pve)
      fun mac => hk ▸ calm_note (by decide) _) hs) fun s om hs => ?_
    have hboot : ∀ s, Kept s → Sat (traced (booked jid rid)) (fun _ _ => True) (fun s _ => Kept s)
        (fun s _ => Kept s)
        (do
          bootVm jid runtime n x.1
          pure (x.1, n)) s := fun s hs =>
      Sat.seq (kept_sat (only_bootVm _ _ _ _ (hA _ _) trivial trivial calm_pve hnotes
        ⟨⟨adds_db, dels_db⟩, fun _ => rfl⟩) hs)
        fun s _ hs => hs
    split
    · exact Sat.seq (reserveSandbox_kept cfg runtime om n x.1 hk hs) fun s _ hs => hboot s hs
    · exact hboot s hs.kept
  · refine kept_sat ?_ hs
    refine Only.bind (only_bootstrapHermes _ _ (hA _ [])
      (fun key h v => hnotes key (List.mem_cons_of_mem _
      (List.mem_cons_of_mem _ h)) v) (fun _ _ => ⟨⟨adds_db, dels_db⟩, fun _ => rfl⟩) (hdb _ fun _ => rfl)) fun _ => ?_
    refine Only.bind (only_call (hdb _ fun _ => rfl) fun _ => only_ret _) fun _ => ?_
    refine Only.bind (only_call ⟨⟨adds_db, dels_db⟩, fun _ => rfl⟩ fun _ => only_ret _) fun _ => ?_
    refine Only.bind (only_event _ _ _ _ (hA [] _)) fun _ => ?_
    exact only_commit ((hA [] []).book _ trivial) ((hA [] []).book _ trivial)

end Stages

def Has (u : String) (k : Table) : Prop := ∃ r ∈ k.rows, r.uuid = some u

/-- A call of process `i`, after moves of the others that leave its rows alone and do not delete `u`
from Kea. -/
def keaShared (i : Nat) (u : String) (s : World Table × List Uuid) (e : Eff) (a : Ans e)
    (s' : World Table × List Uuid) :
    Prop :=
  ∃ w, Elsewhere i s.2 s.1 w ∧ (Has u s.1.remote → Has u w.remote) ∧ w.step Kea.remote i e a s'.1 ∧
    s'.2 = s.2 ++ draws e a

/-- A request is submitted as a new one and its job is run; nobody else deletes the reservation
`u`. -/
def KeaRun (i : Nat) (u : String) (cfg : Settings) (req : ProvisionRequest)
    (requestedBy authority : String)
    (job : ProvisioningJob) (tr : PyTrace) (w' : World Table) (q : Py Unit) : Prop :=
  ∃ w₀ tr₀ w ids ids', w₀.sessions i = {} ∧ Known w₀ ∧
    Exec (keaShared i u) (w₀, []) (submit cfg req requestedBy authority) tr₀ (w, ids)
      (.ret (job, true)) ∧
    Exec (keaShared i u) (w, ids) (runJob cfg job.jobId) tr (w', ids') q

variable {i : Nat} {cfg : Settings} {req : ProvisionRequest} {requestedBy authority : String}
  {job : ProvisioningJob}
  {w w' : World Table} {q : Py Unit}

theorem KeaRun.jobRun (h : KeaRun i u cfg req requestedBy authority job tr w' q) :
    JobRun Kea.remote i cfg req requestedBy authority job tr w' q := by
  obtain ⟨w₀, tr₀, w, ids, ids', hs, hk, hx, hx'⟩ := h
  have hsub : ∀ s e a s', keaShared i u s e a s' → shared Kea.remote i s e a s' := by
    rintro s e a s' ⟨w, he, -, hst, hids⟩
    exact ⟨w, he, hst, hids⟩
  exact ⟨w₀, tr₀, w, ids, ids', hs, hk, hx.mono hsub, hx'.mono hsub⟩

theorem remote_step {e : Eff} {a : Ans e} (hs : w.step Kea.remote i e a w') :
    Kea.step w.remote e a w'.remote := by
  cases e with
  | pve c =>
      obtain ⟨r, hr, rfl⟩ := hs
      exact hr
  | kea c =>
      obtain ⟨r, hr, rfl⟩ := hs
      exact hr
  | db c =>
      rcases dbStep_frame hs with ⟨s, rfl⟩ | rfl | ⟨-, t, -, rfl⟩
      · rfl
      · rfl
      · rfl
  | sys c =>
      cases c with
      | now | ipNeigh | uuid4 =>
          obtain ⟨-, rfl⟩ := hs
          rfl
      | sleep | polls | randbelow | tokenUrlsafe | guestExec | leaseInventory =>
          rw [show w' = w from hs]
          rfl

theorem Has.step {k k' : Table} {e : Eff} {a : Ans e} (h : Has u k) (hs : Kea.step k e a k')
    (he : ¬ dels e) : Has u k' := by
  cases e with
  | pve | db | sys => exact (show k' = k from hs) ▸ h
  | kea c =>
      cases c with
      | searchReservation => exact hs.1 ▸ h
      | searchLeases | searchSubnet | reconfigure => exact (show k' = k from hs) ▸ h
      | delReservation v => exact absurd trivial he
      | addReservation subnet ip hw hostname description =>
          rcases hs with ⟨rfl, -⟩ | ⟨v, -, -, -, rfl⟩
          · exact h
          · obtain ⟨r, hr, hu⟩ := h
            exact ⟨r, Table.mem_add.mpr (.inl hr), hu⟩

theorem has_of_shown {k k' : Table} {ev : Event Eff Ans} (h : Shown u ev)
    (hs : Kea.step k ev.1 ev.2 k') : Has u k' := by
  cases h with
  | added subnet ip hw hostname description =>
      rcases hs with ⟨-, hno⟩ | ⟨v, -, -, hv, rfl⟩
      · exact absurd rfl (hno u)
      · rw [← hv u rfl]
        exact ⟨_, Table.mem_add.mpr (.inr rfl), rfl⟩
  | @listed rows r hr hu =>
      obtain ⟨rfl, hrows⟩ := hs
      exact ⟨r, (hrows rows rfl).mem_iff.mp hr, hu⟩

theorem has_of_secured {α : Type} {p q : Py α} {s s' : World Table × List Uuid}
    (hx : Exec (keaShared i u) s p tr s' q)
    (h : Secured u tr) : Has u s'.1.remote := by
  obtain ⟨before, ev, after, rfl, hev, hafter⟩ := h
  obtain ⟨s₁, s₂, k, -, ⟨w₁, -, -, hst, -⟩, hrest⟩ := hx.split
  refine hrest.keeps (I := fun s => Has u s.1.remote) ?_ (has_of_shown hev (remote_step hst))
  rintro y hy s s' ⟨w₁, -, hw, hst, -⟩ h
  exact (hw h).step (remote_step hst) (hafter y hy)

theorem destroy_refused {r : AgentRuntime} {R : Type} {rem : Remote R} {w : World R}
    (hs : w.sessions i = {})
    (hr : w.db.runtime? rid = some r) (hn : r.node = none) (actor : String) :
    Sat (World.step rem i) (fun _ _ => True) (fun _ _ => False) (fun _ _ => True)
      (destroyAgentRuntime cfg rid actor) w := by
  unfold destroyAgentRuntime
  refine sat_withSession.mpr ?_
  refine (sat_bind _ _ _).mpr ?_
  refine ⟨trivial, fun a w₁ hst => ?_⟩
  have ha : a = some r := by
    have hst' : World.dbStep w i (.getRuntime rid) a w₁ := hst
    have hobj : (w.sessions i).obj? rid = none := by rw [hs]; rfl
    have hview : (w.view i).runtime? rid = some r := by
      rw [World.view, hs]
      exact hr
    simp only [World.dbStep, hobj, hview] at hst'
    exact hst'.1
  subst ha
  cases r
  obtain rfl : _ = none := hn
  exact ⟨trivial, fun _ _ _ => trivial⟩

/-- The reservation is gone, or some DELETE of the runtime succeeds and releases it. -/
def Recoverable (cfg : Settings) (rid : Uuid) (u : String) (w : World Table) : Prop :=
  ¬ Has u w.remote ∨ ∃ i actor tr w₂, w.sessions i = {} ∧
    Exec (World.step Kea.remote i) w (destroyAgentRuntime cfg rid actor) tr w₂ (.ret ()) ∧
      ¬ Has u w₂.remote

/-- The job has been given the reservation: Kea has confirmed it to the job, or the row records
it. -/
def Reserved (u : String) (r : AgentRuntime) (tr : PyTrace) : Prop :=
  (∃ subnet ip hw hostname description,
    (⟨.kea (.addReservation subnet ip hw hostname description), Except.ok (some "saved", some u)⟩ : Event Eff Ans) ∈ tr) ∨
    Dict.get? r.ownershipMeta "sandbox_reservation_uuid" = some (.str u)

theorem submitted_unreserved (cfg : Settings) (req : ProvisionRequest)
    (requestedBy authority : String) (jid rid : Uuid)
    (t t' : Time) {pre : PyTrace} (hpre : ∀ ev ∈ pre, filing ev.1) :
    Unreserved (.settled (submittedRecord cfg req requestedBy authority jid rid t t').begun,
      pre) := by
  refine ⟨fun ev hev => (calm_filing (hpre ev hev)).1, ?_⟩
  change Dict.get? (submittedRow cfg req rid t t').ownershipMeta "sandbox_reservation_uuid" = none
  unfold submittedRow
  split
  · exact Dict.get?_set_of_ne _ _ (by decide)
  · rfl

/-- A reservation that a failing sandbox job was given stays in Kea, and no DELETE of the runtime
releases it. -/
theorem failed_reservation_leaks (hx : KeaRun i u cfg req requestedBy authority job tr w' q)
    (hq : ∀ e k, q ≠ .call e k)
    {j : ProvisioningJob} (hj : w'.db.job? job.jobId = some j) (hf : j.state = .failed)
    {r : AgentRuntime}
    (hr : w'.db.runtime? job.runtimeId = some r) (hu : Reserved u r tr) :
    ¬ Recoverable cfg job.runtimeId u w' := by
  obtain ⟨L, hL, he⟩ :=
    jobRun_settled hx.jobRun hq (Q := fun _ s => Kept s) (X := fun _ s _ => Kept s)
    fun jid rid t t' pre hpre => completeJob_kept jid cfg _ (submittedRow_blank cfg req rid t t').1
      (submitted_unreserved cfg req requestedBy authority jid rid t t' hpre)
  have hjL : L.kept.job = j := Option.some.inj (hL.job.symm.trans hj)
  have hrL : L.kept.row = r := Option.some.inj (hL.row.symm.trans hr)
  rcases he with ⟨⟨n', v', ip, x, hset, hdone, -⟩, -⟩ | ⟨L₀, past, x, seg, ⟨hun, hkept⟩, hseg, hset⟩
  · have hst : L.kept.job.state = .done := by
      rw [show L = .settled x from hset]
      exact hdone.job
    rw [hjL, hf] at hst
    cases hst
  · obtain ⟨rfl, rfl⟩ := Prod.mk.inj hset
    have hquiet : ∀ y ∈ seg, ¬ dels y.1 := fun y hy => (calm_filing (hseg y hy)).2
    have hsec : Secured u (past ++ seg) := by
      rcases hu with ⟨subnet, ip, hw, hostname, description, hm⟩ | hrow
      · exact (hkept.adds.append hquiet).secured hm
      · rw [← hrL] at hrow
        exact (hkept.row u hrow).append hquiet
    have hnode : r.node = none := by
      rw [← hrL]
      exact hun.vm.1
    obtain ⟨w₀, tr₀, w, ids, ids', -, -, -, hrun⟩ := hx
    rintro (hgone | ⟨k, actor, tr₂, w₂, hs, hdel, -⟩)
    · exact hgone (has_of_secured hrun hsec)
    · exact (destroy_refused hs hr hnode actor).exec hdel

theorem exec_keaShared {α : Type} {p q : Py α} (hx : Exec (World.step Kea.remote i) w p tr w' q)
    (ids : List Uuid) :
    ∃ ids', Exec (keaShared i u) (w, ids) p tr (w', ids') q := by
  induction hx generalizing ids with
  | refl w p => exact ⟨ids, .refl _ _⟩
  | @call w w₁ w' e k a tr q hs _ ih =>
      obtain ⟨ids', hx'⟩ := ih (ids ++ draws e a)
      have hst : keaShared i u (w, ids) e a (w₁, ids ++ draws e a) :=
        ⟨w, .refl i ids w, id, hs, rfl⟩
      exact ⟨ids', .call hst hx'⟩

/-- A sandbox whose VM does not start, and a Kea that does what it is asked. -/
def deadSandbox : Oracle Table where
  pve k c :=
    match c with
    | .start .. => some (.error ⟨.other "HTTPError", "HTTP Error 500: Internal Server Error"⟩, k)
    | c => (oneNode.pve () c).map fun x => (x.1, k)
  kea k c := k.answer (.kea c)
  neigh _ _ := none

theorem deadSandbox_follows : deadSandbox.Follows id Kea.remote := by
  refine ⟨fun k c a k' h => ?_, fun k c a k' h => answer_step h, fun _ _ => trivial⟩
  simp only [deadSandbox] at h
  split at h
  · cases h
    rfl
  · obtain ⟨x, -, hx⟩ := Option.map_eq_some_iff.mp h
    cases hx
    rfl

def sandboxRequest : ProvisionRequest :=
  { acmsAgentId := "agent-1", requestId := "req-1", name := "sbx-1", runtimeClass := "sandbox" }

def leakRun : Option (ProvisioningJob × PyTrace × Machine Table × Py Unit) :=
  rehearse deadSandbox SandboxBoot.gateOn sandboxRequest ⟨{}, [{}], 0, [], ⟨[], []⟩⟩

def recordedUuid (r : AgentRuntime) : Option String :=
  match Dict.get? r.ownershipMeta "sandbox_reservation_uuid" with
  | some (.str u) => some u
  | _ => none

theorem get?_of_recordedUuid {r : AgentRuntime} (h : recordedUuid r = some u) :
    Dict.get? r.ownershipMeta "sandbox_reservation_uuid" = some (.str u) := by
  unfold recordedUuid at h
  split at h
  next v hv =>
      cases h
      exact hv
  · cases h

/-- The sandbox is left without a node, with a reservation that it records and Kea has. -/
def leaked (job : ProvisioningJob) (m : Machine Table) : Bool :=
  leaves .failed job m && (m.db.runtime? job.runtimeId).any (fun r =>
    r.node = none && recordedUuid r = some "r0") &&
    m.remote.rows.any (fun x => x.uuid = some "r0")

theorem leaked_state {m : Machine Table} (h : leaked job m = true) :
    ∃ j r, m.db.job? job.jobId = some j ∧ j.state = .failed ∧ m.db.runtime? job.runtimeId = some r ∧
      r.node = none ∧
      Dict.get? r.ownershipMeta "sandbox_reservation_uuid" = some (.str "r0") ∧
        Has "r0" m.remote := by
  simp only [leaked, Bool.and_eq_true, Option.any_eq_true, decide_eq_true_eq, List.any_eq_true] at h
  obtain ⟨⟨hst, r, hr, hn, hu⟩, x, hx, hk⟩ := h
  obtain ⟨j, hj, hf⟩ := leaves_state hst
  exact ⟨j, r, hj, hf, hr, hn, get?_of_recordedUuid hu, x, hx, hk⟩

theorem leakRun_keaRun {m : Machine Table} (h : leakRun = some (job, tr, m, q)) :
    KeaRun 0 u SandboxBoot.gateOn sandboxRequest "acms" "sprint_execution_context" job tr
      (m.world id) q := by
  obtain ⟨tr₀, w, hsub, hrun⟩ := rehearse_exec deadSandbox_follows h
  obtain ⟨ids, hx⟩ := exec_keaShared hsub []
  obtain ⟨ids', hx'⟩ := exec_keaShared hrun ids
  exact ⟨_, _, _, ids, ids', rfl, fun _ _ => rfl, hx, hx'⟩

theorem leakRun_not_recoverable :
    ∃ (job : ProvisioningJob) (tr : PyTrace) (m : Machine Table) (j : ProvisioningJob) (r :
      AgentRuntime),
      KeaRun 0 "r0" SandboxBoot.gateOn sandboxRequest "acms" "sprint_execution_context" job tr
        (m.world id) (.ret ()) ∧
      m.db.job? job.jobId = some j ∧ j.state = .failed ∧ m.db.runtime? job.runtimeId = some r ∧
        Reserved "r0" r tr ∧
      ¬ Recoverable SandboxBoot.gateOn job.runtimeId "r0" (m.world id) := by
  have hrun : settles leakRun (fun job _ m => leaked job m) = true := by decide +kernel
  obtain ⟨job, tr, m, hx, htest⟩ := settles_run hrun
  obtain ⟨j, r, hj, hf, hr, hn, hu, hh⟩ := leaked_state htest
  refine ⟨job, tr, m, j, r, leakRun_keaRun hx, hj, hf, hr, .inr hu, ?_⟩
  rintro (hgone | ⟨k, actor, tr₂, w₂, hs, hdel, -⟩)
  · exact hgone hh
  · exact (destroy_refused hs hr hn actor).exec hdel

theorem leakRun_leaks :
    ∃ job tr m, leakRun = some (job, tr, m, .ret ()) ∧
      ¬ Recoverable SandboxBoot.gateOn job.runtimeId "r0" (m.world id) := by
  have hrun : settles leakRun (fun job _ m => leaked job m) = true := by decide +kernel
  obtain ⟨job, tr, m, hx, htest⟩ := settles_run hrun
  obtain ⟨j, r, hj, hf, hr, hn, hu, hh⟩ := leaked_state htest
  exact ⟨job, tr, m, hx, failed_reservation_leaks (leakRun_keaRun hx) (Prog.ret_ne_call ()) hj hf hr
    (.inr hu)⟩

end ServerManager.ReservationLeak
