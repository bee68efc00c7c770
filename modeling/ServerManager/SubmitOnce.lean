import ServerManager.CreateCalls
import ServerManager.OwnRows
import ServerManager.JobOutcome
import ServerManager.Rehearsals
import Mathlib.Data.List.Nodup

namespace ServerManager.SubmitOnce

open Interaction Interleaving PyJson Orm Effects Config ProxmoxVm Provisioning Api Storage Calls
  Sessions Frames
open JobCalls OwnRows JobRuns JobOutcome CreateCalls Rehearsals Replay

def Later (rid : Uuid) : Write → Prop
  | .insertRuntime _ | .insertJob _ => False
  | .insertEvent ev => ev.runtimeId = rid
  | _ => True

/-- What a request with the id `q` may commit. -/
inductive Sends (q : String) (past : PyTrace) : List Write → Prop
  | request {r : AgentRuntime} {j : ProvisioningJob} {ev : RuntimeEvent} : ¬ Committed past →
      keysOf past = [r.runtimeId, j.jobId] → j.runtimeId = r.runtimeId →
        ev.runtimeId = r.runtimeId →
      r.provisioningRequestId = q → j.requestId = q →
        Sends q past [.insertRuntime r, .insertJob j, .insertEvent ev]
  | later {ws : List Write} {rid jid : Uuid} : Committed past → keysOf past = [rid, jid] →
      (∀ x ∈ ws, Later rid x) →
      Sends q past ws

/-- The process has been told of another request with its id. -/
def Refused (past : PyTrace) : Prop := ∃ ev ∈ past, refuses ev

/-- No third key, only such statements, and one clone once the request is on record. -/
def Promise (q : String) (s : Session × PyTrace) : Eff → Prop
  | .sys .uuid4 => (keysOf s.2).length < 2 ∧ ¬ Committed s.2
  | .db (.findJob _) => ¬ Committed s.2
  | .db .flush => ∀ j, .insertJob j ∈ s.1.new → ¬ Committed s.2
  | .db .commit => Sends q s.2 s.1.txn ∧ ¬ Refused s.2
  | .pve (.clone ..) => Committed s.2 ∧ Uncloned s.2
  | _ => True

theorem refused_snoc {past : PyTrace} {ev : Event Eff Ans} (he : ¬ refuses ev)
    (h : Refused (past ++ [ev])) :
    Refused past := by
  obtain ⟨x, hx, hr⟩ := h
  rcases List.mem_append.mp hx with hx | hx
  · exact ⟨x, hx, hr⟩
  · rw [List.mem_singleton.mp hx] at hr
    exact absurd hr he

theorem filing_alone {b : Bool} {ks : List Uuid} {past : PyTrace} (h : Filing b ks past) :
    ¬ Refused past := by
  rintro ⟨ev, hev, hr⟩
  exact h.alone ev hev hr

theorem filing_uncloned {b : Bool} {ks : List Uuid} {past : PyTrace} (h : Filing b ks past) :
    Uncloned past := by
  intro ev hev
  have hs := h.calls ev hev
  unfold cloned
  split
  next he =>
      rw [he] at hs
      exact False.elim hs
  · rfl

theorem submittedRow_keys (cfg : Settings) (req : ProvisionRequest) (rid : Uuid) (t t' : Time) :
    (submittedRow cfg req rid t t').runtimeId = rid ∧
      (submittedRow cfg req rid t t').provisioningRequestId = req.requestId := by
  unfold submittedRow
  split
  · exact ⟨rfl, rfl⟩
  · exact ⟨rfl, rfl⟩

theorem promise_opening {cfg : Settings} {req : ProvisionRequest} {actor : String}
    {s : Session × PyTrace} {e : Eff}
    (h : Opening cfg req actor s e) : Promise req.requestId s e := by
  cases h with
  | drawRow hf => exact ⟨by simp [hf.keys], hf.unrecorded⟩
  | drawJob t t' hf => exact ⟨by simp [hf.keys], hf.unrecorded⟩
  | @commit past rid jid t t' hf =>
      obtain ⟨hk, hq⟩ := submittedRow_keys cfg req rid t t'
      refine ⟨?_, filing_alone hf⟩
      refine .request hf.unrecorded ?_ hk.symm hk.symm hq rfl
      rw [hk]
      exact hf.keys
  | @commitJob past rid jid t t' hf =>
      refine ⟨.later (hf.commits.mpr rfl) hf.keys fun x hx => ?_, filing_alone hf⟩
      rw [List.mem_singleton.mp hx]
      trivial
  | find => exact filing_nil.unrecorded
  | sendRow t hf => exact fun _ _ => hf.unrecorded
  | send t t' hf => exact fun _ _ => hf.unrecorded
  | sendJob t t' hf => exact fun _ hj => absurd hj List.not_mem_nil
  | now | addRow | addJob | addEvent | getJob | take | getRow => trivial

section Job

variable {R : Type} {rem : Remote R} {jid rid : Uuid} {s s' : Session × PyTrace} {e : Eff}
  {a : Ans e}

theorem later_stamped {x : Write} (h : Later rid x) (t : Time) : Later rid (stamped t x) := by
  cases x with
  | insertRuntime r => exact False.elim h
  | updateRuntime | updateJob | updateStep | insertJob | insertStep | insertEvent | insertBridge =>
      exact h

theorem later_pending {s : Session} (h : ∀ x ∈ s.new, Later rid x) (t : Time) : ∀ x ∈ s.pending t,
    Later rid x := by
  intro x hx
  simp only [Session.pending, List.mem_append] at hx
  rcases hx with (hx | hx) | hx
  · obtain ⟨o, -, hx⟩ := List.mem_flatMap.mp hx
    unfold Obj.write at hx
    split at hx
    · rw [List.mem_singleton.mp hx]
      trivial
    · cases hx
  · obtain ⟨o, -, hx⟩ := List.mem_flatMap.mp hx
    unfold JobObj.write at hx
    split at hx
    · rw [List.mem_singleton.mp hx]
      trivial
    · cases hx
  · obtain ⟨y, hy, rfl⟩ := List.mem_map.mp hx
    exact later_stamped (h y hy) t

theorem later_adds {x : Write} (he : owned jid rid e) (hx : adds e = some x) : Later rid x := by
  unfold adds at hx
  split at hx
  all_goals cases hx
  all_goals first | exact trivial | exact he

theorem later_next {s s' : Session} (hn : ∀ x ∈ s.new, Later rid x) (ht : ∀ x ∈ s.txn, Later rid x)
    (he : owned jid rid e) (hs : sessionStep rem s e a s') :
    (∀ x ∈ s'.new, Later rid x) ∧ ∀ x ∈ s'.txn, Later rid x := by
  obtain ⟨i, w, w', rfl, hs, rfl⟩ := hs
  have hnew := step_new hs (fun x hx => later_adds he hx) hn
  refine ⟨hnew, ?_⟩
  have hturn := step_turn hs
  generalize w'.sessions i = s' at hturn
  cases hturn with
  | keep | jobs | modify | add => exact ht
  | @load k r _ _ =>
      obtain ⟨os, hos⟩ := load_objs (w.sessions i) r
      rw [hos]
      exact ht
  | loadAll q =>
      obtain ⟨os, hos⟩ := loadAll_objs (Query.run q (w.view i)) (w.sessions i)
      rw [hos]
      exact ht
  | flush =>
      intro x hx
      rcases List.mem_append.mp hx with hx | hx
      · exact ht x hx
      · exact later_pending hn w.clock x hx
  | rollback | commit | close => exact fun _ hx => absurd hx List.not_mem_nil

/-- The request of the job is on record, and no other request is in the way. -/
structure Running (rid jid : Uuid) (s : Session × PyTrace) : Prop where
  new : ∀ x ∈ s.1.new, Later rid x
  txn : ∀ x ∈ s.1.txn, Later rid x
  keys : keysOf s.2 = [rid, jid]
  filed : Committed s.2
  alone : ¬ Refused s.2

theorem Running.next (h : Running rid jid s) (ho : owned jid rid e) (hu : e ≠ .sys .uuid4)
    (hf : ∀ q, e ≠ .db (.findJob q)) (ht : traced (sessionStep rem) s e a s') :
    Running rid jid s' := by
  obtain ⟨hs, hp⟩ := ht
  obtain ⟨hnew, htxn⟩ := later_next h.new h.txn ho hs
  have hr : ¬ refuses ⟨e, a⟩ := by
    intro hr
    unfold refuses at hr
    split at hr
    next heq =>
        cases heq
        exact hf _ rfl
    next heq =>
        cases heq
        obtain ⟨x, rfl⟩ := hr
        rcases session_flush hs with ⟨hx, -⟩ | ⟨y, -, -, j, hj⟩
        · cases hx
        · exact h.new _ hj
    · exact hr
  refine ⟨hnew, htxn, ?_, ?_, fun hx => h.alone ?_⟩
  · rw [hp, keysOf_snoc hu]
    exact h.keys
  · rw [hp]
    exact h.filed.append _
  · rw [hp] at hx
    exact refused_snoc hr hx

/-- Calls that ask neither for a key nor for a clone nor for another request. -/
def steady : Eff → Prop
  | .sys .uuid4 | .pve (.clone ..) | .db (.findJob _) => False
  | _ => True

theorem steady_calls (h : steady e) : e ≠ .sys .uuid4 ∧ (∀ q, e ≠ .db (.findJob q)) ∧
    cloned e = none := by
  refine ⟨?_, ?_, ?_⟩
  · rintro rfl
    exact h
  · rintro q rfl
    exact h
  · unfold cloned
    split
    · exact False.elim h
    · rfl

theorem Running.promise (h : Running rid jid s) (he : steady e) (q : String) : Promise q s e := by
  unfold Promise
  split
  · exact False.elim he
  · exact False.elim he
  · exact fun j hj => False.elim (h.new _ hj)
  · exact ⟨.later h.filed h.keys h.txn, h.alone⟩
  · exact False.elim he
  · trivial

def busy (jid rid : Uuid) (e : Eff) : Prop := owned jid rid e ∧ steady e

theorem sat_running {α : Type} {p : Py α} (ho : Only (busy jid rid) p) (q : String)
    (h : Running rid jid s) :
    Sat (traced (sessionStep rem)) (Promise q) (fun s _ => Running rid jid s)
      (fun s _ => Running rid jid s) p s := by
  refine (ho.keeps (fun s e a s' he h ht => ?_) h).weaken fun s e he => he.2.promise he.1.2 q
  obtain ⟨hu, hf, -⟩ := steady_calls he.2
  exact h.next he.1 hu hf ht

theorem sat_fresh {α : Type} {p : Py α} (ho : Only (busy jid rid) p) (q : String)
    (h : Running rid jid s ∧ Uncloned s.2) :
    Sat (traced (sessionStep rem)) (Promise q) (fun s _ => Running rid jid s ∧ Uncloned s.2)
      (fun s _ => Running rid jid s) p s := by
  have hkeep : Sat (traced (sessionStep rem))
      (fun s e => busy jid rid e ∧ Running rid jid s ∧ Uncloned s.2)
      (fun s _ => Running rid jid s ∧ Uncloned s.2) (fun s _ => Running rid jid s ∧ Uncloned s.2) p
        s := by
    refine ho.keeps (fun s e a s' he h ht => ?_) h
    obtain ⟨hu, hf, hc⟩ := steady_calls he.2
    refine ⟨h.1.next he.1 hu hf ht, ?_⟩
    rw [ht.2]
    exact uncloned_snoc h.2 hc
  exact (hkeep.weaken fun s e he => he.2.1.promise he.1.2 q).mono (fun _ _ h => h) fun _ _ h => h.1

theorem steady_observes (h : observes e) : steady e := by
  unfold steady
  split
  · exact h
  · exact h
  · exact h
  · trivial

theorem steady_allows (ns as : List String) : Allows steady (fun _ _ => True) ns as where
  aside _ he _ := steady_observes he
  read _ he _ _ _ _ := steady_observes he
  book e he := by
    unfold books at he
    split at he
    all_goals first | exact trivial | exact False.elim he
  step _ _ := ⟨trivial, trivial⟩
  event _ _ := trivial

theorem steady_deploys (rid : Uuid) (spec : VMSpec) (node : String) (vmid : Int) :
    Deploys steady rid spec node vmid where
  config _ := trivial
  start := trivial
  kea _ := trivial
  mac _ := trivial
  reserved _ := trivial
  notes _ _ _ := trivial
  others := trivial

end Job

def awaitClone (job : Uuid) (runtime : AgentRuntime) (spec : VMSpec) (vmid : Int) :
    Py (Int × VMSpec) := do
  waitCloneLockRelease spec.node vmid
  event runtime.runtimeId "vm_cloned" "ok"
    [("vmid", .int vmid), ("node", .str spec.node), ("template", .int spec.templateVmid)]
  recordStep job 3 "CLONING_VM" .done
  pure (vmid, spec)

theorem takeClone_eq (job : Uuid) (runtime : AgentRuntime) (spec : VMSpec) (vmid : Int) :
    takeClone job runtime spec vmid = cloneTemplate spec vmid >>= fun _ =>
      awaitClone job runtime spec vmid := rfl

section Steps

variable (jid : Uuid) (runtime : AgentRuntime)

theorem busy_validate : Only (busy jid runtime.runtimeId) (validate jid runtime) :=
  (own_validate jid runtime).and (only_validate _ _ (steady_allows _ []))

theorem busy_placeVm (templateNode : String) :
    Only (busy jid runtime.runtimeId) (placeVm jid runtime templateNode) :=
  (own_placeVm jid runtime templateNode).and (only_placeVm _ _ _ (steady_allows _ _))

theorem busy_prepareClone (node templateNode : String) (templateVmid : Int) :
    Only (busy jid runtime.runtimeId) (prepareClone jid runtime node templateNode templateVmid) :=
  (own_prepareClone jid runtime node templateNode templateVmid).and
    (only_prepareClone _ _ _ _ _ (steady_allows _ []) trivial)

theorem busy_awaitClone (spec : VMSpec) (vmid : Int) :
    Only (busy jid runtime.runtimeId) (awaitClone jid runtime spec vmid) := by
  refine Only.and ?_ ?_
  · refine Only.bind (only_waitCloneLockRelease _ _ _ (owned_allows jid) trivial) fun _ => ?_
    exact Only.bind (own_event ..) fun _ => Only.bind (own_recordStep ..) fun _ => only_pure _
  · refine Only.bind (only_waitCloneLockRelease _ _ _ (steady_allows [] []) trivial) fun _ => ?_
    refine Only.bind (only_event _ _ _ _ (steady_allows [] _)) fun _ => ?_
    exact Only.bind (only_recordStep _ _ _ _ _ (steady_allows _ [])) fun _ => only_pure _

theorem busy_deploy (cfg : Settings) (node : String) (x : Int × VMSpec) :
    Only (busy jid runtime.runtimeId) (deploy cfg jid runtime node x) :=
  (own_deploy jid runtime cfg node x).and
    (only_deploy _ _ _ _ _ (steady_allows _ _) trivial trivial trivial (steady_deploys _ _ _ _))

theorem busy_bootstrapHermes : Only (busy jid runtime.runtimeId) (bootstrapHermes jid runtime) :=
  (own_bootstrapHermes jid runtime).and
    (only_bootstrapHermes _ _ (steady_allows _ []) (fun _ _ _ => trivial) (fun _ _ => trivial)
    trivial)

theorem busy_commit {rid : Uuid} : Only (busy jid rid) commit :=
  only_commit ⟨trivial, trivial⟩ ⟨trivial, trivial⟩

theorem busy_event {rid : Uuid} (action result : String) (detail : Dict) :
    Only (busy jid rid) (event rid action result detail) :=
  only_call ⟨rfl, trivial⟩ fun _ => only_ret _

theorem busy_failJob {rid : Uuid} (x : PyExc) : Only (busy jid rid) (failJob jid rid x) := by
  refine Only.bind (only_call ⟨rfl, trivial⟩ fun _ => only_ret _) fun _ => ?_
  refine Only.bind (only_call ⟨rfl, trivial⟩ fun _ => only_ret _) fun _ => ?_
  exact Only.bind (busy_event jid ..) fun _ => busy_commit jid

end Steps

section Request

variable {R : Type} {rem : Remote R} {jid : Uuid} {s : Session × PyTrace}

theorem completeJob_promises (rem : Remote R) (cfg : Settings) (runtime : AgentRuntime) (q : String)
    (h : Running runtime.runtimeId jid s ∧ Uncloned s.2) :
    Sat (traced (sessionStep rem)) (Promise q) (fun _ _ => True)
      (fun s _ => Running runtime.runtimeId jid s)
      (completeJob cfg jid runtime) s := by
  have hclone : ∀ {s : Session × PyTrace} (spec : VMSpec) (vmid : Int),
      Running runtime.runtimeId jid s ∧ Uncloned s.2 →
      Sat (traced (sessionStep rem)) (Promise q) (fun s _ => Running runtime.runtimeId jid s)
        (fun s _ => Running runtime.runtimeId jid s) (takeClone jid runtime spec vmid) s := by
    intro s spec vmid h
    rw [takeClone_eq]
    refine Sat.seq (Q := fun s _ => Running runtime.runtimeId jid s) ?_ fun s _ h =>
      sat_running (busy_awaitClone jid runtime spec vmid) q h
    refine (sat_bind _ _ _).mpr ((sat_pve _).mpr ⟨⟨h.1.filed, h.2⟩, fun a s' ht => ?_⟩)
    have hr := h.1.next (by trivial) Eff.noConfusion (fun _ => Eff.noConfusion) ht
    cases a with
    | ok x => exact hr
    | error x => exact hr
  have hprovision : Sat (traced (sessionStep rem)) (Promise q)
      (fun s _ => Running runtime.runtimeId jid s)
      (fun s _ => Running runtime.runtimeId jid s) (provisionVm cfg jid runtime) s := by
    rw [provisionVm_eq]
    refine Sat.seq (sat_fresh (busy_validate jid runtime) q h) fun s _ h => ?_
    refine Sat.seq (sat_fresh (busy_placeVm jid runtime _) q h) fun s node h => ?_
    rw [cloneVm_eq, Prog.bind_assoc]
    refine Sat.seq (sat_fresh (busy_prepareClone jid runtime node _ _) q h) fun s vmid h => ?_
    refine Sat.seq (hclone _ vmid h) fun s x h => ?_
    exact sat_running (busy_deploy jid runtime cfg node x) q h
  refine Sat.seq hprovision fun s x h => ?_
  refine Sat.seq (sat_running (busy_bootstrapHermes jid runtime) q h) fun s _ h => ?_
  have hend : Only (busy jid runtime.runtimeId) (do
      modify runtime.runtimeId (placed x.1 x.2)
      modifyJob jid jobDone
      event runtime.runtimeId "provision_complete" "ok" [("vmid", .int x.1), ("node", .str x.2)]
      commit) := by
    refine Only.bind (only_call ⟨rfl, trivial⟩ fun _ => only_ret _) fun _ => ?_
    refine Only.bind (only_call ⟨rfl, trivial⟩ fun _ => only_ret _) fun _ => ?_
    exact Only.bind (busy_event jid ..) fun _ => busy_commit jid
  exact (sat_running hend q h).mono (fun _ _ _ => trivial) fun _ _ h => h

theorem create_promises (cfg : Settings) (req : ProvisionRequest) (actor : String) :
    Sat (traced (sessionStep rem)) (Promise req.requestId) (fun _ _ => True) (fun _ _ => True)
      ((Request.create req actor).prog cfg) ({}, []) := by
  refine create_sat (fun _ _ h => promise_opening h) (fun _ => True) (fun _ => True)
    (fun _ _ => trivial)
    (fun rid jid t t' past hf => ?_) fun _ _ => ⟨trivial, trivial⟩
  obtain ⟨hk, -⟩ := submittedRow_keys cfg req rid t t'
  have hr : Running rid jid (filed (submittedRow cfg req rid t t')
      (jobRunning (theJob req actor jid rid))
      (jobRunning (theJob req actor jid rid)), past) :=
    ⟨fun _ h => absurd h List.not_mem_nil, fun _ h => absurd h List.not_mem_nil, hf.keys,
      hf.commits.mpr rfl, filing_alone hf⟩
  have hjob := completeJob_promises rem cfg (submittedRow cfg req rid t t') req.requestId
    ⟨hk.symm ▸ hr, filing_uncloned hf⟩
  rw [hk] at hjob
  refine hjob.mono (fun _ _ _ => trivial) fun s x hs => ?_
  exact (sat_running (busy_failJob jid x) req.requestId hs).mono (fun _ _ _ => trivial) fun _ _ _ =>
    trivial

end Request

structure Orderly (db : Db) : Prop where
  jobs : (db.jobs.map (·.requestId)).Nodup
  runtimes : (db.runtimes.map (·.row.provisioningRequestId)).Nodup
  backed : ∀ x ∈ db.runtimes, ∃ j ∈ db.jobs, j.runtimeId = x.row.runtimeId ∧
    j.requestId = x.row.provisioningRequestId

def Mentions (db : Db) (u : Uuid) : Prop :=
  (∃ x ∈ db.runtimes, x.row.runtimeId = u) ∨ (∃ j ∈ db.jobs, j.jobId = u ∨ j.runtimeId = u) ∨
    ∃ ev ∈ db.events, ev.runtimeId = u

def rowFacts (x : Stored) : Uuid × String := (x.row.runtimeId, x.row.provisioningRequestId)

def jobFacts (j : ProvisioningJob) : String × Uuid × Uuid := (j.requestId, j.jobId, j.runtimeId)

/-- No runtime or job has come or gone, and the events that came are of this one. -/
structure Unmoved (rid : Uuid) (db db' : Db) : Prop where
  runtimes : db'.runtimes.map rowFacts = db.runtimes.map rowFacts
  jobs : db'.jobs.map jobFacts = db.jobs.map jobFacts
  events : ∀ ev ∈ db'.events, ev ∈ db.events ∨ ev.runtimeId = rid

section Databases

variable {rid : Uuid} {db db' : Db}

theorem apply_unmoved {x : Write} (hx : Later rid x) (t : Time) (db : Db) :
    Unmoved rid db (db.apply t x) := by
  cases x with
  | updateRuntime l c d =>
      refine ⟨?_, rfl, fun _ h => .inl h⟩
      simp only [Db.apply, List.map_map]
      apply List.map_congr_left
      intro y hy
      simp only [Function.comp]
      split <;> rfl
  | updateJob l c =>
      refine ⟨rfl, ?_, fun _ h => .inl h⟩
      simp only [Db.apply, List.map_map]
      apply List.map_congr_left
      intro y hy
      simp only [Function.comp]
      split <;> rfl
  | insertEvent ev =>
      refine ⟨rfl, rfl, fun y hy => ?_⟩
      rcases List.mem_append.mp hy with hy | hy
      · exact .inl hy
      · rw [List.mem_singleton.mp hy]
        exact .inr hx
  | updateStep | insertStep | insertBridge => exact ⟨rfl, rfl, fun _ h => .inl h⟩
  | insertRuntime | insertJob => exact False.elim hx

theorem applyAll_unmoved {ws : List Write} (h : ∀ x ∈ ws, Later rid x) (t : Time) (db : Db) :
    Unmoved rid db (db.applyAll t ws) := by
  induction ws generalizing db with
  | nil => exact ⟨rfl, rfl, fun _ h => .inl h⟩
  | cons x ws ih =>
      have hx := apply_unmoved (h x List.mem_cons_self) t db
      have hws := ih (fun y hy => h y (List.mem_cons_of_mem _ hy)) (db.apply t x)
      refine ⟨hws.runtimes.trans hx.runtimes, hws.jobs.trans hx.jobs, fun ev hev => ?_⟩
      exact (hws.events ev hev).elim (hx.events ev) .inr

theorem Unmoved.row (h : Unmoved rid db db') {x : Stored} (hx : x ∈ db'.runtimes) :
    ∃ y ∈ db.runtimes, rowFacts y = rowFacts x :=
  List.mem_map.mp (h.runtimes ▸ List.mem_map_of_mem hx)

theorem Unmoved.job (h : Unmoved rid db db') {j : ProvisioningJob} (hj : j ∈ db'.jobs) :
    ∃ y ∈ db.jobs, jobFacts y = jobFacts j :=
  List.mem_map.mp (h.jobs ▸ List.mem_map_of_mem hj)

theorem Unmoved.later (h : Unmoved rid db db') {j : ProvisioningJob} (hj : j ∈ db.jobs) :
    ∃ y ∈ db'.jobs, jobFacts y = jobFacts j :=
  List.mem_map.mp (h.jobs.symm ▸ List.mem_map_of_mem hj)

theorem Unmoved.orderly (h : Unmoved rid db db') (ho : Orderly db) : Orderly db' := by
  refine ⟨?_, ?_, fun x hx => ?_⟩
  · have hq := congrArg (List.map Prod.fst) h.jobs
    rw [List.map_map, List.map_map] at hq
    exact (congrArg List.Nodup hq).mpr ho.jobs
  · have hq := congrArg (List.map Prod.snd) h.runtimes
    rw [List.map_map, List.map_map] at hq
    exact (congrArg List.Nodup hq).mpr ho.runtimes
  · obtain ⟨y, hy, hyx⟩ := h.row hx
    obtain ⟨j, hj, hr, hq⟩ := ho.backed y hy
    obtain ⟨j', hj', hjj⟩ := h.later hj
    simp only [rowFacts, Prod.mk.injEq] at hyx
    simp only [jobFacts, Prod.mk.injEq] at hjj
    exact ⟨j', hj', hjj.2.2.trans (hr.trans hyx.1), hjj.1.trans (hq.trans hyx.2)⟩

theorem Unmoved.mentions (h : Unmoved rid db db') {u : Uuid} (hu : Mentions db' u) : Mentions db u ∨
    u = rid := by
  rcases hu with ⟨x, hx, rfl⟩ | ⟨j, hj, hk⟩ | ⟨ev, hev, rfl⟩
  · obtain ⟨y, hy, hyx⟩ := h.row hx
    exact .inl (.inl ⟨y, hy, congrArg Prod.fst hyx⟩)
  · obtain ⟨y, hy, hyj⟩ := h.job hj
    simp only [jobFacts, Prod.mk.injEq] at hyj
    refine .inl (.inr (.inl ⟨y, hy, ?_⟩))
    exact hk.imp (fun hk => hyj.2.1.trans hk) fun hk => hyj.2.2.trans hk
  · exact (h.events ev hev).imp (fun hev => .inr (.inr ⟨ev, hev, rfl⟩)) id

def recorded (db : Db) (t : Time) (r : AgentRuntime) (j : ProvisioningJob) (ev : RuntimeEvent) :
    Db :=
  { db with runtimes := db.runtimes ++ [⟨r, t⟩], jobs := db.jobs ++ [j], events := db.events ++ [ev] }

variable {t : Time} {r : AgentRuntime} {j : ProvisioningJob} {ev : RuntimeEvent}

theorem recorded_orderly (ho : Orderly db) (hr : j.runtimeId = r.runtimeId) (hq : j.requestId = r.provisioningRequestId)
    (hnew : ∀ j' ∈ db.jobs, j'.requestId ≠ j.requestId) : Orderly (recorded db t r j ev) := by
  refine ⟨?_, ?_, fun x hx => ?_⟩
  · change ((db.jobs ++ [j]).map (·.requestId)).Nodup
    rw [List.map_append, List.nodup_append]
    refine ⟨ho.jobs, by simp, fun a ha b hb => ?_⟩
    obtain ⟨j', hj', rfl⟩ := List.mem_map.mp ha
    rw [List.mem_singleton.mp hb]
    exact hnew j' hj'
  · change ((db.runtimes ++ [(⟨r, t⟩ : Stored)]).map (·.row.provisioningRequestId)).Nodup
    rw [List.map_append, List.nodup_append]
    refine ⟨ho.runtimes, by simp, fun a ha b hb => ?_⟩
    -- a row with the request id would have a job with it
    obtain ⟨x, hx, rfl⟩ := List.mem_map.mp ha
    obtain ⟨j', hj', -, hq'⟩ := ho.backed x hx
    rw [List.mem_singleton.mp hb, ← hq']
    exact fun he => hnew j' hj' (he.trans hq.symm)
  · rcases List.mem_append.mp hx with hx | hx
    · obtain ⟨j', hj', hk⟩ := ho.backed x hx
      exact ⟨j', List.mem_append_left _ hj', hk⟩
    · rw [List.mem_singleton.mp hx]
      exact ⟨j, List.mem_append_right _ List.mem_cons_self, hr, hq⟩

theorem recorded_mentions (hr : j.runtimeId = r.runtimeId) (he : ev.runtimeId = r.runtimeId) {u : Uuid}
    (hu : Mentions (recorded db t r j ev) u) : Mentions db u ∨ u = r.runtimeId ∨ u = j.jobId := by
  rcases hu with ⟨x, hx, rfl⟩ | ⟨j', hj, hk⟩ | ⟨ev', hev, rfl⟩
  · rcases List.mem_append.mp hx with hx | hx
    · exact .inl (.inl ⟨x, hx, rfl⟩)
    · rw [List.mem_singleton.mp hx]
      exact .inr (.inl rfl)
  · rcases List.mem_append.mp hj with hj | hj
    · exact .inl (.inr (.inl ⟨j', hj, hk⟩))
    · rw [List.mem_singleton.mp hj] at hk
      exact .inr (hk.symm.imp (fun hk => hk.symm.trans hr) Eq.symm)
  · rcases List.mem_append.mp hev with hev | hev
    · exact .inl (.inr (.inr ⟨ev', hev, rfl⟩))
    · rw [List.mem_singleton.mp hev]
      exact .inr (.inl he)

end Databases

def Free {R : Type} (w : World R) (i : Nat) (j : ProvisioningJob) : Prop :=
  (∀ j' ∈ w.db.jobs, j'.requestId ≠ j.requestId) ∧
    ∀ k, k ≠ i → ∀ j', .insertJob j' ∈ (w.sessions k).txn → j'.requestId ≠ j.requestId

section Waiting

variable {R : Type} {rem : Remote R} {w w' : World R} {i : Nat} {e : Eff} {a : Ans e}
  {j : ProvisioningJob}

theorem flush_free {a : Except PyExc Unit} (hs : w.step rem i (.db .flush) a w')
    (hj : .insertJob j ∈ (w'.sessions i).txn) : .insertJob j ∈ (w.sessions i).txn ∨ Free w i j := by
  obtain ⟨hblock, hrest⟩ := hs
  cases a with
  | error x =>
      obtain ⟨-, -, rfl⟩ := hrest
      rw [setSession_self] at hj
      cases hj
  | ok u =>
      obtain ⟨hdup, rfl⟩ := hrest
      rw [setSession_self] at hj
      refine (List.mem_append.mp hj).imp_right fun hp =>
        ⟨fun j' hj' hq => ?_, fun k hk j' hj' hq => ?_⟩
      · exact hdup ⟨j, hp, j', hj', hq⟩
      · exact hblock ⟨k, hk, _, hp, _, hj', hq.symm⟩

theorem txn_free (hs : w.step rem i e a w') (hj : .insertJob j ∈ (w'.sessions i).txn) :
    .insertJob j ∈ (w.sessions i).txn ∨ Free w i j := by
  by_cases hf : e = .db .flush
  · subst hf
    exact flush_free hs hj
  · have hturn := step_turn hs
    generalize w'.sessions i = s' at hturn hj
    cases hturn with
    | keep | jobs | modify | add => exact .inl hj
    | @load k r _ _ =>
        obtain ⟨os, hos⟩ := load_objs (w.sessions i) r
        rw [hos] at hj
        exact .inl hj
    | loadAll q =>
        obtain ⟨os, hos⟩ := loadAll_objs (Query.run q (w.view i)) (w.sessions i)
        rw [hos] at hj
        exact .inl hj
    | flush | rollback => exact absurd rfl hf
    | commit | close => cases hj

theorem free_step (hs : w.step rem i e a w') (hdb : w'.db = w.db)
    (h : ∀ k j, .insertJob j ∈ (w.sessions k).txn → Free w k j) :
    ∀ k j, .insertJob j ∈ (w'.sessions k).txn → Free w' k j := by
  -- every job that waits now was free before the step
  have hbefore : ∀ k j, .insertJob j ∈ (w'.sessions k).txn → Free w k j := by
    intro k j hj
    by_cases hk : k = i
    · subst hk
      exact (txn_free hs hj).elim (h k j) id
    · rw [step_other hs hk] at hj
      exact h k j hj
  intro k j hj
  have hf := hbefore k j hj
  refine ⟨fun j' hj' => hf.1 j' (hdb ▸ hj'), fun l hl j' hj' => ?_⟩
  by_cases hli : l = i
  · subst hli
    have hk := hj
    rw [step_other hs (Ne.symm hl)] at hk
    exact ((hbefore l j' hj').2 k (Ne.symm hl) j hk).symm
  · rw [step_other hs hli] at hj'
    exact hf.2 l hl j' hj'

theorem free_commit {a : Ans (.db .commit)} (hs : w.step rem i (.db .commit) a w')
    (h : ∀ k j, .insertJob j ∈ (w.sessions k).txn → Free w k j)
    (hjobs : ∀ x ∈ w'.db.jobs, (∃ y ∈ w.db.jobs, y.requestId = x.requestId) ∨
      ∃ y, .insertJob y ∈ (w.sessions i).txn ∧ y.requestId = x.requestId) :
    ∀ k j, .insertJob j ∈ (w'.sessions k).txn → Free w' k j := by
  have hnone : (w'.sessions i).txn = [] := by
    rw [(step_commit hs).1]
  intro k j hj
  have hk : k ≠ i := by
    rintro rfl
    rw [hnone] at hj
    cases hj
  rw [step_other hs hk] at hj
  have hf := h k j hj
  refine ⟨fun x hx => ?_, fun l hl x hx => ?_⟩
  · rcases hjobs x hx with ⟨y, hy, hq⟩ | ⟨y, hy, hq⟩
    · exact hq ▸ hf.1 y hy
    · exact hq ▸ hf.2 i (Ne.symm hk) y hy
  · by_cases hli : l = i
    · subst hli
      rw [hnone] at hx
      cases hx
    · rw [step_other hs hli] at hx
      exact hf.2 l hl x hx

end Waiting

variable {R : Type} {rem : Remote R} {c d : Parties R} {i : Nat} {e : Eff} {a : Ans e}
  {q : Nat → String} {used : List Uuid}

def clones (tr : PyTrace) : Nat := tr.countP (fun ev => (cloned ev.1).isSome)

structure Registered (q : Nat → String) (used : List Uuid) (c : Parties R) : Prop where
  orderly : Orderly c.world.db
  free : ∀ i j, .insertJob j ∈ (c.world.sessions i).txn → Free c.world i j
  drawn : ∀ i, ∀ u ∈ keysOf (c.procs i).trace, u ∈ c.world.uuids ∧ u ∉ used
  spent : ∀ u ∈ used, u ∈ c.world.uuids
  apart : ∀ i k u, u ∈ keysOf (c.procs i).trace → u ∈ keysOf (c.procs k).trace → i = k
  owners : ∀ u, Mentions c.world.db u → u ∈ used ∨ ∃ i, u ∈ keysOf (c.procs i).trace ∧
    Committed (c.procs i).trace
  filed : ∀ i, Committed (c.procs i).trace → ∃ j ∈ c.world.db.jobs,
    keysOf (c.procs i).trace = [j.runtimeId, j.jobId] ∧ j.requestId = q i
  single : ∀ i, clones (c.procs i).trace ≤ 1 ∧
    (¬ Uncloned (c.procs i).trace → Committed (c.procs i).trace)
  alone : ∀ i, Refused (c.procs i).trace → ¬ Committed (c.procs i).trace

theorem committed_before {past : PyTrace} (he : e ≠ .db .commit)
    (h : Committed (past ++ [⟨e, a⟩])) : Committed past := by
  rcases List.mem_append.mp h with h | h
  · exact h
  · cases List.mem_singleton.mp h
    exact absurd rfl he

theorem clones_uncloned {tr : PyTrace} : Uncloned tr ↔ clones tr = 0 := by
  unfold clones Uncloned
  rw [List.countP_eq_zero]
  simp

theorem Registered.history (h : Registered q used c)
    (hs : Step (fun i => World.step rem i) c i ⟨e, a⟩ d)
    (hp : Promise (q i) (c.world.sessions i, (c.procs i).trace) e) (k : Nat) :
    (clones (d.procs k).trace ≤ 1 ∧ (¬ Uncloned (d.procs k).trace → Committed (d.procs k).trace)) ∧
      (Refused (d.procs k).trace → ¬ Committed (d.procs k).trace) := by
  obtain ⟨hone, hfirst⟩ := h.single k
  rcases traces hs k with ht | ⟨rfl, ht⟩
  · rw [ht]
    exact ⟨⟨hone, hfirst⟩, h.alone k⟩
  rw [ht]
  refine ⟨?_, fun hr hc => ?_⟩
  · cases hc : cloned e with
    | none =>
        refine ⟨?_, fun hu => (hfirst fun hno => hu (uncloned_snoc hno hc)).append _⟩
        simpa [clones, hc] using hone
    | some x =>
        have hpast : Committed (c.procs k).trace ∧ Uncloned (c.procs k).trace := by
          unfold cloned at hc
          split at hc
          · exact hp
          · cases hc
        refine ⟨?_, fun _ => hpast.1.append _⟩
        have hzero := clones_uncloned.mp hpast.2
        unfold clones at hzero ⊢
        rw [List.countP_append, hzero, Nat.zero_add]
        exact List.countP_le_length
  · by_cases hcom : e = .db .commit
    · subst hcom
      exact hp.2 (refused_snoc id hr)
    · have hbefore := committed_before hcom hc
      obtain ⟨ev, hev, hrf⟩ := hr
      rcases List.mem_append.mp hev with hev | hev
      · exact h.alone k ⟨ev, hev, hrf⟩ hbefore
      · rw [List.mem_singleton.mp hev] at hrf
        unfold refuses at hrf
        split at hrf
        next heq =>
            cases heq
            exact hp hbefore
        next heq =>
            cases heq
            obtain ⟨x, rfl⟩ := hrf
            obtain ⟨-, ⟨j, hj, -⟩, -⟩ := hs.world
            exact hp j (job_pending hj) hbefore
        · exact hrf

theorem Registered.draw (h : Registered q used c) {u : Ans (.sys .uuid4)}
    (hs : Step (fun i => World.step rem i) c i ⟨.sys .uuid4, u⟩ d)
    (hp : (keysOf (c.procs i).trace).length < 2 ∧ ¬ Committed (c.procs i).trace) :
    Registered q used d := by
  have hhist := fun k => h.history hs hp k
  obtain ⟨hnew, hw⟩ := hs.world
  have hdb : d.world.db = c.world.db := by rw [hw]
  have huu : d.world.uuids = u :: c.world.uuids := congrArg World.uuids hw
  have hkeys : ∀ k v, v ∈ keysOf (d.procs k).trace → v ∈ keysOf (c.procs k).trace ∨ k = i ∧
      v = u := by
    intro k v hv
    rcases traces hs k with ht | ⟨rfl, ht⟩
    · rw [ht] at hv
      exact .inl hv
    · rw [ht, keysOf, List.filterMap_append] at hv
      exact (List.mem_append.mp hv).imp_right fun hv =>
        ⟨rfl, (Option.some.inj (by simpa [drawnKey] using hv)).symm⟩
  -- a process whose request is on record has not drawn this key
  have hsame : ∀ k, Committed (c.procs k).trace → (d.procs k).trace = (c.procs k).trace := by
    intro k hk
    rcases traces hs k with ht | ⟨rfl, -⟩
    · exact ht
    · exact absurd hk hp.2
  refine ⟨hdb ▸ h.orderly, free_step hs.world hdb h.free, fun k v hv => ?_, fun v hv => ?_,
    fun k l v hk hl => ?_,
    fun v hv => ?_, fun k hk => ?_, fun k => (hhist k).1, fun k => (hhist k).2⟩
  · rw [huu]
    rcases hkeys k v hv with hv | ⟨-, rfl⟩
    · exact ⟨List.mem_cons_of_mem _ (h.drawn k v hv).1, (h.drawn k v hv).2⟩
    · exact ⟨List.mem_cons_self, fun hu => hnew (h.spent _ hu)⟩
  · rw [huu]
    exact List.mem_cons_of_mem _ (h.spent v hv)
  · rcases hkeys k v hk with hk | ⟨rfl, rfl⟩
    · rcases hkeys l v hl with hl | ⟨-, rfl⟩
      · exact h.apart k l v hk hl
      · exact absurd (h.drawn k _ hk).1 hnew
    · rcases hkeys l _ hl with hl | ⟨rfl, -⟩
      · exact absurd (h.drawn l _ hl).1 hnew
      · rfl
  · rw [hdb] at hv
    refine (h.owners v hv).imp_right ?_
    rintro ⟨k, hk, hc⟩
    exact ⟨k, (hsame k hc).symm ▸ ⟨hk, hc⟩⟩
  · have hc : Committed (c.procs k).trace := by
      rcases traces hs k with ht | ⟨-, ht⟩
      · rwa [ht] at hk
      · rw [ht] at hk
        exact committed_before Eff.noConfusion hk
    rw [hdb, hsame k hc]
    exact h.filed k hc

theorem Registered.still (h : Registered q used c)
    (hs : Step (fun i => World.step rem i) c i ⟨e, a⟩ d)
    (hp : Promise (q i) (c.world.sessions i, (c.procs i).trace) e) (hu : e ≠ .sys .uuid4)
    (hc : e ≠ .db .commit) :
    Registered q used d := by
  have hhist := fun k => h.history hs hp k
  have hdb : d.world.db = c.world.db := (step_db hs.world).resolve_right fun hx => hc hx.1
  have hkeys := keys_same hs hu
  refine ⟨hdb ▸ h.orderly, free_step hs.world hdb h.free, fun k v hv => ?_, fun v hv => ?_,
    fun k l v hk hl => ?_,
    fun v hv => ?_, fun k hk => ?_, fun k => (hhist k).1, fun k => (hhist k).2⟩
  · rw [hkeys k] at hv
    exact ⟨step_uuids hs.world v (h.drawn k v hv).1, (h.drawn k v hv).2⟩
  · exact step_uuids hs.world v (h.spent v hv)
  · rw [hkeys] at hk hl
    exact h.apart k l v hk hl
  · rw [hdb] at hv
    refine (h.owners v hv).imp_right ?_
    rintro ⟨k, hk, hcom⟩
    exact ⟨k, (hkeys k).symm ▸ hk, committed_later hs hcom⟩
  · have hcom : Committed (c.procs k).trace := by
      rcases traces hs k with ht | ⟨-, ht⟩
      · rwa [ht] at hk
      · rw [ht] at hk
        exact committed_before hc hk
    rw [hdb, hkeys k]
    exact h.filed k hcom

theorem Registered.commit (h : Registered q used c) {u : Ans (.db .commit)}
    (hs : Step (fun i => World.step rem i) c i ⟨.db .commit, u⟩ d)
    (hp : Promise (q i) (c.world.sessions i, (c.procs i).trace) (.db .commit)) : Registered q used d := by
  have hhist := fun k => h.history hs hp k
  have hkeys := keys_same hs Eff.noConfusion
  have hself : Committed (d.procs i).trace := by
    rw [hs.trace_self]
    exact List.mem_append_right _ List.mem_cons_self
  have hdrawn : ∀ k, ∀ v ∈ keysOf (d.procs k).trace, v ∈ d.world.uuids ∧ v ∉ used := by
    intro k v hv
    rw [hkeys k] at hv
    exact ⟨step_uuids hs.world v (h.drawn k v hv).1, (h.drawn k v hv).2⟩
  have hapart : ∀ k l v, v ∈ keysOf (d.procs k).trace → v ∈ keysOf (d.procs l).trace → k = l := by
    intro k l v hk hl
    rw [hkeys] at hk hl
    exact h.apart k l v hk hl
  have howners : ∀ v, Mentions c.world.db v →
      v ∈ used ∨ ∃ k, v ∈ keysOf (d.procs k).trace ∧ Committed (d.procs k).trace := by
    intro v hv
    refine (h.owners v hv).imp_right ?_
    rintro ⟨k, hk, hc⟩
    exact ⟨k, (hkeys k).symm ▸ hk, committed_later hs hc⟩
  have hmine : ∀ v ∈ keysOf (c.procs i).trace,
      v ∈ used ∨ ∃ k, v ∈ keysOf (d.procs k).trace ∧ Committed (d.procs k).trace :=
    fun v hv => .inr ⟨i, (hkeys i).symm ▸ hv, hself⟩
  have hspent : ∀ v ∈ used, v ∈ d.world.uuids := fun v hv => step_uuids hs.world v (h.spent v hv)
  obtain ⟨-, t, hdb⟩ := step_commit hs.world
  have hfree := free_commit hs.world h.free
  have hwait := h.free i
  obtain ⟨hsend, -⟩ := hp
  dsimp only at hsend
  generalize (c.world.sessions i).txn = ws at hsend hdb hfree hwait
  cases hsend with
  | @request r j ev hnc hk hr he hq hj =>
      have hdb : d.world.db = recorded c.world.db t r j ev := hdb
      have hnew := hwait j (by simp)
      rw [hdb] at hfree
      refine ⟨?_, hfree ?_, hdrawn, hspent, hapart, fun v hv => ?_, fun k hc => ?_, fun k => (hhist k).1,
        fun k => (hhist k).2⟩
      · rw [hdb]
        exact recorded_orderly h.orderly hr (hj.trans hq.symm) hnew.1
      · intro x hx
        exact (List.mem_append.mp hx).imp (fun hx => ⟨x, hx, rfl⟩)
          fun hx => ⟨j, by simp, congrArg ProvisioningJob.requestId (List.mem_singleton.mp hx).symm⟩
      · rw [hdb] at hv
        rcases recorded_mentions hr he hv with hv | rfl | rfl
        · exact howners v hv
        · exact hmine _ (by simp [hk])
        · exact hmine _ (by simp [hk])
      · rw [hdb, hkeys k]
        rcases traces hs k with ht | ⟨rfl, -⟩
        · rw [ht] at hc
          obtain ⟨x, hx, hfile⟩ := h.filed k hc
          exact ⟨x, List.mem_append_left _ hx, hfile⟩
        · exact ⟨j, List.mem_append_right _ List.mem_cons_self, hr.symm ▸ hk, hj⟩
  | @later _ rid jid hcom hk hlater =>
      have hmoved := applyAll_unmoved hlater t c.world.db
      rw [← hdb] at hmoved
      refine ⟨hmoved.orderly h.orderly, hfree ?_, hdrawn, hspent, hapart, fun v hv => ?_,
        fun k hc => ?_,
        fun k => (hhist k).1, fun k => (hhist k).2⟩
      · intro x hx
        obtain ⟨y, hy, hyx⟩ := hmoved.job hx
        exact .inl ⟨y, hy, congrArg Prod.fst hyx⟩
      · rcases hmoved.mentions hv with hv | rfl
        · exact howners v hv
        · exact hmine _ (by simp [hk])
      · have hbefore : Committed (c.procs k).trace := by
          rcases traces hs k with ht | ⟨rfl, -⟩
          · rwa [ht] at hc
          · exact hcom
        obtain ⟨x, hx, hfile, hq⟩ := h.filed k hbefore
        obtain ⟨y, hy, hyx⟩ := hmoved.later hx
        simp only [jobFacts, Prod.mk.injEq] at hyx
        rw [hkeys k, hfile, ← hyx.2.1, ← hyx.2.2]
        exact ⟨y, hy, rfl, hyx.1.trans hq⟩

theorem Registered.next (h : Registered q used c)
    (hs : Step (fun i => World.step rem i) c i ⟨e, a⟩ d)
    (hp : Promise (q i) (c.world.sessions i, (c.procs i).trace) e) : Registered q used d := by
  by_cases hu : e = .sys .uuid4
  · subst hu
    exact h.draw hs hp
  · by_cases hc : e = .db .commit
    · subst hc
      exact h.commit hs hp
    · exact h.still hs hp hu hc

/-- No request has begun, and each has been served at most once so far. -/
structure Opened (w : World R) : Prop where
  sessions : ∀ i, w.sessions i = {}
  orderly : Orderly w.db
  used : ∀ u, Mentions w.db u → u ∈ w.uuids

def creates (cfg : Settings) (reqs : Nat → ProvisionRequest × String) (i : Nat) : Py Unit :=
  (Request.create (reqs i).1 (reqs i).2).prog cfg

theorem registered_reach {cfg : Settings} {reqs : Nat → ProvisionRequest × String} {w : World R}
    (hw : Opened w)
    (hr : Reach (fun i => World.step rem i) (fun _ _ _ => True)
    (Interleaving.start w (creates cfg reqs)) c) :
    Registered (fun i => (reqs i).1.requestId) w.uuids c := by
  have hnone : ∀ {α : Type} {x : α}, x ∉ ([] : List α) := List.not_mem_nil
  have hstart : Lawful (fun i (w : World R) => w.sessions i) (sessionStep rem)
      (fun i => Promise (reqs i).1.requestId)
      (Registered (fun i => (reqs i).1.requestId) w.uuids)
        (Interleaving.start w (creates cfg reqs)) := by
    refine ⟨⟨hw.orderly, fun i j hj => ?_, fun i u hu => absurd hu hnone, fun u hu => hu,
      fun i k u hu => absurd hu hnone,
      fun u hu => .inl (hw.used u hu), fun i hc => absurd hc hnone, fun i => ⟨Nat.zero_le 1, fun hu => ?_⟩, fun i => ?_⟩,
      fun i => ?_⟩
    · have hj : .insertJob j ∈ (w.sessions i).txn := hj
      rw [hw.sessions i] at hj
      exact absurd hj hnone
    · exact absurd (fun ev hev => absurd hev hnone) hu
    · rintro ⟨ev, hev, -⟩
      exact absurd hev hnone
    · have hsat : Sat (traced (sessionStep rem)) (Promise (reqs i).1.requestId) (fun _ _ => True)
          (fun _ _ => True)
          (creates cfg reqs i) ({}, []) := create_promises cfg (reqs i).1 (reqs i).2
      rw [← hw.sessions i] at hsat
      exact hsat
  refine (Lawful.reach ?_ hstart hr).inv
  intro c d i e a hc hp _ hs
  exact ⟨hc.next hs hp, sessionStep_step hs.world, fun _ hj => step_other hs.world hj⟩

/-- A request id has at most one job, one runtime and one clone, and a request
that is told of another one leaves no row. -/
structure Once (q : Nat → String) (c : Parties R) : Prop where
  orderly : Orderly c.world.db
  single : ∀ i, clones (c.procs i).trace ≤ 1
  cloner : ∀ i k, q i = q k → clones (c.procs i).trace ≠ 0 → clones (c.procs k).trace ≠ 0 → i = k
  lost : ∀ i, Refused (c.procs i).trace → ¬ Committed (c.procs i).trace
  nothing : ∀ i, ¬ Committed (c.procs i).trace → ∀ u ∈ keysOf (c.procs i).trace,
    ¬ Mentions c.world.db u

theorem Registered.once (h : Registered q used c) : Once q c := by
  refine ⟨h.orderly, fun i => (h.single i).1, fun i k hq hi hk => ?_, h.alone,
    fun i hno u hu hm => ?_⟩
  · have hcom : ∀ l, SubmitOnce.clones (c.procs l).trace ≠ 0 → Committed (c.procs l).trace :=
      fun l hl => (h.single l).2 fun hun => hl (clones_uncloned.mp hun)
    obtain ⟨j, hj, hjk, hjq⟩ := h.filed i (hcom i hi)
    obtain ⟨j', hj', hjk', hjq'⟩ := h.filed k (hcom k hk)
    -- the request id tells the job, and the job's keys the process
    have hsame : j = j' :=
      List.inj_on_of_nodup_map h.orderly.jobs hj hj' (hjq.trans (hq.trans hjq'.symm))
    subst hsame
    exact h.apart i k j.jobId (by simp [hjk]) (by simp [hjk'])
  · rcases h.owners u hm with hused | ⟨k, hk, hc⟩
    · exact (h.drawn i u hu).2 hused
    · obtain rfl := h.apart i k u hu hk
      exact hno hc

/-- In every interleaving of create requests. -/
theorem submit_once (cfg : Settings) (reqs : Nat → ProvisionRequest × String) {w : World R}
    (hw : Opened w)
    (hr : Reach (fun i => World.step rem i) (fun _ _ _ => True)
    (Interleaving.start w (creates cfg reqs)) c) :
    Once (fun i => (reqs i).1.requestId) c :=
  (registered_reach hw hr).once

def silent : Oracle Unit where
  pve _ _ := none
  kea _ _ := none
  neigh _ _ := none

def answers (i : Nat) (m : Machine Unit) (e : Eff) : Option (Ans e × Machine Unit) :=
  Machine.answer silent i m e

theorem answers_step (i : Nat) (m : Machine Unit) (e : Eff) (a : Ans e) (m' : Machine Unit)
    (h : answers i m e = some (a, m')) : World.step Remote.any i (m.world (fun _ => ())) e a
    (m'.world (fun _ => ())) :=
  Machine.answer_step silent.follows_any i m e a m' h

def request : ProvisionRequest :=
  { acmsAgentId := "agent-1", requestId := "req-1", name := "worker-1" }

def twice : Played Unit :=
  opening {} {} () [.create request "acms", .create request "acms"]

/-- Both requests find no job; the first one commits, then the second one inserts its job. -/
def schedule : List Nat := List.replicate 7 1 ++ List.replicate 9 0 ++ [1]

def raced : Parties Unit :=
  shown {} (fun _ => ()) (.create request "acms") (twice.play answers schedule)

def refusal : Event Eff Ans → Bool
  | ⟨.db .flush, a⟩ => !(a : Except PyExc Unit).toBool
  | _ => false

theorem refusal_refuses {ev : Event Eff Ans} (h : refusal ev = true) : refuses ev := by
  unfold refusal at h
  split at h
  next a =>
      have ha : (a : Except PyExc Unit).toBool = false := by simpa using h
      cases a with
      | ok u => cases ha
      | error x => exact ⟨x, rfl⟩
  · cases h

theorem race_once : Refused (raced.procs 1).trace ∧ Once (fun _ => "req-1") raced := by
  have hrun : (twice.follows answers (fun _ _ => true) schedule &&
      (traceOf (twice.play answers schedule) 1).any refusal) = true := by decide +kernel
  obtain ⟨hf, href⟩ := Bool.and_eq_true_iff.mp hrun
  have hreach :=
    Board.follows_reach (P := fun _ _ _ => True) ⟨(Request.create request "acms").prog {}, []⟩
      answers_step
    (fun _ _ _ _ => trivial) hf
  have hall : (fun i => (cast [.create request "acms", .create request "acms"]
      (.create request "acms") i).prog {}) =
      creates {} fun _ => (request, "acms") := by
    funext i
    cases i with
    | zero => rfl
    | succ i => cases i <;> rfl
  have hshown : twice.conf (Machine.world fun _ => ())
      ⟨(Request.create request "acms").prog {}, []⟩ =
      Interleaving.start (twice.state.world fun _ => ())
        fun i => (cast [.create request "acms", .create request "acms"] (.create request "acms")
          i).prog {} :=
    shown_opening {} (fun _ => ()) {} () _ _
  rw [hshown, hall] at hreach
  refine ⟨?_, submit_once {} (fun _ => (request, "acms")) ?_ hreach⟩
  · obtain ⟨ev, hev, hr⟩ := List.any_eq_true.mp href
    rw [raced, shown_trace]
    exact ⟨ev, hev, refusal_refuses hr⟩
  · refine ⟨opening_sessions {} (fun _ => ()) {} () _,
      ⟨List.nodup_nil, List.nodup_nil, fun x hx => ?_⟩, ?_⟩
    · cases hx
    · rintro u (⟨x, hx, -⟩ | ⟨j, hj, -⟩ | ⟨ev, hev, -⟩)
      · cases hx
      · cases hj
      · cases hev

end ServerManager.SubmitOnce
