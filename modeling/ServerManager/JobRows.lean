import ServerManager.JobCalls
import ServerManager.Frames

namespace ServerManager.JobRows

open Interaction PyJson Orm Effects Storage Calls Sessions Frames JobCalls

def onJob (jid : Uuid) (x : Option ProvisioningJob) : Write → Option ProvisioningJob
  | .updateJob loaded cur =>
      if loaded.jobId = jid then
        x.map (fun j =>
          { j with
            state := if cur.state = loaded.state then j.state else cur.state
            error := if cur.error = loaded.error then j.error else cur.error })
      else x
  | .insertJob j => x.or (if j.jobId = jid then some j else none)
  | _ => x

theorem find_job_update (loaded cur : ProvisioningJob) (jid : Uuid) (rows : List ProvisioningJob) :
    (rows.map (fun j =>
        if j.jobId = loaded.jobId then
          { j with
            state := if cur.state = loaded.state then j.state else cur.state
            error := if cur.error = loaded.error then j.error else cur.error }
        else j)).find? (fun j => j.jobId = jid) =
      onJob jid (rows.find? (fun j => j.jobId = jid)) (.updateJob loaded cur) := by
  induction rows with
  | nil => simp [onJob]
  | cons j rows ih =>
      simp only [onJob] at ih ⊢
      by_cases hj : j.jobId = jid
      · by_cases hl : loaded.jobId = jid
        · simp [hj, hl]
        · simp [hj, hl, Ne.symm hl]
      · have hkey : (if j.jobId = loaded.jobId then
            { j with
              state := if cur.state = loaded.state then j.state else cur.state
              error := if cur.error = loaded.error then j.error else cur.error }
            else j).jobId ≠ jid := by
          split
          · exact hj
          · exact hj
        simpa [hj, hkey] using ih

theorem apply_job (t : Time) (db : Db) (w : Write) (jid : Uuid) :
    (db.apply t w).job? jid = onJob jid (db.job? jid) w := by
  cases w with
  | updateJob loaded cur => exact find_job_update loaded cur jid db.jobs
  | insertJob j =>
      simp only [Db.job?, Db.apply, List.find?_append, onJob]
      by_cases hj : j.jobId = jid
      · simp [hj]
      · simp [hj]
  | updateRuntime | updateStep | insertRuntime | insertStep | insertEvent | insertBridge => rfl

theorem applyAll_job (t : Time) (db : Db) (ws : List Write) (jid : Uuid) :
    (db.applyAll t ws).job? jid = ws.foldl (onJob jid) (db.job? jid) := by
  induction ws generalizing db with
  | nil => rfl
  | cons w ws ih =>
      have h := ih (db.apply t w)
      rw [apply_job] at h
      exact h

/-- The job with key `jid` as the session's statements see it. -/
def seenJob (db : Db) (s : Session) (jid : Uuid) : Option ProvisioningJob :=
  s.txn.foldl (onJob jid) (db.job? jid)

/-- The statement leaves the job with key `jid` alone. -/
def JobAside (jid : Uuid) : Write → Prop
  | .updateJob loaded _ => loaded.jobId ≠ jid
  | .insertJob j => j.jobId ≠ jid
  | _ => True

theorem foldl_job_aside {jid : Uuid} {ws : List Write} (h : ∀ w ∈ ws, JobAside jid w)
    (x : Option ProvisioningJob) :
    ws.foldl (onJob jid) x = x := by
  induction ws generalizing x with
  | nil => rfl
  | cons w ws ih =>
      have hw : onJob jid x w = x := by
        cases w with
        | updateJob loaded cur => exact if_neg (h _ List.mem_cons_self)
        | insertJob j =>
            have hj : (if j.jobId = jid then some j else none) = none :=
              if_neg (h _ List.mem_cons_self)
            rw [onJob, hj, Option.or_none]
        | updateRuntime | updateStep | insertRuntime | insertStep | insertEvent | insertBridge =>
            rfl
      rw [List.foldl_cons, hw]
      exact ih (fun v hv => h v (List.mem_cons_of_mem _ hv)) x

/-- The session sees the job as `j` and has the object that was loaded as `j`
and now reads `cur`; only the state and the error are ever assigned. -/
structure JobHolds (db : Db) (s : Session) (jid : Uuid) (j cur : ProvisioningJob) : Prop where
  row : seenJob db s jid = some j
  key : j.jobId = jid ∧ cur.jobId = jid
  has : ∃ o ∈ s.jobs, o.cur.jobId = jid
  obj : ∀ o ∈ s.jobs, o.cur.jobId = jid → o = ⟨j, cur⟩
  keys : ∀ o ∈ s.jobs, o.loaded.jobId = o.cur.jobId
  new : ∀ w ∈ s.new, JobAside jid w
  tracks : { j with state := cur.state, error := cur.error } = cur

/-- Assignments to the columns of a job that an update writes. -/
def JobTracked (f : ProvisioningJob → ProvisioningJob) : Prop :=
  ∀ j, { j with state := (f j).state, error := (f j).error } = f j

variable {db : Db} {s : Session} {jid : Uuid} {j cur : ProvisioningJob}

theorem JobHolds.objs (h : JobHolds db s jid j cur) (os : List Obj) :
    JobHolds db { s with objs := os } jid j cur :=
  ⟨h.row, h.key, h.has, h.obj, h.keys, h.new, h.tracks⟩

theorem JobHolds.add (h : JobHolds db s jid j cur) {x : Write} (hx : JobAside jid x) :
    JobHolds db { s with new := s.new ++ [x] } jid j cur where
  row := h.row
  key := h.key
  has := h.has
  obj := h.obj
  keys := h.keys
  new w hw := by
    rcases List.mem_append.mp hw with hw | hw
    · exact h.new w hw
    · rw [List.mem_singleton.mp hw]
      exact hx
  tracks := h.tracks

theorem JobHolds.modify (h : JobHolds db s jid j cur) {f : ProvisioningJob → ProvisioningJob}
    (hf : JobTracked f) :
    JobHolds db (s.modifyJob jid f) jid j (f cur) where
  row := h.row
  key := ⟨h.key.1, by rw [← hf cur]; exact h.key.2⟩
  has := by
    obtain ⟨o, hm, hk⟩ := h.has
    refine ⟨_, List.mem_map_of_mem hm, ?_⟩
    rw [if_pos hk]
    exact hk
  obj o hm hk := by
    obtain ⟨o', hm', rfl⟩ := List.mem_map.mp hm
    by_cases hk' : o'.cur.jobId = jid
    · have ho := h.obj o' hm' hk'
      rw [if_pos hk']
      subst ho
      have hid : (f cur).jobId = cur.jobId := by rw [← hf cur]
      rw [← hid]
    · rw [if_neg hk'] at hk
      exact absurd hk hk'
  keys o hm := by
    obtain ⟨o', hm', rfl⟩ := List.mem_map.mp hm
    split
    · exact h.keys o' hm'
    · exact h.keys o' hm'
  new := h.new
  tracks := by rw [← hf cur, ← h.tracks]

theorem JobHolds.known (h : JobHolds db s jid j cur) : ∃ o, s.job? jid = some o ∧ o.cur = cur := by
  obtain ⟨o, hm, hk⟩ := h.has
  cases ho : s.job? jid with
  | none => exact absurd hk (by simpa using List.find?_eq_none.mp ho o hm)
  | some x =>
      have hx : x.cur.jobId = jid := by simpa using List.find?_some ho
      exact ⟨x, rfl, by rw [h.obj x (List.mem_of_find?_eq_some ho) hx]⟩

theorem write_job {x : ProvisioningJob} (hk : j.jobId = jid)
    (ht : { j with state := cur.state, error := cur.error } = cur) (hx : x = j ∨ x = cur) :
    (JobObj.write ⟨j, cur⟩).foldl (onJob jid) (some x) = some cur := by
  have hid : { cur with state := cur.state, error := cur.error } = cur := rfl
  unfold JobObj.write
  split
  · simp only [List.foldl_cons, List.foldl_nil, onJob, hk, if_true, Option.map_some]
    rcases hx with rfl | rfl
    · rw [keep_or_new, keep_or_new, ht]
    · rw [ite_self, ite_self]
  next hn =>
      simp only [Bool.or_eq_true, decide_eq_true_eq, not_or, not_not] at hn
      have hjc : j = cur := by rw [← ht, hn.1, hn.2]
      rcases hx with rfl | rfl
      · rw [hjc]; rfl
      · rfl

theorem jobs_row {js : List JobObj} (hobj : ∀ o ∈ js, o.cur.jobId = jid → o = ⟨j, cur⟩)
    (hkeys : ∀ o ∈ js, o.loaded.jobId = o.cur.jobId) (hj : j.jobId = jid)
    (ht : { j with state := cur.state, error := cur.error } = cur) {x : ProvisioningJob}
    (hx : x = cur ∨ x = j ∧ ∃ o ∈ js, o.cur.jobId = jid) :
    (js.flatMap JobObj.write).foldl (onJob jid) (some x) = some cur := by
  induction js generalizing x with
  | nil =>
      rcases hx with rfl | ⟨-, o, ho, -⟩
      · rfl
      · cases ho
  | cons o js ih =>
      have ih' := fun {x} => ih (x := x) (fun y hy => hobj y (List.mem_cons_of_mem _ hy))
        (fun y hy => hkeys y (List.mem_cons_of_mem _ hy))
      rw [List.flatMap_cons, List.foldl_append]
      by_cases hk : o.cur.jobId = jid
      · rw [hobj o List.mem_cons_self hk, write_job hj ht (hx.symm.imp_left And.left)]
        exact ih' (.inl rfl)
      · have hlk : o.loaded.jobId ≠ jid := fun he => hk ((hkeys o List.mem_cons_self).symm.trans he)
        have ha : ∀ w ∈ o.write, JobAside jid w := by
          intro w hw
          unfold JobObj.write at hw
          split at hw
          · rw [List.mem_singleton.mp hw]
            exact hlk
          · cases hw
        rw [foldl_job_aside ha]
        refine ih' (hx.imp_right fun ⟨hs, y, hy, hyk⟩ => ⟨hs, y, ?_, hyk⟩)
        rcases List.mem_cons.mp hy with rfl | hy
        · exact absurd hyk hk
        · exact hy

theorem objs_job_aside (os : List Obj) : ∀ w ∈ os.flatMap Obj.write, JobAside jid w := by
  intro w hw
  obtain ⟨o, -, hw⟩ := List.mem_flatMap.mp hw
  unfold Obj.write at hw
  split at hw
  · rw [List.mem_singleton.mp hw]
    trivial
  · cases hw

theorem insertedJobs_aside {ws : List Write} (h : ∀ w ∈ ws, JobAside jid w) :
    ∀ o ∈ Session.insertedJobs ws, o.cur.jobId ≠ jid ∧ o.loaded.jobId = o.cur.jobId := by
  induction ws with
  | nil => intro o ho; cases ho
  | cons w ws ih =>
      have ih' := ih fun v hv => h v (List.mem_cons_of_mem _ hv)
      cases w with
      | insertJob j =>
          intro o ho
          rcases List.mem_cons.mp ho with rfl | ho
          · exact ⟨h _ List.mem_cons_self, rfl⟩
          · exact ih' o ho
      | updateRuntime | updateJob | updateStep | insertRuntime | insertStep | insertEvent
      | insertBridge =>
          exact ih'

theorem JobHolds.flush (h : JobHolds db s jid j cur) (t : Time) :
    JobHolds db (s.flush t) jid cur cur where
  row := by
    have hnew : ∀ w ∈ s.new.map (stamped t), JobAside jid w := by
      intro w hw
      obtain ⟨v, hv, rfl⟩ := List.mem_map.mp hw
      have ha := h.new v hv
      cases v with
      | insertRuntime r => trivial
      | updateRuntime | updateJob | updateStep | insertJob | insertStep | insertEvent
      | insertBridge => exact ha
    have hrow : s.txn.foldl (onJob jid) (db.job? jid) = some j := h.row
    simp only [seenJob, Session.flush, Session.pending, List.foldl_append]
    rw [hrow, foldl_job_aside (objs_job_aside s.objs),
      jobs_row h.obj h.keys h.key.1 h.tracks (.inr ⟨rfl, h.has⟩),
      foldl_job_aside hnew]
  key := ⟨h.key.2, h.key.2⟩
  has := by
    obtain ⟨o, hm, hk⟩ := h.has
    exact ⟨⟨o.cur, o.cur⟩, List.mem_append_left _ (List.mem_map.mpr ⟨o, hm, rfl⟩), hk⟩
  obj o hm hk := by
    rcases List.mem_append.mp hm with hm | hm
    · obtain ⟨o', hm', rfl⟩ := List.mem_map.mp hm
      rw [h.obj o' hm' hk]
    · exact absurd hk (insertedJobs_aside h.new o hm).1
  keys o hm := by
    rcases List.mem_append.mp hm with hm | hm
    · obtain ⟨o', hm', rfl⟩ := List.mem_map.mp hm
      rfl
    · exact (insertedJobs_aside h.new o hm).2
  new w hw := absurd hw List.not_mem_nil
  tracks := rfl

theorem JobHolds.commit (h : JobHolds db s jid j cur) (t : Time) :
    JobHolds (db.applyAll t s.txn) { s with txn := [] } jid j cur :=
  ⟨(applyAll_job t db s.txn jid).trans h.row, h.key, h.has, h.obj, h.keys, h.new, h.tracks⟩

variable {rid : Uuid} {r cur : AgentRuntime} {dirty : Bool}

theorem holds_loadAll {rs : List AgentRuntime} (h : Holds db s rid r cur dirty)
    (hrs : ∀ x ∈ rs, x.runtimeId ≠ rid) :
    Holds db (s.loadAll rs).2 rid r cur dirty := by
  induction rs generalizing s with
  | nil => exact h
  | cons x rs ih =>
      exact ih (load_other h (hrs x List.mem_cons_self)) fun y hy =>
        hrs y (List.mem_cons_of_mem _ hy)

theorem holds_assignMeta (h : Holds db s rid r cur dirty) (f : Dict → Dict) :
    Holds db (s.modify rid true (fun r => { r with ownershipMeta := f r.ownershipMeta })) rid r
      { cur with ownershipMeta := f cur.ownershipMeta } true := by
  have hk : { cur with ownershipMeta := f cur.ownershipMeta, runtimeId := rid } =
      { cur with ownershipMeta := f cur.ownershipMeta } := by rw [← h.key.2]
  have ht := h.tracks
  rw [merge_own] at ht
  have hm :=
    Sessions.Holds.modify h (b := true) (f :=
      fun r => { r with ownershipMeta := f r.ownershipMeta }) (by
    rw [hk, merge_own, Bool.or_true]
    exact congrArg (fun x : AgentRuntime => { x with ownershipMeta := f cur.ownershipMeta }) ht)
  rw [hk, Bool.or_true] at hm
  exact hm

variable {R : Type} {rem : Remote R} {i : Nat} {w w' : World R} {e : Eff} {a : Ans e}

theorem tracked_stateColumns (agent : String) : Tracked (stateColumns agent) := by
  intro r c dirty
  refine ⟨rfl, ?_⟩
  rw [merge_own, merge_own]
  rfl

theorem tracked_placed (v : Int) (n : String) : Tracked (placed v n) := by
  intro r c dirty
  refine ⟨rfl, ?_⟩
  rw [merge_own, merge_own]
  rfl

theorem tracked_markFailed : Tracked markFailed := by
  intro r c dirty
  refine ⟨rfl, ?_⟩
  rw [merge_own, merge_own]
  rfl

theorem jobTracked_running : JobTracked (fun j => { j with state := .running }) := fun _ => rfl

theorem jobTracked_done : JobTracked jobDone := fun _ => rfl

theorem jobTracked_failed (error : String) : JobTracked (jobFailed error) := fun _ => rfl

/-- The session sees the job as `job`, and its object for it, if it has one, is in step. -/
structure JobReady (db : Db) (s : Session) (jid : Uuid) (job : ProvisioningJob) : Prop where
  row : seenJob db s jid = some job
  key : job.jobId = jid
  obj : ∀ o ∈ s.jobs, o.cur.jobId = jid → o = ⟨job, job⟩
  keys : ∀ o ∈ s.jobs, o.loaded.jobId = o.cur.jobId
  new : ∀ w ∈ s.new, JobAside jid w

variable {job : ProvisioningJob}

theorem ready_jobs (h : Ready db s rid r) (js : List JobObj) :
    Ready db { s with jobs := js } rid r :=
  ⟨h.row, h.key, h.obj, h.keys, h.new⟩

theorem JobReady.known (h : JobReady db s jid job) {o : JobObj} (hm : o ∈ s.jobs)
    (hk : o.cur.jobId = jid) :
    o.cur = job ∧ JobHolds db s jid job job := by
  rw [h.obj o hm hk]
  exact ⟨rfl, h.row, ⟨h.key, h.key⟩, ⟨o, hm, hk⟩, h.obj, h.keys, h.new, rfl⟩

theorem JobReady.load (h : JobReady db s jid job) :
    JobHolds db { s with jobs := s.jobs ++ [⟨job, job⟩] } jid job job where
  row := h.row
  key := ⟨h.key, h.key⟩
  has := ⟨⟨job, job⟩, by simp, h.key⟩
  obj o hm hk := by
    rcases List.mem_append.mp hm with hm | hm
    · exact h.obj o hm hk
    · exact List.mem_singleton.mp hm
  keys o hm := by
    rcases List.mem_append.mp hm with hm | hm
    · exact h.keys o hm
    · rw [List.mem_singleton.mp hm]
  new := h.new
  tracks := rfl

theorem jobReady_get {a : Option ProvisioningJob} (hs : w.step rem i (.db (.getJob jid)) a w')
    (h : JobReady w.db (w.sessions i) jid job) :
    a = some job ∧ JobHolds w'.db (w'.sessions i) jid job job ∧
      ∃ js, w' = w.setSession i { w.sessions i with jobs := js } := by
  simp only [World.step, World.dbStep] at hs
  split at hs
  next o ho =>
      have hm := List.mem_of_find?_eq_some ho
      have hk : o.cur.jobId = jid := by simpa using List.find?_some ho
      obtain ⟨hc, hh⟩ := h.known hm hk
      rw [hs.2, ← hc]
      refine ⟨hs.1, hc ▸ hh, (w.sessions i).jobs, ?_⟩
      rw [World.setSession, Function.update_eq_self]
  next ho =>
      have hv : (w.view i).job? jid = some job :=
        (applyAll_job w.clock w.db (w.sessions i).txn jid).trans h.row
      rw [hv] at hs
      obtain ⟨ha, hw⟩ := hs
      have hl : ((w.sessions i).loadJob job).2 =
          { w.sessions i with jobs := (w.sessions i).jobs ++ [⟨job, job⟩] } := by
        unfold Session.loadJob
        rw [h.key, ho]
      rw [hl] at hw
      refine ⟨ha, ?_, _, hw⟩
      rw [hw, setSession_self]
      exact h.load

theorem jobHolds_getRuntime {job' : ProvisioningJob} {x : Option AgentRuntime}
    (hs : w.step rem i (.db (.getRuntime rid)) x w')
    (h : JobHolds w.db (w.sessions i) jid job job') :
    JobHolds w'.db (w'.sessions i) jid job job' := by
  simp only [World.step, World.dbStep] at hs
  split at hs
  · rw [hs.2]
    exact h
  · split at hs
    next y _ =>
        obtain ⟨os, hos⟩ := load_objs (w.sessions i) y
        rw [hs.2, setSession_self, hos]
        exact h.objs os
    · rw [hs.2]
      exact h

end ServerManager.JobRows
