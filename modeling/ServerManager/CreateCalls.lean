import ServerManager.JobRuns
import ServerManager.Rehearsals

namespace ServerManager.CreateCalls

open Interaction Interleaving PyJson Orm Effects Config Provisioning Api Storage Calls Sessions
  Frames JobCalls JobRuns Rehearsals

variable {R : Type} {rem : Remote R}

def sessionStep (rem : Remote R) (s : Session) (e : Eff) (a : Ans e) (s' : Session) : Prop :=
  ∃ i w w', w.sessions i = s ∧ World.step rem i w e a w' ∧ w'.sessions i = s'

section Answers

variable {s s' : Session} {e : Eff} {a : Ans e}

theorem sessionStep_step {w w' : World R} {i : Nat} (hs : w.step rem i e a w') :
    sessionStep rem (w.sessions i) e a (w'.sessions i) := ⟨i, w, w', rfl, hs, rfl⟩

theorem session_remote (h : sessionStep rem s e a s') (he : ∀ c, e ≠ .db c) : s' = s := by
  obtain ⟨i, w, w', rfl, hs, rfl⟩ := h
  exact congrFun (step_remote hs he).2 i

theorem session_findJob {q : String} (h : sessionStep rem s (.db (.findJob q)) none s') :
    s' = s := by
  obtain ⟨i, w, w', rfl, hs, rfl⟩ := h
  simp only [World.step, World.dbStep] at hs
  split at hs
  · exact absurd hs.1 (by simp)
  · rw [hs.2]

theorem session_found {q : String} {a : Option ProvisioningJob}
    (h : sessionStep rem s (.db (.findJob q)) a s') :
    s'.objs = s.objs ∧ s'.new = s.new ∧ s'.txn = s.txn := by
  obtain ⟨i, w, w', rfl, hs, rfl⟩ := h
  simp only [World.step, World.dbStep] at hs
  split at hs
  next j hj =>
      obtain ⟨js, hjs⟩ := loadJob_jobs (w.sessions i) j
      rw [hs.2, setSession_self, hjs]
      exact ⟨rfl, rfl, rfl⟩
  · rw [hs.2]
    exact ⟨rfl, rfl, rfl⟩

theorem session_add {x : Write} (h : sessionStep rem s e a s') (he : adds e = some x) :
    s' = { s with new := s.new ++ [x] } := by
  obtain ⟨i, w, w', rfl, hs, rfl⟩ := h
  unfold adds at he
  split at he
  all_goals cases he
  all_goals
    rw [show w' = _ from hs]
    exact setSession_self w i _

theorem session_flush {a : Except PyExc Unit} (h : sessionStep rem s (.db .flush) a s') :
    (a = .ok () ∧ ∃ t, s' = s.flush t) ∨ ∃ x, a = .error x ∧ s' = {} ∧ ∃ j,
    .insertJob j ∈ s.new := by
  obtain ⟨i, w, w', rfl, hs, rfl⟩ := h
  cases a with
  | ok u => exact .inl ⟨rfl, w.clock, by rw [hs.2.2, setSession_self]⟩
  | error x =>
      obtain ⟨-, ⟨j, hj, -⟩, -, hw⟩ := hs
      exact .inr ⟨x, rfl, by rw [hw, setSession_self], j, job_pending hj⟩

theorem session_sent {a : Except PyExc Unit} (h : sessionStep rem s (.db .flush) a s')
    (hn : ∀ j, .insertJob j ∉ s.new) :
    a = .ok () ∧ ∃ t, s' = s.flush t := by
  rcases session_flush h with h | ⟨x, -, -, j, hj⟩
  · exact h
  · exact absurd hj (hn j)

theorem session_commit {a : Unit} (h : sessionStep rem s (.db .commit) a s') :
    s' = { s with txn := [] } := by
  obtain ⟨i, w, w', rfl, ⟨t, -, hw⟩, rfl⟩ := h
  rw [hw]
  exact setSession_self w i _

theorem session_getJob {jid : Uuid} {o : JobObj} {a : Option ProvisioningJob}
    (h : sessionStep rem s (.db (.getJob jid)) a s') (ho : s.job? jid = some o) : a = some o.cur ∧
    s' = s := by
  obtain ⟨i, w, w', rfl, hs, rfl⟩ := h
  simp only [World.step, World.dbStep, ho] at hs
  rw [hs.2]
  exact ⟨hs.1, rfl⟩

theorem session_getRuntime {rid : Uuid} {o : Obj} {a : Option AgentRuntime}
    (h : sessionStep rem s (.db (.getRuntime rid)) a s') (ho : s.obj? rid = some o) :
    a = some o.cur ∧ s' = s := by
  obtain ⟨i, w, w', rfl, hs, rfl⟩ := h
  simp only [World.step, World.dbStep, ho] at hs
  rw [hs.2]
  exact ⟨hs.1, rfl⟩

theorem session_modifyJob {jid : Uuid} {f : ProvisioningJob → ProvisioningJob} {a : Unit}
    (h : sessionStep rem s (.db (.modifyJob jid f)) a s') : s' = s.modifyJob jid f := by
  obtain ⟨i, w, w', rfl, hs, rfl⟩ := h
  rw [show w' = _ from hs]
  exact setSession_self w i _

theorem session_modify {rid : Uuid} {b : Bool} {f : AgentRuntime → AgentRuntime} {a : Unit}
    (h : sessionStep rem s (.db (.modify rid b f)) a s') : s' = s.modify rid b f := by
  obtain ⟨i, w, w', rfl, hs, rfl⟩ := h
  rw [show w' = _ from hs]
  exact setSession_self w i _

theorem session_close {a : Unit} (h : sessionStep rem s (.db .close) a s') : s' = {} := by
  obtain ⟨i, w, w', rfl, hs, rfl⟩ := h
  rw [show w' = _ from hs]
  exact setSession_self w i _

end Answers

def drawnKey : Event Eff Ans → Option Uuid
  | ⟨.sys .uuid4, u⟩ => some u
  | _ => none

/-- The keys that the process has drawn: the one of its runtime, then the one of its job. -/
def keysOf (past : PyTrace) : List Uuid := past.filterMap drawnKey

def jobRunning (j : ProvisioningJob) : ProvisioningJob := { j with state := .running }

def submits : Eff → Prop
  | .db (.findJob _) | .sys .uuid4 | .sys .now | .db (.addRuntime _) | .db (.addJob _) | .db .flush
  | .db .commit
  | .db (.getJob _) | .db (.getRuntime _) => True
  | .db (.modifyJob _ f) => ∀ j, (f j).state = .running
  | .db (.addEvent ev) => ev.action = "provision_submitted"
  | _ => False

def Committed (past : PyTrace) : Prop := ⟨.db .commit, ()⟩ ∈ past

/-- Calls that draw a key or make the rows of the request durable. -/
def marks : Eff → Prop
  | .sys .uuid4 | .db .commit => True
  | _ => False

/-- The answer tells that another request has the same id. -/
def refuses : Event Eff Ans → Prop
  | ⟨.db (.findJob _), a⟩ => a ≠ (none : Option ProvisioningJob)
  | ⟨.db .flush, a⟩ => ∃ x, a = (.error x : Except PyExc Unit)
  | _ => False

/-- The keys drawn so far, and whether the request is on record. -/
structure Filing (recorded : Bool) (keys : List Uuid) (past : PyTrace) : Prop where
  keys : keysOf past = keys
  calls : ∀ ev ∈ past, submits ev.1
  alone : ∀ ev ∈ past, ¬ refuses ev
  commits : Committed past ↔ recorded = true

/-- The row that `submit` builds. -/
def builtRow (cfg : Settings) (req : ProvisionRequest) (rid : Uuid) (t : Time) : AgentRuntime :=
  if req.runtimeClass = "sandbox" then stampTtl cfg req t (newRuntime req rid)
    else newRuntime req rid

def rowSent (row : AgentRuntime) : Session :=
  { objs := [⟨row, row, false⟩], txn := [.insertRuntime row] }

def filed (row : AgentRuntime) (job job' : ProvisioningJob) : Session :=
  { objs := [⟨row, row, false⟩], jobs := [⟨job, job'⟩] }

section Opening

variable (cfg : Settings) (req : ProvisionRequest) (actor : String)

def theJob (jid rid : Uuid) : ProvisioningJob :=
  submittedJob req jid rid actor "sprint_execution_context"

def theEvent (rid : Uuid) : RuntimeEvent := submittedEvent req rid actor "sprint_execution_context"

inductive Opening : Session × PyTrace → Eff → Prop
  | find : Opening ({}, []) (.db (.findJob req.requestId))
  | drawRow {past : PyTrace} : Filing false [] past → Opening ({}, past) (.sys .uuid4)
  | now {past : PyTrace} {rid : Uuid} : Filing false [rid] past → Opening ({}, past) (.sys .now)
  | addRow {past : PyTrace} {rid : Uuid} (t : Time) : Filing false [rid] past →
      Opening ({}, past) (.db (.addRuntime (builtRow cfg req rid t)))
  | sendRow {past : PyTrace} {rid : Uuid} (t : Time) : Filing false [rid] past →
      Opening ({ new := [.insertRuntime (builtRow cfg req rid t)] }, past) (.db .flush)
  | drawJob {past : PyTrace} {rid : Uuid} (t t' : Time) : Filing false [rid] past →
      Opening (rowSent (submittedRow cfg req rid t t'), past) (.sys .uuid4)
  | addJob {past : PyTrace} {rid jid : Uuid} (t t' : Time) : Filing false [rid, jid] past →
      Opening (rowSent (submittedRow cfg req rid t t'), past)
        (.db (.addJob (theJob req actor jid rid)))
  | addEvent {past : PyTrace} {rid jid : Uuid} (t t' : Time) : Filing false [rid, jid] past →
      Opening ({ rowSent (submittedRow cfg req rid t t') with new := [.insertJob
        (theJob req actor jid rid)] }, past)
        (.db (.addEvent (theEvent req actor rid)))
  | send {past : PyTrace} {rid jid : Uuid} (t t' : Time) : Filing false [rid, jid] past →
      Opening ({ rowSent (submittedRow cfg req rid t t') with
          new := [.insertJob (theJob req actor jid rid), .insertEvent (theEvent req actor rid)] }, past)
        (.db .flush)
  | commit {past : PyTrace} {rid jid : Uuid} (t t' : Time) : Filing false [rid, jid] past →
      Opening ({ filed (submittedRow cfg req rid t t') (theJob req actor jid rid) (theJob req actor
        jid rid) with
          txn :=
            [.insertRuntime (submittedRow cfg req rid t t'), .insertJob (theJob req actor jid rid),
            .insertEvent (theEvent req actor rid)] }, past)
        (.db .commit)
  | getJob {past : PyTrace} {rid jid : Uuid} (t t' : Time) : Filing true [rid, jid] past →
      Opening (filed (submittedRow cfg req rid t t') (theJob req actor jid rid)
        (theJob req actor jid rid), past)
        (.db (.getJob jid))
  | take {past : PyTrace} {rid jid : Uuid} (t t' : Time) : Filing true [rid, jid] past →
      Opening (filed (submittedRow cfg req rid t t') (theJob req actor jid rid)
        (theJob req actor jid rid), past)
        (.db (.modifyJob jid jobRunning))
  | getRow {past : PyTrace} {rid jid : Uuid} (t t' : Time) : Filing true [rid, jid] past →
      Opening (filed (submittedRow cfg req rid t t') (theJob req actor jid rid)
        (jobRunning (theJob req actor jid rid)), past) (.db (.getRuntime rid))
  | sendJob {past : PyTrace} {rid jid : Uuid} (t t' : Time) : Filing true [rid, jid] past →
      Opening (filed (submittedRow cfg req rid t t') (theJob req actor jid rid)
        (jobRunning (theJob req actor jid rid)), past) (.db .flush)
  | commitJob {past : PyTrace} {rid jid : Uuid} (t t' : Time) : Filing true [rid, jid] past →
      Opening ({ filed (submittedRow cfg req rid t t') (jobRunning (theJob req actor jid rid))
          (jobRunning (theJob req actor jid rid)) with
          txn := [.updateJob (theJob req actor jid rid) (jobRunning (theJob req actor jid rid))] }, past)
        (.db .commit)

end Opening

theorem Committed.append {past : PyTrace} (h : Committed past) (tr : PyTrace) :
    Committed (past ++ tr) :=
  List.mem_append_left _ h

theorem committed_snoc {past : PyTrace} {e : Eff} {a : Ans e} (he : ¬ marks e) :
    Committed (past ++ [⟨e, a⟩]) ↔ Committed past := by
  refine ⟨fun h => ?_, fun h => h.append _⟩
  rcases List.mem_append.mp h with h | h
  · exact h
  · cases List.mem_singleton.mp h
    exact absurd trivial he

theorem keysOf_snoc {past : PyTrace} {e : Eff} {a : Ans e} (he : e ≠ .sys .uuid4) :
    keysOf (past ++ [⟨e, a⟩]) = keysOf past := by
  have hno : drawnKey ⟨e, a⟩ = none := by
    unfold drawnKey
    split
    next heq =>
        cases heq
        exact absurd rfl he
    · rfl
  rw [keysOf, List.filterMap_append, List.filterMap_cons_none hno, List.filterMap_nil,
    List.append_nil, keysOf]

theorem Filing.heard {b : Bool} {keys : List Uuid} {past : PyTrace} {e : Eff} {a : Ans e}
    (h : Filing b keys past)
    (he : submits e) (hm : ¬ marks e) :
    (∀ ev ∈ past ++ [⟨e, a⟩], submits ev.1) ∧ (Committed (past ++ [⟨e, a⟩]) ↔ b = true) := by
  refine ⟨fun ev hev => ?_, (committed_snoc hm).trans h.commits⟩
  rcases List.mem_append.mp hev with hev | hev
  · exact h.calls ev hev
  · rw [List.mem_singleton.mp hev]
    exact he

theorem Filing.next {b : Bool} {keys : List Uuid} {past : PyTrace} {e : Eff} {a : Ans e}
    (h : Filing b keys past)
    (he : submits e) (hm : ¬ marks e) (hr : ¬ refuses ⟨e, a⟩) :
    Filing b keys (past ++ [⟨e, a⟩]) := by
  obtain ⟨hcalls, hcommits⟩ := h.heard (a := a) he hm
  refine ⟨?_, hcalls, fun ev hev => ?_, hcommits⟩
  · have hu : e ≠ .sys .uuid4 := by
      rintro rfl
      exact hm trivial
    rw [keysOf_snoc hu]
    exact h.keys
  · rcases List.mem_append.mp hev with hev | hev
    · exact h.alone ev hev
    · rw [List.mem_singleton.mp hev]
      exact hr

theorem sent_alone : ¬ refuses ⟨.db .flush, (.ok () : Except PyExc Unit)⟩ := by
  rintro ⟨x, hx⟩
  cases hx

theorem Filing.draw {b : Bool} {keys : List Uuid} {past : PyTrace} (h : Filing b keys past)
    (u : Uuid) :
    Filing b (keys ++ [u]) (past ++ [⟨.sys .uuid4, u⟩]) := by
  refine ⟨?_, fun ev hev => ?_, fun ev hev => ?_, ?_⟩
  · rw [keysOf, List.filterMap_append]
    exact congrArg (· ++ [u]) h.keys
  · rcases List.mem_append.mp hev with hev | hev
    · exact h.calls ev hev
    · rw [List.mem_singleton.mp hev]
      trivial
  · rcases List.mem_append.mp hev with hev | hev
    · exact h.alone ev hev
    · rw [List.mem_singleton.mp hev]
      exact id
  · refine ⟨fun hc => h.commits.mp ?_, fun hb => (h.commits.mpr hb).append _⟩
    rcases List.mem_append.mp hc with hc | hc
    · exact hc
    · cases List.mem_singleton.mp hc

theorem Filing.commit {b : Bool} {keys : List Uuid} {past : PyTrace} (h : Filing b keys past)
    (a : Ans (.db .commit)) :
    Filing true keys (past ++ [⟨.db .commit, a⟩]) := by
  refine ⟨?_, fun ev hev => ?_, fun ev hev => ?_,
    ⟨fun _ => rfl, fun _ => List.mem_append_right _ List.mem_cons_self⟩⟩
  · rw [keysOf, List.filterMap_append]
    exact (List.append_nil _).trans h.keys
  · rcases List.mem_append.mp hev with hev | hev
    · exact h.calls ev hev
    · rw [List.mem_singleton.mp hev]
      trivial
  · rcases List.mem_append.mp hev with hev | hev
    · exact h.alone ev hev
    · rw [List.mem_singleton.mp hev]
      exact id

theorem Filing.unrecorded {keys : List Uuid} {past : PyTrace} (h : Filing false keys past) :
    ¬ Committed past :=
  fun hc => Bool.noConfusion (h.commits.mp hc)

theorem filing_nil : Filing false [] [] :=
  ⟨rfl, fun _ h => absurd h List.not_mem_nil, fun _ h => absurd h List.not_mem_nil,
    fun h => absurd h List.not_mem_nil, fun h => Bool.noConfusion h⟩

def Unfiled (s : Session × PyTrace) : Prop :=
  (s.1.objs = [] ∧ s.1.new = [] ∧ s.1.txn = []) ∧ (∀ ev ∈ s.2, submits ev.1) ∧ ¬ Committed s.2

section Create

variable {cfg : Settings} {req : ProvisionRequest} {actor : String}
  {G : Session × PyTrace → Eff → Prop}
  (hopen : ∀ s e, Opening cfg req actor s e → G s e)
include hopen

theorem insert_calls {rid : Uuid} (t : Time) {past : PyTrace} (h : Filing false [rid] past) :
    Sat (traced (sessionStep rem)) G
      (fun s x => x.2 = true ∧ ∃ jid t', x.1 = theJob req actor jid rid ∧
        Filing true [rid, jid] s.2 ∧
        s.1 = filed (submittedRow cfg req rid t t') (theJob req actor jid rid) (theJob req actor jid rid))
      (fun s _ => Unfiled s)
      (do
        addRuntime (builtRow cfg req rid t)
        flush
        let jid ← uuid4
        let job : ProvisioningJob :=
          { jobId := jid, requestId := req.requestId, runtimeId := rid, requestedBy := actor
            authority := "sprint_execution_context", state := .queued }
        addJob job
        addEvent
          { runtimeId := rid, actor := actor, action := "provision_submitted"
            detail := [("request_id", .str req.requestId), ("authority", .str "sprint_execution_context")] }
        commit
        pure (job, true)) ({}, past) := by
  refine (sat_bind _ _ _).mpr ⟨hopen _ _ (.addRow t h), ?_⟩
  rintro a₁ ⟨s₁, past₁⟩ ⟨hs₁, hp₁⟩
  have hs₁ : s₁ = { new := [.insertRuntime (builtRow cfg req rid t)] } := session_add hs₁ rfl
  have h₁ : Filing false [rid] past₁ := by
    rw [show past₁ = _ from hp₁]
    exact h.next trivial id id
  subst hs₁
  refine (sat_bind _ _ _).mpr ⟨hopen _ _ (.sendRow t h₁), ?_⟩
  rintro a₂ ⟨s₂, past₂⟩ ⟨hs₂, hp₂⟩
  obtain ⟨rfl, t', hs₂⟩ := session_sent hs₂ (by simp)
  have hs₂ : s₂ = rowSent (submittedRow cfg req rid t t') := hs₂
  have h₂ : Filing false [rid] past₂ := by
    rw [show past₂ = _ from hp₂]
    exact h₁.next trivial id sent_alone
  subst hs₂
  refine (sat_bind _ _ _).mpr ⟨hopen _ _ (.drawJob t t' h₂), ?_⟩
  rintro jid ⟨s₃, past₃⟩ ⟨hs₃, hp₃⟩
  have hs₃ : s₃ = _ := session_remote hs₃ fun _ h => Eff.noConfusion h
  have h₃ : Filing false [rid, jid] past₃ := by
    rw [show past₃ = _ from hp₃]
    exact h₂.draw jid
  subst hs₃
  refine (sat_bind _ _ _).mpr ⟨hopen _ _ (.addJob t t' h₃), ?_⟩
  rintro a₄ ⟨s₄, past₄⟩ ⟨hs₄, hp₄⟩
  have hs₄ : s₄ = { rowSent (submittedRow cfg req rid t t') with new := [.insertJob
      (theJob req actor jid rid)] } :=
    session_add hs₄ rfl
  have h₄ : Filing false [rid, jid] past₄ := by
    rw [show past₄ = _ from hp₄]
    exact h₃.next trivial id id
  subst hs₄
  refine (sat_bind _ _ _).mpr ⟨hopen _ _ (.addEvent t t' h₄), ?_⟩
  rintro a₅ ⟨s₅, past₅⟩ ⟨hs₅, hp₅⟩
  have hs₅ : s₅ = { rowSent (submittedRow cfg req rid t t') with
      new := [.insertJob (theJob req actor jid rid), .insertEvent (theEvent req actor rid)] } := session_add hs₅ rfl
  have h₅ : Filing false [rid, jid] past₅ := by
    rw [show past₅ = _ from hp₅]
    exact h₄.next rfl id id
  subst hs₅
  refine (sat_bind _ _ _).mpr ((sat_bind _ _ _).mpr ⟨hopen _ _ (.send t t' h₅), ?_⟩)
  rintro a₆ ⟨s₆, past₆⟩ ⟨hs₆, hp₆⟩
  rcases session_flush hs₆ with ⟨rfl, t₆, hs₆⟩ | ⟨x, rfl, hs₆, -⟩
  · have hs₆ : s₆ = { filed (submittedRow cfg req rid t t') (theJob req actor jid rid) (theJob req
        actor jid rid) with
        txn :=
          [.insertRuntime (submittedRow cfg req rid t t'), .insertJob (theJob req actor jid rid),
          .insertEvent (theEvent req actor rid)] } := by
      rw [show s₆ = _ from hs₆]
      simp [Session.flush, rowSent, filed, Session.pending, Session.inserted, Session.insertedJobs,
        stamped, Obj.write,
        changed]
    subst hs₆
    have h₆ : Filing false [rid, jid] past₆ := by
      rw [show past₆ = _ from hp₆]
      exact h₅.next trivial id sent_alone
    refine ⟨hopen _ _ (.commit t t' h₆), ?_⟩
    rintro a₇ ⟨s₇, past₇⟩ ⟨hs₇, hp₇⟩
    refine ⟨rfl, jid, t', rfl, ?_, session_commit hs₇⟩
    rw [show past₇ = _ from hp₇]
    exact h₆.commit _
  · have hs₆ : s₆ = {} := hs₆
    subst hs₆
    obtain ⟨hcalls, hcommits⟩ :=
      h₅.heard (e := .db .flush) (a := (.error x : Except PyExc Unit)) trivial id
    rw [← show past₆ = _ from hp₆] at hcalls hcommits
    exact ⟨⟨rfl, rfl, rfl⟩, hcalls, fun hc => Bool.noConfusion (hcommits.mp hc)⟩

theorem submit_calls :
    Sat (traced (sessionStep rem)) G
      (fun s x => (x.2 = false ∧ Unfiled s) ∨ x.2 = true ∧ ∃ rid jid t t',
        x.1 = theJob req actor jid rid ∧
        Filing true [rid, jid] s.2 ∧
        s.1 = filed (submittedRow cfg req rid t t') (theJob req actor jid rid) (theJob req actor jid rid))
      (fun s _ => Unfiled s) (submit cfg req actor "sprint_execution_context") ({}, []) := by
  unfold submit
  refine (sat_bind _ _ _).mpr ⟨hopen _ _ .find, ?_⟩
  rintro found ⟨s₁, past₁⟩ ⟨hs₁, hp₁⟩
  have hp₁ : past₁ = _ := hp₁
  cases found with
  | some existing =>
      obtain ⟨hcalls, hcommits⟩ :=
        filing_nil.heard (e := .db (.findJob req.requestId)) (a := some existing) trivial id
      rw [← hp₁] at hcalls hcommits
      exact .inl ⟨rfl, session_found hs₁, hcalls, fun hc => Bool.noConfusion (hcommits.mp hc)⟩
  | none =>
      have h₁ : Filing false [] past₁ := by
        rw [hp₁]
        exact filing_nil.next trivial id fun h => h rfl
      have hs₁ : s₁ = {} := session_findJob hs₁
      subst hs₁
      refine (sat_bind _ _ _).mpr ⟨hopen _ _ (.drawRow h₁), ?_⟩
      rintro rid ⟨s₂, past₂⟩ ⟨hs₂, hp₂⟩
      have hs₂ : s₂ = {} := session_remote hs₂ fun _ h => Eff.noConfusion h
      have h₂ : Filing false [rid] past₂ := by
        rw [show past₂ = _ from hp₂]
        exact h₁.draw rid
      subst hs₂
      refine Sat.seq (Q := fun s r => s.1 = {} ∧ Filing false [rid] s.2 ∧ ∃ t,
        r = builtRow cfg req rid t) ?_ ?_
      · unfold buildRuntime builtRow
        split
        · refine (sat_bind _ _ _).mpr ⟨hopen _ _ (.now h₂), ?_⟩
          rintro t ⟨s₃, past₃⟩ ⟨hs₃, hp₃⟩
          have hp₃ : past₃ = _ := hp₃
          refine ⟨session_remote hs₃ fun _ h => Eff.noConfusion h, ?_, t, rfl⟩
          rw [hp₃]
          exact h₂.next trivial id id
        · exact ⟨rfl, h₂, 0, rfl⟩
      · rintro ⟨s₃, past₃⟩ r ⟨hs₃, h₃, t, rfl⟩
        have hs₃ : s₃ = {} := hs₃
        subst hs₃
        refine (insert_calls hopen t h₃).mono ?_ fun _ _ h => h
        rintro s x ⟨hx, jid, t', hj, hf, hs⟩
        exact .inr ⟨hx, rid, jid, t, t', hj, hf, hs⟩

theorem runJob_calls {rid jid : Uuid} {t t' : Time} {past : PyTrace} {Q : Session × PyTrace → Prop}
    (h : Filing true [rid, jid] past)
    (hjob : ∀ past, Filing true [rid, jid] past → Sat (traced (sessionStep rem)) G (fun s _ => Q s)
      (fun s x => Sat (traced (sessionStep rem)) G (fun s _ => Q s) (fun s _ => Q s)
        (failJob jid rid x) s)
      (completeJob cfg jid (submittedRow cfg req rid t t'))
      (filed (submittedRow cfg req rid t t') (jobRunning (theJob req actor jid rid))
        (jobRunning (theJob req actor jid rid)), past)) :
    Sat (traced (sessionStep rem)) G (fun s _ => Q s) (fun s _ => Q s) (runJob cfg jid)
      (filed (submittedRow cfg req rid t t') (theJob req actor jid rid) (theJob req actor jid rid),
        past) := by
  have hkey : (submittedRow cfg req rid t t').runtimeId = rid := by
    unfold submittedRow
    split
    · rfl
    · rfl
  unfold runJob
  refine (sat_bind _ _ _).mpr ⟨hopen _ _ (.getJob t t' h), ?_⟩
  rintro a₁ ⟨s₁, past₁⟩ ⟨hs₁, hp₁⟩
  obtain ⟨rfl, hx₁⟩ :=
    session_getJob (o := ⟨theJob req actor jid rid, theJob req actor jid rid⟩) hs₁
    (by simp [filed, Session.job?, theJob, submittedJob])
  have hs₁ : s₁ = _ := hx₁
  have h₁ : Filing true [rid, jid] past₁ := by
    rw [show past₁ = _ from hp₁]
    exact h.next trivial id id
  subst hs₁
  refine (sat_bind _ _ _).mpr ⟨hopen _ _ (.take t t' h₁), ?_⟩
  rintro a₂ ⟨s₂, past₂⟩ ⟨hs₂, hp₂⟩
  have hs₂ : s₂ = filed (submittedRow cfg req rid t t') (theJob req actor jid rid)
      (jobRunning (theJob req actor jid rid)) := by
    rw [show s₂ = _ from session_modifyJob hs₂]
    simp [filed, Session.modifyJob, theJob, submittedJob, jobRunning]
  have h₂ : Filing true [rid, jid] past₂ := by
    rw [show past₂ = _ from hp₂]
    exact h₁.next (fun _ => rfl) id id
  subst hs₂
  refine (sat_bind _ _ _).mpr ⟨hopen _ _ (.getRow t t' h₂), ?_⟩
  rintro a₃ ⟨s₃, past₃⟩ ⟨hs₃, hp₃⟩
  obtain ⟨rfl, hx₃⟩ :=
    session_getRuntime (o := ⟨submittedRow cfg req rid t t', submittedRow cfg req rid t t', false⟩)
      hs₃
    (by
      unfold filed Session.obj?
      exact List.find?_cons_of_pos (decide_eq_true hkey))
  have hs₃ : s₃ = _ := hx₃
  have h₃ : Filing true [rid, jid] past₃ := by
    rw [show past₃ = _ from hp₃]
    exact h₂.next trivial id id
  subst hs₃
  refine (sat_bind _ _ _).mpr ((sat_bind _ _ _).mpr ⟨hopen _ _ (.sendJob t t' h₃), ?_⟩)
  rintro a₄ ⟨s₄, past₄⟩ ⟨hs₄, hp₄⟩
  obtain ⟨rfl, t₄, hs₄⟩ := session_sent hs₄ fun j => List.not_mem_nil
  have hs₄ : s₄ = { filed (submittedRow cfg req rid t t') (jobRunning (theJob req actor jid rid))
      (jobRunning (theJob req actor jid rid)) with
      txn := [.updateJob (theJob req actor jid rid) (jobRunning (theJob req actor jid rid))] } := by
    rw [show s₄ = _ from hs₄]
    simp [Session.flush, filed, Session.pending, Session.inserted, Session.insertedJobs, Obj.write,
      changed,
      JobObj.write, jobRunning, theJob, submittedJob]
  have h₄ : Filing true [rid, jid] past₄ := by
    rw [show past₄ = _ from hp₄]
    exact h₃.next trivial id sent_alone
  subst hs₄
  refine ⟨hopen _ _ (.commitJob t t' h₄), ?_⟩
  rintro a₅ ⟨s₅, past₅⟩ ⟨hs₅, hp₅⟩
  have hs₅ : s₅ = _ := session_commit hs₅
  have h₅ : Filing true [rid, jid] past₅ := by
    rw [show past₅ = _ from hp₅]
    exact h₄.commit _
  subst hs₅
  refine (sat_tryCatch _ _ _).mpr ?_
  rw [hkey]
  exact hjob past₅ h₅

theorem create_sat (Leave Fin : Session × PyTrace → Prop) (hexit : ∀ s, Unfiled s → Leave s)
    (hjob : ∀ rid jid t t' past, Filing true [rid, jid] past →
    Sat (traced (sessionStep rem)) G (fun s _ => Leave s)
      (fun s x => Sat (traced (sessionStep rem)) G (fun s _ => Leave s) (fun s _ => Leave s)
        (failJob jid rid x) s)
      (completeJob cfg jid (submittedRow cfg req rid t t'))
      (filed (submittedRow cfg req rid t t') (jobRunning (theJob req actor jid rid))
        (jobRunning (theJob req actor jid rid)), past))
    (hclose : ∀ s, Leave s → G s (.db .close) ∧ Fin ({}, s.2 ++ [⟨.db .close, ()⟩])) :
    Sat (traced (sessionStep rem)) G (fun s _ => Fin s) (fun s _ => Fin s)
      (Request.prog cfg (.create req actor))
      ({}, []) := by
  have hend : ∀ {s : Session × PyTrace}, Leave s →
      Sat (traced (sessionStep rem)) G (fun s _ => Fin s) (fun s _ => Fin s)
      close s := by
    rintro ⟨s, past⟩ hl
    refine ⟨(hclose _ hl).1, ?_⟩
    rintro a ⟨s', past'⟩ ⟨hs, hp⟩
    have hs' : s' = {} := session_close hs
    have hp' : past' = past ++ [⟨.db .close, ()⟩] := hp
    rw [hs', hp']
    exact (hclose _ hl).2
  refine (sat_bind _ _ _).mpr (sat_withSession.mpr ?_)
  have hleave : ∀ {α : Type} {p : Py α}, Sat (traced (sessionStep rem)) G (fun s _ => Leave s)
      (fun s _ => Leave s) p ({}, []) →
      Sat (traced (sessionStep rem)) G _ _ p ({}, []) :=
        fun h => h.mono (fun s _ hl => hend hl) fun s _ hl => hend hl
  refine hleave (Sat.seq ((submit_calls hopen).mono (fun _ _ h => h) fun s _ h => hexit s h)
    fun s x hx => ?_)
  obtain ⟨job, created⟩ := x
  rcases hx with ⟨rfl, hu⟩ | ⟨rfl, rid, jid, t, t', rfl, hf, hs⟩
  · exact hexit s hu
  · obtain ⟨s, past⟩ := s
    have hs : s = _ := hs
    subst hs
    exact Sat.seq (runJob_calls hopen hf (hjob rid jid t t')) fun s _ hl => hl

end Create

section Parties

variable {c d : Parties R} {i : Nat} {e : Eff} {a : Ans e}

theorem traces (hs : Step (fun i => World.step rem i) c i ⟨e, a⟩ d) (k : Nat) :
    (d.procs k).trace = (c.procs k).trace ∨ k = i ∧
    (d.procs k).trace = (c.procs k).trace ++ [⟨e, a⟩] := by
  by_cases hk : k = i
  · subst hk
    exact .inr ⟨rfl, hs.trace_self⟩
  · rw [hs.proc_other hk]
    exact .inl rfl

theorem keys_same (hs : Step (fun i => World.step rem i) c i ⟨e, a⟩ d) (he : e ≠ .sys .uuid4)
    (k : Nat) :
    keysOf (d.procs k).trace = keysOf (c.procs k).trace := by
  rcases traces hs k with h | ⟨-, h⟩
  · rw [h]
  · rw [h, keysOf_snoc he]

theorem committed_later (hs : Step (fun i => World.step rem i) c i ⟨e, a⟩ d) {k : Nat}
    (h : Committed (c.procs k).trace) : Committed (d.procs k).trace := by
  rcases traces hs k with ht | ⟨-, ht⟩
  · rwa [ht]
  · rw [ht]
    exact h.append _

end Parties

end ServerManager.CreateCalls
