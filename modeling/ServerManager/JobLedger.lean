import ServerManager.JobRows

namespace ServerManager.JobLedger

open Interaction PyJson Orm Effects Storage Calls Sessions Frames JobCalls JobRows

/-- The steps of a job, and the events and bridge registrations of its runtime. -/
structure Tables where
  steps : List ProvisioningStep := []
  events : List RuntimeEvent := []
  bridges : List BridgeRegistration := []

def tablesOf (jid rid : Uuid) (db : Db) : Tables where
  steps := db.steps.filter (fun st => st.jobId = jid)
  events := db.events.filter (fun ev => ev.runtimeId = rid)
  bridges := db.bridges.filter (fun b => b.runtimeId = rid)

def putStep (st : ProvisioningStep) (rows : List ProvisioningStep) : List ProvisioningStep :=
  rows.map (fun x => if x.seq = st.seq then st else x)

namespace Tables

def put (jid rid : Uuid) (t : Tables) : Write → Tables
  | .updateStep st => if st.jobId = jid then { t with steps := putStep st t.steps } else t
  | .insertStep st => if st.jobId = jid then { t with steps := t.steps ++ [st] } else t
  | .insertEvent ev => if ev.runtimeId = rid then { t with events := t.events ++ [ev] } else t
  | .insertBridge b => if b.runtimeId = rid then { t with bridges := t.bridges ++ [b] } else t
  | _ => t

end Tables

theorem filter_putStep (jid : Uuid) (st : ProvisioningStep) (rows : List ProvisioningStep) :
    (rows.map (fun x => if x.jobId = st.jobId ∧ x.seq = st.seq then st else x)).filter
    (fun x => x.jobId = jid) =
      if st.jobId = jid then putStep st (rows.filter (fun x => x.jobId = jid))
      else rows.filter (fun x => x.jobId = jid) := by
  induction rows with
  | nil => simp [putStep]
  | cons x rows ih =>
      simp only [putStep] at ih ⊢
      by_cases hx : x.jobId = jid
      · by_cases hs : st.jobId = jid
        · simp only [hs, if_true] at ih ⊢
          by_cases hq : x.seq = st.seq
          · simp [hx, hs, hq, ih]
          · simp [hx, hq, ih]
        · simp [hx, hs, Ne.symm hs, ih]
      · have hk : (if x.jobId = st.jobId ∧ x.seq = st.seq then st else x).jobId ≠ jid := by
          split
          next h => exact h.1 ▸ hx
          · exact hx
        simp [hx, hk, ih]

variable {jid rid : Uuid}

theorem apply_tables (t : Time) (db : Db) (x : Write) :
    tablesOf jid rid (db.apply t x) = (tablesOf jid rid db).put jid rid x := by
  cases x with
  | updateStep st =>
      simp only [tablesOf, Db.apply, Tables.put, filter_putStep]
      split <;> rfl
  | insertStep st =>
      simp only [tablesOf, Db.apply, Tables.put, List.filter_append]
      by_cases h : st.jobId = jid <;> simp [h]
  | insertEvent ev =>
      simp only [tablesOf, Db.apply, Tables.put, List.filter_append]
      by_cases h : ev.runtimeId = rid <;> simp [h]
  | insertBridge b =>
      simp only [tablesOf, Db.apply, Tables.put, List.filter_append]
      by_cases h : b.runtimeId = rid <;> simp [h]
  | updateRuntime | updateJob | insertRuntime | insertJob => rfl

theorem applyAll_tables (t : Time) (db : Db) (ws : List Write) :
    tablesOf jid rid (db.applyAll t ws) = ws.foldl (Tables.put jid rid) (tablesOf jid rid db) := by
  induction ws generalizing db with
  | nil => rfl
  | cons x ws ih =>
      have h := ih (db.apply t x)
      rw [apply_tables] at h
      exact h

theorem put_objs (os : List Obj) (js : List JobObj) (x : Tables) :
    (os.flatMap Obj.write ++ js.flatMap JobObj.write).foldl (Tables.put jid rid) x = x := by
  have hput : ∀ ws : List Write, (∀ y ∈ ws, ∀ x, Tables.put jid rid x y = x) → ∀ x,
      ws.foldl (Tables.put jid rid) x = x := by
    intro ws
    induction ws with
    | nil => intro _ x; rfl
    | cons y ws ih =>
        intro h x
        rw [List.foldl_cons, h y List.mem_cons_self]
        exact ih (fun z hz => h z (List.mem_cons_of_mem _ hz)) x
  refine hput _ (fun y hy x => ?_) x
  rcases List.mem_append.mp hy with hy | hy
  · obtain ⟨o, -, ho⟩ := List.mem_flatMap.mp hy
    unfold Obj.write at ho
    split at ho
    · rw [List.mem_singleton.mp ho]
      rfl
    · cases ho
  · obtain ⟨o, -, ho⟩ := List.mem_flatMap.mp hy
    unfold JobObj.write at ho
    split at ho
    · rw [List.mem_singleton.mp ho]
      rfl
    · cases ho

theorem put_stamped (t : Time) (ws : List Write) (x : Tables) :
    (ws.map (stamped t)).foldl (Tables.put jid rid) x = ws.foldl (Tables.put jid rid) x := by
  induction ws generalizing x with
  | nil => rfl
  | cons y ws ih =>
      have hy : Tables.put jid rid x (stamped t y) = Tables.put jid rid x y := by
        cases y <;> rfl
      rw [List.map_cons, List.foldl_cons, List.foldl_cons, hy]
      exact ih _

structure Record where
  row : AgentRuntime
  job : ProvisioningJob
  tables : Tables

def upsert (st : ProvisioningStep) (rows : List ProvisioningStep) : List ProvisioningStep :=
  if rows.any (fun x => x.seq = st.seq) then putStep st rows else rows ++ [st]

def Record.stepped (x : Record) (st : ProvisioningStep) : Record :=
  { x with tables := { x.tables with steps := upsert st x.tables.steps } }

/-- What a job that ends with `x` leaves as its error. -/
def failureText (x : PyExc) : String :=
  let cls := x.cls.name
  let msg := x.msg
  String.ofList (s!"{cls}: {msg}".toList.take 800)

def failedEvent (rid : Uuid) (x : PyExc) : RuntimeEvent :=
  { runtimeId := rid, actor := "arm", action := "provision_failed", result := "error"
    detail := [("error", .str (failureText x))] }

def Record.failed (rid : Uuid) (x : PyExc) (y : Record) : Record where
  row := markFailed y.row
  job := jobFailed (failureText x) y.job
  tables := { y.tables with events := y.tables.events ++ [failedEvent rid x] }

def Record.begun (x : Record) : Record := { x with job := { x.job with state := .running } }

/-- The record of a job as it is committed, as its transaction has sent it and
as its session has it. -/
structure Ledger where
  kept : Record
  sent : Record
  now : Record

namespace Ledger

def settled (x : Record) : Ledger := ⟨x, x, x⟩

def step (jid rid : Uuid) (L : Ledger) : Eff → Ledger
  | .db (.modify _ _ f) => { L with now := { L.now with row := f L.now.row } }
  | .db (.modifyJob _ f) => { L with now := { L.now with job := f L.now.job } }
  | .db .flush => { L with sent := L.now }
  | .db .commit => { L with kept := L.sent }
  | e =>
      match adds e with
      | some x => { L with now := { L.now with tables := L.now.tables.put jid rid x } }
      | none => L

def Knows (jid rid : Uuid) (L : Ledger) : (e : Eff) → Ans e → Prop
  | .db (.getJob k), a => k = jid → a = some L.now.job
  | .db (.getRuntime k), a => k = rid → a = some L.now.row
  | .db .flush, a => a = Except.ok ()
  | .db (.findStep k seq), a => k = jid → a = L.sent.tables.steps.find? (fun st => st.seq = seq)
  | _, _ => True

end Ledger

def booked (jid rid : Uuid) (L : Ledger) (e : Eff) (a : Ans e) (L' : Ledger) : Prop :=
  L.Knows jid rid e a ∧ L' = L.step jid rid e

/-- The database and the session of the job stand behind its ledger. -/
structure Reflects {R : Type} (i : Nat) (jid rid : Uuid) (w : World R) (L : Ledger) : Prop where
  row : w.db.runtime? rid = some L.kept.row
  job : w.db.job? jid = some L.kept.job
  tables : tablesOf jid rid w.db = L.kept.tables
  holds : ∃ dirty, Holds w.db (w.sessions i) rid L.sent.row L.now.row dirty
  jobHolds : JobHolds w.db (w.sessions i) jid L.sent.job L.now.job
  sent : (w.sessions i).txn.foldl (Tables.put jid rid) L.kept.tables = L.sent.tables
  now : (w.sessions i).new.foldl (Tables.put jid rid) L.sent.tables = L.now.tables

section Step

variable {R : Type} {rem : Remote R} {i : Nat} {w w' : World R} {e : Eff} {a : Ans e} {L : Ledger}

theorem Reflects.view (h : Reflects i jid rid w L) :
    tablesOf jid rid (w.view i) = L.sent.tables := by
  rw [World.view, applyAll_tables, h.tables]
  exact h.sent

theorem find_step (rows : List ProvisioningStep) (seq : Nat) :
    rows.find? (fun st => st.jobId = jid ∧ st.seq = seq) =
      (rows.filter (fun st => st.jobId = jid)).find? (fun st => st.seq = seq) := by
  rw [List.find?_filter]
  simp

theorem Reflects.find (h : Reflects i jid rid w L) (seq : Nat) :
    (w.view i).steps.find? (fun st => st.jobId = jid ∧ st.seq = seq) =
      L.sent.tables.steps.find? (fun st => st.seq = seq) := by
  rw [find_step, ← h.view]
  rfl

theorem Reflects.modify (h : Reflects i jid rid w L) {k : Uuid} {b : Bool}
    {f : AgentRuntime → AgentRuntime}
    (hh : ∃ dirty, Holds w.db ((w.sessions i).modify k b f) rid L.sent.row (f L.now.row) dirty) :
    Reflects i jid rid (w.setSession i ((w.sessions i).modify k b f))
      (L.step jid rid (.db (.modify k b f))) := by
  have hset := setSession_self w i ((w.sessions i).modify k b f)
  refine ⟨h.row, h.job, h.tables, ?_, ?_, ?_, ?_⟩
  · rw [hset]
    exact hh
  · rw [hset]
    exact h.jobHolds.objs _
  · rw [hset]
    exact h.sent
  · rw [hset]
    exact h.now

theorem Reflects.modifyJob (h : Reflects i jid rid w L) {f : ProvisioningJob → ProvisioningJob}
    (hf : JobTracked f) :
    Reflects i jid rid (w.setSession i ((w.sessions i).modifyJob jid f))
      (L.step jid rid (.db (.modifyJob jid f))) := by
  have hset := setSession_self w i ((w.sessions i).modifyJob jid f)
  obtain ⟨dirty, hh⟩ := h.holds
  refine ⟨h.row, h.job, h.tables, ?_, ?_, ?_, ?_⟩
  · rw [hset]
    exact ⟨dirty, hh.jobs _⟩
  · rw [hset]
    exact h.jobHolds.modify hf
  · rw [hset]
    exact h.sent
  · rw [hset]
    exact h.now

theorem Reflects.add (h : Reflects i jid rid w L) {x : Write} (hx : Aside rid x ∧ Plain x)
    (hj : JobAside jid x) :
    Reflects i jid rid (w.setSession i { w.sessions i with new := (w.sessions i).new ++ [x] })
      { L with now := { L.now with tables := L.now.tables.put jid rid x } } := by
  have hset := setSession_self w i { w.sessions i with new := (w.sessions i).new ++ [x] }
  obtain ⟨dirty, hh⟩ := h.holds
  refine ⟨h.row, h.job, h.tables, ?_, ?_, ?_, ?_⟩
  · rw [hset]
    exact ⟨dirty, hh.add hx⟩
  · rw [hset]
    exact h.jobHolds.add hj
  · rw [hset]
    exact h.sent
  · rw [hset]
    simp only [List.foldl_append, h.now]
    rfl

theorem Reflects.loadAll (h : Reflects i jid rid w L) {rs : List AgentRuntime}
    (hrs : ∀ x ∈ rs, x.runtimeId ≠ rid) :
    Reflects i jid rid (w.setSession i ((w.sessions i).loadAll rs).2) L := by
  have hset := setSession_self w i ((w.sessions i).loadAll rs).2
  obtain ⟨os, hos⟩ := loadAll_objs rs (w.sessions i)
  obtain ⟨dirty, hh⟩ := h.holds
  refine ⟨h.row, h.job, h.tables, ?_, ?_, ?_, ?_⟩
  · rw [hset]
    exact ⟨dirty, holds_loadAll hh hrs⟩
  · rw [hset, hos]
    exact h.jobHolds.objs os
  · rw [hset, hos]
    exact h.sent
  · rw [hset, hos]
    exact h.now

theorem Reflects.flush (h : Reflects i jid rid w L) {a : Except PyExc Unit}
    (hs : w.step rem i (.db .flush) a w') :
    a = .ok () ∧ Reflects i jid rid w' { L with sent := L.now } := by
  obtain ⟨dirty, hh⟩ := h.holds
  obtain ⟨rfl, hh'⟩ := holds_flush hs hh
  obtain ⟨-, -, rfl⟩ := hs
  have hset := setSession_self w i ((w.sessions i).flush w.clock)
  refine ⟨rfl, h.row, h.job, h.tables, ⟨false, hh'⟩, ?_, ?_, ?_⟩
  · rw [hset]
    exact h.jobHolds.flush w.clock
  · rw [hset]
    simp only [Session.flush, Session.pending]
    rw [List.foldl_append, h.sent, List.foldl_append, put_objs, put_stamped]
    exact h.now
  · rw [hset]
    rfl

theorem Reflects.commit (h : Reflects i jid rid w L) {a : Ans (.db .commit)}
    (hs : w.step rem i (.db .commit) a w') :
    Reflects i jid rid w' { L with kept := L.sent } := by
  obtain ⟨dirty, hh⟩ := h.holds
  obtain ⟨hh', hrow⟩ := holds_commit hs hh
  obtain ⟨t, -, rfl⟩ := hs
  have hset := setSession_self w i { w.sessions i with txn := [] }
  have hj := h.jobHolds.commit t
  refine ⟨hrow, hj.row, ?_, ⟨dirty, hh'⟩, ?_, ?_, ?_⟩
  · rw [← h.sent, ← h.tables]
    exact applyAll_tables t w.db _
  · simp only [hset]
    exact hj
  · simp only [hset]
    rfl
  · simp only [hset]
    exact h.now

theorem reflects_ledger (h : Reflects i jid rid w L) (he : ledger e) (hs : w.step rem i e a w') :
    L.Knows jid rid e a ∧ Reflects i jid rid w' (L.step jid rid e) := by
  unfold ledger at he
  split at he
  next k seq =>
      obtain ⟨ha, rfl⟩ := hs
      refine ⟨?_, h⟩
      intro hk
      subst hk
      rw [ha]
      exact h.find seq
  next st =>
      rw [show w' = _ from hs]
      exact ⟨trivial, h.add (x := .updateStep st) ⟨trivial, trivial⟩ trivial⟩
  next st =>
      rw [show w' = _ from hs]
      exact ⟨trivial, h.add (x := .insertStep st) ⟨trivial, trivial⟩ trivial⟩
  next ev =>
      rw [show w' = _ from hs]
      exact ⟨trivial, h.add (x := .insertEvent ev) ⟨trivial, trivial⟩ trivial⟩
  next b =>
      rw [show w' = _ from hs]
      exact ⟨trivial, h.add (x := .insertBridge b) ⟨trivial, trivial⟩ trivial⟩
  · rw [show w' = w from hs.2]
    exact ⟨trivial, h⟩
  · exact h.flush hs
  · exact ⟨trivial, h.commit hs⟩
  · exact False.elim he

theorem ledger_remote (he : ∀ c, e ≠ .db c) : L.step jid rid e = L := by
  cases e with
  | db c => exact absurd rfl (he c)
  | pve | kea | sys => rfl

theorem knows_remote (he : ∀ c, e ≠ .db c) : L.Knows jid rid e a := by
  cases e with
  | db c => exact absurd rfl (he c)
  | pve | kea | sys => trivial

theorem reflects_step (h : Reflects i jid rid w L) (he : JobCall jid rid e)
    (hs : w.step rem i e a w') :
    L.Knows jid rid e a ∧ Reflects i jid rid w' (L.step jid rid e) := by
  have hremote : (∀ c, e ≠ .db c) → L.Knows jid rid e a ∧
      Reflects i jid rid w' (L.step jid rid e) := by
    intro hr
    obtain ⟨hdb, hse⟩ := step_remote hs hr
    refine ⟨knows_remote hr, ?_⟩
    rw [ledger_remote hr]
    refine ⟨?_, ?_, ?_, ?_, ?_, ?_, ?_⟩ <;> simp only [hdb, hse]
    · exact h.row
    · exact h.job
    · exact h.tables
    · exact h.holds
    · exact h.jobHolds
    · exact h.sent
    · exact h.now
  obtain ⟨dirty, hh⟩ := id h.holds
  have hmeta : ∀ f : Dict → Dict, w' = w.setSession i ((w.sessions i).modify rid true
      (fun r => { r with ownershipMeta := f r.ownershipMeta })) →
      Reflects i jid rid w' (L.step jid rid (metaCall rid f)) := by
    intro f hw
    rw [hw]
    exact h.modify ⟨true, holds_assignMeta hh f⟩
  have hassign : ∀ f, Tracked f → w' = w.setSession i ((w.sessions i).modify rid false f) →
      Reflects i jid rid w' (L.step jid rid (.db (.modify rid false f))) := by
    intro f hf hw
    rw [hw]
    exact h.modify ⟨dirty, hh.assign hf⟩
  cases he with
  | routine he =>
      rcases he with he | he
      · exact hremote (fun c hc => by subst hc; exact he)
      · exact reflects_ledger h he hs
  | clone | setConfig | start | kea => exact hremote fun c hc => Eff.noConfusion hc
  | others =>
      have hrows : ∀ x ∈ Query.run (.others rid) (w.view i), x.runtimeId ≠ rid := by
        intro x hx
        simpa using (List.mem_filter.mp hx).2
      rw [show w' = _ from hs.2]
      exact ⟨trivial, h.loadAll hrows⟩
  | note key v => exact ⟨trivial, hmeta (fun d => Dict.set d key v) hs⟩
  | reserved x => exact ⟨trivial, hmeta (recordedReservation x) hs⟩
  | state agent => exact ⟨trivial, hassign _ (tracked_stateColumns agent) hs⟩
  | placed v n => exact ⟨trivial, hassign _ (tracked_placed v n) hs⟩
  | error => exact ⟨trivial, hassign _ tracked_markFailed hs⟩
  | done =>
      rw [show w' = _ from hs]
      exact ⟨trivial, h.modifyJob jobTracked_done⟩
  | failed msg =>
      rw [show w' = _ from hs]
      exact ⟨trivial, h.modifyJob (jobTracked_failed msg)⟩

inductive RunCall (jid rid : Uuid) : Eff → Prop
  | job {e : Eff} : JobCall jid rid e → RunCall jid rid e
  | getJob : RunCall jid rid (.db (.getJob jid))
  | getRuntime : RunCall jid rid (.db (.getRuntime rid))
  | begin : RunCall jid rid (.db (.modifyJob jid (fun j => { j with state := .running })))

theorem reflects_run (h : Reflects i jid rid w L) (he : RunCall jid rid e)
    (hs : w.step rem i e a w') :
    booked jid rid L e a (L.step jid rid e) ∧ Reflects i jid rid w' (L.step jid rid e) := by
  cases he with
  | job he =>
      obtain ⟨hk, hr⟩ := reflects_step h he hs
      exact ⟨⟨hk, rfl⟩, hr⟩
  | getJob =>
      obtain ⟨o, ho, hc⟩ := h.jobHolds.known
      simp only [World.step, World.dbStep, ho] at hs
      obtain ⟨ha, rfl⟩ := hs
      refine ⟨⟨fun _ => ?_, rfl⟩, h⟩
      rw [ha, hc]
  | getRuntime =>
      obtain ⟨dirty, hh⟩ := h.holds
      obtain ⟨o, ho, hc⟩ := hh.known
      simp only [World.step, World.dbStep, ho] at hs
      obtain ⟨ha, rfl⟩ := hs
      refine ⟨⟨fun _ => ?_, rfl⟩, h⟩
      rw [ha, hc]
  | begin =>
      rw [show w' = _ from hs]
      exact ⟨⟨trivial, rfl⟩, h.modifyJob jobTracked_running⟩

theorem reflects_committed {r : AgentRuntime} {j : ProvisioningJob}
    (hh : Holds w.db (w.sessions i) rid r r false)
    (hj : JobHolds w.db (w.sessions i) jid j j) (hn : (w.sessions i).new = [])
    (ht : (w.sessions i).txn = []) :
    Reflects i jid rid w (.settled ⟨r, j, tablesOf jid rid w.db⟩) where
  row := by
    have h := hh.row
    rw [seenRow, ht] at h
    exact h
  job := by
    have h := hj.row
    rw [seenJob, ht] at h
    exact h
  tables := rfl
  holds := ⟨false, hh⟩
  jobHolds := hj
  sent := by rw [ht]; rfl
  now := by rw [hn]; rfl

end Step

end ServerManager.JobLedger
