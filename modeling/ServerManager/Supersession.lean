import ServerManager.FailedAttempts
import ServerManager.Outcomes

namespace ServerManager.Supersession

open Interaction Interleaving PyJson Orm Effects Config Reconciliation Api Storage Sessions Frames
  CreateCalls FailedAttempts Rehearsals
open Outcomes Replay

variable {R : Type} {rem : Remote R} {w w' : World R} {db : Db} {j : Nat} {rid : Uuid}
  {by_ : Option Uuid}

structure Accepts (rid : Uuid) (by_ : Option Uuid) (db : Db) (r : AgentRuntime) : Prop where
  row : db.runtime? rid = some r
  target : ∃ lid live, by_ = some lid ∧ lid ≠ rid ∧ db.runtime? lid = some live
  current : r.actualState ≠ .superseded
  vmid : r.vmid = none
  node : r.node = none
  idle : r.actualState ≠ .running

/-- The session has rows as the database has them, and nothing to write. -/
structure Looking (db : Db) (j : Nat) (w : World R) : Prop where
  base : w.db = db
  objs : ∀ o ∈ (w.sessions j).objs, db.runtime? o.cur.runtimeId = some o.cur
  jobs : (w.sessions j).jobs = []
  new : (w.sessions j).new = []
  txn : (w.sessions j).txn = []

theorem looking_start (h : w.sessions j = {}) : Looking w.db j w := by
  refine ⟨rfl, fun o ho => ?_, ?_, ?_, ?_⟩
  all_goals rw [h] at *
  cases ho

theorem Looking.get {k : Uuid} {a : Option AgentRuntime} (h : Looking db j w)
    (hs : w.step rem j (.db (.getRuntime k)) a w') : a = db.runtime? k ∧ Looking db j w' := by
  have hview : w.view j = db := by
    rw [World.view, h.txn, h.base]
    rfl
  simp only [World.step, World.dbStep] at hs
  split at hs
  next o ho =>
      have hk := h.objs o (List.mem_of_find?_eq_some ho)
      rw [obj_key ho] at hk
      rw [hs.1, hs.2]
      exact ⟨hk.symm, h⟩
  next hno =>
      rw [hview] at hs
      split at hs
      next r hr =>
          have hload := load_new ((runtime?_key hr).symm ▸ hno)
          rw [hs.1, hs.2, hload]
          refine ⟨hr.symm, h.base, fun o ho => ?_, ?_, ?_, ?_⟩
          all_goals rw [setSession_self] at *
          · rcases List.mem_append.mp ho with ho | ho
            · exact h.objs o ho
            · rw [List.mem_singleton.mp ho]
              exact (runtime?_key hr).symm ▸ hr
          · exact h.jobs
          · exact h.new
          · exact h.txn
      next hr =>
          rw [hs.1, hs.2]
          exact ⟨hr.symm, h⟩

/-- Some objects may have changed, and these events are to be inserted. -/
structure Noting (db : Db) (j : Nat) (evs : List RuntimeEvent) (w : World R) : Prop where
  base : w.db = db
  jobs : (w.sessions j).jobs = []
  new : (w.sessions j).new = evs.map .insertEvent
  txn : (w.sessions j).txn = []

theorem Looking.noting (h : Looking db j w) : Noting db j [] w := ⟨h.base, h.jobs, h.new, h.txn⟩

variable {evs : List RuntimeEvent}

theorem Noting.modify {b : Bool} {f : AgentRuntime → AgentRuntime} {a : Unit}
    (h : Noting db j evs w)
    (hs : w.step rem j (.db (.modify rid b f)) a w') : Noting db j evs w' := by
  rw [show w' = _ from hs]
  refine ⟨h.base, ?_, ?_, ?_⟩
  all_goals rw [setSession_self]
  · exact h.jobs
  · exact h.new
  · exact h.txn

theorem Noting.event {ev : RuntimeEvent} {a : Unit} (h : Noting db j evs w)
    (hs : w.step rem j (.db (.addEvent ev)) a w') : Noting db j (evs ++ [ev]) w' := by
  rw [show w' = _ from hs]
  refine ⟨h.base, ?_, ?_, ?_⟩
  all_goals rw [setSession_self]
  · exact h.jobs
  · rw [h.new, List.map_append]
    rfl
  · exact h.txn

theorem newEvents_insert (t : Time) (evs : List RuntimeEvent) :
    ((evs.map Write.insertEvent).map (stamped t)).flatMap newEvents = evs := by
  induction evs with
  | nil => rfl
  | cons ev evs ih => exact congrArg (ev :: ·) ih

theorem Noting.sent (h : Noting db j evs w) (t : Time) :
    ((w.sessions j).flush t).txn.flatMap newEvents = evs := by
  have hobjs : ((w.sessions j).objs.flatMap Obj.write).flatMap newEvents = [] := by
    apply List.flatMap_eq_nil_iff.mpr
    intro x hx
    obtain ⟨o, -, hx⟩ := List.mem_flatMap.mp hx
    unfold Obj.write at hx
    split at hx
    · rw [List.mem_singleton.mp hx]
      rfl
    · cases hx
  rw [Session.flush, Session.pending, h.txn, h.jobs, h.new, List.flatMap_append,
    List.flatMap_append, List.flatMap_append,
    hobjs, newEvents_insert]
  rfl

theorem Noting.commit (h : Noting db j evs w) :
    Sat (World.step rem j) (fun _ _ => True) (fun w' _ => w'.db.events = db.events ++ evs)
      (fun _ _ => False) commit w := by
  have hno : ∀ x, .insertJob x ∉ (w.sessions j).new := by
    intro x hx
    rw [h.new] at hx
    obtain ⟨ev, -, he⟩ := List.mem_map.mp hx
    cases he
  refine (sat_bind _ _ _).mpr ⟨trivial, fun a w₁ hs => ?_⟩
  obtain ⟨rfl, t, hs₁⟩ := session_sent (sessionStep_step hs) hno
  have hdb : w₁.db = db := ((step_db hs).resolve_right fun hx => by cases hx.1).trans h.base
  refine ⟨trivial, fun b w₂ hs₂ => ?_⟩
  obtain ⟨-, t', hdb'⟩ := step_commit hs₂
  change w₂.db.events = _
  rw [hdb', hdb, applyAll_newEvents, hs₁]
  exact congrArg (db.events ++ ·) (h.sent t)

def recordedEvent (rid : Uuid) (live : AgentRuntime) (reason : Option String) (actor : String) :
    RuntimeEvent where
  runtimeId := rid
  actor := actor
  action := "runtime_superseded"
  detail :=
    [("superseded_by", .str live.runtimeId.str), ("previous_state", .str ActualState.error.value),
    ("reason", textOr reason)]

theorem markSuperseded_sat (live : AgentRuntime) (reason : Option String) (actor : String)
    (h : Looking db j w) :
    Sat (World.step rem j) (fun _ _ => True) (fun w' _ => w'.db.events = db.events ++
      [recordedEvent rid live reason actor])
      (fun _ _ => False) (markSuperseded rid live reason actor) w := by
  refine (sat_bind _ _ _).mpr ⟨trivial, fun _ w₁ h₁ => ?_⟩
  have hn₁ := h.noting.modify h₁
  refine (sat_bind _ _ _).mpr ⟨trivial, fun t w₂ h₂ => ?_⟩
  have hn₂ : Noting db j [] w₂ := by
    rw [show w₂ = _ from h₂.2]
    exact ⟨hn₁.base, hn₁.jobs, hn₁.new, hn₁.txn⟩
  refine (sat_bind _ _ _).mpr ⟨trivial, fun _ w₃ h₃ => ?_⟩
  have hn₃ := hn₂.modify h₃
  refine (sat_bind _ _ _).mpr ((sat_call _ _ _).mpr ⟨trivial, fun _ w₄ h₄ => ?_⟩)
  exact (hn₃.event h₄).commit

def Superseded (rid : Uuid) (by_ : Option Uuid) (reason : Option String) (actor : String)
    (db db' : Db) : Prop :=
  (∃ r, Accepts rid by_ db r) ∧ ∃ live, db'.events = db.events ++
    [recordedEvent rid live reason actor]

def Refused (rid : Uuid) (by_ : Option Uuid) (db db' : Db) : Prop :=
  (∀ r, ¬ Accepts rid by_ db r) ∧ db' = db

theorem close_sat {P : Db → Prop} {X : World R → PyExc → Prop} (h : P w.db) :
    Sat (World.step rem j) (fun _ _ => True) (fun w' _ => P w'.db) X close w := by
  refine ⟨trivial, fun a w' hs => ?_⟩
  rw [show w' = _ from hs]
  exact h

theorem Looking.refused {α : Type} {Q : World R → α → Prop} {status : Nat} {detail : String}
    (h : Looking db j w)
    (hno : ∀ r, ¬ Accepts rid by_ db r) :
    Sat (World.step rem j) (fun _ _ => True) Q (fun w' _ => Refused rid by_ db w'.db)
      (httpError status detail) w :=
  ⟨hno, h.base⟩

theorem supersede_sat (reason : Option String) (actor : String) (h : w.sessions j = {}) :
    Sat (World.step rem j) (fun _ _ => True) (fun w' _ =>
      Superseded rid by_ reason actor w.db w'.db)
      (fun w' _ => Refused rid by_ w.db w'.db) (supersedeAgentRuntime rid by_ reason actor) w := by
  have hstart := looking_start h
  generalize w.db = db at hstart ⊢
  unfold supersedeAgentRuntime
  rw [sat_withSession]
  refine Sat.mono (Q := fun w' _ => Superseded rid by_ reason actor db w'.db)
    (X := fun w' _ => Refused rid by_ db w'.db) ?_ (fun _ _ hq => close_sat hq) fun _ _ hx =>
    close_sat hx
  rw [sat_bind, sat_getRuntime]
  refine ⟨trivial, fun a w₁ h₁ => ?_⟩
  obtain ⟨rfl, hl₁⟩ := hstart.get h₁
  cases hr : db.runtime? rid with
  | none => exact hl₁.refused fun r ha => by cases hr.symm.trans ha.row
  | some r =>
      have hsame : ∀ r', Accepts rid by_ db r' → r' = r :=
        fun r' ha => Option.some.inj (ha.row.symm.trans hr)
      cases by_ with
      | none =>
          refine hl₁.refused fun r' ha => ?_
          obtain ⟨lid, -, hb, -⟩ := ha.target
          cases hb
      | some lid =>
          refine (sat_bind _ _ _).mpr ((sat_getRuntime _).mpr ⟨trivial, fun b w₂ h₂ => ?_⟩)
          obtain ⟨rfl, hl₂⟩ := hl₁.get h₂
          cases hlive : db.runtime? lid with
          | none =>
              refine hl₂.refused fun r' ha => ?_
              obtain ⟨lid', live, hb, -, hlive'⟩ := ha.target
              cases hb
              cases hlive.symm.trans hlive'
          | some live =>
              change Sat _ _ _ _ (if r.runtimeId = live.runtimeId then _ else _) w₂
              rw [runtime?_key hr, runtime?_key hlive]
              split
              next he =>
                  refine hl₂.refused fun r' ha => ?_
                  obtain ⟨lid', live', hb, hne, -⟩ := ha.target
                  cases hb
                  exact hne he.symm
              next hne =>
                  split
                  next hsup => exact hl₂.refused fun r' ha => ha.current (hsame r' ha ▸ hsup)
                  next hsup =>
                      split
                      next hvm =>
                          refine hl₂.refused fun r' ha => ?_
                          obtain rfl := hsame r' ha
                          exact hvm.elim (fun hv => hv ha.vmid) fun hn => hn ha.node
                      next hvm =>
                          split
                          next hrun => exact hl₂.refused fun r' ha => ha.idle (hsame r' ha ▸ hrun)
                          next hrun =>
                              obtain ⟨hv, hn⟩ := not_or.mp hvm
                              have hacc : Accepts rid (some lid) db r :=
                                ⟨hr, ⟨lid, live, rfl, Ne.symm hne, hlive⟩, hsup, not_not.mp hv,
                                  not_not.mp hn, hrun⟩
                              refine (markSuperseded_sat live reason actor hl₂).mono
                                (fun w' _ hev => ?_) fun _ _ hx => ?_
                              · exact ⟨⟨r, hacc⟩, live, hev⟩
                              · exact False.elim hx

/-- An accepted request has met a failed attempt without a VM and says so, and
a refused one has changed no row and no event. -/
def Faithful (rid : Uuid) (db db' : Db) : Except PyExc Unit → Prop
  | .ok _ =>
      ∃ r ev, db.runtime? rid = some r ∧ Failed db rid ∧ r.actualState = .error ∧ r.node = none ∧
        r.vmid = none ∧
      db'.events = db.events ++ [ev] ∧ ev.action = "runtime_superseded" ∧ ev.runtimeId = rid ∧
      Dict.get? ev.detail "previous_state" = some (.str r.actualState.value)
  | .error _ => db'.runtimes = db.runtimes ∧ db'.events = db.events

/-- A row without a VM that is no failed attempt, and another row to supersede it. -/
def Slips (rid : Uuid) (by_ : Option Uuid) (db : Db) : Prop :=
  ∃ r lid live, db.runtime? rid = some r ∧ by_ = some lid ∧ lid ≠ rid ∧
    db.runtime? lid = some live ∧
    r.node = none ∧ r.vmid = none ∧ r.actualState ∈ [.absent, .provisioning, .stopped, .destroyed]

theorem Slips.accepts (h : Slips rid by_ db) : ∃ r, Accepts rid by_ db r ∧
    r.actualState ≠ .error := by
  obtain ⟨r, lid, live, hr, hb, hne, hl, hn, hv, ha⟩ := h
  refine ⟨r, ⟨hr, ⟨lid, live, hb, hne, hl⟩, ?_, hv, hn, ?_⟩, ?_⟩
  all_goals
    intro he
    rw [he] at ha
    simp at ha

theorem Accepts.error {r : AgentRuntime} (h : Accepts rid by_ db r) (hs : ¬ Slips rid by_ db) :
    r.actualState = .error := by
  obtain ⟨lid, live, hb, hne, hl⟩ := h.target
  have hno : r.actualState ∉ [.absent, .provisioning, .stopped, .destroyed] := fun ha =>
    hs ⟨r, lid, live, h.row, hb, hne, hl, h.node, h.vmid, ha⟩
  have hcur := h.current
  have hidle := h.idle
  cases hstate : r.actualState with
  | error => rfl
  | absent | provisioning | stopped | destroyed => simp [hstate] at hno
  | running => exact absurd hstate hidle
  | superseded => exact absurd hstate hcur

/-- Whatever the requests before it have made of the rows, a supersede request
keeps to failed attempts exactly where the row is no other attempt without a VM. -/
theorem supersede_faithful {cfg : Settings} {reqs : Nat → Request} {w : World R} {c : Parties R}
    {reason : Option String}
    {actor : String} {tr : PyTrace} {o : Except PyExc Unit} (hw : Beginning w)
    (hr : Reach (fun i => World.step rem i) (fun _ _ _ => True)
    (Interleaving.start w fun i => (reqs i).prog cfg) c)
    (hq : reqs j = .supersede rid by_ reason actor) (ht : (c.procs j).trace = [])
    (hx : Exec (World.step rem j) c.world ((reqs j).prog cfg) tr w' (finished o)) :
    Faithful rid c.world.db w'.db o ↔ ¬ Slips rid by_ c.world.db := by
  have hacc := accounted_reach hw hr
  rw [hq] at hx
  have hsat := (supersede_sat reason actor (hacc.fresh j ht)).exec hx
  cases o with
  | error x =>
      obtain ⟨hno, hdb⟩ : Refused rid by_ c.world.db w'.db := hsat
      refine ⟨fun _ hs => ?_, fun _ => ?_⟩
      · obtain ⟨r, ha, -⟩ := hs.accepts
        exact hno r ha
      · rw [hdb]
        exact ⟨rfl, rfl⟩
  | ok u =>
      obtain ⟨⟨r, ha⟩, live, hev⟩ : Superseded rid by_ reason actor c.world.db w'.db := hsat
      refine ⟨fun hf hs => ?_, fun hs => ?_⟩
      · obtain ⟨r', -, hr', -, he, -⟩ := hf
        obtain ⟨r'', ha'', hne⟩ := hs.accepts
        cases hr'.symm.trans ha''.row
        exact hne he
      · have he := ha.error hs
        obtain ⟨x, hfound, rfl⟩ := Option.map_eq_some_iff.mp ha.row
        have hfail := hacc.failed (List.mem_of_find?_eq_some hfound) he
        rw [runtime?_key ha.row] at hfail
        refine ⟨x.row, recordedEvent rid live reason actor, ha.row, hfail, he, ha.node, ha.vmid,
          hev, rfl, rfl, ?_⟩
        rw [he]
        rfl

def unreachable : Oracle Unit where
  pve u _ := some (.error ⟨.other "URLError", "unreachable"⟩, u)
  kea _ _ := none
  neigh _ _ := none

def answers (i : Nat) (m : Machine Unit) (e : Eff) : Option (Ans e × Machine Unit) :=
  Machine.answer unreachable i m e

theorem answers_step (i : Nat) (m : Machine Unit) (e : Eff) (a : Ans e) (m' : Machine Unit)
    (h : answers i m e = some (a, m')) :
    World.step Remote.any i (m.world (fun _ => ())) e a (m'.world (fun _ => ())) :=
  Machine.answer_step unreachable.follows_any i m e a m' h

def attempts : List Request :=
  [.create { acmsAgentId := "agent-1", requestId := "req-1", name := "worker-1" } "acms",
    .create { acmsAgentId := "agent-1", requestId := "req-2", name := "worker-2" } "acms",
    .supersede ⟨1⟩ (some ⟨3⟩) none "operator"]

/-- The first request makes `n` calls, the second one queues its job. -/
def schedule (n : Nat) : List Nat := List.replicate n 0 ++ List.replicate 9 1

def board (n : Nat) : Played Unit := (opening {} {} () attempts).play answers (schedule n)

def superseding (n : Nat) : PyTrace × Machine Unit × Py Unit :=
  play (answers 2) 9 (board n).state ((Request.supersede ⟨1⟩ (some ⟨3⟩) none "operator").prog {})

def reqsAfter (i : Nat) : Request := cast attempts (.reconcileEvery {}) i

def config (n : Nat) : Parties Unit := shown {} (fun _ => ()) (.reconcileEvery {}) (board n)

/-- The request comes through once the others have come so far, and finds the row in this state. -/
def accepted (n : Nat) (state : ActualState) : Bool :=
  (opening {} {} () attempts).follows answers (fun _ _ => true) (schedule n) &&
    (traceOf (board n) 2).isEmpty &&
    (outcome? (superseding n).2.2).any (fun o => o.toBool) &&
      ((board n).state.db.runtime? ⟨1⟩).any (fun r => r.actualState = state)

def emptyWorld : World Unit := (opening {} {} () attempts).state.world fun _ => ()

theorem beginning_attempts : Beginning emptyWorld :=
  ⟨rfl, opening_sessions {} (fun _ => ()) {} () attempts⟩

theorem accepted_run {n : Nat} {state : ActualState} (h : accepted n state = true) :
    Reach (fun i => World.step Remote.any i) (fun _ _ _ => True)
        (Interleaving.start emptyWorld fun i => (reqsAfter i).prog {}) (config n) ∧
      ((config n).procs 2).trace = [] ∧
      Exec (World.step Remote.any 2) (config n).world ((reqsAfter 2).prog {}) (superseding n).1
        ((superseding n).2.1.world fun _ => ()) (finished (.ok ())) ∧
      ∃ r, (config n).world.db.runtime? ⟨1⟩ = some r ∧ r.actualState = state := by
  simp only [accepted, Bool.and_eq_true] at h
  obtain ⟨⟨⟨hf, ht⟩, ho⟩, hr⟩ := h
  refine ⟨?_, ?_, ?_, ?_⟩
  · have hreach :=
      Board.follows_reach (P := fun _ _ _ => True) ⟨(Request.reconcileEvery {}).prog {}, []⟩
        answers_step
      (fun _ _ _ _ => trivial) hf
    have hshown := shown_opening {} (fun _ => ()) {} () attempts (.reconcileEvery {})
    rw [shown] at hshown
    rw [hshown] at hreach
    exact hreach
  · rw [config, shown_trace]
    simpa using ht
  · obtain ⟨o, hout, hok⟩ := (Option.any_eq_true _ _).mp ho
    have hx := play_exec (Machine.world fun _ => ()) (answers 2) (answers_step 2) 9 (board n).state
      ((Request.supersede ⟨1⟩ (some ⟨3⟩) none "operator").prog {})
    have hq : (superseding n).2.2 = finished o := finished_of_outcome hout
    cases o with
    | error x => cases hok
    | ok u =>
        rw [← hq]
        exact hx
  · obtain ⟨r, hr, hs⟩ := (Option.any_eq_true _ _).mp hr
    exact ⟨r, hr, of_decide_eq_true hs⟩

/-- A request against a row whose job is still queued is accepted. -/
theorem queued_superseded :
    ¬ ∀ (cfg : Settings) (reqs : Nat → Request) (w w' : World Unit) (c : Parties Unit) (j :
      Nat) (rid : Uuid)
        (by_ : Option Uuid) (reason : Option String) (actor : String) (tr : PyTrace)
          (o : Except PyExc Unit),
      Beginning w →
      Reach (fun i => World.step Remote.any i) (fun _ _ _ => True)
        (Interleaving.start w fun i => (reqs i).prog cfg) c →
      reqs j = .supersede rid by_ reason actor → (c.procs j).trace = [] →
      Exec (World.step Remote.any j) c.world ((reqs j).prog cfg) tr w' (finished o) →
      Faithful rid c.world.db w'.db o := by
  intro h
  have hq : accepted 9 .absent = true := by decide +kernel
  obtain ⟨hr, ht, hx, r, hrow, habs⟩ := accepted_run hq
  obtain ⟨r', ev, hrow', -, herr, -⟩ :=
    h {} reqsAfter emptyWorld _ _ 2 ⟨1⟩ (some ⟨3⟩) none "operator" _ (.ok ())
    beginning_attempts hr rfl ht hx
  cases hrow.symm.trans hrow'
  rw [habs] at herr
  cases herr

theorem failed_superseded :
    Faithful ⟨1⟩ (config 49).world.db ((superseding 49).2.1.world fun _ => ()).db (.ok ()) := by
  have hq : accepted 49 .error = true := by decide +kernel
  obtain ⟨hr, ht, hx, r, hrow, herr⟩ := accepted_run hq
  refine (supersede_faithful beginning_attempts hr rfl ht hx).mpr ?_
  rintro ⟨r', lid, live, hrow', -, -, -, -, -, hstate⟩
  cases hrow.symm.trans hrow'
  rw [herr] at hstate
  simp at hstate

end ServerManager.Supersession
