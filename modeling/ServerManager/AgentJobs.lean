import ServerManager.AgentManager

namespace ServerManager.AgentJobs

open Interaction Interleaving AgentManager PyJson

/-- The calls of `_step`, in their order. -/
def calls : List (Nat × String × String) :=
  [(1, "VALIDATING", "RUNNING"), (2, "RESERVING", "DONE"), (3, "CLONING_VM", "RUNNING"),
    (3, "DONE", "DONE"),
    (4, "CONFIGURING_CLOUD_INIT", "RUNNING"), (4, "DONE", "DONE"), (5, "BOOTING", "RUNNING"),
    (5, "DONE", "DONE"),
    (6, "WAITING_GUEST", "DONE"), (7, "INJECTING_AGENT_CONFIG", "RUNNING"), (7, "DONE", "DONE"),
    (75, "PROVISIONING_LLM_KEY", "RUNNING"), (75, "PROVISIONING_LLM_KEY", "DONE"),
    (8, "STARTING_ST_AGENTD", "DONE"),
    (9, "STARTING_HARNESS", "DONE"), (10, "TESTING_LLM", "RUNNING"), (10, "DONE", "DONE"),
    (11, "TESTING_CHAT", "DONE"),
    (12, "READY", "DONE")]

def rowOf (jobId : Nat) (c : Nat × String × String) : StepRow := ⟨jobId, c.1, c.2.1, c.2.2, none⟩

def keyOf (r : StepRow) : Nat × Nat := (r.jobId, r.seq)

/-- The rows that the first `k` calls leave. -/
def rowsAfter (jobId k : Nat) : List StepRow :=
  ((calls.take k).map (rowOf jobId)).foldl (KeyedTable.upsert keyOf) []

inductive Outcome
  | running
  | ready
  | failed
  deriving DecidableEq

/-- `rows` and `marked` count the calls that the steps and the job itself have seen. -/
structure Shown where
  rows : Nat
  marked : Nat
  vmid : Option Int
  agent : Option (Int × String × String)
  outcome : Outcome

def Shown.start : Shown := ⟨0, 0, none, none, .running⟩

def Shown.state (x : Shown) : String :=
  match x.outcome with
  | .running => if x.marked = 0 then "REQUESTED" else "RUNNING"
  | .ready => "READY"
  | .failed => "ERROR"

def Shown.columns (x : Shown) : Option Int × Option String × Option String × Option String :=
  match x.agent with
  | none => (none, none, none, none)
  | some (vmid, ip, token) => (some vmid, some templateNode, some ip, some token)

def columns (a : Agent) : Option Int × Option String × Option String × Option String :=
  (a.vmid, a.node, a.agentIp, a.agentToken)

structure Shows (db : Db) (jobId agentId : Nat) (x : Shown) : Prop where
  job : ∀ j ∈ db.jobs, j.jobId = jobId →
    j.agentId = agentId ∧ j.state = x.state ∧ j.vmid = x.vmid ∧
      (j.finished = true ↔ x.outcome ≠ .running)
  steps : db.steps.filter (fun r => decide (r.jobId = jobId)) =
    if db.hasJob jobId then rowsAfter jobId x.rows else []
  agent : ∀ a ∈ db.agents, a.agentId = agentId → columns a = x.columns

/-- The statements that `provision_job` may send next. -/
def Legal (jobId agentId : Nat) (x : Shown) : Write → Prop
  | .setStep row => ∃ c, calls[x.rows]? = some c ∧ row = rowOf jobId c
  | .jobStep j state _ => j = jobId ∧ state = "RUNNING" ∧ x.outcome = .running
  | .jobVmid j _ => j = jobId
  | .jobReady j => j = jobId
  | .jobError j _ => j = jobId
  | .agentReady a _ node _ _ => a = agentId ∧ node = templateNode
  | .agentState a _ => a = agentId
  | _ => False

def Shown.after (x : Shown) : Write → Shown
  | .setStep _ => { x with rows := x.rows + 1 }
  | .jobStep .. => { x with marked := x.marked + 1 }
  | .jobVmid _ vmid => { x with vmid := some vmid }
  | .jobReady _ => { x with outcome := .ready }
  | .jobError .. => { x with outcome := .failed }
  | .agentReady _ vmid _ ip token => { x with agent := some (vmid, ip, token) }
  | _ => x

/-- The statement changes nothing that is shown of the job. -/
def Spares (jobId agentId : Nat) : Write → Prop
  | .setStep row => row.jobId ≠ jobId
  | .jobStep j _ _ => j ≠ jobId
  | .jobVmid j _ => j ≠ jobId
  | .jobReady j => j ≠ jobId
  | .jobError j _ => j ≠ jobId
  | .agentReady a _ _ _ _ => a ≠ agentId
  | .insertAgent a => a.agentId ≠ agentId
  | .insertJob j => j.jobId ≠ jobId
  | _ => True

variable {db : Db} {jobId agentId : Nat} {x : Shown}

@[simp] theorem hasJob_updateJob (j k : Nat) (change : Job → Job)
    (hc : ∀ j, (change j).jobId = j.jobId) :
    (db.updateJob j change).hasJob k = db.hasJob k := by
  have hid : ∀ r : Job, (if r.jobId = j then change r else r).jobId = r.jobId := by
    intro r
    split
    · exact hc r
    · rfl
  rw [Db.updateJob, Db.hasJob, Db.hasJob, List.any_map]
  exact List.any_congr rfl fun r => by rw [Function.comp_apply, hid]

theorem mem_updateJob {j : Nat} {change : Job → Job} {r : Job}
    (h : r ∈ (db.updateJob j change).jobs) :
    ∃ r₀ ∈ db.jobs, r = if r₀.jobId = j then change r₀ else r₀ := by
  obtain ⟨r₀, hr, rfl⟩ := List.mem_map.mp h
  exact ⟨r₀, hr, rfl⟩

theorem mem_updateAgent {i : Nat} {change : Agent → Agent} {a : Agent}
    (h : a ∈ (db.updateAgent i change).agents) :
    ∃ a₀ ∈ db.agents, a = if a₀.agentId = i then change a₀ else a₀ := by
  obtain ⟨a₀, ha, rfl⟩ := List.mem_map.mp h
  exact ⟨a₀, ha, rfl⟩

theorem Shows.spare_job (h : Shows db jobId agentId x) {j : Nat} (hj : j ≠ jobId)
    {change : Job → Job}
    (hc : ∀ j, (change j).jobId = j.jobId) : Shows (db.updateJob j change) jobId agentId x := by
  refine ⟨fun r hr he => ?_, ?_, h.agent⟩
  · obtain ⟨r₀, hr₀, rfl⟩ := mem_updateJob hr
    split at he
    next hj₀ => exact absurd (hj₀.symm.trans ((hc r₀).symm.trans he)) hj
    next hne =>
      rw [if_neg hne]
      exact h.job r₀ hr₀ he
  · rw [hasJob_updateJob _ _ _ hc]
    exact h.steps

theorem Shows.own_job (h : Shows db jobId agentId x) {y : Shown} {change : Job → Job}
    (hc : ∀ j, (change j).jobId = j.jobId)
    (ha : ∀ j, (change j).agentId = j.agentId) (hrows : y.rows = x.rows)
    (hagent : y.agent = x.agent)
    (hst : ∀ j, j.state = x.state → (change j).state = y.state)
    (hv : ∀ j, j.vmid = x.vmid → (change j).vmid = y.vmid)
    (hf : ∀ j, (j.finished = true ↔ x.outcome ≠ .running) →
    ((change j).finished = true ↔ y.outcome ≠ .running)) :
    Shows (db.updateJob jobId change) jobId agentId y := by
  refine ⟨fun r hr he => ?_, ?_, fun a hm ha => ?_⟩
  · obtain ⟨r₀, hr₀, rfl⟩ := mem_updateJob hr
    have hid : r₀.jobId = jobId := by
      split at he
      · exact (hc r₀).symm.trans he
      · exact he
    obtain ⟨h₁, h₂, h₃, h₄⟩ := h.job r₀ hr₀ hid
    rw [if_pos hid]
    exact ⟨(ha r₀).trans h₁, hst r₀ h₂, hv r₀ h₃, hf r₀ h₄⟩
  · rw [hasJob_updateJob _ _ _ hc, hrows]
    exact h.steps
  · rw [h.agent a hm ha, Shown.columns, Shown.columns, hagent]

theorem Shows.update_agent (h : Shows db jobId agentId x) {i : Nat} {change : Agent → Agent}
    {y : Shown}
    (hc : ∀ a, (change a).agentId = a.agentId) (hrows : y.rows = x.rows)
    (hstate : y.state = x.state) (hvmid : y.vmid = x.vmid)
    (hout : y.outcome = x.outcome)
    (hown : i = agentId → ∀ a, columns a = x.columns → columns (change a) = y.columns)
    (hother : i ≠ agentId → y.columns = x.columns) :
    Shows (db.updateAgent i change) jobId agentId y := by
  refine ⟨fun r hr he => ?_, ?_, fun a hm ha => ?_⟩
  · rw [hstate, hvmid, hout]
    exact h.job r hr he
  · rw [hrows]
    exact h.steps
  · obtain ⟨a₀, hm₀, rfl⟩ := mem_updateAgent hm
    split at ha
    next hi =>
      have hid : a₀.agentId = agentId := (hc a₀).symm.trans ha
      rw [if_pos hi]
      exact hown (hi.symm.trans hid) a₀ (h.agent a₀ hm₀ hid)
    next hi =>
      have hne : i ≠ agentId := fun he => hi (ha.trans he.symm)
      rw [if_neg hi, hother hne]
      exact h.agent a₀ hm₀ ha

theorem steps_upsert (row : StepRow) :
    (KeyedTable.upsert keyOf db.steps row).filter (fun r => decide (r.jobId = jobId)) =
      if row.jobId = jobId then KeyedTable.upsert keyOf
        (db.steps.filter (fun r => decide (r.jobId = jobId))) row
      else db.steps.filter (fun r => decide (r.jobId = jobId)) := by
  have h := @KeyedTable.filter_upsert _ _ _ keyOf (fun k => decide (k.1 = jobId)) db.steps row
  exact h.trans (if_congr decide_eq_true_iff rfl rfl)

theorem rowsAfter_succ {k : Nat} {c : Nat × String × String} (h : calls[k]? = some c) :
    rowsAfter jobId (k + 1) = KeyedTable.upsert keyOf (rowsAfter jobId k) (rowOf jobId c) := by
  rw [rowsAfter, List.take_add_one, h, Option.toList_some, List.map_append, List.foldl_append]
  rfl

theorem Shows.delete (h : Shows db jobId agentId x) (i : Nat) :
    Shows (db.delete i) jobId agentId x := by
  refine ⟨fun r hr he => h.job r (List.mem_filter.mp hr).1 he, ?_,
    fun a hm ha => h.agent a (List.mem_filter.mp hm).1 ha⟩
  have hrow : ∀ r : StepRow, r.jobId = jobId →
      (db.jobs.all (fun j => decide (¬ (j.jobId = r.jobId ∧ j.agentId = i))) = true ↔
        ¬ (db.hasJob jobId = true ∧ agentId = i)) := by
    intro r hr
    rw [List.all_eq_true, Db.hasJob, List.any_eq_true]
    constructor
    · rintro hall ⟨⟨j, hj, hid⟩, rfl⟩
      have hjid : j.jobId = jobId := of_decide_eq_true hid
      exact of_decide_eq_true (hall j hj) ⟨hjid.trans hr.symm, (h.job j hj hjid).1⟩
    · intro hno j hj
      refine decide_eq_true fun hand => hno ⟨⟨j, hj, decide_eq_true (hand.1.trans hr)⟩, ?_⟩
      rw [← (h.job j hj (hand.1.trans hr)).1]
      exact hand.2
  have hhas : (db.delete i).hasJob jobId = true ↔ db.hasJob jobId = true ∧ agentId ≠ i := by
    rw [Db.hasJob, Db.hasJob, List.any_eq_true, List.any_eq_true]
    constructor
    · rintro ⟨j, hj, hid⟩
      obtain ⟨hj, hne⟩ := List.mem_filter.mp hj
      have hjid : j.jobId = jobId := of_decide_eq_true hid
      exact ⟨⟨j, hj, hid⟩, fun he => of_decide_eq_true hne ((h.job j hj hjid).1.trans he)⟩
    · rintro ⟨⟨j, hj, hid⟩, hne⟩
      have hjid : j.jobId = jobId := of_decide_eq_true hid
      exact ⟨j, List.mem_filter.mpr ⟨hj, decide_eq_true fun he =>
        hne ((h.job j hj hjid).1.symm.trans he)⟩, hid⟩
  have hsteps : (db.delete i).steps.filter (fun r => decide (r.jobId = jobId)) =
      (db.steps.filter (fun r => decide (r.jobId = jobId))).filter
        (fun _ => decide (¬ (db.hasJob jobId = true ∧ agentId = i))) := by
    rw [Db.delete, List.filter_filter, List.filter_filter]
    refine List.filter_congr fun r _ => ?_
    by_cases hr : r.jobId = jobId
    · rw [decide_eq_true hr, Bool.true_and, Bool.and_true, Bool.eq_iff_iff, hrow r hr,
        decide_eq_true_eq]
    · rw [decide_eq_false hr, Bool.false_and, Bool.and_false]
  rw [hsteps, h.steps]
  by_cases hj : db.hasJob jobId = true
  · by_cases hi : agentId = i
    · have hno : ¬ (db.delete i).hasJob jobId = true := fun hd => (hhas.mp hd).2 hi
      rw [if_pos hj, if_neg hno]
      exact List.filter_eq_nil_iff.mpr fun _ _ hd => of_decide_eq_true hd ⟨hj, hi⟩
    · rw [if_pos hj, if_pos (hhas.mpr ⟨hj, hi⟩)]
      exact List.filter_eq_self.mpr fun _ _ => decide_eq_true fun hand => hi hand.2
  · have hno : ¬ (db.delete i).hasJob jobId = true := fun hd => hj (hhas.mp hd).1
    rw [if_neg hj, if_neg hno, List.filter_nil]

theorem Shows.spared (h : Shows db jobId agentId x) {w : Write} (hw : Spares jobId agentId w) :
    Shows (db.apply w) jobId agentId x := by
  cases w with
  | insertAgent a =>
      refine ⟨h.job, h.steps, fun b hb he => ?_⟩
      rcases List.mem_append.mp hb with hb | hb
      · exact h.agent b hb he
      · exact absurd he (List.mem_singleton.mp hb ▸ hw)
  | insertJob j =>
      refine ⟨fun r hr he => ?_, ?_, h.agent⟩
      · rcases List.mem_append.mp hr with hr | hr
        · exact h.job r hr he
        · exact absurd he (List.mem_singleton.mp hr ▸ hw)
      · have hhas : (db.apply (.insertJob j)).hasJob jobId = db.hasJob jobId := by
          rw [Db.apply, Db.hasJob, List.any_append, List.any_cons, decide_eq_false hw,
            Bool.false_or, List.any_nil, Bool.or_false,
            Db.hasJob]
        rw [hhas]
        exact h.steps
  | setStep row =>
      refine ⟨h.job, ?_, h.agent⟩
      have hrow : row.jobId ≠ jobId := hw
      exact (steps_upsert row).trans ((if_neg hrow).trans h.steps)
  | jobStep j state name => exact h.spare_job hw fun _ => rfl
  | jobVmid j vmid => exact h.spare_job hw fun _ => rfl
  | jobReady j => exact h.spare_job hw fun _ => rfl
  | jobError j e => exact h.spare_job hw fun _ => rfl
  | agentReady a vmid node ip token =>
      exact h.update_agent (fun _ => rfl) rfl rfl rfl rfl (fun he => absurd he hw) fun _ => rfl
  | agentState a state =>
      exact h.update_agent (fun _ => rfl) rfl rfl rfl rfl (fun _ _ hcol => hcol) fun _ => rfl
  | deleteAgent a => exact h.delete a
  | grant y =>
      rw [Db.apply]
      split
      · exact ⟨h.job, h.steps, h.agent⟩
      · exact h
  | insertSession s | setRemote s r | insertMessage m => exact ⟨h.job, h.steps, h.agent⟩

theorem Shows.own (h : Shows db jobId agentId x) {w : Write} (hacc : db.accepts w = true)
    (hw : Legal jobId agentId x w) :
    Shows (db.apply w) jobId agentId (x.after w) := by
  cases w with
  | setStep row =>
      obtain ⟨c, hc, rfl⟩ := hw
      have hhas : db.hasJob jobId = true := hacc
      refine ⟨h.job, ?_, h.agent⟩
      have hrow : (rowOf jobId c).jobId = jobId := rfl
      refine (steps_upsert (rowOf jobId c)).trans ?_
      rw [if_pos hrow, h.steps, if_pos hhas]
      exact (rowsAfter_succ hc).symm.trans (if_pos hhas).symm
  | jobStep j state name =>
      obtain ⟨rfl, rfl, hrun⟩ := hw
      refine h.own_job (fun _ => rfl) (fun _ => rfl) rfl rfl (fun _ _ => ?_) (fun _ hv => hv)
        fun _ hf => hf
      rw [Shown.state, Shown.after, hrun]
      exact (if_neg (Nat.succ_ne_zero _)).symm
  | jobVmid j vmid =>
      obtain rfl : j = jobId := hw
      exact h.own_job (fun _ => rfl) (fun _ => rfl) rfl rfl (fun _ hs => hs) (fun _ _ => rfl)
        fun _ hf => hf
  | jobReady j =>
      obtain rfl : j = jobId := hw
      exact h.own_job (fun _ => rfl) (fun _ => rfl) rfl rfl (fun _ _ => rfl) (fun _ hv => hv)
        fun _ _ =>
        iff_of_true rfl Outcome.noConfusion
  | jobError j e =>
      obtain rfl : j = jobId := hw
      exact h.own_job (fun _ => rfl) (fun _ => rfl) rfl rfl (fun _ _ => rfl) (fun _ hv => hv)
        fun _ _ =>
        iff_of_true rfl Outcome.noConfusion
  | agentReady a vmid node ip token =>
      obtain ⟨rfl, rfl⟩ := hw
      exact h.update_agent (fun _ => rfl) rfl rfl rfl rfl (fun _ _ _ => rfl) fun hne =>
        absurd rfl hne
  | agentState a state =>
      exact h.update_agent (fun _ => rfl) rfl rfl rfl rfl (fun _ _ hcol => hcol) fun _ => rfl
  | insertAgent a | grant y | insertJob j | deleteAgent a | insertSession s | setRemote s r
  | insertMessage m => exact hw.elim

/-- `pending` are the statements of the open transaction, if there is one that
takes more; `gone` says that the row of the job was not found. -/
structure Run where
  jobId : Nat
  agentId : Nat
  saved : Shown
  pending : Option (List Write)
  faulted : Bool
  gone : Bool
  closed : Bool

def Run.now (r : Run) : Shown := (r.pending.getD []).foldl Shown.after r.saved

def Run.fault (r : Run) : Run := { r with pending := none, faulted := true }

def Run.moves (r : Run) : (e : Eff) → Ans e → Run → Prop
  | .connect, .ok _, r' => r' = { r with pending := some [] }
  | .connect, .error _, r' => r' = r.fault
  | .read (.jobExists _), .ok found, r' => r.pending ≠ none ∧ r' = { r with gone := !found }
  | .read _, .ok _, r' => r.pending ≠ none ∧ r' = r
  | .read _, .error _, r' => r' = r.fault
  | .write w, .ok _, r' => ∃ ws, r.pending = some ws ∧ r' = { r with pending := some (ws ++ [w]) }
  | .write _, .error _, r' => r' = r.fault
  | .commit, .ok _, r' => r' = { r with saved := r.now, pending := some [] }
  | .commit, .error _, r' => r' = r.fault ∨ r' = { r.fault with saved := r.now }
  | .close, _, r' => r' = { r with pending := none, closed := true }
  | _, _, r' => r' = r

/-- What is committed of a job: how far it had come at a commit. -/
def Visible (x : Shown) : Prop :=
  x.rows = x.marked ∧
    match x.outcome with
    | .running => x.agent = none ∧ x.rows ∈ [0, 1, 3, 5, 7]
    | .failed => x.agent = none ∧ x.rows ∈ [1, 3, 5, 7, 10, 12, 16]
    | .ready => x.rows = 19 ∧ ∃ vmid ip token, x.vmid = some vmid ∧ x.agent = some (vmid, ip, token)

/-- The thread has written down how the job ended, unless the database failed. -/
def Run.Settled (r : Run) : Prop := r.faulted = true ∨ r.gone = true ∨ r.saved.outcome ≠ .running

def Run.may (r : Run) : Eff → Prop
  | .connect => r.pending = none
  | .read (.jobExists j) => j = r.jobId ∧ r.pending ∈ [none, some []]
  | .read (.agentRow _) => False
  | .write w => r.pending ≠ none → r.closed = false ∧ Legal r.jobId r.agentId r.now w
  | .commit => Visible r.now
  | .close => r.Settled
  | .spawn .. => False
  | .begin => False
  | _ => True

/-- Specifications of the parts of `provision_job`. -/
abbrev Goes {α : Type} (r : Run) (p : Am α) (Q : Run → α → Prop) (X : Run → Prop) : Prop :=
  Sat (fun r e a r' => Run.moves r e a r') Run.may Q (fun r _ => X r) p r

def quiet : Eff → Prop
  | .connect | .read _ | .write _ | .commit | .close | .spawn .. | .begin => False
  | _ => True

theorem quiet_moves {r r' : Run} {e : Eff} {a : Ans e} (he : quiet e) (h : r.moves e a r') :
    r' = r := by
  cases e with
  | connect | read q | write w | commit | close | spawn | begin => exact he.elim
  | uuid | clock | token | sleep | secret | pve | keyGenerate | health | postSession
  | postMessage => exact h

theorem quiet_may {r : Run} {e : Eff} (he : quiet e) : r.may e := by
  cases e with
  | connect | read q | write w | commit | close | spawn | begin => exact he.elim
  | uuid | clock | token | sleep | secret | pve | keyGenerate | health | postSession
  | postMessage => trivial

theorem Goes.quiet {α : Type} {p : Am α} (h : Only quiet p) (r : Run) :
    Goes r p (fun r' _ => r' = r) (fun r' => r' = r) := by
  have hk := Only.keeps (T := fun r e a r' => Run.moves r e a r') (I := fun r' => r' = r) h
    (fun s e a s' he hs hm => (quiet_moves he hm).trans hs) (rfl : r = r)
  exact hk.weaken fun _ _ he => quiet_may he.1

/-- The job is at its `k`-th call, and all is well. -/
structure At (j a k : Nat) (v : Option Int) (r : Run) : Prop where
  jobId : r.jobId = j
  agentId : r.agentId = a
  live : r.pending ≠ none
  now : r.now = ⟨k, k, v, none, .running⟩
  faulted : r.faulted = false
  gone : r.gone = false
  closed : r.closed = false

/-- The database has failed, and nothing more gets through. -/
structure Dead (r : Run) : Prop where
  pending : r.pending = none
  faulted : r.faulted = true

theorem Dead.fault (r : Run) : Dead r.fault := ⟨rfl, rfl⟩

theorem now_write {r : Run} {ws : List Write} (h : r.pending = some ws) (w : Write) :
    ({ r with pending := some (ws ++ [w]) } : Run).now = r.now.after w := by
  simp only [Run.now, h, Option.getD_some, List.foldl_append, List.foldl_cons, List.foldl_nil]

theorem goes_write {r : Run} {w : Write} (hc : r.closed = false)
    (hw : Legal r.jobId r.agentId r.now w) :
    Goes r (write w) (fun r' _ => ∃ ws, r.pending = some ws ∧
      r' = { r with pending := some (ws ++ [w]) }) Dead := by
  refine ⟨fun _ => ⟨hc, hw⟩, fun a r' hm => ?_⟩
  cases a with
  | ok u => exact hm
  | error x =>
      obtain rfl : r' = r.fault := hm
      exact Dead.fault r

theorem At.write {j a k : Nat} {v : Option Int} {r : Run} (h : At j a k v r) {w : Write}
    (hw : Legal j a ⟨k, k, v, none, .running⟩ w) :
    Goes r (write w) (fun r' _ => r'.jobId = j ∧ r'.agentId = a ∧ r'.pending ≠ none ∧
      r'.now = Shown.after ⟨k, k, v, none, .running⟩ w ∧ r'.faulted = false ∧ r'.gone = false ∧ r'.closed = false) Dead := by
  have hlegal : Legal r.jobId r.agentId r.now w := by
    rw [h.jobId, h.agentId, h.now]
    exact hw
  refine (goes_write h.closed hlegal).mono (fun r' u hr => ?_) fun _ _ hx => hx
  obtain ⟨ws, hp, rfl⟩ := hr
  exact ⟨h.jobId, h.agentId, Option.some_ne_none _, (now_write hp w).trans (by rw [h.now]),
    h.faulted, h.gone, h.closed⟩

/-- `_step`. -/
theorem At.step {j a k : Nat} {v : Option Int} {r : Run} (h : At j a k v r) {seq : Nat}
    {name state : String}
    (hc : calls[k]? = some (seq, name, state)) (hs : state = "RUNNING" ∨ state = "DONE") :
    Goes r (step j seq name state) (fun r' _ => At j a (k + 1) v r') Dead := by
  have hlegal : Legal j a ⟨k, k, v, none, .running⟩ (.setStep ⟨j, seq, name, state, none⟩) :=
    ⟨_, hc, rfl⟩
  refine Sat.seq (h.write hlegal) fun r' _ hr => ?_
  obtain ⟨hj, ha, hp, hn, hf, hg, hcl⟩ := hr
  have hmark : (if state ≠ "DONE" then state else "RUNNING") = "RUNNING" := by
    rcases hs with rfl | rfl
    · rfl
    · rfl
  rw [hmark]
  have hnext : Legal r'.jobId r'.agentId r'.now (.jobStep j "RUNNING" name) := by
    rw [hj, hn]
    exact ⟨rfl, rfl, rfl⟩
  refine (goes_write hcl hnext).mono (fun s _ hr => ?_) fun _ _ hx => hx
  obtain ⟨ws, hws, rfl⟩ := hr
  exact ⟨hj, ha, Option.some_ne_none _, (now_write hws _).trans (by rw [hn]; rfl), hf, hg, hcl⟩

theorem At.commit {j a k : Nat} {v : Option Int} {r : Run} (h : At j a k v r)
    (hk : k ∈ [1, 3, 5, 7]) :
    Goes r commit (fun r' _ => At j a k v r') Dead := by
  refine ⟨?_, fun c r' hm => ?_⟩
  · show Visible r.now
    rw [h.now]
    exact ⟨rfl, rfl, List.mem_cons_of_mem _ hk⟩
  · cases c with
    | ok u =>
        obtain rfl : r' = { r with saved := r.now, pending := some [] } := hm
        exact ⟨h.jobId, h.agentId, Option.some_ne_none _, h.now, h.faulted, h.gone, h.closed⟩
    | error x =>
        rcases (show r' = r.fault ∨ r' = { r.fault with saved := r.now } from hm) with rfl | rfl
        · exact Dead.fault r
        · exact ⟨rfl, rfl⟩

theorem At.quiet {α : Type} {j a k : Nat} {v : Option Int} {r : Run} (h : At j a k v r) {p : Am α}
    (hp : Only AgentJobs.quiet p) :
    Goes r p (fun r' _ => At j a k v r') (fun r' => At j a k v r') :=
  (Goes.quiet hp r).mono (fun _ _ he => he ▸ h) fun _ _ he => he ▸ h

theorem quiet_orRaise {α : Type} (x : Except Effects.PyExc α) : Only quiet (orRaise x) := by
  cases x with
  | ok a => exact only_pure a
  | error x => exact only_throw x

theorem quiet_attempt {α : Type} {p : Am α} (h : Only quiet p) : Only quiet (attempt p) :=
  Only.tryCatch (h.bind fun _ => only_pure _) fun _ => only_pure _

theorem quiet_request (c : PveCall) : Only quiet (request c) :=
  only_call trivial fun a => by
    cases a with
    | ok x => exact only_pure x
    | unauthorized x | raised x => exact only_throw x

theorem quiet_pve (c : PveCall) : Only quiet (pve c) :=
  only_call trivial fun a => by
    cases a with
    | ok x => exact only_pure x
    | unauthorized x => exact quiet_request c
    | raised x => exact only_throw x

theorem quiet_sleep (n : Nat) : Only quiet (sleep n) := only_call trivial fun _ => only_pure _

theorem quiet_clock : Only quiet clock := only_call trivial fun _ => only_pure _

theorem quiet_raised {α : Type} (cls : Effects.ExcClass) (msg : String) :
    Only quiet (raised cls msg : Am α) := only_throw _

theorem quiet_nextVmid : Only quiet nextVmid :=
  (quiet_pve .nextid).bind fun _ => (quiet_orRaise _).bind fun _ => quiet_orRaise _

theorem quiet_pollExec (node : String) (vmid : Int) (pid : Json) (deadline : ℚ) (n : Nat) :
    Only quiet (pollExec node vmid pid deadline n) := by
  induction n with
  | zero => exact only_pure _
  | succ n ih =>
      refine quiet_clock.bind fun now => Only.ite ?_ (only_pure _)
      refine (quiet_sleep 2).bind fun _ => (quiet_attempt (quiet_pve _)).bind fun st => ?_
      cases st with
      | error x => exact ih
      | ok st =>
          refine (quiet_orRaise _).bind fun data => (quiet_orRaise _).bind fun exited =>
            Only.ite ?_ ih
          exact (quiet_orRaise _).bind fun _ => (quiet_orRaise _).bind fun _ =>
            (quiet_orRaise _).bind fun _ => only_pure _

theorem quiet_pveExec (node : String) (vmid : Int) (command : List String) :
    Only quiet (pveExec node vmid command) := by
  refine (quiet_request _).bind fun r => (quiet_orRaise _).bind fun pdata =>
    (quiet_orRaise _).bind fun pid => ?_
  exact quiet_clock.bind fun now => quiet_pollExec ..

theorem quiet_waitUnlocked (vmid : Int) (n : Nat) : Only quiet (waitUnlocked vmid n) := by
  induction n with
  | zero => exact only_pure _
  | succ n ih =>
      have hcfg := quiet_attempt ((quiet_pve (.config templateNode vmid)).bind fun r =>
        (quiet_orRaise (get (r.orElse (.obj [])) "data" .null)).bind fun data => only_pure (data.orElse (.obj [])))
      refine hcfg.bind fun cfg => ?_
      cases cfg with
      | error x => exact (quiet_sleep 2).bind fun _ => ih
      | ok cfg =>
          exact (quiet_orRaise _).bind fun lock =>
            Only.ite ((quiet_sleep 2).bind fun _ => ih) (only_pure _)

theorem quiet_waitIp (vmid : Int) (n : Nat) (ip : Option String) :
    Only quiet (waitIp vmid n ip) := by
  induction n generalizing ip with
  | zero => exact only_pure _
  | succ n ih =>
      refine (quiet_attempt (quiet_pve _)).bind fun r => Only.ite (only_pure _) ?_
      exact (quiet_sleep 3).bind fun _ => ih _

theorem quiet_waitHealth (ip token : String) (n : Nat) : Only quiet (waitHealth ip token n) := by
  induction n with
  | zero => exact only_pure _
  | succ n ih =>
      refine only_call (show quiet (Eff.health ip token) from trivial) fun r => ?_
      cases r with
      | ok status => exact Only.ite (only_pure _) ih
      | error x => exact (quiet_sleep 2).bind fun _ => ih

theorem quiet_issuedKey (resp : KeyResponse) : Only quiet (issuedKey resp) :=
  Only.ite (quiet_raised _ _) ((quiet_orRaise _).bind fun _ => (quiet_orRaise _).bind fun _ =>
    Only.ite (only_pure _) (quiet_raised _ _))

/-- Where a job can stop: the database fails, or one of its waits and questions does. -/
def Stops (j a : Nat) (r : Run) : Prop := Dead r ∨ ∃ k ∈ [1, 3, 5, 7, 10, 12, 16], ∃ v, At j a k v r

variable {j a : Nat} {v : Option Int} {r : Run}

theorem Dead.stops (h : Dead r) : Stops j a r := .inl h

theorem At.stops {k : Nat} (h : At j a k v r) (hk : k ∈ [1, 3, 5, 7, 10, 12, 16]) : Stops j a r :=
  .inr ⟨k, hk, v, h⟩

theorem At.ask {α β : Type} {k : Nat} (h : At j a k v r) (hk : k ∈ [1, 3, 5, 7, 10, 12, 16])
    {p : Am α} (hp : Only AgentJobs.quiet p)
    {f : α → Am β} {Q : Run → β → Prop} (hf : ∀ r' x, At j a k v r' → Goes r' (f x) Q (Stops j a)) :
    Goes r (p >>= f) Q (Stops j a) :=
  Sat.seq ((h.quiet hp).mono (fun _ _ hr => hr) fun _ _ hr => hr.stops hk) hf

/-- A call of `_step` among others. -/
theorem At.then_step {β : Type} {k seq : Nat} (h : At j a k v r) {name state : String}
    (hc : calls[k]? = some (seq, name, state))
    (hs : state = "RUNNING" ∨ state = "DONE") {f : Unit → Am β} {Q : Run → β → Prop}
    (hf : ∀ r', At j a (k + 1) v r' → Goes r' (f ()) Q (Stops j a)) :
    Goes r (AgentManager.step j seq name state >>= f) Q (Stops j a) :=
  Sat.seq ((h.step hc hs).mono (fun _ _ hr => hr) fun _ _ hr => hr.stops) fun r' _ hr => hf r' hr

theorem At.last_step {k seq : Nat} (h : At j a k v r) {name state : String}
    (hc : calls[k]? = some (seq, name, state))
    (hs : state = "RUNNING" ∨ state = "DONE") :
    Goes r (AgentManager.step j seq name state) (fun r' _ => At j a (k + 1) v r') (Stops j a) :=
  (h.step hc hs).mono (fun _ _ hr => hr) fun _ _ hr => hr.stops

theorem At.then_commit {β : Type} {k : Nat} (h : At j a k v r) (hk : k ∈ [1, 3, 5, 7])
    {f : Unit → Am β} {Q : Run → β → Prop}
    (hf : ∀ r', At j a k v r' → Goes r' (f ()) Q (Stops j a)) :
    Goes r (AgentManager.commit >>= f) Q (Stops j a) :=
  Sat.seq ((h.commit hk).mono (fun _ _ hr => hr) fun _ _ hr => hr.stops) fun r' _ hr => hf r' hr

theorem goes_cloneVm (h : At j a 1 none r) (name : String) :
    Goes r (cloneVm j name) (fun r' vmid => At j a 7 (some vmid) r') (Stops j a) := by
  refine h.ask (by decide) quiet_nextVmid fun r vmid h => ?_
  refine h.then_step rfl (.inr rfl) fun r h => h.then_step rfl (.inl rfl) fun r h => ?_
  have hlegal : Legal j a ⟨3, 3, none, none, .running⟩ (.jobVmid j vmid) := rfl
  refine Sat.seq ((h.write hlegal).mono (fun _ _ hr => hr) fun _ _ hr => hr.stops) fun r' _ hr => ?_
  obtain ⟨hj, ha, hp, hn, hf, hg, hc⟩ := hr
  have h : At j a 3 (some vmid) r' := ⟨hj, ha, hp, hn, hf, hg, hc⟩
  refine h.then_commit (by decide) fun r h => ?_
  refine h.ask (by decide) (quiet_pve _) fun r _ h =>
    h.ask (by decide) (quiet_waitUnlocked vmid 120) fun r _ h => ?_
  refine h.then_step rfl (.inr rfl) fun r h => h.then_step rfl (.inl rfl) fun r h =>
    h.then_commit (by decide) fun r h => ?_
  refine h.ask (by decide) (quiet_pve _) fun r _ h => ?_
  refine h.then_step rfl (.inr rfl) fun r h => h.then_step rfl (.inl rfl) fun r h => ?_
  exact h.ask (by decide) (quiet_pve _) fun r _ h => h.then_commit (by decide) fun r h => h

theorem goes_prepareGuest {vmid : Int} (h : At j a 7 v r) :
    Goes r (prepareGuest j vmid) (fun r' _ => At j a 11 v r') (Stops j a) := by
  refine h.ask (by decide) (quiet_waitIp vmid 90 none) fun r ip h => ?_
  split
  · exact (sat_throw ..).mpr (h.stops (by decide))
  · refine h.then_step rfl (.inr rfl) fun r h => h.then_step rfl (.inr rfl) fun r h =>
      h.then_step rfl (.inl rfl) fun r h => ?_
    have htoken : Only quiet (Prog.call Eff.token pure : Am String) :=
      only_call trivial fun _ => only_pure _
    refine h.ask (by decide) htoken fun r token h =>
      h.ask (by decide) (quiet_pveExec ..) fun r res h => ?_
    obtain ⟨out, err, rc⟩ := res
    refine (show Goes r (if isZero rc then _ else _) _ _ from ?_)
    split
    · exact h.then_step rfl (.inr rfl) fun r h => h
    · exact h.ask (by decide) (quiet_orRaise _) fun r err h =>
        (sat_throw ..).mpr (h.stops (by decide))

theorem goes_provisionKey {vmid : Int} (h : At j a 11 v r) (name : String) :
    Goes r (provisionKey j vmid name) (fun r' _ => At j a 13 v r') (Stops j a) := by
  refine h.then_step rfl (.inl rfl) fun r h => ?_
  have hsecret : Only quiet (secret "litellm_master_key") := only_call trivial fun _ => only_pure _
  refine h.ask (by decide) hsecret fun r master h => ?_
  split
  · exact (sat_throw ..).mpr (h.stops (by decide))
  · have hkey : Only quiet (Prog.call (Eff.keyGenerate (master.getD "") name) orRaise :
        Am KeyResponse) :=
      only_call trivial fun _ => quiet_orRaise _
    refine h.ask (by decide) hkey fun r resp h =>
      h.ask (by decide) (quiet_issuedKey resp) fun r key h => ?_
    refine h.ask (by decide) (quiet_pveExec ..) fun r res h => ?_
    obtain ⟨out, err, rc⟩ := res
    refine (show Goes r (if isZero rc then _ else _) _ _ from ?_)
    split
    · exact h.last_step rfl (.inr rfl)
    · exact h.ask (by decide) (quiet_orRaise _) fun r err h =>
        (sat_throw ..).mpr (h.stops (by decide))

theorem goes_testAgent {ip token : String} (h : At j a 13 v r) :
    Goes r (testAgent j ip token) (fun r' _ => At j a 19 v r') (Stops j a) := by
  refine h.then_step rfl (.inr rfl) fun r h => h.then_step rfl (.inr rfl) fun r h =>
    h.then_step rfl (.inl rfl) fun r h => ?_
  refine h.ask (by decide) (quiet_waitHealth ip token 10) fun r ok h => ?_
  split
  · exact h.then_step rfl (.inr rfl) fun r h => h.then_step rfl (.inr rfl) fun r h =>
      h.last_step rfl (.inr rfl)
  · exact (sat_throw ..).mpr (h.stops (by decide))

theorem goes_finish {vmid : Int} {ip token : String} (h : At j a 19 (some vmid) r) :
    Goes r (do
      write (.agentReady a vmid templateNode ip token)
      write (.jobReady j)
      commit) (fun r' _ => r'.saved.outcome ≠ .running) (Stops j a) := by
  have hagent : Legal j a ⟨19, 19, some vmid, none, .running⟩
      (.agentReady a vmid templateNode ip token) := ⟨rfl, rfl⟩
  refine Sat.seq ((h.write hagent).mono (fun _ _ hr => hr) fun _ _ hr => hr.stops) fun r' _ hr => ?_
  obtain ⟨hj, ha, hp, hn, hf, hg, hc⟩ := hr
  have hready : Legal r'.jobId r'.agentId r'.now (.jobReady j) := hj.symm
  refine Sat.seq ((goes_write hc hready).mono (fun _ _ hr => hr) fun _ _ hr => hr.stops)
    fun s _ hr => ?_
  obtain ⟨ws, hws, rfl⟩ := hr
  have hnow := now_write hws (.jobReady j)
  rw [hn] at hnow
  refine ⟨?_, fun c s hm => ?_⟩
  · show Visible _
    rw [hnow]
    exact ⟨rfl, rfl, vmid, ip, token, rfl, rfl⟩
  · cases c with
    | ok u =>
        obtain rfl := hm
        show (Run.now _).outcome ≠ .running
        rw [hnow]
        exact Outcome.noConfusion
    | error x =>
        rcases hm with rfl | rfl
        · exact .inl (Dead.fault _)
        · exact .inl ⟨rfl, rfl⟩

theorem goes_provision (h : At j a 0 none r) (name : String) :
    Goes r (provision j a name) (fun r' _ => r'.saved.outcome ≠ .running) (Stops j a) := by
  refine h.then_step rfl (.inl rfl) fun r h => ?_
  have hread : Goes r (read (.agentName a)) (fun r' _ => At j a 1 none r') (Stops j a) := by
    refine ⟨trivial, fun c r' hm => ?_⟩
    cases c with
    | ok row =>
        obtain ⟨-, rfl⟩ := hm
        exact h
    | error x =>
        obtain rfl : r' = r.fault := hm
        exact .inl (Dead.fault r)
  refine Sat.seq hread fun r _ h => h.then_commit (by decide) fun r h => ?_
  refine Sat.seq (goes_cloneVm h name) fun r vmid h => Sat.seq (goes_prepareGuest h) fun r res h =>
    ?_
  exact Sat.seq (goes_provisionKey h name) fun r _ h => Sat.seq (goes_testAgent h) fun r _ h =>
    goes_finish h

def Run.fresh (j a : Nat) : Run := ⟨j, a, .start, none, false, false, false⟩

/-- `conn.close()`, when there is nothing left to write down. -/
theorem goes_close (h : r.Settled) : Goes r close (fun r' _ => r'.Settled)
    (fun r' => r'.Settled) := by
  refine ⟨h, fun u r' hm => ?_⟩
  obtain rfl : r' = { r with pending := none, closed := true } := hm
  exact h

theorem goes_finally {p : Am Unit} (h : Goes r p (fun r' _ => r'.Settled) (fun r' => r'.Settled)) :
    Goes r (finally_ p close) (fun r' _ => r'.Settled) (fun r' => r'.Settled) := by
  have hend : Goes r (attempt p) (fun r' _ => r'.Settled) (fun r' => r'.Settled) := by
    refine (sat_tryCatch ..).mpr ((sat_bind ..).mpr (h.mono (fun _ _ hr => ?_) fun _ _ hr => ?_))
    · exact hr
    · exact hr
  refine Sat.seq hend fun r res hr => Sat.seq (goes_close hr) fun r' _ hr => ?_
  cases res with
  | ok u => exact hr
  | error x => exact hr

theorem Dead.write (h : Dead r) (w : Write) : Goes r (write w) (fun _ _ => False) Dead := by
  refine ⟨fun hp => absurd h.pending hp, fun c r' hm => ?_⟩
  cases c with
  | ok u =>
      obtain ⟨ws, hws, -⟩ := hm
      rw [h.pending] at hws
      cases hws
  | error x =>
      obtain rfl : r' = r.fault := hm
      exact Dead.fault r

theorem Dead.settled (h : Dead r) : r.Settled := .inl h.faulted

theorem goes_recordError (h : Stops j a r) (x : Effects.PyExc) :
    Goes r (recordError j a x) (fun r' _ => r'.Settled) (fun r' => r'.Settled) := by
  refine (sat_tryCatch ..).mpr ?_
  have hend : ∀ (r : Run) (_ : Effects.PyExc), Dead r →
      Goes r (pure () : Am Unit) (fun r' _ => r'.Settled) (fun r' => r'.Settled) :=
        fun r _ hd => hd.settled
  rcases h with hd | ⟨k, hk, v, h⟩
  · exact Sat.seq ((hd.write _).mono (fun _ _ hr => hr) fun r x hr => hend r x hr) fun _ _ hr =>
      hr.elim
  · have herr : Legal j a ⟨k, k, v, none, .running⟩ (.jobError j (cut x.msg 500)) := rfl
    refine Sat.seq ((h.write herr).mono (fun _ _ hr => hr) fun r x hr => hend r x hr) fun r' _ hr =>
      ?_
    obtain ⟨hj, ha, hp, hn, hf, hg, hc⟩ := hr
    have hstate : Legal r'.jobId r'.agentId r'.now (.agentState a "ERROR") := ha.symm
    refine Sat.seq ((goes_write hc hstate).mono (fun _ _ hr => hr) fun r x hr => hend r x hr)
      fun s _ hr => ?_
    obtain ⟨ws, hws, rfl⟩ := hr
    have hnow := now_write hws (.agentState a "ERROR")
    rw [hn] at hnow
    refine ⟨?_, fun c s hm => ?_⟩
    · show Visible _
      rw [hnow]
      exact ⟨rfl, rfl, hk⟩
    · cases c with
      | ok u =>
          obtain rfl := hm
          refine .inr (.inr ?_)
          show (Run.now _).outcome ≠ .running
          rw [hnow]
          exact Outcome.noConfusion
      | error x =>
          rcases hm with rfl | rfl
          · exact .inl rfl
          · exact .inl rfl

theorem goes_body (name : String) {r : Run} (hj : r.jobId = j) (ha : r.agentId = a)
    (hp : r.pending = some [])
    (hn : r.now = .start) (hf : r.faulted = false) (hc : r.closed = false) :
    Goes r (do
      let found ← read (.jobExists j)
      if found then provision j a name else close) (fun r' _ => r'.Settled) (Stops j a) := by
  refine ⟨⟨hj.symm, by simp [hp]⟩, fun c r' hm => ?_⟩
  cases c with
  | error x =>
      obtain rfl : r' = r.fault := hm
      exact .inl (Dead.fault r)
  | ok found =>
      obtain ⟨-, rfl⟩ := hm
      cases found with
      | true =>
          have h : At j a 0 none { r with gone := !true } :=
            ⟨hj, ha, by simp [hp], hn, hf, rfl, hc⟩
          exact (goes_provision h name).mono (fun _ _ hr => .inr (.inr hr)) fun _ _ hr => hr
      | false =>
          have hgone : ({ r with gone := !false } : Run).Settled := .inr (.inl rfl)
          refine ⟨hgone, fun u r' hm => ?_⟩
          obtain rfl := hm
          exact hgone

/-- Every call that `provision_job` makes is one that it may make. -/
theorem goes_provisionJob (j a : Nat) (name : String) :
    Goes (.fresh j a) (provisionJob j a name) (fun r' _ => r'.Settled) (fun r' => r'.Settled) := by
  refine ⟨rfl, fun c r hm => ?_⟩
  cases c with
  | error x =>
      obtain rfl : r = (Run.fresh j a).fault := hm
      exact .inl rfl
  | ok u =>
      obtain rfl : r = { Run.fresh j a with pending := some [] } := hm
      have hbody :=
        goes_body (j := j) (a := a) name (r := { Run.fresh j a with pending := some [] }) rfl rfl
          rfl rfl rfl rfl
      exact goes_finally ((sat_tryCatch _ (recordError j a) _).mpr
        (hbody.mono (fun _ _ hr => hr) fun _ x hr => goes_recordError hr x))

end ServerManager.AgentJobs
