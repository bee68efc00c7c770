import ServerManager.AgentJobs

namespace ServerManager.AgentLedger

open Interaction Interleaving AgentManager AgentJobs PyJson

/-- A request, `create_agent` as it comes by its ids, and a thread before and after its start. -/
inductive View
  | other
  | fresh
  | drawn (agentId : Nat)
  | maker (agentId jobId : Nat) (connected : Bool)
  | idle
  | run (r : Run)

def View.moves : View → (e : Eff) → Ans e → View → Prop
  | .run r, e, a, g => ∃ r', r.moves e a r' ∧ g = .run r'
  | .fresh, .uuid, n, g => g = .drawn n
  | .drawn a, .uuid, n, g => g = .maker a n false
  | .maker a j _, .connect, r, g => g = .maker a j r.toBool
  | .maker a j _, .close, _, g => g = .maker a j false
  | .maker .., .spawn .., _, g => g = .other
  | .idle, .begin, t, g => g = .run (.fresh t.1 t.2.1)
  | g, _, _, g' => g' = g

def harmless : Write → Prop
  | .agentState .. | .deleteAgent _ | .insertSession _ | .setRemote .. | .insertMessage _
  | .grant _ => True
  | _ => False

/-- The statements of `create_agent`. -/
def makes (agentId jobId : Nat) : Write → Prop
  | .insertAgent x => x.agentId = agentId ∧ columns x = (none, none, none, none)
  | .insertJob x => x = ⟨jobId, agentId, "REQUESTED", none, none, none, false⟩
  | .grant _ => True
  | _ => False

def View.may : View → Eff → Prop
  | .run r, e => r.may e
  | .other, .write w => harmless w
  | .other, .spawn .. => False
  | .other, .begin => False
  | .other, _ => True
  | .maker a j _, .write w => makes a j w
  | .maker a j connected, .spawn j' a' _ => connected = false ∧ j' = j ∧ a' = a
  | .maker .., .read (.agentRow _) => False
  | .maker _ _ connected, .commit => connected = true
  | .maker .., .begin => False
  | .maker .., .uuid => False
  | .maker .., _ => True
  | .fresh, .uuid => True
  | .drawn _, .uuid => True
  | .idle, .begin => True
  | _, _ => False

def View.ids : View → List Nat
  | .drawn a => [a]
  | .maker a j _ => [a, j]
  | .run r => [r.agentId, r.jobId]
  | _ => []

def View.job? : View → Option (Nat × Nat × Shown)
  | .maker a j _ => some (j, a, .start)
  | .run r => some (r.jobId, r.agentId, r.saved)
  | _ => none

def View.key? (g : View) : Option (Nat × Nat) := g.job?.map fun t => (t.1, t.2.1)

def writes : Txn → Option (List Write)
  | .live ws => some ws
  | _ => none

/-- The transaction is the one that the process has in view. -/
def Matches : View → Txn → Prop
  | .run r, t => r.pending = writes t
  | .other, t => ∀ ws ∈ writes t, ∀ w ∈ ws, harmless w
  | .maker a j connected, t =>
      (∀ ws ∈ writes t, ∀ w ∈ ws, makes a j w) ∧ (connected = false → writes t = none)
  | _, t => writes t = none

def LegalAll (j a : Nat) : Shown → List Write → Prop
  | _, [] => True
  | x, w :: ws => Legal j a x w ∧ LegalAll j a (x.after w) ws

structure RunOk (db : Db) (r : Run) : Prop where
  visible : Visible r.saved
  legal : ∀ ws ∈ r.pending, LegalAll r.jobId r.agentId r.saved ws
  gone : r.gone = true → db.hasJob r.jobId = false
  settled : r.closed = true → r.Settled

structure Local (db : Db) (t : Txn) (g : View) : Prop where
  here : Matches g t
  shows : ∀ j a x, g.job? = some (j, a, x) → Shows db j a x
  run : ∀ r, g = .run r → RunOk db r

theorem Local.of_other {db : Db} {t : Txn} (h : Matches .other t) : Local db t .other :=
  ⟨h, fun _ _ _ he => (nomatch he), fun _ he => nomatch he⟩

theorem Local.of_maker {db : Db} {t : Txn} {a j : Nat} {c : Bool} (h : Matches (.maker a j c) t)
    (hs : ∀ j' a' x, (View.maker a j c).job? = some (j', a', x) → Shows db j' a' x) :
    Local db t (.maker a j c) :=
  ⟨h, hs, fun _ he => nomatch he⟩

inductive Place
  | proc (i : Nat)
  | queue (jobId : Nat)
  deriving DecidableEq

variable {R : Type} {α : Type}

/-- Every id belongs to one process or one entry of the queue. -/
structure Owned (w : World R) (g : Nat → View) (owner : Nat → Option Place) : Prop where
  procs : ∀ i, ∀ n ∈ (g i).ids, owner n = some (.proc i)
  queued : ∀ t ∈ w.threads, owner t.1 = some (.queue t.1) ∧ owner t.2.1 = some (.queue t.1)
  apart : (w.threads.map (·.1)).Nodup
  drawn : ∀ n, owner n ≠ none → n < w.nextId

/-- A job and its agent, from the request that makes them on. -/
def Known (w : World R) (g : Nat → View) (key : Nat × Nat) : Prop :=
  (∃ i, (g i).key? = some key) ∨ ∃ t ∈ w.threads, t.1 = key.1 ∧ t.2.1 = key.2

structure Inv (w : World R) (g : Nat → View) : Prop where
  locals : ∀ i, Local w.db (w.txn i) (g i)
  queued : ∀ t ∈ w.threads, Shows w.db t.1 t.2.1 .start
  owned : ∃ owner, Owned w g owner
  known : ∀ job ∈ w.db.jobs, Known w g (job.jobId, job.agentId)
  agents : ∀ b ∈ w.db.agents, ∃ j, Known w g (j, b.agentId)
  rows : ∀ r ∈ w.db.steps, w.db.hasJob r.jobId = true

variable {db db' : Db} {j a : Nat} {x : Shown} {w w' : World R} {g : Nat → View} {i : Nat}

theorem harmless_spares {s : Write} (h : harmless s) : Spares j a s := by
  cases s with
  | agentState | deleteAgent | insertSession | setRemote | insertMessage | grant => trivial
  | insertAgent | insertJob | setStep | jobStep | jobVmid | jobReady | jobError | agentReady =>
      exact h.elim

theorem makes_spares {a' j' : Nat} {s : Write} (h : makes a' j' s) (ha : a' ≠ a) (hj : j' ≠ j) :
    Spares j a s := by
  cases s with
  | insertAgent y => exact fun he => ha (h.1.symm.trans he)
  | insertJob y =>
      obtain rfl := h
      exact hj
  | grant y => trivial
  | agentState | deleteAgent | insertSession | setRemote | insertMessage | setStep | jobStep
  | jobVmid | jobReady | jobError
  | agentReady => exact h.elim

theorem legal_spares {a' j' : Nat} {y : Shown} {s : Write} (h : Legal j' a' y s) (ha : a' ≠ a)
    (hj : j' ≠ j) : Spares j a s := by
  cases s with
  | setStep row =>
      obtain ⟨c, -, rfl⟩ := h
      exact hj
  | jobStep k state name =>
      obtain ⟨rfl, -⟩ := h
      exact hj
  | jobVmid k v | jobReady k | jobError k e =>
      obtain rfl := h
      exact hj
  | agentReady b v node ip token =>
      obtain ⟨rfl, -⟩ := h
      exact ha
  | agentState | deleteAgent | insertSession | setRemote | insertMessage | grant => trivial
  | insertAgent | insertJob => exact h.elim

theorem LegalAll.mem {x : Shown} {ws : List Write} (h : LegalAll j a x ws) {s : Write}
    (hs : s ∈ ws) : ∃ y, Legal j a y s := by
  induction ws generalizing x with
  | nil => cases hs
  | cons v ws ih =>
      rcases List.mem_cons.mp hs with rfl | hs
      · exact ⟨x, h.1⟩
      · exact ih h.2 hs

theorem LegalAll.snoc {x : Shown} {ws : List Write} (h : LegalAll j a x ws) {s : Write}
    (hs : Legal j a (ws.foldl Shown.after x) s) :
    LegalAll j a x (ws ++ [s]) := by
  induction ws generalizing x with
  | nil => exact ⟨hs, trivial⟩
  | cons v ws ih => exact ⟨h.1, ih h.2 hs⟩

theorem applyAll_keeps {I : Db → Prop} {ws : List Write}
    (hk : ∀ s ∈ ws, ∀ db, db.accepts s = true → I db → I (db.apply s))
    (h : I db) (happ : db.applyAll ws = some db') : I db' := by
  induction ws generalizing db with
  | nil =>
      obtain rfl := Option.some.inj happ
      exact h
  | cons s ws ih =>
      rw [Db.applyAll] at happ
      split at happ
      next hacc =>
        exact ih (fun t ht => hk t (List.mem_cons_of_mem _ ht)) (hk s List.mem_cons_self db hacc h)
          happ
      · cases happ

theorem Shows.spared_all (h : Shows db j a x) {ws : List Write} (hs : ∀ s ∈ ws, Spares j a s)
    (happ : db.applyAll ws = some db') :
    Shows db' j a x :=
  applyAll_keeps (I := fun d => Shows d j a x) (fun s hm _ _ hsh => Shows.spared hsh (hs s hm)) h
    happ

theorem Shows.own_all {ws : List Write} (h : Shows db j a x) (hl : LegalAll j a x ws)
    (happ : db.applyAll ws = some db') :
    Shows db' j a (ws.foldl Shown.after x) := by
  induction ws generalizing db x with
  | nil =>
      obtain rfl := Option.some.inj happ
      exact h
  | cons s ws ih =>
      rw [Db.applyAll] at happ
      split at happ
      next hacc => exact ih (h.own hacc hl.1) hl.2 happ
      · cases happ

theorem Shows.made (h : Shows db j a .start) {s : Write} (hs : makes a j s) :
    Shows (db.apply s) j a .start := by
  cases s with
  | insertAgent y =>
      refine ⟨h.job, h.steps, fun b hb he => ?_⟩
      rcases List.mem_append.mp hb with hb | hb
      · exact h.agent b hb he
      · exact List.mem_singleton.mp hb ▸ hs.2
  | insertJob y =>
      obtain rfl := hs
      refine ⟨fun r hr he => ?_, ?_, h.agent⟩
      · rcases List.mem_append.mp hr with hr | hr
        · exact h.job r hr he
        · obtain rfl := List.mem_singleton.mp hr
          exact ⟨rfl, rfl, rfl, iff_of_false Bool.false_ne_true fun hne => hne rfl⟩
      · have hrows : (if db.hasJob j = true then rowsAfter j 0 else []) = [] := by
          split
          · rfl
          · rfl
        refine h.steps.trans (hrows.trans ?_)
        split
        · rfl
        · rfl
  | grant y =>
      rw [Db.apply]
      split
      · exact ⟨h.job, h.steps, h.agent⟩
      · exact h
  | agentState | deleteAgent | insertSession | setRemote | insertMessage | setStep | jobStep
  | jobVmid | jobReady | jobError
  | agentReady => exact hs.elim

/-- Jobs come from `insertJob` only. -/
theorem job_apply {s : Write} {job : Job} (h : job ∈ (db.apply s).jobs) :
    (∃ old ∈ db.jobs, old.jobId = job.jobId ∧ old.agentId = job.agentId) ∨ s = .insertJob job := by
  have hupdate : ∀ {k : Nat} {change : Job → Job}, job ∈ (db.updateJob k change).jobs →
      (∀ r, (change r).jobId = r.jobId ∧ (change r).agentId = r.agentId) →
      ∃ old ∈ db.jobs, old.jobId = job.jobId ∧ old.agentId = job.agentId := by
    intro k change hm hc
    obtain ⟨old, hold, rfl⟩ := mem_updateJob hm
    refine ⟨old, hold, ?_⟩
    split
    · exact ⟨(hc old).1.symm, (hc old).2.symm⟩
    · exact ⟨rfl, rfl⟩
  cases s with
  | insertJob y =>
      rcases List.mem_append.mp h with h | h
      · exact .inl ⟨job, h, rfl, rfl⟩
      · exact .inr (by rw [List.mem_singleton.mp h])
  | jobStep k state name => exact .inl (hupdate h fun _ => ⟨rfl, rfl⟩)
  | jobVmid k v => exact .inl (hupdate h fun _ => ⟨rfl, rfl⟩)
  | jobReady k => exact .inl (hupdate h fun _ => ⟨rfl, rfl⟩)
  | jobError k e => exact .inl (hupdate h fun _ => ⟨rfl, rfl⟩)
  | deleteAgent b => exact .inl ⟨job, (List.mem_filter.mp h).1, rfl, rfl⟩
  | grant y =>
      rw [Db.apply] at h
      split at h
      · exact .inl ⟨job, h, rfl, rfl⟩
      · exact .inl ⟨job, h, rfl, rfl⟩
  | insertAgent | setStep | agentReady | agentState | insertSession | setRemote | insertMessage =>
      exact .inl ⟨job, h, rfl, rfl⟩

theorem job_applyAll {ws : List Write} {job : Job} (happ : db.applyAll ws = some db')
    (h : job ∈ db'.jobs) :
    (∃ old ∈ db.jobs, old.jobId = job.jobId ∧ old.agentId = job.agentId) ∨
      ∃ y, .insertJob y ∈ ws ∧ y.jobId = job.jobId ∧ y.agentId = job.agentId := by
  have hk :=
    applyAll_keeps (I := fun d => ∀ job ∈ d.jobs,
      (∃ old ∈ db.jobs, old.jobId = job.jobId ∧ old.agentId = job.agentId) ∨
      ∃ y, .insertJob y ∈ ws ∧ y.jobId = job.jobId ∧ y.agentId = job.agentId) ?_
    (fun job hjob => .inl ⟨job, hjob, rfl, rfl⟩) happ
  · exact hk job h
  · intro s hs d _ hd job hjob
    rcases job_apply hjob with ⟨old, hold, h₁, h₂⟩ | rfl
    · rcases hd old hold with ⟨o, ho, h₃, h₄⟩ | ⟨y, hy, h₃, h₄⟩
      · exact .inl ⟨o, ho, h₃.trans h₁, h₄.trans h₂⟩
      · exact .inr ⟨y, hy, h₃.trans h₁, h₄.trans h₂⟩
    · exact .inr ⟨job, hs, rfl, rfl⟩

/-- Agents come from `insertAgent` only. -/
theorem agent_apply {s : Write} {b : Agent} (h : b ∈ (db.apply s).agents) :
    (∃ old ∈ db.agents, old.agentId = b.agentId) ∨ s = .insertAgent b := by
  have hupdate : ∀ {k : Nat} {change : Agent → Agent}, b ∈ (db.updateAgent k change).agents →
      (∀ r, (change r).agentId = r.agentId) → ∃ old ∈ db.agents, old.agentId = b.agentId := by
    intro k change hm hc
    obtain ⟨old, hold, rfl⟩ := mem_updateAgent hm
    refine ⟨old, hold, ?_⟩
    split
    · exact (hc old).symm
    · rfl
  cases s with
  | insertAgent y =>
      rcases List.mem_append.mp h with h | h
      · exact .inl ⟨b, h, rfl⟩
      · exact .inr (by rw [List.mem_singleton.mp h])
  | agentReady k v node ip token => exact .inl (hupdate h fun _ => rfl)
  | agentState k state => exact .inl (hupdate h fun _ => rfl)
  | deleteAgent k => exact .inl ⟨b, (List.mem_filter.mp h).1, rfl⟩
  | grant y =>
      rw [Db.apply] at h
      split at h
      · exact .inl ⟨b, h, rfl⟩
      · exact .inl ⟨b, h, rfl⟩
  | insertJob | setStep | jobStep | jobVmid | jobReady | jobError | insertSession | setRemote
  | insertMessage =>
      exact .inl ⟨b, h, rfl⟩

theorem agent_applyAll {ws : List Write} {b : Agent} (happ : db.applyAll ws = some db')
    (h : b ∈ db'.agents) :
    (∃ old ∈ db.agents, old.agentId = b.agentId) ∨ ∃ y, .insertAgent y ∈ ws ∧
    y.agentId = b.agentId := by
  have hk :=
    applyAll_keeps (I := fun d => ∀ b ∈ d.agents, (∃ old ∈ db.agents, old.agentId = b.agentId) ∨
      ∃ y, .insertAgent y ∈ ws ∧ y.agentId = b.agentId) ?_ (fun b hb => .inl ⟨b, hb, rfl⟩) happ
  · exact hk b h
  · intro s hs d _ hd b hb
    rcases agent_apply hb with ⟨old, hold, h₁⟩ | rfl
    · rcases hd old hold with ⟨o, ho, h₂⟩ | ⟨y, hy, h₂⟩
      · exact .inl ⟨o, ho, h₂.trans h₁⟩
      · exact .inr ⟨y, hy, h₂.trans h₁⟩
    · exact .inr ⟨b, hs, rfl⟩

/-- The rows of `provisioning_steps` have their jobs. -/
theorem rows_apply {s : Write} (hacc : db.accepts s = true)
    (h : ∀ r ∈ db.steps, db.hasJob r.jobId = true) :
    ∀ r ∈ (db.apply s).steps, (db.apply s).hasJob r.jobId = true := by
  have hupdate : ∀ (k : Nat) (change : Job → Job), (∀ j, (change j).jobId = j.jobId) →
      ∀ r ∈ db.steps,
      (db.updateJob k change).hasJob r.jobId = true := by
    intro k change hc r hr
    rw [hasJob_updateJob k r.jobId change hc]
    exact h r hr
  cases s with
  | insertJob y =>
      intro r hr
      have hold := h r hr
      rw [Db.hasJob] at hold
      rw [Db.apply, Db.hasJob, List.any_append, hold, Bool.true_or]
  | setStep row =>
      intro r hr
      rcases KeyedTable.mem_upsert hr with rfl | hr
      · exact hacc
      · exact h r hr
  | jobStep k state name => exact hupdate k _ fun _ => rfl
  | jobVmid k v => exact hupdate k _ fun _ => rfl
  | jobReady k => exact hupdate k _ fun _ => rfl
  | jobError k e => exact hupdate k _ fun _ => rfl
  | deleteAgent k =>
      intro r hr
      obtain ⟨hin, hkeep⟩ := List.mem_filter.mp hr
      obtain ⟨y, hy, hid⟩ := List.any_eq_true.mp (h r hin)
      have hyid : y.jobId = r.jobId := of_decide_eq_true hid
      have hne : y.agentId ≠ k :=
        fun he => of_decide_eq_true (List.all_eq_true.mp hkeep y hy) ⟨hyid, he⟩
      exact List.any_eq_true.mpr ⟨y, List.mem_filter.mpr ⟨hy, decide_eq_true hne⟩, hid⟩
  | grant y =>
      rw [Db.apply]
      split
      · exact h
      · exact h
  | insertAgent | agentReady | agentState | insertSession | setRemote | insertMessage => exact h

theorem Local.spares {t : Txn} {v : View} (h : Local db t v) {ws : List Write}
    (hws : writes t = some ws)
    (hids : ∀ n ∈ v.ids, n ≠ j ∧ n ≠ a) : ∀ s ∈ ws, Spares j a s := by
  intro s hs
  have hm := h.here
  cases v with
  | other => exact harmless_spares (hm ws hws s hs)
  | maker a' j' connected =>
      exact makes_spares (hm.1 ws hws s hs) (hids a' List.mem_cons_self).2
        (hids j' (List.mem_cons_of_mem _ List.mem_cons_self)).1
  | run r =>
      have hp : r.pending = some ws := hm.trans hws
      obtain ⟨y, hy⟩ := ((h.run r rfl).legal ws hp).mem hs
      exact legal_spares hy (hids r.agentId List.mem_cons_self).2
        (hids r.jobId (List.mem_cons_of_mem _ List.mem_cons_self)).1
  | fresh | drawn b | idle => cases hws.symm.trans hm

theorem Local.no_agent {t : Txn} {v : View} (h : Local db t v) {ws : List Write}
    (hws : writes t = some ws) {y : Agent}
    (hy : .insertAgent y ∈ ws) : ∃ j, v.key? = some (j, y.agentId) := by
  have hm := h.here
  cases v with
  | other => exact (hm ws hws _ hy).elim
  | maker a' j' connected =>
      obtain ⟨he, -⟩ := hm.1 ws hws _ hy
      exact ⟨j', congrArg (fun b => some (j', b)) he.symm⟩
  | run r =>
      have hp : r.pending = some ws := hm.trans hws
      obtain ⟨z, hz⟩ := ((h.run r rfl).legal ws hp).mem hy
      exact hz.elim
  | fresh | drawn b | idle => cases hws.symm.trans hm

theorem Local.no_insert {t : Txn} {v : View} (h : Local db t v) {ws : List Write}
    (hws : writes t = some ws) {y : Job}
    (hy : .insertJob y ∈ ws) : v.key? = some (y.jobId, y.agentId) := by
  have hm := h.here
  cases v with
  | other => exact (hm ws hws _ hy).elim
  | maker a' j' connected =>
      obtain rfl : y = ⟨j', a', "REQUESTED", none, none, none, false⟩ := hm.1 ws hws _ hy
      rfl
  | run r =>
      have hp : r.pending = some ws := hm.trans hws
      obtain ⟨z, hz⟩ := ((h.run r rfl).legal ws hp).mem hy
      exact hz.elim
  | fresh | drawn b | idle => cases hws.symm.trans hm

theorem key_ids {v : View} {t : Nat × Nat} (h : v.key? = some t) : t.1 ∈ v.ids ∧ t.2 ∈ v.ids := by
  cases v with
  | maker a' j' connected =>
      obtain rfl := Option.some.inj h
      exact ⟨List.mem_cons_of_mem _ List.mem_cons_self, List.mem_cons_self⟩
  | run r =>
      obtain rfl := Option.some.inj h
      exact ⟨List.mem_cons_of_mem _ List.mem_cons_self, List.mem_cons_self⟩
  | other | fresh | drawn b | idle => cases h

theorem job_key {v : View} (h : v.job? = some (j, a, x)) : v.key? = some (j, a) := by
  rw [View.key?, h]
  rfl

theorem Owned.other {owner : Nat → Option Place} (h : Owned w g owner) {k : Nat} (hk : k ≠ i)
    {n m : Nat} (hn : n ∈ (g i).ids)
    (hm : m ∈ (g k).ids) : n ≠ m := by
  rintro rfl
  have he := (h.procs i n hn).symm.trans (h.procs k n hm)
  exact hk (Place.proc.inj (Option.some.inj he)).symm

theorem Owned.not_queued {owner : Nat → Option Place} (h : Owned w g owner) {n : Nat}
    (hn : n ∈ (g i).ids) {t : Nat × Nat × String}
    (ht : t ∈ w.threads) : n ≠ t.1 ∧ n ≠ t.2.1 := by
  obtain ⟨h₁, h₂⟩ := h.queued t ht
  have hp := h.procs i n hn
  constructor
  · rintro rfl
    cases h₁.symm.trans hp
  · rintro rfl
    cases h₂.symm.trans hp

theorem update_ids {v : View} (hids : v.ids = (g i).ids) (k : Nat) :
    (Function.update g i v k).ids = (g k).ids := by
  by_cases hk : k = i
  · subst hk
    rw [Function.update_self, hids]
  · rw [Function.update_of_ne hk]

theorem update_key {v : View} (hkey : v.key? = (g i).key?) (k : Nat) :
    (Function.update g i v k).key? = (g k).key? := by
  by_cases hk : k = i
  · subst hk
    rw [Function.update_self, hkey]
  · rw [Function.update_of_ne hk]

theorem Owned.same {owner : Nat → Option Place} (h : Owned w g owner) {v : View}
    (hids : v.ids = (g i).ids)
    (hth : w'.threads = w.threads) (hid : w'.nextId = w.nextId) :
    Owned w' (Function.update g i v) owner := by
  refine ⟨fun k n hn => h.procs k n (update_ids hids k ▸ hn), ?_, ?_, ?_⟩
  · rw [hth]
    exact h.queued
  · rw [hth]
    exact h.apart
  · rw [hid]
    exact h.drawn

theorem Known.same {key : Nat × Nat} (h : Known w g key) {v : View} (hkey : v.key? = (g i).key?)
    (hth : w'.threads = w.threads) :
    Known w' (Function.update g i v) key := by
  rcases h with ⟨k, hk⟩ | ht
  · exact .inl ⟨k, (update_key hkey k).trans hk⟩
  · exact .inr (hth ▸ ht)

theorem Inv.alone (h : Inv w g) {v : View} (hdb : w'.db = w.db) (hth : w'.threads = w.threads)
    (hid : w'.nextId = w.nextId)
    (htxn : ∀ k, k ≠ i → w'.txn k = w.txn k) (hids : v.ids = (g i).ids) (hkey : v.key? = (g i).key?)
    (hv : Local w.db (w'.txn i) v) : Inv w' (Function.update g i v) := by
  obtain ⟨owner, ho⟩ := h.owned
  refine ⟨fun k => ?_, ?_, ⟨owner, ho.same hids hth hid⟩, ?_, ?_, ?_⟩
  · rw [hdb]
    by_cases hk : k = i
    · subst hk
      rw [Function.update_self]
      exact hv
    · rw [Function.update_of_ne hk, htxn k hk]
      exact h.locals k
  · rw [hth, hdb]
    exact h.queued
  · rw [hdb]
    exact fun job hjob => (h.known job hjob).same hkey hth
  · rw [hdb]
    intro b hb
    obtain ⟨j, hj⟩ := h.agents b hb
    exact ⟨j, hj.same hkey hth⟩
  · rw [hdb]
    exact h.rows

theorem Inv.spares (h : Inv w g) {ws : List Write} (hws : writes (w.txn i) = some ws) {k : Nat}
    (hk : k ≠ i)
    (hkey : (g k).key? = some (j, a)) : ∀ s ∈ ws, Spares j a s := by
  obtain ⟨owner, ho⟩ := h.owned
  obtain ⟨hj, ha⟩ := key_ids hkey
  exact (h.locals i).spares hws fun n hn => ⟨ho.other hk hn hj, ho.other hk hn ha⟩

theorem hasJob_false {ws : List Write} (happ : db.applyAll ws = some db')
    (hno : db.hasJob j = false)
    (hs : ∀ y, .insertJob y ∈ ws → y.jobId ≠ j) : db'.hasJob j = false := by
  rw [Db.hasJob, List.any_eq_false] at hno ⊢
  intro job hjob he
  have hid : job.jobId = j := of_decide_eq_true he
  rcases job_applyAll happ hjob with ⟨old, hold, h₁, -⟩ | ⟨y, hin, h₁, -⟩
  · exact hno old hold (decide_eq_true (h₁.trans hid))
  · exact hs y hin (h₁.trans hid)

theorem Inv.committed (h : Inv w g) {v : View} {ws : List Write} (hws : writes (w.txn i) = some ws)
    (happ : w.db.applyAll ws = some w'.db) (hth : w'.threads = w.threads)
    (hid : w'.nextId = w.nextId)
    (htxn : ∀ k, k ≠ i → w'.txn k = w.txn k) (hids : v.ids = (g i).ids) (hkey : v.key? = (g i).key?)
    (hv : Local w'.db (w'.txn i) v) : Inv w' (Function.update g i v) := by
  obtain ⟨owner, ho⟩ := h.owned
  refine ⟨fun k => ?_, fun t ht => ?_, ⟨owner, ho.same hids hth hid⟩, fun job hjob => ?_,
    fun b hb => ?_, ?_⟩
  · by_cases hk : k = i
    · subst hk
      rw [Function.update_self]
      exact hv
    · rw [Function.update_of_ne hk, htxn k hk]
      obtain ⟨hm, hsh, hr⟩ := h.locals k
      refine ⟨hm, fun j a x hx => ?_, fun r hrun => ?_⟩
      · exact Shows.spared_all (hsh j a x hx) (h.spares hws hk (job_key hx)) happ
      · obtain ⟨hvis, hleg, hgone, hset⟩ := hr r hrun
        have hrkey : (g k).key? = some (r.jobId, r.agentId) := by
          rw [hrun]
          rfl
        exact ⟨hvis, hleg, fun hg => hasJob_false happ (hgone hg) fun y hy =>
          h.spares hws hk hrkey _ hy, hset⟩
  · rw [hth] at ht
    refine Shows.spared_all (h.queued t ht) ((h.locals i).spares hws fun n hn => ?_) happ
    exact ho.not_queued hn ht
  · refine Known.same ?_ hkey hth
    rcases job_applyAll happ hjob with ⟨old, hold, h₁, h₂⟩ | ⟨y, hin, h₁, h₂⟩
    · rw [← h₁, ← h₂]
      exact h.known old hold
    · refine .inl ⟨i, ?_⟩
      rw [← h₁, ← h₂]
      exact (h.locals i).no_insert hws hin
  · rcases agent_applyAll happ hb with ⟨old, hold, h₁⟩ | ⟨y, hin, h₁⟩
    · rw [← h₁]
      obtain ⟨j, hj⟩ := h.agents old hold
      exact ⟨j, hj.same hkey hth⟩
    · rw [← h₁]
      obtain ⟨j, hj⟩ := (h.locals i).no_agent hws hin
      exact ⟨j, Known.same (.inl ⟨i, hj⟩) hkey hth⟩
  · exact applyAll_keeps (I := fun d => ∀ r ∈ d.steps, d.hasJob r.jobId = true)
      (fun s _ d hacc hd => rows_apply hacc hd) h.rows happ

theorem Shows.made_all {ws : List Write} (h : Shows db j a .start) (hs : ∀ s ∈ ws, makes a j s)
    (happ : db.applyAll ws = some db') : Shows db' j a .start :=
  applyAll_keeps (I := fun d => Shows d j a .start) (fun s hm _ _ hsh => Shows.made hsh (hs s hm)) h
    happ

theorem setTxn_self (w : World R) (i : Nat) (t : Txn) : (w.setTxn i t).txn i = t :=
  Function.update_self ..

theorem setTxn_other (w : World R) (i : Nat) (t : Txn) {k : Nat} (hk : k ≠ i) :
    (w.setTxn i t).txn k = w.txn k :=
  Function.update_of_ne hk ..

theorem Inv.setTxn (h : Inv w g) {t : Txn} {v : View} (hids : v.ids = (g i).ids)
    (hkey : v.key? = (g i).key?)
    (hv : Local w.db t v) : Inv (w.setTxn i t) (Function.update g i v) := by
  refine h.alone rfl rfl rfl (fun k hk => setTxn_other w i t hk) hids hkey ?_
  rw [setTxn_self]
  exact hv

theorem Inv.stay (h : Inv w g) : Inv w (Function.update g i (g i)) := by
  rw [Function.update_eq_self]
  exact h

def View.failed : View → View
  | .run r => .run r.fault
  | v => v

theorem View.failed_ids (v : View) : v.failed.ids = v.ids := by
  cases v with
  | run r => rfl
  | other | fresh | drawn b | maker a j c | idle => rfl

theorem View.failed_key (v : View) : v.failed.key? = v.key? := by
  cases v with
  | run r => rfl
  | other | fresh | drawn b | maker a j c | idle => rfl

theorem Local.failed {t t' : Txn} {v : View} (h : Local db t v) (ht : writes t' = none) :
    Local db t' v.failed := by
  obtain ⟨hm, hsh, hr⟩ := h
  cases v with
  | run r =>
      obtain ⟨hvis, -, hgone, -⟩ := hr r rfl
      refine ⟨?_, hsh, fun r' hr' => ?_⟩
      · show r.fault.pending = writes t'
        rw [ht]
        rfl
      · obtain rfl := View.run.inj hr'
        exact ⟨hvis, nofun, hgone, fun _ => .inl rfl⟩
  | other =>
      refine ⟨fun ws hws => ?_, hsh, fun _ he => nomatch he⟩
      rw [ht] at hws
      cases hws
  | maker a' j' c =>
      refine .of_maker ⟨fun ws hws => ?_, fun _ => ht⟩ hsh
      rw [ht] at hws
      cases hws
  | fresh | drawn b | idle => exact ⟨ht, hsh, fun _ he => nomatch he⟩

theorem Inv.failed (h : Inv w g) {t : Txn} (ht : writes t = none) :
    Inv (w.setTxn i t) (Function.update g i (g i).failed) :=
  h.setTxn (g i).failed_ids (g i).failed_key ((h.locals i).failed ht)

theorem Inv.stmt_failed (h : Inv w g) (hw : w' = w ∧ w.txn i = .closed ∨ w' = w.setTxn i .aborted) :
    Inv w' (Function.update g i (g i).failed) := by
  rcases hw with ⟨rfl, hc⟩ | rfl
  · have hf := h.failed (i := i) (t := .closed) rfl
    have hsame : w'.setTxn i .closed = w' := by
      rw [World.setTxn, ← hc, Function.update_eq_self]
    rw [hsame] at hf
    exact hf
  · exact h.failed rfl

theorem moves_failed {v : View} {q : Query} {x : Effects.PyExc} (hg : v.may (.read q)) :
    v.moves (.read q) (.error x) v.failed := by
  cases v with
  | run r =>
      refine ⟨r.fault, ?_, rfl⟩
      cases q with
      | jobExists | agentName | nameTaken | agentRow | sessionOf | remoteOf | listed | jobRow
      | stepRows => rfl
  | other | maker a' j' c => rfl
  | fresh | drawn b | idle => exact hg.elim

theorem keeps_read {q : Query} {r : Except Effects.PyExc (Rows q)} (h : Inv w g)
    (hg : (g i).may (.read q))
    (hm : stmt i w w' (fun _ d w' => r = .ok (d.ask q) ∧ w' = w) (isError r)) :
    ∃ v, (g i).moves (.read q) r v ∧ Inv w' (Function.update g i v) := by
  rcases hm with ⟨ws, d, htxn, happ, rfl, rfl⟩ | ⟨herr, hw⟩
  · obtain ⟨hmt, hsh, hr⟩ := h.locals i
    cases hgi : g i with
    | run r =>
        rw [hgi] at hg hmt hsh
        have hp : r.pending = some ws := by
          refine (show r.pending = writes (w'.txn i) from hmt).trans ?_
          rw [htxn]
          rfl
        have hne : r.pending ≠ none := fun he => nomatch he.symm.trans hp
        have hstay : Inv w' (Function.update g i (.run r)) := hgi ▸ h.stay
        cases q with
        | jobExists k =>
            obtain ⟨rfl, hmem⟩ := hg
            have hws : ws = [] := by
              rw [hp] at hmem
              simpa using hmem
            subst hws
            obtain rfl : d = w'.db := (Option.some.inj happ).symm
            refine ⟨.run { r with gone := !w'.db.hasJob r.jobId }, ⟨_, ⟨hne, rfl⟩, rfl⟩, ?_⟩
            have hrun := hr r hgi
            refine h.alone rfl rfl rfl (fun _ _ => rfl) (by rw [hgi]; rfl) (by rw [hgi]; rfl)
              ⟨hmt, hsh, fun r' hr' => ?_⟩
            obtain rfl := View.run.inj hr'
            refine ⟨hrun.visible, hrun.legal, fun hno => by simpa using hno, fun hc => ?_⟩
            rcases hrun.settled hc with hs | hs | hs
            · exact .inl hs
            · refine .inr (.inl ?_)
              show (!w'.db.hasJob r.jobId) = true
              rw [hrun.gone hs]
              rfl
            · exact .inr (.inr hs)
        | agentName | nameTaken | agentRow | sessionOf | remoteOf | listed | jobRow | stepRows =>
            exact ⟨.run r, ⟨r, ⟨hne, rfl⟩, rfl⟩, hstay⟩
    | other => exact ⟨.other, rfl, hgi ▸ h.stay⟩
    | maker a' j' c => exact ⟨.maker a' j' c, rfl, hgi ▸ h.stay⟩
    | fresh | drawn b | idle =>
        rw [hgi] at hg
        exact hg.elim
  · cases r with
    | ok rows => exact herr.elim
    | error x => exact ⟨(g i).failed, moves_failed hg, h.stmt_failed hw⟩

theorem keeps_write {s : Write} {r : Except Effects.PyExc Unit} (h : Inv w g)
    (hg : (g i).may (.write s))
    (hm : stmt i w w' (fun ws d w' => r = .ok () ∧ d.accepts s = true ∧
    w' = w.setTxn i (.live (ws ++ [s]))) (isError r)) :
    ∃ v, (g i).moves (.write s) r v ∧ Inv w' (Function.update g i v) := by
  rcases hm with ⟨ws, d, htxn, happ, rfl, -, rfl⟩ | ⟨herr, hw⟩
  · obtain ⟨hmt, hsh, hr⟩ := h.locals i
    have hlive : writes (w.txn i) = some ws := by
      rw [htxn]
      rfl
    cases hgi : g i with
    | run r =>
        rw [hgi] at hg hmt hsh
        have hp : r.pending = some ws := (show r.pending = writes (w.txn i) from hmt).trans hlive
        obtain ⟨hc, hleg⟩ := hg fun he => nomatch he.symm.trans hp
        refine ⟨.run { r with pending := some (ws ++ [s]) }, ⟨_, ⟨ws, hp, rfl⟩, rfl⟩, ?_⟩
        have hrun := hr r hgi
        refine h.setTxn (by rw [hgi]; rfl) (by rw [hgi]; rfl) ⟨rfl, hsh, fun r' hr' => ?_⟩
        obtain rfl := View.run.inj hr'
        refine ⟨hrun.visible, fun ws' hws' => ?_, hrun.gone, hrun.settled⟩
        obtain rfl := Option.some.inj hws'
        refine (hrun.legal ws hp).snoc ?_
        rw [Run.now, hp] at hleg
        exact hleg
    | other =>
        rw [hgi] at hg hmt
        refine ⟨.other, rfl, h.setTxn (by rw [hgi]) (by rw [hgi])
          (.of_other fun ws' hws' s' hs' => ?_)⟩
        obtain rfl := Option.some.inj hws'
        rcases List.mem_append.mp hs' with hs' | hs'
        · exact hmt ws hlive s' hs'
        · exact List.mem_singleton.mp hs' ▸ hg
    | maker a' j' c =>
        rw [hgi] at hg hmt hsh
        refine ⟨.maker a' j' c, rfl, h.setTxn (by rw [hgi]) (by rw [hgi])
          (.of_maker ⟨fun ws' hws' s' hs' => ?_, fun hc => ?_⟩ hsh)⟩
        · obtain rfl := Option.some.inj hws'
          rcases List.mem_append.mp hs' with hs' | hs'
          · exact hmt.1 ws hlive s' hs'
          · exact List.mem_singleton.mp hs' ▸ hg
        · exact absurd ((hmt.2 hc).symm.trans hlive) (Option.some_ne_none ws).symm
    | fresh | drawn b | idle =>
        rw [hgi] at hg
        exact hg.elim
  · cases r with
    | ok u => exact herr.elim
    | error x =>
        refine ⟨(g i).failed, ?_, h.stmt_failed hw⟩
        cases hgi : g i with
        | run r => exact ⟨r.fault, rfl, rfl⟩
        | other | maker a' j' c => rfl
        | fresh | drawn b | idle =>
            rw [hgi] at hg
            exact hg.elim

theorem outcome_after {x : Shown} (h : x.outcome ≠ .running) (ws : List Write) :
    (ws.foldl Shown.after x).outcome ≠ .running := by
  induction ws generalizing x with
  | nil => exact h
  | cons s ws ih =>
      refine ih ?_
      cases s with
      | jobReady k | jobError k e => exact Outcome.noConfusion
      | insertAgent | grant | insertJob | setStep | jobStep | jobVmid | agentReady | agentState
      | deleteAgent | insertSession
      | setRemote | insertMessage => exact h

theorem now_of {r : Run} {ws : List Write} (hp : r.pending = some ws) :
    r.now = ws.foldl Shown.after r.saved := by
  rw [Run.now, hp, Option.getD_some]

theorem RunOk.commit {r r' : Run} (h : RunOk db r) {ws : List Write} (hp : r.pending = some ws)
    (happ : db.applyAll ws = some db')
    (hv : Visible r.now) (hj : r'.jobId = r.jobId) (hs : r'.saved = r.now)
    (hpend : ∀ ws ∈ r'.pending, ws = [])
    (hgone : r'.gone = r.gone) (hclosed : r'.closed = r.closed)
    (hfault : r.faulted = true → r'.faulted = true) : RunOk db' r' := by
  refine ⟨hs ▸ hv, fun ws' hws' => ?_, fun hg => ?_, fun hc => ?_⟩
  · obtain rfl := hpend ws' hws'
    trivial
  · rw [hj]
    refine hasJob_false happ (h.gone (hgone.symm.trans hg)) fun y hy => ?_
    obtain ⟨z, hz⟩ := (h.legal ws hp).mem hy
    exact hz.elim
  · rcases h.settled (hclosed.symm.trans hc) with hs' | hs' | hs'
    · exact .inl (hfault hs')
    · exact .inr (.inl (hgone.trans hs'))
    · refine .inr (.inr ?_)
      rw [hs, now_of hp]
      exact outcome_after hs' ws

theorem keeps_applied {r : Except Effects.PyExc Unit} (h : Inv w g) (hg : (g i).may .commit)
    {ws : List Write}
    (htxn : w.txn i = .live ws) (happ : w.db.applyAll ws = some db') {t : Txn}
    (ht : writes t = if r.toBool then some [] else none) :
    ∃ v, (g i).moves .commit r v ∧ Inv { w.setTxn i t with db := db' } (Function.update g i v) := by
  obtain ⟨hmt, hsh, hr⟩ := h.locals i
  have hlive : writes (w.txn i) = some ws := by
    rw [htxn]
    rfl
  have hempty : ∀ ws' ∈ writes t, ws' = [] := by
    intro ws' hws'
    rw [ht] at hws'
    split at hws'
    · exact (Option.some.inj hws').symm
    · cases hws'
  have hcommit : ∀ v : View, v.ids = (g i).ids → v.key? = (g i).key? → Local db' t v →
      Inv { w.setTxn i t with db := db' } (Function.update g i v) := by
    intro v hids hkey hv
    refine h.committed hlive happ rfl rfl (fun k hk => setTxn_other w i t hk) hids hkey ?_
    rw [show ({ w.setTxn i t with db := db' } : World R).txn i = t from setTxn_self w i t]
    exact hv
  cases hgi : g i with
  | run q =>
      rw [hgi] at hg hmt hsh
      have hp : q.pending = some ws := (show q.pending = writes (w.txn i) from hmt).trans hlive
      have hrun := hr q hgi
      have hshow : Shows db' q.jobId q.agentId q.now := by
        rw [now_of hp]
        exact Shows.own_all (hsh _ _ _ rfl) (hrun.legal ws hp) happ
      cases r with
      | ok u =>
          refine ⟨.run { q with saved := q.now, pending := some [] }, ⟨_, rfl, rfl⟩,
            hcommit _ (by rw [hgi]; rfl) (by rw [hgi]; rfl) ?_⟩
          refine ⟨ht.symm, fun j a x hx => ?_, fun q' hq' => ?_⟩
          · obtain ⟨rfl, rfl, rfl⟩ := hx
            exact hshow
          · obtain rfl := View.run.inj hq'
            exact hrun.commit hp happ hg rfl rfl (fun ws' hws' => (Option.some.inj hws').symm) rfl
              rfl id
      | error x =>
          refine ⟨.run { q.fault with saved := q.now }, ⟨_, .inr rfl, rfl⟩,
            hcommit _ (by rw [hgi]; rfl) (by rw [hgi]; rfl) ?_⟩
          refine ⟨ht.symm, fun j a x hx => ?_, fun q' hq' => ?_⟩
          · obtain ⟨rfl, rfl, rfl⟩ := hx
            exact hshow
          · obtain rfl := View.run.inj hq'
            exact hrun.commit hp happ hg rfl rfl nofun rfl rfl fun _ => rfl
  | other =>
      refine ⟨.other, ?_, hcommit _ (by rw [hgi]) (by rw [hgi])
        (.of_other fun ws' hws' s' hs' => ?_)⟩
      · cases r with
        | ok u | error x => rfl
      · obtain rfl := hempty ws' hws'
        cases hs'
  | maker a' j' c =>
      rw [hgi] at hg hmt hsh
      refine ⟨.maker a' j' c, ?_, hcommit _ (by rw [hgi]) (by rw [hgi])
        (.of_maker ⟨fun ws' hws' s' hs' => ?_, fun hc => ?_⟩ ?_)⟩
      · cases r with
        | ok u | error x => rfl
      · obtain rfl := hempty ws' hws'
        cases hs'
      · exact absurd (hc.symm.trans hg) Bool.false_ne_true
      · intro j a x hx
        obtain ⟨rfl, rfl, rfl⟩ := hx
        exact Shows.made_all (hsh _ _ _ rfl) (hmt.1 ws hlive) happ
  | fresh | drawn b | idle =>
      rw [hgi] at hg
      exact hg.elim

theorem keeps_commit {remote : R → PveCall → PveAns → R → Prop} {r : Except Effects.PyExc Unit}
    (h : Inv w g)
    (hg : (g i).may .commit) (hm : move remote i w .commit r w') : ∃ v, (g i).moves .commit r v ∧
    Inv w' (Function.update g i v) := by
  cases r with
  | ok u =>
      rcases hm with ⟨ws, d, htxn, happ, rfl⟩ | ⟨htxn, rfl⟩
      · exact keeps_applied h hg htxn happ rfl
      · obtain ⟨hmt, hsh, hr⟩ := h.locals i
        have hnone : writes (w.txn i) = none := by
          rw [htxn]
          rfl
        cases hgi : g i with
        | run q =>
            rw [hgi] at hg hmt hsh
            have hp : q.pending = none := (show q.pending = writes (w.txn i) from hmt).trans hnone
            have hnow : q.now = q.saved := by
              rw [Run.now, hp]
              rfl
            refine ⟨.run { q with saved := q.now, pending := some [] }, ⟨_, rfl, rfl⟩, ?_⟩
            have hrun := hr q hgi
            refine h.setTxn (by rw [hgi]; rfl) (by rw [hgi]; rfl)
              ⟨rfl, fun j a x hx => ?_, fun q' hq' => ?_⟩
            · obtain ⟨rfl, rfl, rfl⟩ := hx
              rw [hnow]
              exact hsh _ _ _ rfl
            · obtain rfl := View.run.inj hq'
              refine ⟨hg, fun ws' hws' => ?_, hrun.gone, fun hc => ?_⟩
              · obtain rfl := Option.some.inj hws'
                trivial
              · rw [Run.Settled, hnow]
                exact hrun.settled hc
        | other =>
            refine ⟨.other, rfl, h.setTxn (by rw [hgi]) (by rw [hgi])
              (.of_other fun ws' hws' s' hs' => ?_)⟩
            obtain rfl := Option.some.inj hws'
            cases hs'
        | maker a' j' c =>
            rw [hgi] at hg hsh
            refine ⟨.maker a' j' c, rfl, h.setTxn (by rw [hgi]) (by rw [hgi])
              (.of_maker ⟨fun ws' hws' s' hs' => ?_, fun hc => ?_⟩ hsh)⟩
            · obtain rfl := Option.some.inj hws'
              cases hs'
            · exact absurd (hc.symm.trans hg) Bool.false_ne_true
        | fresh | drawn b | idle =>
            rw [hgi] at hg
            exact hg.elim
  | error x =>
      rcases hm with rfl | ⟨ws, d, htxn, happ, rfl⟩
      · refine ⟨(g i).failed, ?_, h.failed rfl⟩
        cases hgi : g i with
        | run q => exact ⟨q.fault, .inl rfl, rfl⟩
        | other | maker a' j' c => rfl
        | fresh | drawn b | idle =>
            rw [hgi] at hg
            exact hg.elim
      · exact keeps_applied h hg htxn happ rfl

theorem keeps_connect {remote : R → PveCall → PveAns → R → Prop} {r : Except Effects.PyExc Unit}
    (h : Inv w g)
    (hg : (g i).may .connect) (hm : move remote i w .connect r w') :
    ∃ v, (g i).moves .connect r v ∧ Inv w' (Function.update g i v) := by
  obtain ⟨-, hsh, hr⟩ := h.locals i
  cases r with
  | ok u =>
      obtain rfl : w' = w.setTxn i (.live []) := hm
      cases hgi : g i with
      | run q =>
          rw [hgi] at hsh
          refine ⟨.run { q with pending := some [] }, ⟨_, rfl, rfl⟩, ?_⟩
          have hrun := hr q hgi
          refine h.setTxn (by rw [hgi]; rfl) (by rw [hgi]; rfl) ⟨rfl, hsh, fun q' hq' => ?_⟩
          obtain rfl := View.run.inj hq'
          refine ⟨hrun.visible, fun ws' hws' => ?_, hrun.gone, hrun.settled⟩
          obtain rfl := Option.some.inj hws'
          trivial
      | other =>
          refine ⟨.other, rfl, h.setTxn (by rw [hgi]) (by rw [hgi])
            (.of_other fun ws' hws' s' hs' => ?_)⟩
          obtain rfl := Option.some.inj hws'
          cases hs'
      | maker a' j' c =>
          rw [hgi] at hsh
          refine ⟨.maker a' j' true, rfl, h.setTxn (by rw [hgi]; rfl) (by rw [hgi]; rfl)
            (.of_maker ⟨fun ws' hws' s' hs' => ?_, nofun⟩ hsh)⟩
          obtain rfl := Option.some.inj hws'
          cases hs'
      | fresh | drawn b | idle =>
          rw [hgi] at hg
          exact hg.elim
  | error x =>
      obtain rfl : w' = w.setTxn i .closed := hm
      cases hgi : g i with
      | run q =>
          have hf := h.failed (i := i) (t := .closed) rfl
          rw [hgi] at hf
          exact ⟨.run q.fault, ⟨_, rfl, rfl⟩, hf⟩
      | other => exact ⟨.other, rfl, h.setTxn (by rw [hgi]) (by rw [hgi]) (.of_other nofun)⟩
      | maker a' j' c =>
          rw [hgi] at hsh
          exact ⟨.maker a' j' false, rfl, h.setTxn (by rw [hgi]; rfl) (by rw [hgi]; rfl)
            (.of_maker ⟨nofun, fun _ => rfl⟩ hsh)⟩
      | fresh | drawn b | idle =>
          rw [hgi] at hg
          exact hg.elim

theorem keeps_close {u : Unit} (h : Inv w g) (hg : (g i).may .close) :
    ∃ v, (g i).moves .close u v ∧ Inv (w.setTxn i .closed) (Function.update g i v) := by
  obtain ⟨-, hsh, hr⟩ := h.locals i
  cases hgi : g i with
  | run q =>
      rw [hgi] at hg hsh
      refine ⟨.run { q with pending := none, closed := true }, ⟨_, rfl, rfl⟩, ?_⟩
      have hrun := hr q hgi
      refine h.setTxn (by rw [hgi]; rfl) (by rw [hgi]; rfl) ⟨rfl, hsh, fun q' hq' => ?_⟩
      obtain rfl := View.run.inj hq'
      exact ⟨hrun.visible, nofun, hrun.gone, fun _ => hg⟩
  | other => exact ⟨.other, rfl, h.setTxn (by rw [hgi]) (by rw [hgi]) (.of_other nofun)⟩
  | maker a' j' c =>
      rw [hgi] at hsh
      exact ⟨.maker a' j' false, rfl, h.setTxn (by rw [hgi]; rfl) (by rw [hgi]; rfl)
        (.of_maker ⟨nofun, fun _ => rfl⟩ hsh)⟩
  | fresh | drawn b | idle =>
      rw [hgi] at hg
      exact hg.elim

theorem Known.owned {owner : Nat → Option Place} {key : Nat × Nat} (h : Known w g key)
    (ho : Owned w g owner) :
    owner key.1 ≠ none ∧ owner key.2 ≠ none := by
  rcases h with ⟨k, hk⟩ | ⟨t, ht, h₁, h₂⟩
  · obtain ⟨hj, ha⟩ := key_ids hk
    exact ⟨(fun he => nomatch he.symm.trans (ho.procs k _ hj)),
      fun he => nomatch he.symm.trans (ho.procs k _ ha)⟩
  · obtain ⟨hj, ha⟩ := ho.queued t ht
    rw [← h₁, ← h₂]
    exact ⟨(fun he => nomatch he.symm.trans hj), fun he => nomatch he.symm.trans ha⟩

theorem Inv.count (h : Inv w g) : Inv { w with nextId := w.nextId + 1 } g := by
  obtain ⟨owner, ho⟩ := h.owned
  exact ⟨h.locals, h.queued, ⟨owner, ho.procs, ho.queued, ho.apart,
    fun n hn => (ho.drawn n hn).trans (Nat.lt_succ_self _)⟩,
    h.known, h.agents, h.rows⟩

theorem Inv.locals_update (h : Inv w g) {v : View} (hv : Local w.db (w.txn i) v) (k : Nat) :
    Local w.db (w.txn k) (Function.update g i v k) := by
  by_cases hk : k = i
  · subst hk
    rw [Function.update_self]
    exact hv
  · rw [Function.update_of_ne hk]
    exact h.locals k

theorem Owned.free {owner : Nat → Option Place} (ho : Owned w g owner) : owner w.nextId = none := by
  by_contra hne
  exact absurd (ho.drawn _ hne) (Nat.lt_irrefl _)

theorem Owned.after_draw {owner : Nat → Option Place} (ho : Owned w g owner) {v : View}
    (hids : v.ids = (g i).ids ++ [w.nextId]) :
    Owned { w with nextId := w.nextId + 1 } (Function.update g i v)
      (Function.update owner w.nextId (some (.proc i))) := by
  refine ⟨fun k n hn => ?_, fun t ht => ?_, ho.apart, fun n hn => ?_⟩
  · by_cases hnew : n = w.nextId
    · subst hnew
      rw [Function.update_self]
      by_cases hk : k = i
      · rw [hk]
      · rw [Function.update_of_ne hk] at hn
        cases ho.free.symm.trans (ho.procs k _ hn)
    · rw [Function.update_of_ne hnew]
      by_cases hk : k = i
      · subst hk
        rw [Function.update_self, hids] at hn
        rcases List.mem_append.mp hn with hn | hn
        · exact ho.procs k n hn
        · exact absurd (List.mem_singleton.mp hn) hnew
      · rw [Function.update_of_ne hk] at hn
        exact ho.procs k n hn
  · obtain ⟨h₁, h₂⟩ := ho.queued t ht
    have hne₁ : t.1 ≠ w.nextId := fun he => nomatch (he ▸ h₁).symm.trans ho.free
    have hne₂ : t.2.1 ≠ w.nextId := fun he => nomatch (he ▸ h₂).symm.trans ho.free
    rw [Function.update_of_ne hne₁, Function.update_of_ne hne₂]
    exact ⟨h₁, h₂⟩
  · by_cases hnew : n = w.nextId
    · rw [hnew]
      exact Nat.lt_succ_self _
    · rw [Function.update_of_ne hnew] at hn
      exact (ho.drawn n hn).trans (Nat.lt_succ_self _)

theorem Inv.draw (h : Inv w g) {v : View} (hids : v.ids = (g i).ids ++ [w.nextId])
    (hkey : (g i).key? = none)
    (hv : Local w.db (w.txn i) v) : Inv { w with nextId := w.nextId + 1 }
    (Function.update g i v) := by
  obtain ⟨owner, ho⟩ := h.owned
  have hknown : ∀ {key : Nat × Nat}, Known w g key →
      Known { w with nextId := w.nextId + 1 } (Function.update g i v) key := by
    rintro key (⟨k, hk⟩ | ht)
    · have hki : k ≠ i := by
        rintro rfl
        cases hkey.symm.trans hk
      exact .inl ⟨k, by rw [Function.update_of_ne hki, hk]⟩
    · exact .inr ht
  refine ⟨h.locals_update hv, h.queued, ⟨_, ho.after_draw hids⟩,
    fun job hjob => hknown (h.known job hjob), fun b hb => ?_, h.rows⟩
  obtain ⟨j, hj⟩ := h.agents b hb
  exact ⟨j, hknown hj⟩

theorem Inv.shows_new (h : Inv w g) {a : Nat} (hgi : g i = .drawn a) :
    Shows w.db w.nextId a .start := by
  obtain ⟨owner, ho⟩ := h.owned
  have hjob : ∀ job ∈ w.db.jobs, job.jobId ≠ w.nextId := by
    intro job hjob he
    exact ((h.known job hjob).owned ho).1 (he ▸ ho.free)
  have hno : w.db.hasJob w.nextId = false := by
    rw [Db.hasJob, List.any_eq_false]
    exact fun job hm he => hjob job hm (of_decide_eq_true he)
  refine ⟨fun job hm he => absurd he (hjob job hm), ?_, fun b hb he => ?_⟩
  · rw [hno, if_neg Bool.false_ne_true]
    refine List.filter_eq_nil_iff.mpr fun r hr he => ?_
    have hrow := h.rows r hr
    rw [of_decide_eq_true he, hno] at hrow
    cases hrow
  · obtain ⟨j, hj⟩ := h.agents b hb
    have ha : a ∈ (g i).ids := by
      rw [hgi]
      exact List.mem_cons_self
    rcases hj with ⟨k, hk⟩ | ⟨t, ht, -, h₂⟩
    · by_cases hki : k = i
      · subst hki
        rw [hgi] at hk
        cases hk
      · exact absurd he.symm (ho.other hki ha (key_ids hk).2)
    · exact absurd (he.symm.trans h₂.symm) (ho.not_queued ha ht).2

theorem keeps_uuid (h : Inv w g) (hg : (g i).may .uuid) :
    ∃ v, (g i).moves .uuid w.nextId v ∧ Inv { w with nextId := w.nextId + 1 }
      (Function.update g i v) := by
  cases hgi : g i with
  | run q => exact ⟨.run q, ⟨q, rfl, rfl⟩, hgi ▸ h.count.stay⟩
  | other => exact ⟨.other, rfl, hgi ▸ h.count.stay⟩
  | fresh =>
      have hl := h.locals i
      rw [hgi] at hl
      exact ⟨.drawn w.nextId, rfl, h.draw (by rw [hgi]; rfl) (by rw [hgi]; rfl)
        ⟨hl.here, (fun _ _ _ he => nomatch he), fun _ he => nomatch he⟩⟩
  | drawn a =>
      have hl := h.locals i
      rw [hgi] at hl
      have hnone : writes (w.txn i) = none := hl.here
      refine ⟨.maker a w.nextId false, rfl, h.draw (by rw [hgi]; rfl) (by rw [hgi]; rfl)
        (.of_maker ⟨fun ws hws => ?_, fun _ => hnone⟩ ?_)⟩
      · cases hnone.symm.trans hws
      · intro j a' x hx
        obtain ⟨rfl, rfl, rfl⟩ := hx
        exact h.shows_new hgi
  | maker a' j' c | idle =>
      rw [hgi] at hg
      exact hg.elim

theorem Owned.after_spawn {owner : Nat → Option Place} (ho : Owned w g owner) {k b : Nat}
    (hk : k ∈ (g i).ids) (hb : b ∈ (g i).ids)
    (name : String) {v : View} (hv : v.ids = []) :
    Owned { w with threads := w.threads ++ [(k, b, name)] } (Function.update g i v)
      (fun n => if n ∈ (g i).ids then some (.queue k) else owner n) := by
  refine ⟨fun m n hn => ?_, fun t ht => ?_, ?_, fun n hn => ?_⟩
  · by_cases hm : m = i
    · subst hm
      rw [Function.update_self, hv] at hn
      cases hn
    · rw [Function.update_of_ne hm] at hn
      rw [if_neg (fun hin => ho.other hm hin hn rfl)]
      exact ho.procs m n hn
  · rcases List.mem_append.mp ht with ht | ht
    · rw [if_neg (fun hin => (ho.not_queued hin ht).1 rfl),
        if_neg (fun hin => (ho.not_queued hin ht).2 rfl)]
      exact ho.queued t ht
    · obtain rfl := List.mem_singleton.mp ht
      rw [if_pos hk, if_pos hb]
      exact ⟨rfl, rfl⟩
  · rw [List.map_append, List.nodup_append]
    refine ⟨ho.apart, List.nodup_singleton _, fun m hm m' hm' => ?_⟩
    obtain ⟨t, ht, rfl⟩ := List.mem_map.mp hm
    obtain rfl := List.mem_singleton.mp hm'
    exact (ho.not_queued hk ht).1.symm
  · by_cases hin : n ∈ (g i).ids
    · exact ho.drawn n fun he => nomatch he.symm.trans (ho.procs i n hin)
    · rw [if_neg hin] at hn
      exact ho.drawn n hn

theorem keeps_spawn {k b : Nat} {name : String} (h : Inv w g) (hg : (g i).may (.spawn k b name)) :
    ∃ v, (g i).moves (.spawn k b name) () v ∧
      Inv { w with threads := w.threads ++ [(k, b, name)] } (Function.update g i v) := by
  cases hgi : g i with
  | maker a' j' c =>
      rw [hgi] at hg
      obtain ⟨rfl, rfl, rfl⟩ := hg
      have hl := h.locals i
      rw [hgi] at hl
      obtain ⟨owner, ho⟩ := h.owned
      have hj : k ∈ (g i).ids := by
        rw [hgi]
        exact List.mem_cons_of_mem _ List.mem_cons_self
      have ha : b ∈ (g i).ids := by
        rw [hgi]
        exact List.mem_cons_self
      have hknown : ∀ {key : Nat × Nat}, Known w g key →
          Known { w with threads := w.threads ++ [(k, b, name)] } (Function.update g i .other)
            key := by
        rintro key (⟨m, hm⟩ | ⟨t, ht, ht'⟩)
        · by_cases hmi : m = i
          · subst hmi
            rw [hgi] at hm
            obtain rfl := Option.some.inj hm
            exact .inr ⟨(k, b, name), List.mem_append_right _ List.mem_cons_self, rfl, rfl⟩
          · exact .inl ⟨m, by rw [Function.update_of_ne hmi, hm]⟩
        · exact .inr ⟨t, List.mem_append_left _ ht, ht'⟩
      have hother : Local w.db (w.txn i) .other := by
        refine .of_other fun ws hws => ?_
        cases (hl.here.2 rfl).symm.trans hws
      refine ⟨.other, rfl, h.locals_update hother, fun t ht => ?_,
        ⟨_, ho.after_spawn hj ha name rfl⟩,
        fun job hjob => hknown (h.known job hjob), fun c hc => ?_, h.rows⟩
      · rcases List.mem_append.mp ht with ht | ht
        · exact h.queued t ht
        · obtain rfl := List.mem_singleton.mp ht
          exact hl.shows k b .start rfl
      · obtain ⟨m, hm⟩ := h.agents c hc
        exact ⟨m, hknown hm⟩
  | run q | other | fresh | drawn a | idle =>
      rw [hgi] at hg
      exact hg.elim

theorem Owned.after_begin {owner : Nat → Option Place} (ho : Owned w g owner)
    {t : Nat × Nat × String}
    {before after : List (Nat × Nat × String)} (hth : w.threads = before ++ t :: after) {v : View}
    (hv : v.ids = [t.2.1, t.1]) :
    Owned { w with threads := before ++ after } (Function.update g i v)
      (fun n => if owner n = some (.queue t.1) then some (.proc i) else owner n) := by
  obtain ⟨hjob, hagent⟩ := ho.queued t (hth ▸ List.mem_append_right _ List.mem_cons_self)
  have hrest : ∀ s ∈ before ++ after, s ∈ w.threads := by
    rw [hth]
    exact ((List.sublist_cons_self t after).append_left before).subset
  have hapart : (before.map (·.1) ++ t.1 :: after.map (·.1)).Nodup := by
    have hnd := ho.apart
    rw [hth, List.map_append, List.map_cons] at hnd
    exact hnd
  obtain ⟨hnot, hnodup⟩ := List.nodup_cons.mp ((List.perm_middle.nodup_iff).mp hapart)
  have hne : ∀ s ∈ before ++ after, s.1 ≠ t.1 := by
    rintro s hs he
    refine hnot ?_
    rw [← List.map_append, ← he]
    exact List.mem_map_of_mem hs
  refine ⟨fun m n hn => ?_, fun s hs => ?_, ?_, fun n hn => ?_⟩
  · by_cases hm : m = i
    · subst hm
      rw [Function.update_self, hv] at hn
      rcases List.mem_cons.mp hn with rfl | hn
      · exact if_pos hagent
      · obtain rfl := List.mem_singleton.mp hn
        exact if_pos hjob
    · rw [Function.update_of_ne hm] at hn
      have hp := ho.procs m n hn
      rw [if_neg (fun he : owner n = some (.queue t.1) => nomatch he.symm.trans hp)]
      exact hp
  · obtain ⟨h₁, h₂⟩ := ho.queued s (hrest s hs)
    have hq : Place.queue s.1 ≠ Place.queue t.1 := fun he => hne s hs (Place.queue.inj he)
    rw [if_neg (fun he => hq (Option.some.inj (h₁.symm.trans he))),
      if_neg (fun he => hq (Option.some.inj (h₂.symm.trans he)))]
    exact ⟨h₁, h₂⟩
  · rw [List.map_append]
    exact hnodup
  · by_cases hq : owner n = some (.queue t.1)
    · exact ho.drawn n fun he => nomatch he.symm.trans hq
    · rw [if_neg hq] at hn
      exact ho.drawn n hn

theorem keeps_begin {t : Nat × Nat × String} {before after : List (Nat × Nat × String)}
    (h : Inv w g) (hg : (g i).may .begin)
    (hth : w.threads = before ++ t :: after) :
    ∃ v, (g i).moves .begin t v ∧ Inv { w with threads := before ++ after }
      (Function.update g i v) := by
  cases hgi : g i with
  | idle =>
      have hl := h.locals i
      rw [hgi] at hl
      obtain ⟨owner, ho⟩ := h.owned
      have hknown : ∀ {key : Nat × Nat}, Known w g key →
          Known { w with threads := before ++ after }
            (Function.update g i (.run (.fresh t.1 t.2.1))) key := by
        rintro key (⟨m, hm⟩ | ⟨s, hs, h₁, h₂⟩)
        · by_cases hmi : m = i
          · subst hmi
            rw [hgi] at hm
            cases hm
          · exact .inl ⟨m, by rw [Function.update_of_ne hmi, hm]⟩
        · rw [hth] at hs
          rcases List.mem_append.mp hs with hs | hs
          · exact .inr ⟨s, List.mem_append_left _ hs, h₁, h₂⟩
          · rcases List.mem_cons.mp hs with rfl | hs
            · refine .inl ⟨i, ?_⟩
              rw [Function.update_self]
              exact congrArg some (Prod.ext h₁ h₂)
            · exact .inr ⟨s, List.mem_append_right _ hs, h₁, h₂⟩
      have hfresh : Local w.db (w.txn i) (.run (.fresh t.1 t.2.1)) := by
        refine ⟨hl.here.symm, fun j a x hx => ?_, fun r hr => ?_⟩
        · obtain ⟨rfl, rfl, rfl⟩ := hx
          exact h.queued t (hth ▸ List.mem_append_right _ List.mem_cons_self)
        · obtain rfl := View.run.inj hr
          exact ⟨⟨rfl, rfl, List.mem_cons_self⟩, nofun, nofun, nofun⟩
      have hrest : ∀ s ∈ before ++ after, s ∈ w.threads := by
        rw [hth]
        exact ((List.sublist_cons_self t after).append_left before).subset
      refine ⟨.run (.fresh t.1 t.2.1), rfl, h.locals_update hfresh,
        fun s hs => h.queued s (hrest s hs),
        ⟨_, ho.after_begin hth rfl⟩, fun job hjob => hknown (h.known job hjob), fun c hc => ?_, h.rows⟩
      obtain ⟨m, hm⟩ := h.agents c hc
      exact ⟨m, hknown hm⟩
  | run q | other | fresh | drawn a | maker a' j' c =>
      rw [hgi] at hg
      exact hg.elim

theorem moves_quiet {e : Eff} {ans : Ans e} (he : quiet e) {v : View} (hf : v ≠ .fresh)
    (hd : ∀ a, v ≠ .drawn a) (hi : v ≠ .idle) :
    v.moves e ans v := by
  cases v with
  | fresh => exact absurd rfl hf
  | drawn a => exact absurd rfl (hd a)
  | idle => exact absurd rfl hi
  | run q =>
      cases e with
      | connect | read | write | commit | close | spawn | begin => exact he.elim
      | uuid | clock | token | sleep | secret | pve | keyGenerate | health | postSession
      | postMessage => exact ⟨q, rfl, rfl⟩
  | other | maker a j c =>
      cases e with
      | connect | read | write | commit | close | spawn | begin => exact he.elim
      | uuid | clock | token | sleep | secret | pve | keyGenerate | health | postSession
      | postMessage => rfl

theorem keeps_outside {e : Eff} {ans : Ans e} (he : quiet e) (hu : e ≠ .uuid) (h : Inv w g)
    (hg : (g i).may e)
    (hdb : w'.db = w.db) (hth : w'.threads = w.threads) (hid : w'.nextId = w.nextId)
    (htxn : w'.txn = w.txn) :
    ∃ v, (g i).moves e ans v ∧ Inv w' (Function.update g i v) := by
  have hinv : Inv w' (Function.update g i (g i)) := by
    refine h.alone hdb hth hid (fun k _ => by rw [htxn]) rfl rfl ?_
    rw [htxn]
    exact h.locals i
  cases hgi : g i with
  | run q | other | maker a j c =>
      exact ⟨_, moves_quiet he nofun (fun _ => nofun) nofun, hgi ▸ hinv⟩
  | fresh | drawn a =>
      rw [hgi] at hg
      cases e with
      | uuid => exact absurd rfl hu
      | connect | read | write | commit | close | clock | token | sleep | secret | spawn | begin
      | pve | keyGenerate | health
      | postSession | postMessage => exact hg.elim
  | idle =>
      rw [hgi] at hg
      cases e with
      | begin => exact he.elim
      | uuid | connect | read | write | commit | close | clock | token | sleep | secret | spawn
      | pve | keyGenerate | health
      | postSession | postMessage => exact hg.elim

theorem keeps {remote : R → PveCall → PveAns → R → Prop} {e : Eff} {ans : Ans e} (h : Inv w g)
    (hg : (g i).may e)
    (hm : move remote i w e ans w') : ∃ v, (g i).moves e ans v ∧
    Inv w' (Function.update g i v) := by
  cases e with
  | connect => exact keeps_connect h hg hm
  | read q => exact keeps_read h hg hm
  | write s => exact keeps_write h hg hm
  | commit => exact keeps_commit h hg hm
  | close =>
      obtain rfl : w' = w.setTxn i .closed := hm
      exact keeps_close h hg
  | uuid =>
      obtain ⟨rfl, rfl⟩ := hm
      exact keeps_uuid h hg
  | spawn k b name =>
      obtain rfl : w' = { w with threads := w.threads ++ [(k, b, name)] } := hm
      exact keeps_spawn h hg
  | begin =>
      obtain ⟨before, after, hth, rfl⟩ := hm
      exact keeps_begin h hg hth
  | pve c =>
      obtain ⟨r, -, rfl⟩ := hm
      exact keeps_outside trivial nofun h hg rfl rfl rfl rfl
  | clock | token | sleep | secret | keyGenerate | health | postSession | postMessage =>
      obtain rfl : w' = w := hm
      exact keeps_outside trivial nofun h hg rfl rfl rfl rfl

end ServerManager.AgentLedger
