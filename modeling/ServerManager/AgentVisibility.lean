import ServerManager.Presets
import Mathlib.Data.List.Dedup
import Mathlib.Data.List.Pairwise
import Mathlib.Data.List.Sort

namespace ServerManager.AgentVisibility

open PyJson
open Presets (trim)

structure Agent where
  agentId : Nat
  name : String
  agentType : String
  ownerUsername : String
  harness : String
  state : String
  vmid : Option Int
  node : Option String
  agentIp : Option String
  modelProfile : Option String
  createdAt : Int
  deriving DecidableEq

inductive Kind
  | user
  | root
  | group
  deriving DecidableEq

structure Access where
  agentId : Nat
  principal : String
  kind : Kind
  grantedBy : String
  deriving DecidableEq

structure World where
  agents : List Agent
  access : List Access
  nextId : Nat

def World.empty : World := ⟨[], [], 0⟩

/-- `ON CONFLICT DO NOTHING` on the agent and the principal, for an agent that exists. -/
def World.grant (w : World) (x : Access) : World :=
  if w.agents.any (fun a => decide (a.agentId = x.agentId)) &&
      w.access.all (fun y => decide (¬ (y.agentId = x.agentId ∧ y.principal = x.principal))) then
    { w with access := w.access ++ [x] }
  else w

def field (body : Dict) (key : String) : Json := (Dict.get? body key).getD .null

/-- `[a-z0-9]`, or with a hyphen. -/
def nameChar (hyphen : Bool) (c : Char) : Bool := c.isLower || c.isDigit || (hyphen && c == '-')

/-- `^[a-z0-9][a-z0-9-]{2,40}$`. -/
def nameOk (name : String) : Bool :=
  match name.toList with
  | c :: cs => nameChar false c && cs.all (nameChar true) && decide (2 ≤ cs.length ∧ cs.length ≤ 40)
  | [] => false

inductive CreateReply
  | error (status : Nat) (text : String)
  | failed
  | created (agentId : Nat) (state : String)

section
-- what psycopg2 and PostgreSQL make of a value that is inserted in a text column, if they take it
variable (textColumn : Json → Option (Option String))

/-- The row of the INSERT, if its values are such that the table takes it. -/
def newAgent (w : World) (user name harness : String) (body : Dict) (now : Int) : Option Agent := do
  let agentType ← textColumn ((Dict.get? body "agent_type").getD (.str "STEA"))
  let modelProfile ← textColumn ((Dict.get? body "model_profile").getD (.str "code"))
  let _ ← textColumn (field body "role_title")
  let _ ← textColumn (field body "description")
  let agentType ← agentType
  if agentType = "STEA" ∨ agentType = "STBM" then
    pure ⟨w.nextId, name, agentType, user, harness, "PROVISIONING", none, none, none, modelProfile,
      now⟩
  else none

def principals (user : String) : List (String × Kind) :=
  [(user, .user), ("jordatech", .user), ("root", .root)]

def harnesses : List String := ["HERMES", "PI", "RUFLO", "OPENCLAW"]

/-- `create_agent`, as far as the two tables go. -/
def createAgent (user : Option String) (body : Dict) (now : Int) (w : World) :
    World × CreateReply :=
  match user with
  | none => (w, .error 401 "auth required")
  | some user =>
      match (field body "name").orElse (.str "") with
      | .str text =>
          let name := trim text
          if !nameOk name then (w, .error 400 "name must be 3-41 chars [a-z0-9-]")
          else
            match harnesses.find? ((Dict.get? body "harness").getD (.str "HERMES")).isStr with
            | none => (w, .error 400 "bad harness")
            | some harness =>
                if w.agents.any (fun a => decide (a.name = name)) then (w, .error 409 "name exists")
                else
                  match newAgent textColumn w user name harness body now with
                  | none => (w, .failed)
                  | some a =>
                      let inserted : World :=
                        { w with agents := w.agents ++ [a], nextId := w.nextId + 1 }
                      ((principals user).foldl (fun w p => w.grant ⟨a.agentId, p.1, p.2, user⟩)
                        inserted,
                        .created a.agentId "PROVISIONING")
      | _ => (w, .failed)

end

/-- `agents a LEFT JOIN agent_access x ON x.agent_id = a.agent_id`. -/
def leftJoin (w : World) : List (Agent × Option Access) :=
  w.agents.flatMap fun a =>
    match w.access.filter (fun x => decide (x.agentId = a.agentId)) with
    | [] => [(a, none)]
    | xs => xs.map fun x => (a, some x)

/-- `a.owner_username=%s OR x.principal=%s OR x.principal='root'`. -/
def selects (user : String) (row : Agent × Option Access) : Bool :=
  decide (row.1.ownerUsername = user) || row.2.any (fun x => decide (x.principal = user)) ||
    row.2.any (fun x => decide (x.principal = "root"))

/-- `ORDER BY created_at DESC`. -/
def newestFirst (agents : List Agent) : List Agent :=
  agents.insertionSort (fun a b => a.createdAt ≥ b.createdAt)

def seesAll (user role : String) : Bool := decide (user = "root" ∨ role = "Security-Admin")

def query (user role : String) (w : World) : List Agent :=
  if seesAll user role then newestFirst w.agents
  else newestFirst (((leftJoin w).filter (selects user)).map (·.1)).dedup

/-- What the reconciliation with PVE meets: an exception before anything is committed or after that,
or none. -/
inductive Reconcile
  | skipped
  | committed (vms : List Int)
  | done (vms : List Int)

def lostVm (vms : List Int) (a : Agent) : Bool :=
  ["READY", "STOPPED", "PROVISIONING"].contains a.state &&
    a.vmid.any (fun v => v != 0 && !vms.contains v)

/-- `UPDATE agents SET … WHERE agent_id=%s`. -/
def World.update (w : World) (ids : List Nat) (change : Agent → Agent) : World :=
  { w with agents := w.agents.map (fun a => if a.agentId ∈ ids then change a else a) }

def failedState (a : Agent) : Agent := { a with state := "ERROR" }

def fixes (vms : List Int) (rows : List Agent) : List Nat :=
  (rows.filter (lostVm vms)).map (·.agentId)

/-- The rows of `list_agents` for a user who is logged in. -/
def listAgents (user role : String) (reconcile : Reconcile) (w : World) : World × List Agent :=
  let rows := query user role w
  match reconcile with
  | .skipped => (w, rows)
  | .committed vms => (w.update (fixes vms rows) failedState, rows)
  | .done vms =>
      if fixes vms rows = [] then (w, rows)
      else (w.update (fixes vms rows) failedState,
        query user role (w.update (fixes vms rows) failedState))

inductive Event
  | create (user : Option String) (body : Dict) (now : Int)
  | grant (x : Access)
  /-- The end of `provision_job`. -/
  | provisioned (agentId : Nat) (vmid : Int) (node agentIp : String)
  /-- A failed job, a stop or a start. -/
  | setState (agentId : Nat) (state : String)
  /-- Its access rows go with it. -/
  | delete (agentId : Nat)
  | list (user role : String) (reconcile : Reconcile)

section
variable (textColumn : Json → Option (Option String))

def step (w : World) : Event → World
  | .create user body now => (createAgent textColumn user body now w).1
  | .grant x => w.grant x
  | .provisioned agentId vmid node agentIp =>
      w.update [agentId]
        (fun a =>
        { a with state := "READY", vmid := some vmid, node := some node, agentIp := some agentIp })
  | .setState agentId state => w.update [agentId] (fun a => { a with state := state })
  | .delete agentId =>
      { w with
        agents := w.agents.filter (fun a => decide (a.agentId ≠ agentId))
        access := w.access.filter (fun x => decide (x.agentId ≠ agentId)) }
  | .list user role reconcile => (listAgents user role reconcile w).1

def run (w : World) (events : List Event) : World := events.foldl (step textColumn) w

end

/-- The agent is the user's own, or access to it has been granted to the user. -/
def Entitled (w : World) (user : String) (a : Agent) : Prop :=
  a.ownerUsername = user ∨ ∃ x ∈ w.access, x.agentId = a.agentId ∧ x.principal = user

instance (w : World) (user : String) (a : Agent) : Decidable (Entitled w user a) :=
  inferInstanceAs (Decidable (_ ∨ _))

def own (w : World) (user : String) : World where
  agents := w.agents.filter (fun a => decide (Entitled w user a))
  access :=
    w.access.filter (fun x => w.agents.any (fun a =>
      decide (a.agentId = x.agentId ∧ Entitled w user a)))
  nextId := w.nextId

/-- The user is shown the agents that the user has a right to, each once, and the others make no
difference. -/
structure Confined (w : World) (user role : String) : Prop where
  exact : ∀ reconcile, ((listAgents user role reconcile w).2.map (·.agentId)).Nodup ∧
    ∀ id, id ∈ (listAgents user role reconcile w).2.map (·.agentId) ↔
      ∃ a ∈ w.agents, a.agentId = id ∧ Entitled w user a
  others : ∀ reconcile, (listAgents user role reconcile (own w user)).2 =
    (listAgents user role reconcile w).2

variable {w : World} {textColumn : Json → Option (Option String)}

theorem mem_leftJoin {a : Agent} {x : Option Access} : (a, x) ∈ leftJoin w ↔ a ∈ w.agents ∧
    ((∃ y ∈ w.access, y.agentId = a.agentId ∧ x = some y) ∨ x = none ∧ ∀ y ∈ w.access,
    y.agentId ≠ a.agentId) := by
  have hone : ∀ b, (a, x) ∈ (match w.access.filter (fun y => decide (y.agentId = b.agentId)) with
      | [] => [(b, none)]
      | ys => ys.map fun y => (b, some y)) ↔ a = b ∧
        ((∃ y ∈ w.access, y.agentId = b.agentId ∧ x = some y) ∨ x = none ∧ ∀ y ∈ w.access,
          y.agentId ≠ b.agentId) := by
    intro b
    have hmem : ∀ y, y ∈ w.access.filter (fun y => decide (y.agentId = b.agentId)) ↔
        y ∈ w.access ∧ y.agentId = b.agentId := by
      intro y
      simp
    generalize w.access.filter (fun y => decide (y.agentId = b.agentId)) = ys at hmem
    cases ys with
    | nil =>
        have hno : ∀ y ∈ w.access, y.agentId ≠ b.agentId :=
          fun y hy he => List.not_mem_nil ((hmem y).mpr ⟨hy, he⟩)
        simp only [List.mem_singleton, Prod.mk.injEq]
        refine and_congr_right fun _ => ⟨fun hx => .inr ⟨hx, hno⟩, fun hor => ?_⟩
        rcases hor with ⟨y, hy, he, -⟩ | ⟨hx, -⟩
        · exact absurd he (hno y hy)
        · exact hx
    | cons z zs =>
        rw [List.mem_map]
        constructor
        · rintro ⟨y, hy, heq⟩
          obtain ⟨rfl, rfl⟩ := Prod.mk.inj heq
          obtain ⟨hin, he⟩ := (hmem y).mp hy
          exact ⟨rfl, .inl ⟨y, hin, he, rfl⟩⟩
        · rintro ⟨rfl, ⟨y, hy, he, rfl⟩ | ⟨-, hno⟩⟩
          · exact ⟨y, (hmem y).mpr ⟨hy, he⟩, rfl⟩
          · obtain ⟨hin, he⟩ := (hmem z).mp List.mem_cons_self
            exact absurd he (hno z hin)
  rw [leftJoin, List.mem_flatMap]
  constructor
  · rintro ⟨b, hb, hin⟩
    obtain ⟨rfl, hx⟩ := (hone b).mp hin
    exact ⟨hb, hx⟩
  · rintro ⟨ha, hx⟩
    exact ⟨a, ha, (hone a).mpr ⟨rfl, hx⟩⟩

theorem mem_newestFirst {agents : List Agent} {a : Agent} : a ∈ newestFirst agents ↔ a ∈ agents :=
  List.mem_insertionSort _

/-- Who is neither root nor an administrator is shown the own agents, those
granted, and those with an access row of root. -/
theorem mem_query {user role : String} (hu : seesAll user role = false) {a : Agent} :
    a ∈ query user role w ↔
    a ∈ w.agents ∧ (Entitled w user a ∨ ∃ x ∈ w.access, x.agentId = a.agentId ∧
      x.principal = "root") := by
  rw [query, hu, if_neg Bool.false_ne_true, mem_newestFirst, List.mem_dedup, List.mem_map]
  constructor
  · rintro ⟨⟨b, x⟩, hin, rfl⟩
    obtain ⟨hjoin, hsel⟩ := List.mem_filter.mp hin
    obtain ⟨hb, hx⟩ := mem_leftJoin.mp hjoin
    refine ⟨hb, ?_⟩
    rcases hx with ⟨y, hy, hid, rfl⟩ | ⟨rfl, -⟩
    · simp only [selects, Option.any_some, Bool.or_eq_true, decide_eq_true_eq] at hsel
      rcases hsel with (howner | huser) | hroot
      · exact .inl (.inl howner)
      · exact .inl (.inr ⟨y, hy, hid, huser⟩)
      · exact .inr ⟨y, hy, hid, hroot⟩
    · simp only [selects, Option.any_none, Bool.or_false, decide_eq_true_eq] at hsel
      exact .inl (.inl hsel)
  · have hrow : ∀ x ∈ w.access, x.agentId = a.agentId → a ∈ w.agents →
        selects user (a, some x) = true →
        ∃ row ∈ (leftJoin w).filter (selects user), row.1 = a := by
      intro x hx hid ha hsel
      exact ⟨(a, some x), List.mem_filter.mpr ⟨mem_leftJoin.mpr ⟨ha, .inl ⟨x, hx, hid, rfl⟩⟩, hsel⟩,
        rfl⟩
    rintro ⟨ha, (howner | ⟨x, hx, hid, hp⟩) | ⟨x, hx, hid, hp⟩⟩
    · by_cases hany : ∃ x ∈ w.access, x.agentId = a.agentId
      · obtain ⟨x, hx, hid⟩ := hany
        exact hrow x hx hid ha (by simp [selects, howner])
      · refine ⟨(a, none), List.mem_filter.mpr
          ⟨mem_leftJoin.mpr ⟨ha, .inr ⟨rfl, ?_⟩⟩, by simp [selects, howner]⟩, rfl⟩
        exact fun x hx hid => hany ⟨x, hx, hid⟩
    · exact hrow x hx hid ha (by simp [selects, hp])
    · exact hrow x hx hid ha (by simp [selects, hp])

theorem query_nodup {user role : String} (hu : seesAll user role = false) :
    (query user role w).Nodup := by
  rw [query, hu, if_neg Bool.false_ne_true, newestFirst]
  exact (List.perm_insertionSort _ _).nodup_iff.mpr (List.nodup_dedup _)

/-- Agents have their own ids, and access rows are of agents. -/
structure Tidy (w : World) : Prop where
  apart : w.agents.Pairwise (fun a b => a.agentId ≠ b.agentId)
  ids : ∀ a ∈ w.agents, a.agentId < w.nextId
  known : ∀ x ∈ w.access, ∃ a ∈ w.agents, a.agentId = x.agentId

def Rooted (w : World) (agentId : Nat) : Prop :=
  ∃ x ∈ w.access, x.agentId = agentId ∧ x.principal = "root"

structure Sound (w : World) : Prop extends Tidy w where
  rooted : ∀ a ∈ w.agents, Rooted w a.agentId

theorem Sound.empty : Sound .empty := ⟨⟨.nil, nofun, nofun⟩, nofun⟩

theorem Tidy.agent_eq (h : Tidy w) {a b : Agent} (ha : a ∈ w.agents) (hb : b ∈ w.agents)
    (he : a.agentId = b.agentId) : a = b := by
  by_contra hne
  have hsymm : Std.Symm (fun a b : Agent => a.agentId ≠ b.agentId) := ⟨fun _ _ h => h.symm⟩
  exact h.apart.forall ha hb hne he

theorem Sound.update (h : Sound w) (ids : List Nat) {change : Agent → Agent}
    (hc : ∀ a, (change a).agentId = a.agentId) :
    Sound (w.update ids change) := by
  have hid : ∀ a, (if a.agentId ∈ ids then change a else a).agentId = a.agentId := by
    intro a
    split
    · exact hc a
    · rfl
  constructor
  · constructor
    · rw [World.update, List.pairwise_map]
      apply h.apart.imp
      intro a b hab
      rw [hid a, hid b]
      exact hab
    · intro b hb
      obtain ⟨a, ha, rfl⟩ := List.mem_map.mp hb
      rw [hid a]
      exact h.ids a ha
    · intro x hx
      obtain ⟨a, ha, he⟩ := h.known x hx
      exact ⟨_, List.mem_map_of_mem ha, (hid a).trans he⟩
  · intro b hb
    obtain ⟨a, ha, rfl⟩ := List.mem_map.mp hb
    rw [hid a]
    exact h.rooted a ha

theorem grant_agents (w : World) (x : Access) : (w.grant x).agents = w.agents ∧
    (w.grant x).nextId = w.nextId := by
  rw [World.grant]
  split
  · exact ⟨rfl, rfl⟩
  · exact ⟨rfl, rfl⟩

theorem grant_access (w : World) (x : Access) : w.access ⊆ (w.grant x).access ∧
    ∀ y ∈ (w.grant x).access, y ∈ w.access ∨ y = x ∧ ∃ a ∈ w.agents, a.agentId = x.agentId := by
  rw [World.grant]
  split
  next hif =>
    refine ⟨List.subset_append_left _ _, fun y hy => ?_⟩
    rcases List.mem_append.mp hy with hy | hy
    · exact .inl hy
    · obtain ⟨hany, -⟩ := Bool.and_eq_true_iff.mp hif
      obtain ⟨a, ha, he⟩ := List.any_eq_true.mp hany
      exact .inr ⟨List.mem_singleton.mp hy, a, ha, of_decide_eq_true he⟩
  · exact ⟨List.Subset.refl _, fun y hy => .inl hy⟩

theorem granted {x : Access} (h : ∃ a ∈ w.agents, a.agentId = x.agentId) :
    ∃ y ∈ (w.grant x).access, y.agentId = x.agentId ∧ y.principal = x.principal := by
  have hany : w.agents.any (fun a => decide (a.agentId = x.agentId)) = true := by
    obtain ⟨a, ha, he⟩ := h
    exact List.any_eq_true.mpr ⟨a, ha, decide_eq_true he⟩
  by_cases hnew : w.access.all (fun y => decide
    (¬ (y.agentId = x.agentId ∧ y.principal = x.principal))) = true
  · refine ⟨x, ?_, rfl, rfl⟩
    rw [World.grant, hany, hnew]
    exact List.mem_append_right _ (List.mem_singleton.mpr rfl)
  · simp only [List.all_eq_true, decide_eq_true_eq, not_forall, not_not] at hnew
    obtain ⟨y, hy, hsame⟩ := hnew
    exact ⟨y, (grant_access w x).1 hy, hsame⟩

theorem Tidy.grant (h : Tidy w) (x : Access) : Tidy (w.grant x) := by
  obtain ⟨hagents, hnext⟩ := grant_agents w x
  constructor
  · rw [hagents]
    exact h.apart
  · rw [hagents, hnext]
    exact h.ids
  · intro y hy
    rw [hagents]
    rcases (grant_access w x).2 y hy with hy | ⟨rfl, ha⟩
    · exact h.known y hy
    · exact ha

theorem Rooted.grant {agentId : Nat} (h : Rooted w agentId) (x : Access) :
    Rooted (w.grant x) agentId := by
  obtain ⟨y, hy, hroot⟩ := h
  exact ⟨y, (grant_access w x).1 hy, hroot⟩

theorem Sound.grant (h : Sound w) (x : Access) : Sound (w.grant x) := by
  refine ⟨h.toTidy.grant x, fun a ha => ?_⟩
  rw [(grant_agents w x).1] at ha
  exact (h.rooted a ha).grant x

theorem Tidy.add (h : Tidy w) {a : Agent} (hid : a.agentId = w.nextId) :
    Tidy { w with agents := w.agents ++ [a], nextId := w.nextId + 1 } := by
  constructor
  · apply List.pairwise_append.mpr ⟨h.apart, List.pairwise_singleton _ _, _⟩
    intro b hb c hc
    have hlt := h.ids b hb
    rw [List.mem_singleton.mp hc]
    omega
  · intro b hb
    rcases List.mem_append.mp hb with hb | hb
    · exact Nat.lt_succ_of_lt (h.ids b hb)
    · rw [List.mem_singleton.mp hb, hid]
      exact Nat.lt_succ_self _
  · intro x hx
    obtain ⟨b, hb, he⟩ := h.known x hx
    exact ⟨b, List.mem_append_left _ hb, he⟩

theorem Sound.create (h : Sound w) {a : Agent} (hid : a.agentId = w.nextId) (user : String) :
    Sound ((principals user).foldl (fun w p => w.grant ⟨a.agentId, p.1, p.2, user⟩)
      { w with agents := w.agents ++ [a], nextId := w.nextId + 1 }) := by
  simp only [principals, List.foldl_cons, List.foldl_nil]
  refine ⟨(((h.toTidy.add hid).grant _).grant _).grant _, fun b hb => ?_⟩
  simp only [(grant_agents _ _).1] at hb
  rcases List.mem_append.mp hb with hb | hb
  · have hroot : Rooted { w with agents := w.agents ++ [a], nextId := w.nextId + 1 } b.agentId :=
      h.rooted b hb
    exact ((hroot.grant _).grant _).grant _
  · rw [List.mem_singleton.mp hb]
    apply granted
    simp only [(grant_agents _ _).1]
    exact ⟨a, List.mem_append_right _ (List.mem_singleton.mpr rfl), rfl⟩

theorem newAgent_id {user name harness : String} {body : Dict} {now : Int} {a : Agent}
    (h : newAgent textColumn w user name harness body now = some a) : a.agentId = w.nextId := by
  simp only [newAgent, Option.bind_eq_bind, Option.bind_eq_some_iff] at h
  obtain ⟨_, -, _, -, _, -, _, -, _, -, h⟩ := h
  split at h
  · obtain rfl := Option.some.inj h
    rfl
  · cases h

theorem Sound.createAgent (h : Sound w) (user : Option String) (body : Dict) (now : Int) :
    Sound (createAgent textColumn user body now w).1 := by
  cases user with
  | none => exact h
  | some user =>
      rw [AgentVisibility.createAgent]
      split
      next text _ =>
        simp only
        split
        · exact h
        · split
          · exact h
          · split
            · exact h
            · split
              · exact h
              next a ha => exact h.create (newAgent_id ha) user
      · exact h

theorem Sound.listAgents (h : Sound w) (user role : String) (reconcile : Reconcile) :
    Sound (listAgents user role reconcile w).1 := by
  cases reconcile with
  | skipped => exact h
  | committed vms => exact h.update _ fun a => rfl
  | done vms =>
      rw [AgentVisibility.listAgents]
      split
      · exact h
      · exact h.update _ fun a => rfl

theorem Sound.step (h : Sound w) (e : Event) : Sound (step textColumn w e) := by
  cases e with
  | create user body now => exact h.createAgent user body now
  | grant x => exact h.grant x
  | provisioned agentId vmid node agentIp => exact h.update _ fun a => rfl
  | setState agentId state => exact h.update _ fun a => rfl
  | delete agentId =>
      refine ⟨⟨h.apart.filter _, fun a ha => h.ids a (List.mem_of_mem_filter ha), fun x hx => ?_⟩,
        fun a ha => ?_⟩
      · obtain ⟨hx, hne⟩ := List.mem_filter.mp hx
        obtain ⟨a, ha, he⟩ := h.known x hx
        exact ⟨a, List.mem_filter.mpr ⟨ha, by simpa [he] using hne⟩, he⟩
      · obtain ⟨ha, hne⟩ := List.mem_filter.mp ha
        obtain ⟨x, hx, he, hroot⟩ := h.rooted a ha
        exact ⟨x, List.mem_filter.mpr ⟨hx, by simpa [he] using hne⟩, he, hroot⟩
  | list user role reconcile => exact h.listAgents user role reconcile

theorem sound_run (textColumn : Json → Option (Option String)) (events : List Event) :
    Sound (run textColumn .empty events) := by
  have hrun : ∀ (events : List Event) (w : World), Sound w → Sound (run textColumn w events) := by
    intro events
    induction events with
    | nil => exact fun w h => h
    | cons e events ih => exact fun w h => ih _ (h.step e)
  exact hrun events .empty .empty

theorem query_all (h : Sound w) {user role : String} (hu : seesAll user role = false) {a : Agent} :
    a ∈ query user role w ↔ a ∈ w.agents := by
  rw [mem_query hu]
  exact ⟨fun ha => ha.1, fun ha => ⟨ha, .inr (h.rooted a ha)⟩⟩

theorem listed_all (h : Sound w) {user role : String} (hu : seesAll user role = false)
    (reconcile : Reconcile) :
    ((listAgents user role reconcile w).2.map (·.agentId)).Nodup ∧
      ∀ id, id ∈ (listAgents user role reconcile w).2.map (·.agentId) ↔
        ∃ a ∈ w.agents, a.agentId = id := by
  have hquery : ∀ v, Sound v → ((query user role v).map (·.agentId)).Nodup ∧
      ∀ id, id ∈ (query user role v).map (·.agentId) ↔ ∃ a ∈ v.agents, a.agentId = id := by
    intro v hv
    constructor
    · apply (query_nodup hu).map_on
      intro a ha b hb he
      exact hv.agent_eq ((query_all hv hu).mp ha) ((query_all hv hu).mp hb) he
    · intro id
      simp only [List.mem_map, query_all hv hu]
  cases reconcile with
  | skipped => exact hquery w h
  | committed vms => exact hquery w h
  | done vms =>
      rw [listAgents]
      split
      · exact hquery w h
      · have hchange : ∀ a, (failedState a).agentId = a.agentId := fun a => rfl
        obtain ⟨hnodup, hmem⟩ := hquery _ (h.update (fixes vms (query user role w)) hchange)
        refine ⟨hnodup, fun id => (hmem id).trans ?_⟩
        simp only [World.update, List.mem_map, exists_exists_and_eq_and]
        refine exists_congr fun a => and_congr_right fun _ => ?_
        split
        · rfl
        · rfl

theorem own_eq (h : Sound w) {user : String} (hall : ∀ a ∈ w.agents, Entitled w user a) :
    own w user = w := by
  have hagents : w.agents.filter (fun a => decide (Entitled w user a)) = w.agents :=
    List.filter_eq_self.mpr fun a ha => decide_eq_true (hall a ha)
  have haccess : w.access.filter (fun x => w.agents.any
      (fun a => decide (a.agentId = x.agentId ∧ Entitled w user a))) = w.access := by
    refine List.filter_eq_self.mpr fun x hx => ?_
    obtain ⟨a, ha, he⟩ := h.known x hx
    exact List.any_eq_true.mpr ⟨a, ha, decide_eq_true ⟨he, hall a ha⟩⟩
  rw [own, hagents, haccess]

/-- In every history, users who are neither root nor an administrator are shown the
right agents exactly when they have a right to all there are. -/
theorem confined_iff (textColumn : Json → Option (Option String)) (events : List Event)
    {user role : String}
    (hu : seesAll user role = false) :
    Confined (run textColumn .empty events) user role ↔
      ∀ a ∈ (run textColumn .empty events).agents,
        Entitled (run textColumn .empty events) user a := by
  have h := sound_run textColumn events
  generalize run textColumn .empty events = w at h
  constructor
  · intro hc a ha
    have hlisted := ((listed_all h hu .skipped).2 a.agentId).mpr ⟨a, ha, rfl⟩
    obtain ⟨b, hb, he, hent⟩ := ((hc.exact .skipped).2 a.agentId).mp hlisted
    obtain rfl := h.agent_eq hb ha he
    exact hent
  · intro hall
    refine ⟨fun reconcile => ?_, fun reconcile => by rw [own_eq h hall]⟩
    obtain ⟨hnodup, hmem⟩ := listed_all h hu reconcile
    refine ⟨hnodup, fun id => (hmem id).trans ?_⟩
    exact exists_congr fun a => and_congr_right fun ha => (and_iff_left (hall a ha)).symm

def onlyText : Json → Option (Option String)
  | .str s => some (some s)
  | .null => some none
  | _ => none

def annsAgent : List Event := [.create (some "ann") [("name", .str "web")] 0]

/-- Ann lets Bob see her agent, and he has one of his own that he shares. -/
def sharedAgents : List Event :=
  annsAgent ++ [.grant ⟨0, "bob", .user, "ann"⟩, .create (some "bob") [("name", .str "db")] 1,
    .grant ⟨1, "ann", .user, "bob"⟩]

theorem bob_confined : Confined (run onlyText .empty sharedAgents) "bob" "Operator" := by
  refine (confined_iff onlyText sharedAgents (by decide)).mpr ?_
  decide +kernel

/-- Bob is shown Ann's agent. -/
theorem others_shown : ¬ ∀ events user role, seesAll user role = false →
    Confined (run onlyText .empty events) user role := by
  intro hall
  have hc := (hall annsAgent "bob" "Operator" (by decide)).exact .skipped
  have hlisted : 0 ∈ ((listAgents "bob" "Operator" .skipped (run onlyText .empty annsAgent)).2.map
      (·.agentId)) := by decide +kernel
  obtain ⟨a, ha, -, hent⟩ := (hc.2 0).mp hlisted
  have hno : ∀ a ∈ (run onlyText .empty annsAgent).agents,
      ¬ Entitled (run onlyText .empty annsAgent) "bob" a := by decide +kernel
  exact hno a ha hent

end ServerManager.AgentVisibility
