import Mathlib.Data.List.Induction
import Mathlib.Data.List.Nodup
import ServerManager.ProxmoxVm

namespace ServerManager.RevisionHistory

open PyJson ProxmoxVm

inductive ColType
  | text
  | int
  | numeric
  | boolean
  deriving DecidableEq

/-- How psycopg2 and PostgreSQL make the value of a column from a request's value. -/
structure Postgres (V : Type) where
  store : ColType → Json → Except String (Option V)
  /-- `None` is stored as NULL, and nothing else is. -/
  null : ∀ t x, store t x = .ok none ↔ x = .null

/-- The columns of `deployment_revisions` that describe a configuration. -/
def configColumns : List (String × ColType) :=
  [("model", .text), ("artifact", .text), ("artifact_revision", .text), ("quantization", .text),
    ("runtime", .text),
    ("runtime_version", .text), ("host", .text), ("vm", .text), ("guest_ip", .text),
    ("cpu_cores", .int),
    ("ram_gb", .numeric), ("ram_speed", .text), ("gpu_model", .text), ("gpu_count", .int),
    ("context", .int),
    ("parallelism", .text), ("max_num_seqs", .int), ("kv_cache", .text), ("launch_command", .text),
    ("systemd_unit", .text), ("aliases", .text), ("preset_id", .int)]

def insertColumns : List (String × ColType) :=
  [("model", .text), ("artifact", .text), ("artifact_revision", .text), ("quantization", .text),
    ("runtime", .text),
    ("runtime_version", .text), ("host", .text), ("vm", .text), ("guest_ip", .text),
    ("cpu_cores", .int),
    ("ram_gb", .numeric), ("gpu_model", .text), ("gpu_count", .int), ("context", .int),
    ("parallelism", .text),
    ("max_num_seqs", .int), ("kv_cache", .text), ("launch_command", .text), ("systemd_unit", .text),
    ("aliases", .text), ("preset_id", .int)]

structure Row (V : Type) where
  revisionId : Nat
  revisionLabel : V
  config : List (String × Option V)
  status : Option V
  visibleByDefault : Option V
  notes : Option V

def Row.column {V : Type} (row : Row V) (name : String) : Option V := (row.config.lookup name).join

structure Store (V : Type) where
  rows : List (Row V) := []
  next : Nat := 1

/-- What surrounds a request: who makes it, whether `_pg()` connects and the
tables are there, and whether the commit goes through. -/
structure Env where
  user : Option String
  role : String
  connected : Bool := true
  ensured : Bool := true
  commits : Bool := true

inductive Request
  | create (body : Json) (now : Nat) (env : Env)
  | status (rid : Int) (body : Json) (env : Env)

inductive Answer
  | created (revisionId : Nat) (label : Json)
  | ok
  | error (status : Nat) (text : String)

def canEditDeploy : List String := ["Admin", "Security-Admin"]

def Env.permits (env : Env) : Bool := env.user.any (· != "") && canEditDeploy.contains env.role

/-- `body.get(key)`. -/
def field (body : Dict) (key : String) : Json := (Dict.get? body key).getD .null

/-- `now` is `int(time.time())`. -/
def labelOf (body : Dict) (now : Nat) : Json :=
  let named := (Dict.get? body "model").getD (.str "model")
  let shown := named.pyStr
  (field body "revision_label").orElse (.str s!"{shown}-{now}")

section Handlers

variable {V : Type} (pg : Postgres V)

def configOf (body : Dict) : List (String × ColType) → Except String (List (String × Option V))
  | [] => .ok []
  | (name, t) :: columns => do
      let v ← pg.store t (field body name)
      let vs ← configOf body columns
      pure ((name, v) :: vs)

structure Values (V : Type) where
  label : Option V
  config : List (String × Option V)
  status : Option V
  visibleByDefault : Option V
  notes : Option V

def values (body : Dict) (now : Nat) : Except String (Values V) := do
  let label ← pg.store .text (labelOf body now)
  let config ← configOf pg body insertColumns
  let status ← pg.store .text ((Dict.get? body "status").getD (.str "CANDIDATE"))
  let visible ← pg.store .boolean ((Dict.get? body "visible_by_default").getD (.bool true))
  let notes ← pg.store .text (field body "notes")
  pure ⟨label, config, status, visible, notes⟩

def Values.checked {V : Type} (x : Values V) : Except String V :=
  let text :=
    fun column => s!"NotNullViolation: null value in column '{column}' violates not-null constraint"
  match x.label, (x.config.lookup "model").join with
  | none, _ => .error (text "revision_label")
  | some _, none => .error (text "model")
  | some l, some _ => .ok l

variable [DecidableEq V]

/-- `INSERT … ON CONFLICT (revision_label) DO UPDATE SET status, notes RETURNING revision_id`. -/
def insertRevision (s : Store V) (label : V) (x : Values V) : List (Row V) × Nat :=
  match s.rows.find? (fun row => row.revisionLabel = label) with
  | some old =>
      (s.rows.map (fun row =>
        if row.revisionLabel = label then { row with status := x.status, notes := x.notes } else row), old.revisionId)
  | none => (s.rows ++ [⟨s.next, label, x.config, x.status, x.visibleByDefault, x.notes⟩], s.next)

def refused : Answer := .error 403 "role does not permit deployment edits"

def unavailable : Answer := .error 503 "postgres unavailable"

def noGet (x : Json) : Answer :=
  let name := pyTypeName x
  .error 500 s!"AttributeError: '{name}' object has no attribute 'get'"

/-- `api_history_revision_create`. -/
def createRevision (s : Store V) (body : Json) (now : Nat) (env : Env) : Store V × Answer :=
  if !env.permits then (s, refused)
  else if !env.connected then (s, unavailable)
  else if !env.ensured then (s, .error 500 "the history tables are not there")
  else
    match body with
    | .obj fs =>
        match values pg fs now with
        | .error x => (s, .error 500 x)
        | .ok x =>
            -- the sequence moves on even when the statement fails
            match x.checked with
            | .error x => ({ s with next := s.next + 1 }, .error 500 x)
            | .ok label =>
                let (rows, rid) := insertRevision s label x
                if env.commits then (⟨rows, s.next + 1⟩, .created rid (labelOf fs now))
                else ({ s with next := s.next + 1 }, .error 500 "the commit failed")
    | x => (s, noGet x)

def updateStatus (s : Store V) (rid : Int) (status visible : Option (Option V)) : Store V :=
  { s with rows := s.rows.map (fun row =>
      if (row.revisionId : Int) = rid then
        { row with status := status.getD row.status, visibleByDefault := visible.getD row.visibleByDefault }
      else row) }

def given (set : Bool) (t : ColType) (x : Json) : Except String (Option (Option V)) :=
  if set then (pg.store t x).map some else .ok none

def isNull : Json → Bool
  | .null => true
  | _ => false

/-- `api_history_revision_status`. -/
def revisionStatus (s : Store V) (rid : Int) (body : Json) (env : Env) : Store V × Answer :=
  if !env.permits then (s, refused)
  else if !env.connected then (s, unavailable)
  else
    match body with
    | .obj fs =>
        match given pg (field fs "status").truthy .text (field fs "status"),
            given pg (!isNull (field fs "visible_by_default")) .boolean
              (field fs "visible_by_default") with
        | .ok status, .ok visible =>
            if env.commits then (updateStatus s rid status visible, .ok)
              else (s, .error 500 "the commit failed")
        | .error x, _ => (s, .error 500 x)
        | .ok _, .error x => (s, .error 500 x)
    | x => (s, noGet x)

def step (s : Store V) : Request → Store V × Answer
  | .create body now env => createRevision pg s body now env
  | .status rid body env => revisionStatus pg s rid body env

/-- A create that was answered with ok: the id it was given, and its body. -/
def issued : Request → Answer → Option (Nat × Dict)
  | .create (.obj fs) _ _, .created rid _ => some (rid, fs)
  | _, _ => none

/-- A run from the empty table, with the creates that were answered with ok. -/
def run (reqs : List Request) : Store V × List (Nat × Dict) :=
  reqs.foldl (fun x r => ((step pg x.1 r).1, x.2 ++ (issued r (step pg x.1 r).2).toList)) ({}, [])

/-- The row's configuration is the request's, in every column. -/
def Holds (body : Dict) (row : Row V) : Prop :=
  ∀ c ∈ configColumns, pg.store c.2 (field body c.1) = .ok (row.column c.1)

def Store.row? (s : Store V) (rid : Nat) : Option (Row V) :=
  s.rows.find? (fun row => row.revisionId = rid)

/-- Every create that was answered with ok has an id of its own, and its row has
the configuration it asked for in every later state. -/
structure Lossless (reqs : List Request) : Prop where
  ids : ((run pg reqs).2.map (·.1)).Nodup
  kept : ∀ past later, reqs = past ++ later → ∀ p ∈ (run pg past).2,
    ∃ row, (run pg past).1.row? p.1 = some row ∧ Holds pg p.2 row

/-- The label and the body of a create that the database takes, whatever the table holds. -/
def accepted : Request → Option (V × Dict)
  | .create (.obj fs) now env =>
      if env.permits && env.connected && env.ensured && env.commits then
        match values pg fs now with
        | .ok x =>
            match x.checked with
            | .ok label => some (label, fs)
            | .error _ => none
        | .error _ => none
      else none
  | _ => none

def core (row : Row V) : Nat × V × List (String × Option V) :=
  (row.revisionId, row.revisionLabel, row.config)

def Store.cores (s : Store V) : List (Nat × V × List (String × Option V)) := s.rows.map core

def Store.idOf (s : Store V) (label : V) : Option Nat :=
  (s.cores.find? (fun x => x.2.1 = label)).map (·.1)

variable {pg} {s : Store V} {r : Request}

omit [DecidableEq V] in
theorem cores_status (rid : Int) (status visible : Option (Option V)) :
    (updateStatus s rid status visible).cores = s.cores := by
  simp only [Store.cores, updateStatus, List.map_map]
  refine List.map_congr_left fun row _ => ?_
  simp only [Function.comp_apply]
  split
  · rfl
  · rfl

theorem find_label (l : V) :
    s.cores.find? (fun x => x.2.1 = l) = (s.rows.find? (fun row => row.revisionLabel = l)).map
      core := by
  simp only [Store.cores, List.find?_map]
  rfl

/-- A request that the database does not take changes no configuration. -/
def Quiet (pg : Postgres V) (s : Store V) (r : Request) : Prop :=
  accepted pg r = none ∧ issued r (step pg s r).2 = none ∧ s.next ≤ (step pg s r).1.next ∧
    (step pg s r).1.cores = s.cores

/-- One that it takes gives the id of the row with its label, or adds a row. -/
inductive Taken (pg : Postgres V) (s : Store V) (r : Request) (l : V) (fs : Dict) : Prop
  | again (rid : Nat) : s.idOf l = some rid → issued r (step pg s r).2 = some (rid, fs) →
      (step pg s r).1.cores = s.cores → s.next < (step pg s r).1.next → Taken pg s r l fs
  | new (cfg : List (String × Option V)) : s.idOf l = none →
      issued r (step pg s r).2 = some (s.next, fs) →
      configOf pg fs insertColumns = .ok cfg →
        (step pg s r).1.cores = s.cores ++ [(s.next, l, cfg)] →
      s.next < (step pg s r).1.next → Taken pg s r l fs

omit [DecidableEq V] in
theorem values_config {fs : Dict} {now : Nat} {x : Values V} (h : values pg fs now = .ok x) :
    configOf pg fs insertColumns = .ok x.config := by
  unfold values at h
  cases hl : pg.store .text (labelOf fs now) with
  | error e => rw [hl] at h; cases h
  | ok label =>
      cases hc : configOf pg fs insertColumns with
      | error e => rw [hl, hc] at h; cases h
      | ok cfg =>
          rw [hl, hc] at h
          cases hs : pg.store .text ((Dict.get? fs "status").getD (.str "CANDIDATE")) with
          | error e => rw [hs] at h; cases h
          | ok status =>
              cases hv : pg.store .boolean ((Dict.get? fs "visible_by_default").getD (.bool true)) with
              | error e => rw [hs, hv] at h; cases h
              | ok visible =>
                  cases hn : pg.store .text (field fs "notes") with
                  | error e => rw [hs, hv, hn] at h; cases h
                  | ok notes =>
                      rw [hs, hv, hn] at h
                      cases h
                      rfl

theorem status_quiet (rid : Int) (body : Json) (env : Env) : Quiet pg s (.status rid body env) := by
  have hcores : (step pg s (.status rid body env)).1.cores = s.cores ∧
      (step pg s (.status rid body env)).1.next = s.next := by
    simp only [step, revisionStatus]
    split
    · exact ⟨rfl, rfl⟩
    split
    · exact ⟨rfl, rfl⟩
    split
    · split
      · split
        · exact ⟨cores_status _ _ _, rfl⟩
        · exact ⟨rfl, rfl⟩
      · exact ⟨rfl, rfl⟩
      · exact ⟨rfl, rfl⟩
    · exact ⟨rfl, rfl⟩
  exact ⟨rfl, rfl, Nat.le_of_eq hcores.2.symm, hcores.1⟩

theorem error_quiet {a : Answer} (hs : step pg s r = (s, a)) (hi : issued r a = none)
    (ha : accepted pg r = none) :
    Quiet pg s r := by
  refine ⟨ha, ?_, ?_, ?_⟩
  · rw [hs]
    exact hi
  · exact Nat.le_of_eq (by rw [hs])
  · rw [hs]

theorem issued_refused (body : Json) (now : Nat) (env : Env) (code : Nat) (text : String) :
    issued (.create body now env) (.error code text) = none := by
  cases body with
  | null | bool | int | float | str | arr | obj => rfl

theorem insert_taken {l : V} {x : Values V} {fs : Dict} {now : Nat} {env : Env}
    (hx : configOf pg fs insertColumns = .ok x.config)
    (hs : step pg s (.create (.obj fs) now env) =
      (⟨(insertRevision s l x).1, s.next + 1⟩, .created (insertRevision s l x).2 (labelOf fs now))) :
    Taken pg s (.create (.obj fs) now env) l fs := by
  have hfind := find_label (s := s) l
  cases hf : s.rows.find? (fun row => row.revisionLabel = l) with
  | some old =>
      have hins : insertRevision s l x = (s.rows.map (fun row =>
          if row.revisionLabel = l then { row with status := x.status, notes := x.notes } else row), old.revisionId) := by
        rw [insertRevision, hf]
      rw [hins] at hs
      rw [hf] at hfind
      refine .again old.revisionId ?_ ?_ ?_ ?_
      · rw [Store.idOf, hfind]
        rfl
      · rw [hs]
        rfl
      · rw [hs]
        simp only [Store.cores, List.map_map]
        refine List.map_congr_left fun row _ => ?_
        simp only [Function.comp_apply]
        split
        · rfl
        · rfl
      · rw [hs]
        exact Nat.lt_succ_self _
  | none =>
      have hins : insertRevision s l x =
          (s.rows ++ [⟨s.next, l, x.config, x.status, x.visibleByDefault, x.notes⟩], s.next) := by
        rw [insertRevision, hf]
      rw [hins] at hs
      rw [hf] at hfind
      refine .new x.config ?_ ?_ hx ?_ ?_
      · rw [Store.idOf, hfind]
        rfl
      · rw [hs]
        rfl
      · rw [hs]
        simp [Store.cores, core]
      · rw [hs]
        exact Nat.lt_succ_self _

omit [DecidableEq V] in
theorem accepted_env {body : Json} {now : Nat} {env : Env}
    (h : (env.permits && env.connected && env.ensured && env.commits) = false) :
    accepted pg (.create body now env) = none := by
  cases body with
  | null | bool | int | float | str | arr => rfl
  | obj fs => simp only [accepted, h, Bool.false_eq_true, if_false]

theorem create_cases (body : Json) (now : Nat) (env : Env) :
    Quiet pg s (.create body now env) ∨
      ∃ l fs, accepted pg (.create body now env) = some (l, fs) ∧
        Taken pg s (.create body now env) l fs := by
  cases hp : env.permits with
  | false =>
      have hs : step pg s (.create body now env) = (s, refused) := by
        simp [step, createRevision, hp]
      exact .inl (error_quiet hs (issued_refused _ _ _ _ _) (accepted_env (by simp [hp])))
  | true =>
  cases hc : env.connected with
  | false =>
      have hs : step pg s (.create body now env) = (s, unavailable) := by
        simp [step, createRevision, hp, hc]
      exact .inl (error_quiet hs (issued_refused _ _ _ _ _) (accepted_env (by simp [hc])))
  | true =>
  cases he : env.ensured with
  | false =>
      have hs : step pg s (.create body now env) =
          (s, .error 500 "the history tables are not there") := by
        simp [step, createRevision, hp, hc, he]
      exact .inl (error_quiet hs (issued_refused _ _ _ _ _) (accepted_env (by simp [he])))
  | true =>
  by_cases hb : ∃ fs, body = .obj fs
  · obtain ⟨fs, rfl⟩ := hb
    cases hv : values pg fs now with
    | error x =>
        have hs : step pg s (.create (.obj fs) now env) = (s, .error 500 x) := by
          simp [step, createRevision, hp, hc, he, hv]
        exact .inl (error_quiet hs rfl (by simp [accepted, hv]))
    | ok x =>
        cases hk : x.checked with
        | error y =>
            have hs : step pg s (.create (.obj fs) now env) =
                ({ s with next := s.next + 1 }, .error 500 y) := by
              simp [step, createRevision, hp, hc, he, hv, hk]
            refine .inl ⟨by simp [accepted, hv, hk], ?_, ?_, ?_⟩
            · rw [hs]; rfl
            · rw [hs]; exact Nat.le_succ _
            · rw [hs]; rfl
        | ok l =>
            cases hm : env.commits with
            | false =>
                have hs : step pg s (.create (.obj fs) now env) =
                    ({ s with next := s.next + 1 }, .error 500 "the commit failed") := by
                  simp [step, createRevision, hp, hc, he, hv, hk, hm]
                refine .inl ⟨by simp [accepted, hm], ?_, ?_, ?_⟩
                · rw [hs]; rfl
                · rw [hs]; exact Nat.le_succ _
                · rw [hs]; rfl
            | true =>
                refine .inr ⟨l, fs, by simp [accepted, hp, hc, he, hv, hk, hm], ?_⟩
                refine insert_taken (x := x) (values_config hv) ?_
                simp [step, createRevision, hp, hc, he, hv, hk, hm]
  · have hs : step pg s (.create body now env) = (s, noGet body) := by
      cases body with
      | obj fs => exact absurd ⟨fs, rfl⟩ hb
      | null | bool | int | float | str | arr => simp [step, createRevision, hp, hc, he]
    have ha : accepted pg (.create body now env) = none := by
      cases body with
      | obj fs => exact absurd ⟨fs, rfl⟩ hb
      | null | bool | int | float | str | arr => rfl
    exact .inl (error_quiet hs (issued_refused _ _ _ _ _) ha)

theorem step_cases (pg : Postgres V) (s : Store V) (r : Request) : Quiet pg s r ∨ ∃ l fs,
    accepted pg r = some (l, fs) ∧ Taken pg s r l fs := by
  cases r with
  | create body now env => exact create_cases body now env
  | status rid body env => exact .inl (status_quiet rid body env)

omit [DecidableEq V] in
theorem configOf_columns {fs : Dict} {columns : List (String × ColType)}
    {cfg : List (String × Option V)}
    (h : configOf pg fs columns = .ok cfg) : cfg.map (·.1) = columns.map (·.1) := by
  induction columns generalizing cfg with
  | nil =>
      cases h
      rfl
  | cons c columns ih =>
      obtain ⟨name, t⟩ := c
      rw [configOf] at h
      cases hv : pg.store t (field fs name) with
      | error x => rw [hv] at h; cases h
      | ok v =>
          cases hvs : configOf pg fs columns with
          | error x => rw [hv, hvs] at h; cases h
          | ok vs =>
              rw [hv, hvs] at h
              cases h
              simp [ih hvs]

omit [DecidableEq V] in
theorem configOf_lookup {fs : Dict} {columns : List (String × ColType)}
    {cfg : List (String × Option V)}
    (h : configOf pg fs columns = .ok cfg) (hn : (columns.map (·.1)).Nodup) {c : String × ColType}
    (hc : c ∈ columns) :
    pg.store c.2 (field fs c.1) = .ok (cfg.lookup c.1).join := by
  induction columns generalizing cfg with
  | nil => cases hc
  | cons d columns ih =>
      obtain ⟨name, t⟩ := d
      rw [configOf] at h
      cases hv : pg.store t (field fs name) with
      | error x => rw [hv] at h; cases h
      | ok v =>
          cases hvs : configOf pg fs columns with
          | error x => rw [hv, hvs] at h; cases h
          | ok vs =>
              rw [hv, hvs] at h
              cases h
              obtain ⟨hnew, hn⟩ := List.nodup_cons.mp hn
              rcases List.mem_cons.mp hc with rfl | hc
              · simp [hv]
              · have hne : (c.1 == name) = false := by
                  rw [beq_eq_false_iff_ne]
                  exact fun he => hnew (List.mem_map.mpr ⟨c, hc, he⟩)
                rw [ih hvs hn hc, List.lookup_cons, hne]

theorem insertColumns_nodup : (insertColumns.map (·.1)).Nodup := by decide

theorem column_cases {c : String × ColType} (h : c ∈ configColumns) : c ∈ insertColumns ∨
    c = ("ram_speed", .text) := by
  have hall : configColumns = insertColumns.take 11 ++ ("ram_speed", .text) ::
      insertColumns.drop 11 := rfl
  rw [hall] at h
  rcases List.mem_append.mp h with h | h
  · exact .inl (List.mem_of_mem_take h)
  · rcases List.mem_cons.mp h with h | h
    · exact .inr h
    · exact .inl (List.mem_of_mem_drop h)

omit [DecidableEq V] in
theorem lookup_none {cfg : List (String × Option V)} {name : String} (h : name ∉ cfg.map (·.1)) :
    (cfg.lookup name).join = none := by
  have hnone : cfg.lookup name = none := by
    rw [List.lookup_eq_none_iff]
    intro p hp
    have hne : name ≠ p.1 := fun he => h (he ▸ List.mem_map_of_mem hp)
    simpa using hne
  rw [hnone]
  rfl

omit [DecidableEq V] in
theorem ram_unset {row : Row V} (hrow : row.config.map (·.1) = insertColumns.map (·.1)) :
    row.column "ram_speed" = none := by
  refine lookup_none ?_
  rw [hrow]
  decide

omit [DecidableEq V] in
/-- A row written for a request that gives no `ram_speed` has its configuration. -/
theorem holds_written {fs : Dict} {row : Row V}
    (hcfg : configOf pg fs insertColumns = .ok row.config)
    (hram : field fs "ram_speed" = .null) : Holds pg fs row := by
  intro c hc
  rcases column_cases hc with hc | rfl
  · exact configOf_lookup hcfg insertColumns_nodup hc
  · rw [ram_unset (configOf_columns hcfg), pg.null]
    exact hram

theorem run_snoc (pg : Postgres V) (reqs : List Request) (r : Request) :
    run pg (reqs ++ [r]) = ((step pg (run pg reqs).1 r).1,
      (run pg reqs).2 ++ (issued r (step pg (run pg reqs).1 r).2).toList) := by
  simp [run, List.foldl_append]

/-- The creates that the database takes, with their labels. -/
def taken (pg : Postgres V) (reqs : List Request) : List (V × Dict) := reqs.filterMap (accepted pg)

omit [DecidableEq V] in
theorem taken_snoc (reqs : List Request) (r : Request) :
    taken pg (reqs ++ [r]) = taken pg reqs ++ (accepted pg r).toList := by
  cases h : accepted pg r with
  | none => simp [taken, h]
  | some q => simp [taken, h]

structure Inv (pg : Postgres V) (reqs : List Request) : Prop where
  sorted : (run pg reqs).1.cores.Pairwise (fun x y => x.1 < y.1)
  below : ∀ x ∈ (run pg reqs).1.cores, x.1 < (run pg reqs).1.next
  labels : ((run pg reqs).1.cores.map (·.2.1)).Nodup
  columns : ∀ x ∈ (run pg reqs).1.cores, x.2.2.map (·.1) = insertColumns.map (·.1)
  owners : ∀ x ∈ (run pg reqs).1.cores, x.2.1 ∈ (taken pg reqs).map (·.1)
  /-- Every label has a row, and its creates were given the id of that row. -/
  ids : (run pg reqs).2.map (fun p => some p.1) =
    (taken pg reqs).map (fun q => (run pg reqs).1.idOf q.1)

theorem idOf_some {l : V} {rid : Nat} (h : s.idOf l = some rid) : ∃ cfg,
    (rid, l, cfg) ∈ s.cores := by
  obtain ⟨x, hx, rfl⟩ := Option.map_eq_some_iff.mp h
  have hl : x.2.1 = l := by simpa using List.find?_some hx
  exact ⟨x.2.2, by rw [← hl]; exact List.mem_of_find?_eq_some hx⟩

theorem idOf_none {l : V} (h : s.idOf l = none) : ∀ x ∈ s.cores, x.2.1 ≠ l := by
  intro x hx
  have hn := List.find?_eq_none.mp (Option.map_eq_none_iff.mp h) x hx
  simpa using hn

theorem idOf_append {s s' : Store V} {x : Nat × V × List (String × Option V)}
    (h : s'.cores = s.cores ++ [x]) (l : V) :
    s'.idOf l = (s.idOf l).or (if x.2.1 = l then some x.1 else none) := by
  rw [Store.idOf, Store.idOf, h, List.find?_append]
  cases s.cores.find? (fun x => x.2.1 = l) with
  | some y => rfl
  | none =>
      by_cases hl : x.2.1 = l
      · simp [hl]
      · simp [hl]

theorem idOf_same {s s' : Store V} (h : s'.cores = s.cores) (l : V) : s'.idOf l = s.idOf l := by
  rw [Store.idOf, Store.idOf, h]

theorem Inv.known {reqs : List Request} (h : Inv pg reqs) {q : V × Dict} (hq : q ∈ taken pg reqs) :
    ∃ rid, (run pg reqs).1.idOf q.1 = some rid := by
  have hm : (run pg reqs).1.idOf q.1 ∈ (run pg reqs).2.map (fun p => some p.1) := by
    rw [h.ids]
    exact List.mem_map_of_mem hq
  obtain ⟨p, -, hp⟩ := List.mem_map.mp hm
  exact ⟨p.1, hp.symm⟩

theorem Inv.snoc {reqs : List Request} (h : Inv pg reqs) (r : Request) : Inv pg (reqs ++ [r]) := by
  have hrun := run_snoc pg reqs r
  rcases step_cases pg (run pg reqs).1 r with ⟨ha, hi, hn, hc⟩ | ⟨l, fs, ha, ht⟩
  · have hcores : (run pg (reqs ++ [r])).1.cores = (run pg reqs).1.cores := by rw [hrun]; exact hc
    refine ⟨by rw [hcores]; exact h.sorted, fun x hx => ?_, by rw [hcores]; exact h.labels, fun x hx => ?_, fun x hx => ?_, ?_⟩
    · rw [hcores] at hx
      rw [hrun]
      exact Nat.lt_of_lt_of_le (h.below x hx) hn
    · rw [hcores] at hx
      exact h.columns x hx
    · rw [hcores] at hx
      rw [taken_snoc, ha]
      simpa using h.owners x hx
    · have hsame := idOf_same hcores
      simp only [hsame, taken_snoc, ha, Option.toList_none, List.append_nil, ← h.ids]
      rw [hrun, hi]
      simp
  · have htaken : taken pg (reqs ++ [r]) = taken pg reqs ++ [(l, fs)] := by rw [taken_snoc, ha]; rfl
    cases ht with
    | again rid hid hi hc hn =>
        have hcores : (run pg (reqs ++ [r])).1.cores = (run pg reqs).1.cores := by
          rw [hrun]; exact hc
        refine ⟨by rw [hcores]; exact h.sorted, fun x hx => ?_, by rw [hcores]; exact h.labels, fun x hx => ?_, fun x hx => ?_, ?_⟩
        · rw [hcores] at hx
          rw [hrun]
          exact Nat.lt_trans (h.below x hx) hn
        · rw [hcores] at hx
          exact h.columns x hx
        · rw [hcores] at hx
          rw [htaken, List.map_append]
          exact List.mem_append_left _ (h.owners x hx)
        · have hsame := idOf_same hcores
          simp only [hsame, htaken, List.map_append, List.map_cons, List.map_nil, hid, ← h.ids]
          rw [hrun, hi]
          simp
    | new cfg hid hi hcfg hc hn =>
        have hcores : (run pg (reqs ++ [r])).1.cores = (run pg reqs).1.cores ++
            [((run pg reqs).1.next, l, cfg)] := by
          rw [hrun]
          exact hc
        have hnext : (run pg (reqs ++ [r])).1.next = (step pg (run pg reqs).1 r).1.next := by
          rw [hrun]
        refine ⟨?_, fun x hx => ?_, ?_, fun x hx => ?_, fun x hx => ?_, ?_⟩
        · rw [hcores, List.pairwise_append]
          refine ⟨h.sorted, List.pairwise_singleton _ _, fun x hx y hy => ?_⟩
          rw [List.mem_singleton.mp hy]
          exact h.below x hx
        · rw [hnext]
          rw [hcores] at hx
          rcases List.mem_append.mp hx with hx | hx
          · exact Nat.lt_trans (h.below x hx) hn
          · rw [List.mem_singleton.mp hx]
            exact hn
        · rw [hcores, List.map_append]
          refine List.Nodup.append h.labels (List.nodup_singleton _) fun x hx hy => ?_
          obtain ⟨y, hym, rfl⟩ := List.mem_map.mp hx
          exact idOf_none hid y hym (List.mem_singleton.mp hy)
        · rw [hcores] at hx
          rcases List.mem_append.mp hx with hx | hx
          · exact h.columns x hx
          · rw [List.mem_singleton.mp hx]
            exact configOf_columns hcfg
        · rw [hcores] at hx
          rw [htaken, List.map_append]
          rcases List.mem_append.mp hx with hx | hx
          · exact List.mem_append_left _ (h.owners x hx)
          · rw [List.mem_singleton.mp hx]
            exact List.mem_append_right _ (List.mem_singleton.mpr rfl)
        · have hold : (taken pg reqs).map (fun q => (run pg (reqs ++ [r])).1.idOf q.1) =
              (taken pg reqs).map (fun q => (run pg reqs).1.idOf q.1) := by
            refine List.map_congr_left fun q hq => ?_
            obtain ⟨rid, hrid⟩ := h.known hq
            rw [idOf_append hcores, hrid]
            rfl
          have hnew : (run pg (reqs ++ [r])).1.idOf l = some (run pg reqs).1.next := by
            rw [idOf_append hcores, hid]
            simp
          rw [htaken, List.map_append, hold, ← h.ids, List.map_cons, List.map_nil, hnew]
          rw [hrun, hi]
          simp

theorem inv (reqs : List Request) : Inv pg reqs := by
  induction reqs using List.reverseRecOn with
  | nil => exact ⟨List.Pairwise.nil, fun _ h => absurd h List.not_mem_nil, List.nodup_nil,
      fun _ h => absurd h List.not_mem_nil, fun _ h => absurd h List.not_mem_nil, rfl⟩
  | append_singleton reqs r ih => exact ih.snoc r

theorem written {reqs : List Request} (hn : ((taken pg reqs).map (·.1)).Nodup) :
    ∀ p ∈ (run pg reqs).2, ∃ l cfg, (p.1, l, cfg) ∈ (run pg reqs).1.cores ∧
      configOf pg p.2 insertColumns = .ok cfg := by
  induction reqs using List.reverseRecOn with
  | nil => exact fun _ h => absurd h List.not_mem_nil
  | append_singleton reqs r ih =>
      have hrun := run_snoc pg reqs r
      rw [taken_snoc, List.map_append] at hn
      have ih := ih (List.Nodup.of_append_left hn)
      rw [hrun]
      intro p hp
      rcases step_cases pg (run pg reqs).1 r with ⟨ha, hi, -, hc⟩ | ⟨l, fs, ha, ht⟩
      · rw [hi] at hp
        rw [hc]
        exact ih p (by simpa using hp)
      · cases ht with
        | again rid hid hi hc hn' =>
            -- the label would be there twice
            exfalso
            obtain ⟨cfg, hm⟩ := idOf_some hid
            rw [ha] at hn
            exact List.disjoint_of_nodup_append hn ((inv reqs).owners _ hm) (by simp)
        | new cfg hid hi hcfg hc hn' =>
            rw [hi] at hp
            rw [hc]
            rcases List.mem_append.mp hp with hp | hp
            · obtain ⟨l', cfg', hm, hcfg'⟩ := ih p hp
              exact ⟨l', cfg', List.mem_append_left _ hm, hcfg'⟩
            · have hp' : p = ((run pg reqs).1.next, fs) := by simpa using hp
              rw [hp']
              exact ⟨l, cfg, by simp, hcfg⟩

theorem bodies (reqs : List Request) : (run pg reqs).2.map (·.2) = (taken pg reqs).map (·.2) := by
  induction reqs using List.reverseRecOn with
  | nil => rfl
  | append_singleton reqs r ih =>
      rw [run_snoc, taken_snoc, List.map_append, List.map_append, ih]
      rcases step_cases pg (run pg reqs).1 r with ⟨ha, hi, -, -⟩ | ⟨l, fs, ha, ht⟩
      · rw [hi, ha]
        rfl
      · cases ht with
        | again rid hid hi hc hn => rw [hi, ha]; rfl
        | new cfg hid hi hcfg hc hn => rw [hi, ha]; rfl

theorem Inv.unique {reqs : List Request} (h : Inv pg reqs)
    {x y : Nat × V × List (String × Option V)}
    (hx : x ∈ (run pg reqs).1.cores) (hy : y ∈ (run pg reqs).1.cores) (he : x.1 = y.1) : x = y := by
  have hn : ((run pg reqs).1.cores.map (·.1)).Nodup :=
    List.pairwise_map.mpr (h.sorted.imp Nat.ne_of_lt)
  exact List.inj_on_of_nodup_map hn hx hy he

/-- The history is lossless exactly when no label comes twice and no request
gives a `ram_speed`, among the creates that the database takes. -/
theorem lossless_iff (reqs : List Request) :
    Lossless pg reqs ↔
      ((taken pg reqs).map (·.1)).Nodup ∧ ∀ q ∈ taken pg reqs, field q.2 "ram_speed" = .null := by
  have hinv : Inv pg reqs := inv reqs
  have hids : (run pg reqs).2.map (fun p => some p.1) =
      ((taken pg reqs).map (·.1)).map (run pg reqs).1.idOf := by
    rw [hinv.ids, List.map_map]
    rfl
  have hsome : (run pg reqs).2.map (fun p => some p.1) = ((run pg reqs).2.map (·.1)).map some := by
    rw [List.map_map]
    rfl
  constructor
  · intro h
    refine ⟨?_, fun q hq => ?_⟩
    · have hn := h.ids.map fun _ _ he => Option.some.inj he
      rw [← hsome, hids] at hn
      exact hn.of_map
    · have hq' : q.2 ∈ (run pg reqs).2.map (·.2) := by
        rw [bodies]
        exact List.mem_map_of_mem hq
      obtain ⟨p, hp, hpq⟩ := List.mem_map.mp hq'
      obtain ⟨row, hrow, hholds⟩ := h.kept reqs [] (List.append_nil _).symm p hp
      have hm : core row ∈ (run pg reqs).1.cores :=
        List.mem_map_of_mem (List.mem_of_find?_eq_some hrow)
      have hc := hholds ("ram_speed", .text) (by decide)
      rw [ram_unset (hinv.columns _ hm), pg.null] at hc
      rw [← hpq]
      exact hc
  · rintro ⟨hn, hram⟩
    refine ⟨?_, fun past later he p hp => ?_⟩
    · have hn' : (((taken pg reqs).map (·.1)).map (run pg reqs).1.idOf).Nodup := by
        refine List.Nodup.map_on (fun l hl l' hl' heq => ?_) hn
        obtain ⟨q, hq, rfl⟩ := List.mem_map.mp hl
        obtain ⟨rid, hrid⟩ := hinv.known hq
        obtain ⟨cfg, hm⟩ := idOf_some hrid
        rw [hrid] at heq
        obtain ⟨cfg', hm'⟩ := idOf_some heq.symm
        exact congrArg (fun x => x.2.1) (hinv.unique hm hm' rfl)
      rw [← hids, hsome] at hn'
      exact hn'.of_map
    · have hpast : taken pg reqs = taken pg past ++ taken pg later := by
        rw [he, taken, List.filterMap_append]; rfl
      rw [hpast, List.map_append] at hn
      obtain ⟨l, cfg, hm, hcfg⟩ := written (List.Nodup.of_append_left hn) p hp
      have hb : p.2 ∈ (taken pg past).map (·.2) := by
        rw [← bodies]
        exact List.mem_map_of_mem hp
      obtain ⟨q, hq, hqp⟩ := List.mem_map.mp hb
      have hnull : field p.2 "ram_speed" = .null := by
        rw [← hqp]
        refine hram q ?_
        rw [hpast]
        exact List.mem_append_left _ hq
      obtain ⟨row, hrow, hcore⟩ := List.mem_map.mp hm
      cases hf : (run pg past).1.row? p.1 with
      | none =>
          have hno := List.find?_eq_none.mp hf row hrow
          have hid : row.revisionId = p.1 := congrArg (·.1) hcore
          simp [hid] at hno
      | some row' =>
          have hid : row'.revisionId = p.1 := by simpa using List.find?_some hf
          have hm' : core row' ∈ (run pg past).1.cores :=
            List.mem_map_of_mem (List.mem_of_find?_eq_some hf)
          have hsame := (inv past).unique hm' hm hid
          have hconf : row'.config = cfg := congrArg (fun x => x.2.2) hsame
          exact ⟨row', rfl, holds_written (hconf ▸ hcfg) hnull⟩

end Handlers

def plainStore : ColType → Json → Except String (Option String)
  | _, .null => .ok none
  | .text, .str t => .ok (some t)
  | .int, .int n | .numeric, .int n => .ok (some (toString n))
  | .boolean, .bool b => .ok (some (if b then "true" else "false"))
  | _, _ => .error "DatatypeMismatch"

theorem plainStore_null (t : ColType) (x : Json) : plainStore t x = .ok none ↔ x = .null := by
  constructor
  · intro h
    cases x with
    | null => rfl
    | bool | int | float | str | arr | obj =>
        cases t with
        | text | int | numeric | boolean => cases h
  · rintro rfl
    cases t with
    | text | int | numeric | boolean => rfl

def plain : Postgres String := ⟨plainStore, plainStore_null⟩

def admin : Env where
  user := some "operator"
  role := "Admin"

def deployment (context : Int) : Request :=
  .create (.obj [("model", .str "qwen3-32b"), ("host", .str "miam00111"),
    ("context", .int context)]) 1760000000 admin

theorem label_shared : ¬ ∀ (V : Type) [DecidableEq V] (pg : Postgres V) (reqs : List Request),
    Lossless pg reqs := by
  intro h
  have hids := (h String plain [deployment 32768, deployment 65536]).ids
  have hrun : (run plain [deployment 32768, deployment 65536]).2.map (·.1) = [1, 1] := by
    decide +kernel
  rw [hrun] at hids
  exact absurd hids (by decide)

end ServerManager.RevisionHistory
