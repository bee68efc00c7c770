import ServerManager.RegistryPass
import Mathlib.Data.List.Dedup

namespace ServerManager.LitellmSync

open Interaction PyText FleetDb Fleet Registry

structure LitellmEntry where
  modelName : String
  model : String
  apiBase : Option String := none
  apiKey : String
  rpm : Option Nat := none
  deriving DecidableEq, Repr

def localAliases : List (String × String) :=
  [("10.0.20.168", "local-00111"), ("10.0.20.161", "local-00111"), ("10.0.20.162", "local-00112"),
   ("10.0.20.163", "local-00143"), ("10.0.20.164", "local-00144"), ("10.0.20.165", "dummy-local-llamacpp")]

def localAlias (ip : String) : String :=
  match localAliases.find? (·.1 == ip) with
  | some p => p.2
  | none => "local-" ++ ip

def openai (name : String) : String := "openai/" ++ name

def localEntry (name ip : String) (engine : Option String) : LitellmEntry :=
  { modelName := name, model := openai name, apiBase := some (backendUrl
    ip), apiKey := localAlias ip
    rpm := some (if engine == some "llamacpp" then 30 else 300) }

/-- One entry for each pair that is not in `seen`. -/
def localEntries : List (String × String) → List (String × String × Option String) →
    List LitellmEntry
  | _, [] => []
  | seen, (name, ip, engine) :: rows =>
      if seen.contains (name, ip) then localEntries seen rows
      else localEntry name ip engine :: localEntries ((name, ip) :: seen) rows

def aliasEntry (name : String) (backend : String × String) : LitellmEntry :=
  { modelName := name, model := openai backend.1, apiBase := some (backendUrl backend.2)
    apiKey := localAlias backend.2, rpm := some 300 }

def aliasEntries (backends : List (String × String)) (rows : List (String × Option String)) :
    List LitellmEntry :=
  rows.flatMap (fun row => ((backends.filter (fun b => some b.1 == row.2)).take 1).map
    (aliasEntry row.1))

def openRouterKey : String := "os.environ/OPENROUTER_API_KEY"

def openRouterEntries : List LitellmEntry :=
  [{ modelName := "openrouter/glm-5.3-flash", model := "openrouter/z-ai/glm-5.3-flash", apiKey := openRouterKey },
   { modelName := "deepseek-v4.1-flash-api", model := "openrouter/deepseek/deepseek-v4.1-flash"
     apiKey := openRouterKey, rpm := some 60 },
   { modelName := "frontier", model := "openrouter/deepseek/deepseek-v4.1-flash"
     apiKey := openRouterKey, rpm := some 60 }]

def fallbackEnabled (row : Option String) : Bool := asciiLower (row.getD "true") == "true"

def buildModelList : Svc (List LitellmEntry) := do
  let rows ← execute .localBackends
  let fallback ← execute .fallbackSetting
  let aliased ← execute .aliasRows
  let backends ← execute .targetBackends
  pure (localEntries [] rows ++ aliasEntries backends aliased ++
    if fallbackEnabled fallback then openRouterEntries else [])

/-- The model list of `main`, which touches nothing without a database. -/
def configModels : Svc (Option (List LitellmEntry)) := do
  if ← pg then
    let models ← closing buildModelList
    pure (some models)
  else pure none

def LitellmEntry.isOpenRouter (e : LitellmEntry) : Bool := startsWith e.model "openrouter/"

def Quiet (env : Env) : Prop := ∀ n, env.fault n = none

def sortedBackends (drv : Driver) (db : Db) : List (ModelRow × HostRow) :=
  db.backends.insertionSort (fun a b =>
    drv.le2 (a.2.guestIp, a.1.logicalModelName) (b.2.guestIp, b.1.logicalModelName))

def sortedTargets (drv : Driver) (db : Db) : List (ModelRow × HostRow) :=
  db.backends.insertionSort (fun a b =>
    drv.le2 (a.1.logicalModelName, a.2.guestIp) (b.1.logicalModelName, b.2.guestIp))

def routableAliases (db : Db) : List ModelRow :=
  db.models.filter (fun r => r.isAlias == some true && r.routable == some true)

def modelList (drv : Driver) (db : Db) : List LitellmEntry :=
  localEntries [] ((sortedBackends drv db).map
    (fun p => (p.1.logicalModelName, p.2.guestIp, p.1.engine))) ++
    aliasEntries ((sortedTargets drv db).map (fun p => (p.1.logicalModelName, p.2.guestIp)))
      ((routableAliases db).map (fun r => (r.logicalModelName, r.aliasTarget))) ++
    if fallbackEnabled (db.setting "openrouter.fallback_enabled") then openRouterEntries else []

def routableNames (db : Db) : List String :=
  sorted (((db.models.filter (fun r => r.routable == some true)).map (·.logicalModelName)).dedup)

theorem mem_routableNames {db : Db} {n : String} :
    n ∈ routableNames db ↔ ∃ r ∈ db.models, r.routable = some true ∧ r.logicalModelName = n := by
  unfold routableNames sorted
  rw [List.mem_insertionSort, List.mem_dedup]
  simp [List.mem_map, List.mem_filter, and_assoc]

theorem mem_backends {db : Db} {r : ModelRow} {h : HostRow} :
    (r, h) ∈ db.backends ↔ r ∈ db.models ∧ r.routable = some true ∧ r.isAlias = some false ∧
    h ∈ db.hosts ∧
      r.hostId = some h.hostId := by
  unfold Db.backends
  rw [List.mem_flatMap]
  constructor
  · rintro ⟨s, hs, hm⟩
    split at hm
    next hg =>
      obtain ⟨g, hg', he⟩ := List.mem_map.mp hm
      obtain ⟨rfl, rfl⟩ := Prod.mk.inj he
      obtain ⟨hh, hid⟩ := List.mem_filter.mp hg'
      obtain ⟨hrt, hal⟩ := Bool.and_eq_true_iff.mp hg
      exact ⟨hs, by simpa using hrt, by simpa using hal, hh, by simpa using hid⟩
    · exact absurd hm List.not_mem_nil
  · rintro ⟨hr, hrt, hal, hh, hid⟩
    refine ⟨r, hr, ?_⟩
    rw [if_pos (by simp [hrt, hal])]
    exact List.mem_map.mpr ⟨h, List.mem_filter.mpr ⟨hh, by simp [hid]⟩, rfl⟩

theorem mem_localEntries {seen : List (String × String)}
    {rows : List (String × String × Option String)}
    {e : LitellmEntry} (he : e ∈ localEntries seen rows) :
    ∃ row ∈ rows, e = localEntry row.1 row.2.1 row.2.2 := by
  induction rows generalizing seen with
  | nil => exact absurd he List.not_mem_nil
  | cons row rows ih =>
      rw [localEntries] at he
      split at he
      · obtain ⟨row', hr, he⟩ := ih he
        exact ⟨row', List.mem_cons_of_mem _ hr, he⟩
      · rcases List.mem_cons.mp he with rfl | he
        · exact ⟨row, List.mem_cons_self, rfl⟩
        · obtain ⟨row', hr, he⟩ := ih he
          exact ⟨row', List.mem_cons_of_mem _ hr, he⟩

theorem mem_aliasEntries {backends : List (String × String)} {rows : List (String × Option String)}
    {e : LitellmEntry}
    (he : e ∈ aliasEntries backends rows) :
    ∃ row ∈ rows, ∃ b ∈ backends, some b.1 = row.2 ∧ e = aliasEntry row.1 b := by
  obtain ⟨row, hrow, hm⟩ := List.mem_flatMap.mp he
  obtain ⟨b, hb, rfl⟩ := List.mem_map.mp hm
  obtain ⟨hb, ht⟩ := List.mem_filter.mp (List.mem_of_mem_take hb)
  exact ⟨row, hrow, b, hb, by simpa using ht, rfl⟩

theorem mem_sortedBackends {drv : Driver} {db : Db} {p : ModelRow × HostRow} :
    p ∈ sortedBackends drv db ↔ p ∈ db.backends := List.mem_insertionSort _

theorem mem_sortedTargets {drv : Driver} {db : Db} {p : ModelRow × HostRow} :
    p ∈ sortedTargets drv db ↔ p ∈ db.backends := List.mem_insertionSort _

theorem openRouterEntries_isOpenRouter : ∀ e ∈ openRouterEntries, e.isOpenRouter = true := by
  decide +kernel

theorem openai_isOpenRouter {e : LitellmEntry} {name : String} (h : e.model = openai name) :
    e.isOpenRouter = false := by
  unfold LitellmEntry.isOpenRouter startsWith
  rw [h, openai, String.toList_append]
  rfl

theorem routed {drv : Driver} {db : Db} {e : LitellmEntry} (he : e ∈ modelList drv db)
    (ho : e.isOpenRouter = false) :
    ∃ r h, (r, h) ∈ db.backends ∧ e.model = openai r.logicalModelName ∧
      e.apiBase = some (backendUrl h.guestIp) ∧
      (e = localEntry r.logicalModelName h.guestIp r.engine ∨
        ∃ a ∈ routableAliases db, a.aliasTarget = some r.logicalModelName ∧
          e = aliasEntry a.logicalModelName (r.logicalModelName, h.guestIp)) := by
  unfold modelList at he
  rcases List.mem_append.mp he with he | he
  · rcases List.mem_append.mp he with he | he
    · obtain ⟨row, hrow, rfl⟩ := mem_localEntries he
      obtain ⟨⟨r, h⟩, hp, rfl⟩ := List.mem_map.mp hrow
      exact ⟨r, h, mem_sortedBackends.mp hp, rfl, rfl, .inl rfl⟩
    · obtain ⟨row, hrow, b, hb, ht, rfl⟩ := mem_aliasEntries he
      obtain ⟨⟨r, h⟩, hp, rfl⟩ := List.mem_map.mp hb
      obtain ⟨a, ha, rfl⟩ := List.mem_map.mp hrow
      exact ⟨r, h, mem_sortedTargets.mp hp, rfl, rfl, .inr ⟨a, ha, ht.symm, rfl⟩⟩
  · split at he
    · rw [openRouterEntries_isOpenRouter e he] at ho
      cases ho
    · exact absurd he List.not_mem_nil

section Runs

variable {drv : Driver} {env : Env}

open Transactions

theorem strict_buildModelList : Strict false buildModelList := by
  refine (strict_legacy _).bind fun rows => (strict_legacy _).bind fun fallback => ?_
  exact (strict_legacy _).bind fun aliased => (strict_legacy _).bind fun backends => trivial

theorem view_sql (hq : Quiet env) (u : View) (s : Stmt) : View.answer drv env u (.sql s) =
    match exec drv (env.clock u.ops) u.db s with
    | .ok r => (.ok r.1, ⟨r.2, u.ops + 1⟩)
    | .error x => (.error x, ⟨u.db, u.ops + 1⟩) := by
  have h : View.answer drv env u (.sql s) = u.statement drv env id s := rfl
  rw [h, View.statement, hq]
  rfl

theorem view_buildModelList (hq : Quiet env) (v : View) :
    (run (View.answer drv env) buildModelList v).1 = .ok (modelList drv v.db) := by
  have hs := @view_sql drv env hq
  rw [buildModelList, run_bind, run_execute, hs]
  simp only [exec]
  rw [run_bind, run_execute, hs]
  simp only [exec]
  rw [run_bind, run_execute, hs]
  simp only [exec]
  rw [run_bind, run_execute, hs]
  rfl

theorem configModels_run (hq : Quiet env) (w : World) :
    (run (env.answer drv) configModels w).1 = .ok (some (modelList drv w.db)) := by
  rw [configModels, run_bind, run_pg, answer_connect, hq]
  simp only [if_true]
  rw [run_bind, run_closing]
  obtain ⟨w', hr, -⟩ := strict_buildModelList.legacy drv env
    (w := { w with txn := .live id, ops := w.ops + 1, now := env.clock w.ops }) rfl
  rw [hr, view_buildModelList hq]
  rfl

theorem routableModels_run (hq : Quiet env) (w : World) :
    (run (env.answer drv) (routableModels false) w).1 = .ok (routableNames w.db) := by
  have hstrict : Strict false (do
      let names ← execute .routableNames
      pure (sorted names)) := (strict_legacy _).bind fun _ => trivial
  rw [routableModels, if_neg Bool.false_ne_true, run_bind, run_pg, answer_connect, hq]
  simp only [if_true]
  rw [run_closing]
  obtain ⟨w', hr, -⟩ := hstrict.legacy drv env
    (w := { w with txn := .live id, ops := w.ops + 1, now := env.clock w.ops }) rfl
  rw [hr, run_bind, run_execute]
  have h : View.answer drv env ⟨w.db, w.ops + 1⟩ (.sql .routableNames) =
      View.statement drv env ⟨w.db, w.ops + 1⟩ id .routableNames := rfl
  simp only [id]
  rw [h, View.statement, hq]
  rfl

end Runs

end ServerManager.LitellmSync
