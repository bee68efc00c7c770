import ServerManager.DesiredState
import ServerManager.SyncPlan

namespace ServerManager.DrainOnStop

open Interaction PyJson FleetDb Fleet Registry Transactions RegistryPass HostsApi DesiredState
  SyncPlan LitellmSync
open Effects (PyExc)

variable {drv : Driver} {env : Env} {cutover : Bool}

def Shut (hid : Int) : Stmt → Prop
  | .upsertModel _ hid' _ _ _ _ routable => hid' = hid → routable = false
  | _ => True

/-- A sync that starts as operation number `n` gets through its commit. -/
def Completes (drv : Driver) (env : Env) (db : Db) (n : Nat) : Prop :=
  done drv env (n + 1) (syncPlan env.net db) = syncPlan env.net db ∧
    Clear env (n + 1 + (syncPlan env.net db).length) (aliasOps (aliasRows db) + 1)

def Commits (drv : Driver) (env : Env) (cutover : Bool) (db : Db) (n : Nat) (s : Stmt) : Prop :=
  env.fault n = none ∧ s ∈ done drv env (n + 1) (syncPlan env.net db) ∧
    (cutover = false → Completes drv env db n)

theorem syncPlan_known (net : Net) (db : Db) : ∀ s ∈ syncPlan net db, onRegistry s ∧
    Known db s := by
  intro s hs
  refine ⟨syncPlan_onRegistry net db s hs, ?_⟩
  rcases List.mem_append.mp hs with hs | hs
  · rcases List.mem_cons.mp hs with rfl | hs
    · trivial
    · obtain ⟨h, hh, hs⟩ := List.mem_flatMap.mp hs
      rcases List.mem_cons.mp hs with rfl | hs
      · trivial
      · unfold writePlan at hs
        simp only at hs
        split at hs
        · rw [List.mem_singleton.mp hs]
          trivial
        · obtain ⟨m, -, rfl⟩ := List.mem_map.mp hs
          exact List.mem_map_of_mem (mem_inventory.mp hh)
  · rcases List.mem_cons.mp hs with rfl | hs
    · trivial
    · rw [List.mem_singleton.mp hs]
      trivial

theorem after_error {α β : Type} (x : PyExc) (v : View) (f : α → View → Except PyExc β × View) :
    after (.error x, v) f = (.error x, v) := rfl

/-- No row of the host is routable, and whatever `routable_models()` returns is served elsewhere. -/
structure Drained (drv : Driver) (cutover : Bool) (db : Db) (ip : String) : Prop where
  rows : ∀ h ∈ db.hosts, h.guestIp = ip → ∀ r ∈ db.models, r.hostId = some h.hostId →
    r.routable ≠ some true
  listed : ∀ (env : Env) names, (run (env.answer drv) (routableModels cutover) { db := db }).1 =
    .ok names → ∀ n ∈ names,
    ∀ h ∈ db.hosts, h.guestIp = ip →
      ∃ r ∈ db.models, r.logicalModelName = n ∧ r.routable = some true ∧ r.hostId ≠ some h.hostId

theorem routableModels_sound {db : Db} {names : List String}
    (h : (run (env.answer drv) (routableModels cutover) { db := db }).1 = .ok names) :
    ∀ n ∈ names, n ∈ routableNames db := by
  revert h
  unfold routableModels
  cases cutover with
  | true =>
      rw [if_pos rfl, run_bind, run_adapter, answer_orm]
      cases env.fault 0 with
      | some x => exact fun h => by cases h
      | none =>
          intro h n hn
          cases h
          exact hn
  | false =>
      rw [if_neg Bool.false_ne_true, run_bind, run_pg, answer_connect]
      cases env.fault 0 with
      | some x =>
          intro h n hn
          cases h
          exact absurd hn List.not_mem_nil
      | none =>
          have hstrict : Strict false (do
              let names ← execute .routableNames
              pure (sorted names)) := (strict_legacy _).bind fun _ => trivial
          simp only [if_true]
          rw [run_closing]
          obtain ⟨w', hr, -⟩ := hstrict.legacy drv env
            (w := { db := db, txn := .live id, ops := 0 + 1, now := env.clock 0 }) rfl
          rw [hr, run_bind, run_execute]
          have hv : View.answer drv env ⟨id db, 0 + 1⟩ (.sql .routableNames) =
              View.statement drv env ⟨id db, 0 + 1⟩ id .routableNames := rfl
          rw [hv, View.statement]
          simp only
          cases env.fault (0 + 1) with
          | some x => exact fun h => by cases h
          | none =>
              intro h n hn
              cases h
              exact hn

theorem Drained.of_rows {db : Db} {ip : String}
    (h : ∀ h ∈ db.hosts, h.guestIp = ip → ∀ r ∈ db.models, r.hostId = some h.hostId →
    r.routable ≠ some true) :
    Drained drv cutover db ip where
  rows := h
  listed env names hn n hmem g hg hip := by
    obtain ⟨r, hr, hrt, hname⟩ := mem_routableNames.mp (routableModels_sound hn n hmem)
    exact ⟨r, hr, hname, hrt, fun hid => h g hg hip r hr hid hrt⟩

end ServerManager.DrainOnStop
