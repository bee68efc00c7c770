import ServerManager.RegistryPass

namespace ServerManager.SyncPlan

open Interaction FleetDb Fleet Registry Transactions RegistryPass
open Effects (PyExc)

def writePlan (net : Net) (h : HostRow) : List Stmt :=
  let p := probed net h.guestIp
  if p.listed.isEmpty then [.markHost h.hostId p.state]
  else p.listed.map (fun m => .upsertModel m.id h.hostId (engineOf h.guestIp) (backendUrl h.guestIp)
    m.maxModelLen
    p.state (gate p (some (h.desiredPowerState, h.managementMode))))

def hostPlan (net : Net) (h : HostRow) : List Stmt := .hostFlags h.hostId :: writePlan net h

def syncPlan (net : Net) (db : Db) : List Stmt :=
  .hostInventory :: (inventory db).flatMap (hostPlan net) ++ [.aliasSetting, .deleteAliases]

/-- How the error of a statement reaches the code: two are always made on the connection. -/
def via (drv : Driver) (cutover : Bool) : Stmt → PyExc → PyExc
  | .hostInventory => id
  | .aliasSetting => id
  | _ => raising drv cutover

variable {drv : Driver} {env : Env} {cutover : Bool}

/-- The statements one after the other, up to the first that fails. -/
def perform (drv : Driver) (env : Env) (cutover : Bool) : List Stmt → View →
    Except PyExc Unit × View
  | [], v => (.ok (), v)
  | s :: ss, v =>
      match v.statement drv env (via drv cutover s) s with
      | (.ok _, v') => perform drv env cutover ss v'
      | (.error x, v') => (.error x, v')

def after {α β : Type} (r : Except PyExc α × View) (f : α → View → Except PyExc β × View) :
    Except PyExc β × View :=
  match r with
  | (.ok a, v) => f a v
  | (.error x, v) => (.error x, v)

theorem after_ok {α β : Type} (a : α) (v : View) (f : α → View → Except PyExc β × View) :
    after (.ok a, v) f = f a v := rfl

theorem run_bind_after {α β : Type} (p : Svc α) (g : α → Svc β) (v : View) :
    run (View.answer drv env) (p >>= g) v =
      after (run (View.answer drv env) p v) (fun a u => run (View.answer drv env) (g a) u) := by
  rw [run_bind]
  rcases run (View.answer drv env) p v with ⟨x | a, u⟩
  · rfl
  · rfl

theorem perform_append (ss ss' : List Stmt) (v : View) :
    perform drv env cutover (ss ++ ss') v = after (perform drv env cutover ss v)
      (fun _ u => perform drv env cutover ss' u) := by
  induction ss generalizing v with
  | nil => rfl
  | cons s ss ih =>
      rw [List.cons_append, perform, perform]
      rcases v.statement drv env (via drv cutover s) s with ⟨x | rows, u⟩
      · rfl
      · exact ih u

theorem perform_cons (s : Stmt) (ss : List Stmt) (v : View) :
    perform drv env cutover (s :: ss) v =
      after (v.statement drv env (via drv cutover s) s)
        (fun _ u => perform drv env cutover ss u) := by
  rw [perform]
  rcases v.statement drv env (via drv cutover s) s with ⟨x | rows, u⟩
  · rfl
  · rfl

theorem after_after {α β γ : Type} (r : Except PyExc α × View)
    (f : α → View → Except PyExc β × View)
    (g : β → View → Except PyExc γ × View) : after (after r f) g =
    after r (fun a u => after (f a u) g) := by
  rcases r with ⟨x | a, u⟩
  · rfl
  · rfl

theorem run_upsertModels (hid : Int) (ip state : String) (routable : Bool) (ms : List ListedModel)
    (v : View) :
    run (View.answer drv env) (upsertModels cutover hid ip state routable ms) v =
      perform drv env cutover (ms.map (fun m =>
        .upsertModel m.id hid (engineOf ip) (backendUrl ip) m.maxModelLen state routable)) v := by
  induction ms generalizing v with
  | nil => rfl
  | cons m ms ih =>
      rw [upsertModels, run_bind_after, run_send, List.map_cons, perform_cons]
      exact congrArg (after _) (funext fun _ => funext fun u => ih u)

theorem statement_rows {raising : PyExc → PyExc} {s : Stmt} {v u : View} {rows : s.Rows}
    (f : Db → s.Rows)
    (hf : ∀ now db, exec drv now db s = .ok (f db, db))
    (h : v.statement drv env raising s = (.ok rows, u)) :
    rows = f v.db ∧ u.db = v.db := by
  obtain ⟨-, he, -⟩ := statement_ok h
  rw [hf] at he
  obtain ⟨hr, hu⟩ := Prod.mk.inj (Except.ok.inj he)
  exact ⟨hr.symm, hu.symm⟩

theorem run_writeHost (h : HostRow) (u : View) :
    run (View.answer drv env) (writeHost cutover h.hostId h.guestIp (probed env.net h.guestIp)
      (gate (probed env.net h.guestIp) (some (h.desiredPowerState, h.managementMode)))) u =
      perform drv env cutover (writePlan env.net h) u := by
  unfold writeHost writePlan
  by_cases hl : (probed env.net h.guestIp).listed.isEmpty = true
  · rw [if_pos hl, if_pos hl, run_bind_after, run_send, perform_cons]
    rfl
  · rw [if_neg hl, if_neg hl, run_upsertModels]

theorem run_syncHost {h : HostRow} {v : View} (hh : h ∈ v.db.hosts) :
    run (View.answer drv env) (syncHost cutover (h.hostId, h.guestIp, h.name)) v =
      after (perform drv env cutover (hostPlan env.net h) v)
        (fun _ u => (.ok (summaryOf env.net h), u)) := by
  rw [syncHost, run_bind_after, run_probeHost]
  simp only [after]
  rw [run_bind_after, run_send, hostPlan, perform_cons]
  have hvia : via drv cutover (.hostFlags h.hostId) = raising drv cutover := rfl
  rw [hvia]
  rcases hs : v.statement drv env (raising drv cutover) (.hostFlags h.hostId) with ⟨x | flags, u⟩
  · rfl
  · obtain ⟨rfl, -⟩ := statement_rows (fun db => (db.host h.hostId).map
      (fun h => (h.desiredPowerState, h.managementMode))) (fun _ _ => rfl) hs
    simp only [after]
    rw [host_of_mem hh, Option.map_some, run_bind_after, run_writeHost]
    rcases perform drv env cutover (writePlan env.net h) u with ⟨x | _, t⟩
    · rfl
    · rfl

theorem statement_beside (drv : Driver) (env : Env) (raising : PyExc → PyExc) {s : Stmt}
    (hs : onRegistry s) (v : View) :
    Beside v.db (v.statement drv env raising s).2.db := by
  unfold View.statement
  cases env.fault v.ops with
  | some x => exact Beside.rfl
  | none =>
      simp only
      cases hx : exec drv (env.clock v.ops) v.db s with
      | error x => exact Beside.rfl
      | ok r =>
          obtain ⟨rows, db'⟩ := r
          exact exec_beside hs hx

theorem perform_beside (drv : Driver) (env : Env) (cutover : Bool) {ss : List Stmt}
    (hss : ∀ s ∈ ss, onRegistry s)
    (v : View) :
    Beside v.db (perform drv env cutover ss v).2.db := by
  induction ss generalizing v with
  | nil => exact Beside.rfl
  | cons s ss ih =>
      have hs := statement_beside drv env (via drv cutover s) (hss s List.mem_cons_self) v
      rw [perform_cons]
      revert hs
      rcases v.statement drv env (via drv cutover s) s with ⟨x | rows, u⟩
      · exact fun hs => hs
      · exact fun hs => hs.trans (ih (fun t ht => hss t (List.mem_cons_of_mem _ ht)) u)

theorem hostPlan_onRegistry (net : Net) (h : HostRow) : ∀ s ∈ hostPlan net h, onRegistry s := by
  intro s hs
  rcases List.mem_cons.mp hs with rfl | hs
  · trivial
  · unfold writePlan at hs
    simp only at hs
    split at hs
    · rw [List.mem_singleton.mp hs]
      trivial
    · obtain ⟨m, -, rfl⟩ := List.mem_map.mp hs
      trivial

theorem run_syncHosts {hs : List HostRow} {v : View} (hh : ∀ h ∈ hs, h ∈ v.db.hosts) :
    run (View.answer drv env) (syncHosts cutover (hs.map (fun h => (h.hostId, h.guestIp, h.name))))
      v =
      after (perform drv env cutover (hs.flatMap (hostPlan env.net)) v)
        (fun _ u => (.ok (hs.map (summaryOf env.net)), u)) := by
  induction hs generalizing v with
  | nil => rfl
  | cons h hs ih =>
      rw [List.map_cons, syncHosts, run_bind_after, run_syncHost (hh h List.mem_cons_self),
        List.flatMap_cons,
        perform_append, after_after, after_after]
      have hb := perform_beside drv env cutover (hostPlan_onRegistry env.net h) v
      revert hb
      rcases perform drv env cutover (hostPlan env.net h) v with ⟨x | _, u⟩
      · exact fun _ => rfl
      · intro hb
        simp only [after]
        rw [run_bind_after, ih fun g hg => by rw [hb.hosts]; exact hh g (List.mem_cons_of_mem _
          hg), after_after]
        rcases perform drv env cutover (hs.flatMap (hostPlan env.net)) u with ⟨x | _, t⟩
        · rfl
        · rfl

theorem syncPlan_onRegistry (net : Net) (db : Db) : ∀ s ∈ syncPlan net db, onRegistry s := by
  intro s hs
  rcases List.mem_append.mp hs with hs | hs
  · rcases List.mem_cons.mp hs with rfl | hs
    · trivial
    · obtain ⟨h, -, hs⟩ := List.mem_flatMap.mp hs
      exact hostPlan_onRegistry net h s hs
  · rcases List.mem_cons.mp hs with rfl | hs
    · trivial
    · rw [List.mem_singleton.mp hs]
      trivial

theorem run_syncBody (v : View) :
    run (View.answer drv env) (syncBody cutover) v =
      after (perform drv env cutover (syncPlan env.net v.db) v) (fun _ u =>
        after (run (View.answer drv env) (syncAliases cutover (aliasRows v.db)) u)
          (fun _ t => (.ok ((inventory v.db).map (summaryOf env.net)), t))) := by
  have hexec : ∀ (u : View) (s : Stmt), run (View.answer drv env) (execute s) u =
      u.statement drv env id s :=
    fun u s => run_execute s u
  have hplan : syncPlan env.net v.db =
      .hostInventory :: ((inventory v.db).flatMap (hostPlan env.net) ++
        [.aliasSetting, .deleteAliases]) := rfl
  rw [syncBody, run_bind_after, hexec, hplan, perform_cons, after_after]
  have hvia : via drv cutover .hostInventory = id := rfl
  rw [hvia]
  rcases hs : v.statement drv env id .hostInventory with ⟨x | hosts, u⟩
  · rfl
  · obtain ⟨rfl, hu⟩ :=
      statement_rows (fun db => (inventory db).map (fun h => (h.hostId, h.guestIp, h.name)))
      (fun _ _ => rfl) hs
    have hmem : ∀ h ∈ inventory v.db, h ∈ u.db.hosts := fun h hh => by
      rw [hu]
      exact mem_inventory.mp hh
    rw [after_ok, after_ok, run_bind_after, run_syncHosts hmem, perform_append, after_after,
      after_after]
    have hreg : ∀ s ∈ (inventory v.db).flatMap (hostPlan env.net), onRegistry s := fun s hs => by
      obtain ⟨h, -, hs⟩ := List.mem_flatMap.mp hs
      exact hostPlan_onRegistry env.net h s hs
    have hb := perform_beside drv env cutover hreg u
    revert hb
    rcases perform drv env cutover ((inventory v.db).flatMap (hostPlan env.net)) u with ⟨x | _, t⟩
    · exact fun _ => rfl
    · intro hb
      rw [after_ok, after_ok, after_ok, run_bind_after, hexec, perform_cons]
      have hvia : via drv cutover .aliasSetting = id := rfl
      rw [hvia, after_after]
      rcases ht : t.statement drv env id .aliasSetting with ⟨x | row, t₂⟩
      · rfl
      · obtain ⟨rfl, -⟩ :=
          statement_rows (fun db => db.setting "v011.role_aliases.enabled") (fun _ _ => rfl) ht
        have hset : t.db.setting "v011.role_aliases.enabled" =
            v.db.setting "v011.role_aliases.enabled" := by
          unfold Db.setting
          rw [hb.settings, hu]
        rw [after_ok, after_ok, run_bind_after, run_send, perform_cons, after_after]
        have hvia : via drv cutover .deleteAliases = raising drv cutover := rfl
        rw [hvia]
        rcases t₂.statement drv env (raising drv cutover) .deleteAliases with ⟨x | _, t₃⟩
        · rfl
        · rw [after_ok, after_ok, run_bind_after, hset]
          rfl

def accepts (drv : Driver) : Stmt → Bool
  | .upsertModel name _ _ _ limit _ _ => (drv.text name).isOk && (drv.int limit).isOk
  | _ => true

/-- The statements that take effect, from operation number `n` on. -/
def done (drv : Driver) (env : Env) : Nat → List Stmt → List Stmt
  | _, [] => []
  | n, s :: ss =>
      if env.fault n = none ∧ accepts drv s = true then s :: done drv env (n + 1) ss else []

def Known (db : Db) : Stmt → Prop
  | .upsertModel _ hid _ _ _ _ _ => hid ∈ db.hosts.map HostRow.hostId
  | _ => True

theorem exec_upsertModel {now : Int} {db : Db} {name limit : PyJson.Json} {hid : Int}
    {engine url health : String}
    {routable : Bool} {n : String} {l : Option Int} (ht : drv.text name = .ok n)
    (hi : drv.int limit = .ok l)
    (href : hid ∈ db.hosts.map HostRow.hostId) :
    exec drv now db (.upsertModel name hid engine url limit health routable) =
      .ok ((), db.upsert (Db.modelFor n hid engine url l health routable) hid rfl href) := by
  simp only [exec, bind, Except.bind]
  rw [ht, hi]
  simp only
  rw [dif_pos href]
  rfl

theorem exec_accepts (now : Int) {db : Db} {s : Stmt} (hk : Known db s)
    (ha : accepts drv s = true) :
    ∃ r, exec drv now db s = .ok r := by
  cases s with
  | upsertModel name hid engine url limit health routable =>
      obtain ⟨ht, hi⟩ := Bool.and_eq_true_iff.mp ha
      cases hn : drv.text name with
      | error x => rw [hn] at ht; cases ht
      | ok n =>
          cases hl : drv.int limit with
          | error x => rw [hl] at hi; cases hi
          | ok l => exact ⟨_, exec_upsertModel hn hl hk⟩
  | _ => exact ⟨_, rfl⟩

theorem Known.of_beside {db db' : Db} {s : Stmt} (h : Known db s) (hb : Beside db db') :
    Known db' s := by
  cases s with
  | upsertModel name hid engine url limit health routable =>
      have hk : hid ∈ db.hosts.map HostRow.hostId := h
      change hid ∈ db'.hosts.map HostRow.hostId
      rwa [hb.hosts]
  | _ => trivial

def Clear (env : Env) (n len : Nat) : Prop := ∀ k < len, env.fault (n + k) = none

instance (env : Env) (n len : Nat) : Decidable (Clear env n len) :=
  inferInstanceAs (Decidable (∀ k < len, env.fault (n + k) = none))

theorem Clear.split {n a b : Nat} : Clear env n (a + b) ↔ Clear env n a ∧ Clear env (n + a) b := by
  constructor
  · intro h
    refine ⟨fun k hk => h k (by omega), fun k hk => ?_⟩
    have hab := h (a + k) (by omega)
    rwa [← Nat.add_assoc] at hab
  · rintro ⟨ha, hb⟩ k hk
    by_cases hka : k < a
    · exact ha k hka
    · have hb' := hb (k - a) (by omega)
      have he : n + a + (k - a) = n + k := by omega
      rwa [he] at hb'

def aliasOps : List (String × Option String) → Nat
  | [] => 0
  | (_, none) :: rows => aliasOps rows
  | (_, some _) :: rows => 2 + aliasOps rows

end ServerManager.SyncPlan
