import ServerManager.LitellmSync

namespace ServerManager.RegistryGate

open Interaction PyJson FleetDb Fleet Registry Transactions RegistryPass LitellmSync
open Effects (PyExc)

variable {drv : Driver} {env : Env}

theorem sync_hosts {cutover : Bool} {w : World} {summary : List HostSummary}
    (h : (run (env.answer drv) (syncRegistry cutover) w).1 = .ok (.hosts summary)) :
    synced drv env.net (aliasUrl cutover) w.db =
      .ok (run (env.answer drv) (syncRegistry cutover) w).2.db.models ∧
      Beside w.db (run (env.answer drv) (syncRegistry cutover) w).2.db ∧
      summary = (inventory w.db).map (summaryOf env.net) := by
  obtain ⟨hr, hd⟩ := sync_run drv env cutover w
  rw [hd]
  rw [hr] at h
  revert h
  unfold syncEnd
  cases env.fault w.ops with
  | some x => exact fun h => by cases h
  | none =>
      simp only
      have hundo : ∀ n x, undone env n x ≠ .ok (.hosts summary) := by
        intro n x
        unfold undone
        cases env.fault n <;> nofun
      cases hb : run (View.answer drv env) (syncBody cutover) ⟨w.db, w.ops + 1⟩ with
      | mk res v =>
          cases res with
          | error x => exact fun h => absurd h (hundo _ _)
          | ok rows =>
              simp only
              cases env.fault v.ops with
              | some x => exact fun h => absurd h (hundo _ _)
              | none =>
                  intro h
                  cases h
                  exact syncBody_ok hb

theorem sync_rolled_back {w : World}
    (h : ∀ summary, (run (env.answer drv) (syncRegistry false) w).1 ≠ .ok (.hosts summary)) :
    (run (env.answer drv) (syncRegistry false) w).2.db = w.db := by
  obtain ⟨hr, hd⟩ := sync_run drv env false w
  rw [hd]
  rw [hr] at h
  revert h
  unfold syncEnd
  cases env.fault w.ops with
  | some x => exact fun _ => rfl
  | none =>
      simp only
      cases run (View.answer drv env) (syncBody false) ⟨w.db, w.ops + 1⟩ with
      | mk res v =>
          cases res with
          | error x => exact fun _ => rfl
          | ok rows =>
              simp only
              cases env.fault v.ops with
              | some x => exact fun _ => rfl
              | none => exact fun h => absurd rfl (h rows)

/-- A host that the sync has probed as healthy, that lists the model and that may serve it. -/
structure Serves (drv : Driver) (net : Net) (summary : List HostSummary) (name : String)
    (h : HostRow) : Prop where
  inSync : ⟨h.guestIp, h.name, "healthy", true⟩ ∈ summary
  answered : ∃ body, net.models h.guestIp = .ok (200, body)
  completed : ∃ mid, net.completion h.guestIp mid = .ok 200
  listed : Lists drv (probed net h.guestIp) name
  running : h.desiredPowerState = "RUNNING"
  managed : h.managementMode = "MANAGED"

/-- A routable row that a sync does not write: its host is unknown, or lists other models now. -/
def Stale (drv : Driver) (net : Net) (db : Db) (r : ModelRow) : Prop :=
  r.routable = some true ∧ r.isAlias ≠ some true ∧
    (r.hostId = none ∨ ∃ h ∈ db.hosts, r.hostId = some h.hostId ∧
    (probed net h.guestIp).listed ≠ [] ∧
      ¬ Lists drv (probed net h.guestIp) r.logicalModelName)

theorem completionText_ok {a : Except PyExc Nat} (h : completionText a = "ok") : a = .ok 200 := by
  unfold completionText at h
  split at h
  · rfl
  next code _ =>
    have hl := congrArg String.length h
    rw [String.length_append] at hl
    exact absurd hl (by change ¬ (5 + _ = 2); omega)
  next x =>
    have hl := congrArg String.length h
    rw [String.length_append] at hl
    exact absurd hl (by change ¬ (6 + _ = 2); omega)

theorem readModels_completion (a : Except PyExc (Nat × Except PyExc Json)) :
    (readModels a).1.healthCompletion = none := by
  unfold readModels
  repeat' split
  all_goals rfl

theorem readModels_listed {a : Except PyExc (Nat × Except PyExc Json)}
    (h : (readModels a).1.listed ≠ []) :
    ∃ body, a = .ok (200, body) := by
  rcases a with x | ⟨status, body⟩
  · exact absurd rfl h
  · by_cases hs : status = 200
    · exact ⟨body, by rw [hs]⟩
    · refine absurd ?_ h
      simp only [readModels]
      rw [if_pos hs]
      rfl

theorem probed_healthy {net : Net} {ip : String} (h : (probed net ip).healthy = true) :
    (∃ body, net.models ip = .ok (200, body)) ∧ ∃ mid, net.completion ip mid = .ok 200 := by
  unfold Probe.healthy at h
  obtain ⟨hl, hc⟩ := Bool.and_eq_true_iff.mp h
  have hl' : (probed net ip).listed ≠ [] := by
    intro he
    rw [he] at hl
    cases hl
  have hc' : (probed net ip).healthCompletion = some "ok" := by simpa using hc
  have hnone := readModels_completion (net.models ip)
  have hbody := readModels_listed (a := net.models ip)
  unfold probed at hl' hc'
  revert hl' hc' hnone hbody
  rcases readModels (net.models ip) with ⟨p, _ | mid⟩
  · intro _ hc' hnone _
    rw [hnone] at hc'
    cases hc'
  · intro hl' hc' _ hbody
    exact ⟨hbody hl', mid, completionText_ok (Option.some.inj hc')⟩

theorem gate_open {p : Probe} {desired mode : String} (h : gate p (some (desired, mode)) = true) :
    p.healthy = true ∧ desired = "RUNNING" ∧ mode = "MANAGED" := by
  have hg : (p.healthy && desired == "RUNNING" && mode == "MANAGED") = true := h
  simpa [and_assoc] using hg

theorem serves_of_gate {net : Net} {db : Db} {name : String} {h : HostRow} (hh : h ∈ db.hosts)
    (hl : Lists drv (probed net h.guestIp) name)
    (hg : gate (probed net h.guestIp) (some (h.desiredPowerState, h.managementMode)) = true) :
    Serves drv net ((inventory db).map (summaryOf net)) name h := by
  obtain ⟨hp, hd, hm⟩ := gate_open hg
  obtain ⟨ha, hc⟩ := probed_healthy hp
  refine ⟨List.mem_map.mpr ⟨h, mem_inventory.mpr hh, ?_⟩, ha, hc, hl, hd, hm⟩
  have hs : (probed net h.guestIp).state = "healthy" := by
    unfold Probe.state
    rw [if_pos hp]
  rw [summaryOf, hs, hg]

theorem routable_after_pass {net : Net} {db : Db} {rows : List ModelRow} {r : ModelRow}
    (hp : passAll drv net (inventory db) db.models = .ok rows) (hr : r ∈ rows)
    (hrt : r.routable = some true)
    (hal : r.isAlias ≠ some true) :
    (∃ h ∈ db.hosts, r.hostId = some h.hostId ∧
      Serves drv net ((inventory db).map (summaryOf net)) r.logicalModelName h) ∨
      (r ∈ db.models ∧ Stale drv net db r) := by
  by_cases hk : ∃ h ∈ db.hosts, r.hostId = some h.hostId
  · obtain ⟨h, hh, hid⟩ := hk
    have hself := passAll_self (inventory_nodup db) (mem_inventory.mpr hh) hp
    have hmem : r ∈ rowsOf (some h.hostId) rows := mem_rowsOf.mpr ⟨hr, hid⟩
    unfold passRows at hself
    split at hself
    · rw [← Except.ok.inj hself, markRows] at hmem
      obtain ⟨s, hs, rfl⟩ := List.mem_map.mp hmem
      rw [if_pos (by simpa using (mem_rowsOf.mp hs).2)] at hrt
      cases hrt
    next hne =>
      rcases mem_writeRows hself hmem hid with ⟨hold, hnot⟩ | ⟨hl, hg⟩
      · right
        refine ⟨(mem_rowsOf.mp hold).1, hrt, hal, .inr ⟨h, hh, hid, ?_, ?_⟩⟩
        · intro he
          rw [he] at hne
          exact hne rfl
        · rintro ⟨m, hm, ht⟩
          exact hnot m hm ht
      · left
        rw [hrt] at hg
        exact ⟨h, hh, hid, serves_of_gate hh hl (Option.some.inj hg).symm⟩
  · right
    have hne : ∀ h ∈ inventory db, r.hostId ≠ some h.hostId :=
      fun h hh he => hk ⟨h, mem_inventory.mp hh, he⟩
    have hold : r ∈ db.models := by
      have hm : r ∈ rowsOf r.hostId rows := mem_rowsOf.mpr ⟨hr, rfl⟩
      rw [passAll_ne hne hp] at hm
      exact (mem_rowsOf.mp hm).1
    refine ⟨hold, hrt, hal, .inl ?_⟩
    cases hid : r.hostId with
    | none => rfl
    | some i =>
        obtain ⟨h, hh, hi⟩ := List.mem_map.mp (db.hostRef r hold i hid)
        exact absurd ⟨h, hh, by rw [hid, hi]⟩ hk

theorem stale_after_pass {net : Net} {db : Db} {rows : List ModelRow} {r : ModelRow}
    (hp : passAll drv net (inventory db) db.models = .ok rows) (hr : r ∈ db.models)
    (hs : Stale drv net db r) :
    r ∈ rows := by
  obtain ⟨-, -, hid | ⟨h, hh, hid, hne, hnot⟩⟩ := hs
  · have hm : r ∈ rowsOf none db.models := mem_rowsOf.mpr ⟨hr, hid⟩
    rw [← passAll_ne (fun h _ => by nofun) hp] at hm
    exact (mem_rowsOf.mp hm).1
  · have hself := passAll_self (inventory_nodup db) (mem_inventory.mpr hh) hp
    unfold passRows at hself
    rw [if_neg (by simpa using hne)] at hself
    have hm := writeRows_keeps hself (mem_rowsOf.mpr ⟨hr, hid⟩) fun m hm ht => hnot ⟨m, hm, ht⟩
    exact (mem_rowsOf.mp hm).1

/-- The law of the registry after a sync: every routable row and every routable
alias is served, and so is all that the models endpoint lists and the gateway routes to. -/
structure GateSound (drv : Driver) (net : Net) (summary : List HostSummary) (db : Db) : Prop where
  rows : ∀ r ∈ db.models, r.routable = some true → r.isAlias ≠ some true →
    ∃ h ∈ db.hosts, r.hostId = some h.hostId ∧ Serves drv net summary r.logicalModelName h
  aliased : ∀ r ∈ db.models, r.routable = some true → r.isAlias = some true →
    ∃ target, r.aliasTarget = some target ∧ ∃ s ∈ db.models, s.logicalModelName = target ∧
      s.routable = some true ∧
      s.isAlias ≠ some true
  listed : ∀ env', Quiet env' → ∀ names, (run (env'.answer drv) (routableModels false)
    { db := db }).1 = .ok names →
    ∀ n ∈ names, ∃ target, ∃ h ∈ db.hosts, Serves drv net summary target h ∧
      (n = target ∨ ∃ r ∈ db.models, r.logicalModelName = n ∧ r.isAlias = some true ∧
        r.aliasTarget = some target)
  routed : ∀ env', Quiet env' → ∀ es, (run (env'.answer drv) configModels { db := db }).1 =
    .ok (some es) →
    ∀ e ∈ es, e.isOpenRouter = false → ∃ target, ∃ h ∈ db.hosts, Serves drv net summary target h ∧
      e.model = openai target ∧ e.apiBase = some (backendUrl h.guestIp)

theorem GateSound.of_rows {net : Net} {summary : List HostSummary} {db : Db}
    (hrows : ∀ r ∈ db.models, r.routable = some true → r.isAlias ≠ some true →
      ∃ h ∈ db.hosts, r.hostId = some h.hostId ∧ Serves drv net summary r.logicalModelName h)
    (haliased : ∀ r ∈ db.models, r.routable = some true → r.isAlias = some true →
      ∃ target, r.aliasTarget = some target ∧ ∃ s ∈ db.models, s.logicalModelName = target ∧
        s.routable = some true ∧
        s.isAlias ≠ some true) : GateSound drv net summary db where
  rows := hrows
  aliased := haliased
  listed env' hq names hn n hmem := by
    rw [routableModels_run hq] at hn
    rw [← Except.ok.inj hn] at hmem
    obtain ⟨r, hr, hrt, rfl⟩ := mem_routableNames.mp hmem
    by_cases hal : r.isAlias = some true
    · obtain ⟨target, ht, s, hs, rfl, hsrt, hsal⟩ := haliased r hr hrt hal
      obtain ⟨h, hh, -, hserves⟩ := hrows s hs hsrt hsal
      exact ⟨s.logicalModelName, h, hh, hserves, .inr ⟨r, hr, rfl, hal, ht⟩⟩
    · obtain ⟨h, hh, -, hserves⟩ := hrows r hr hrt hal
      exact ⟨r.logicalModelName, h, hh, hserves, .inl rfl⟩
  routed env' hq es hes e he ho := by
    rw [configModels_run hq] at hes
    rw [← Option.some.inj (Except.ok.inj hes)] at he
    obtain ⟨r, h, hb, hm, hbase, -⟩ := LitellmSync.routed he ho
    obtain ⟨hr, hrt, hal, hh, hid⟩ := mem_backends.mp hb
    obtain ⟨g, hg, hgid, hserves⟩ := hrows r hr hrt (by rw [hal]; nofun)
    have hgh : g = h := by
      have hi : g.hostId = h.hostId := Option.some.inj (hgid.symm.trans hid)
      exact List.inj_on_of_nodup_map db.hostKey hg hh hi
    exact ⟨r.logicalModelName, h, hh, hgh ▸ hserves, hm, hbase⟩

theorem aliasRow_routable {url : Option String} {rows : List ModelRow} {name target : String}
    (h : (aliasRow url rows name target).routable = some true) :
    ∃ r ∈ rows, r.logicalModelName = target ∧ r.routable = some true :=
  countTarget_pos.mp (of_decide_eq_true (Option.some.inj h))

theorem fresh_of_gate_sound {w : World} {summary : List HostSummary}
    (h : (run (env.answer drv) (syncRegistry false) w).1 = .ok (.hosts summary))
    (hsound : GateSound drv env.net summary (run (env.answer drv) (syncRegistry false) w).2.db) :
    ∀ r ∈ w.db.models, ¬ Stale drv env.net w.db r := by
  intro r hr hstale
  obtain ⟨hs, hb, rfl⟩ := sync_hosts h
  obtain ⟨rows, hp, hm⟩ := synced_eq hs
  have hin : r ∈ (run (env.answer drv) (syncRegistry false) w).2.db.models := by
    rw [hm]
    exact List.mem_append_left _ (mem_kept.mpr ⟨stale_after_pass hp hr hstale, hstale.2.1⟩)
  obtain ⟨g, hg, hgid, hserves⟩ := hsound.rows r hin hstale.1 hstale.2.1
  rw [hb.hosts] at hg
  rcases hstale.2.2 with hid | ⟨k, hk, hid, -, hnot⟩
  · rw [hid] at hgid
    cases hgid
  · have hi : g.hostId = k.hostId := Option.some.inj (hgid.symm.trans hid)
    have hgk : g = k := List.inj_on_of_nodup_map w.db.hostKey hg hk hi
    exact hnot (hgk ▸ hserves.listed)

theorem gate_sound_of_fresh {w : World} {summary : List HostSummary}
    (h : (run (env.answer drv) (syncRegistry false) w).1 = .ok (.hosts summary))
    (hfresh : ∀ r ∈ w.db.models, ¬ Stale drv env.net w.db r) :
    GateSound drv env.net summary (run (env.answer drv) (syncRegistry false) w).2.db := by
  obtain ⟨hs, hb, rfl⟩ := sync_hosts h
  obtain ⟨rows, hp, hm⟩ := synced_eq hs
  have hnew : ∀ r, r ∈ (aliasRows w.db).filterMap
      (fun a => a.2.map (fun target => aliasRow (aliasUrl false) (kept rows) a.1 target)) →
      ∃ name target, r = aliasRow (aliasUrl false) (kept rows) name target := by
    intro r hr
    obtain ⟨a, -, ha⟩ := List.mem_filterMap.mp hr
    obtain ⟨target, -, rfl⟩ := Option.map_eq_some_iff.mp ha
    exact ⟨a.1, target, rfl⟩
  refine GateSound.of_rows ?_ ?_
  · intro r hr hrt hal
    rw [hm] at hr
    rcases List.mem_append.mp hr with hr | hr
    · rcases routable_after_pass hp (mem_kept.mp hr).1 hrt hal with ⟨g, hg, hid, hserves⟩ | ⟨hold,
        hstale⟩
      · exact ⟨g, by rw [hb.hosts]; exact hg, hid, hserves⟩
      · exact absurd hstale (hfresh r hold)
    · obtain ⟨name, target, rfl⟩ := hnew r hr
      exact absurd rfl hal
  · intro r hr hrt hal
    rw [hm] at hr
    rcases List.mem_append.mp hr with hr | hr
    · exact absurd hal (mem_kept.mp hr).2
    · obtain ⟨name, target, rfl⟩ := hnew r hr
      obtain ⟨s, hs', hname, hsrt⟩ := aliasRow_routable hrt
      refine ⟨target, rfl, s, ?_, hname, hsrt, (mem_kept.mp hs').2⟩
      rw [hm]
      exact List.mem_append_left _ hs'

/-- A sync that returns normally leaves a sound gate exactly when no row was stale before it. -/
theorem gate_sound_iff (drv : Driver) (env : Env) (w : World) (summary : List HostSummary)
    (h : (run (env.answer drv) (syncRegistry false) w).1 = .ok (.hosts summary)) :
    GateSound drv env.net summary (run (env.answer drv) (syncRegistry false) w).2.db ↔
      ∀ r ∈ w.db.models, ¬ Stale drv env.net w.db r :=
  ⟨fresh_of_gate_sound h, gate_sound_of_fresh h⟩

def host162 : HostRow :=
  { hostId := 1, name := "miam00112", guestIp := "10.0.20.162", desiredPowerState := "RUNNING"
    managementMode := "MANAGED", desiredServiceState := "SERVING" }

/-- Every host lists one model and answers its completion. -/
def servingNet (model : String) : Net where
  models _ := .ok (200, .ok (.obj [("data", .arr [.obj [("id", .str model)]])]))
  completion _ _ := .ok 200
  pve _ := some (.obj [("data", .obj [("status", .str "running")])])

def oneHostDb (models : List ModelRow) (hk : models.Pairwise ModelRow.Apart)
    (hr : ∀ r ∈ models, ∀ h ∈ r.hostId, h ∈ [host162].map HostRow.hostId) : Db where
  hosts := [host162]
  models := models
  settings := []
  events := []
  hostKey := by decide
  ipKey := by decide
  modelKey := hk
  hostRef := hr

def servedRow (name : String) : ModelRow :=
  Db.modelFor name 1 "vllm" "http://10.0.20.162:8000/v1" none "healthy" true

theorem servedRow_ref (name : String) : ∀ r ∈ [servedRow name], ∀ h ∈ r.hostId,
    h ∈ [host162].map HostRow.hostId := by
  intro r hr h hh
  rw [List.mem_singleton.mp hr] at hh
  rw [← Option.mem_some.mp hh]
  exact List.mem_singleton_self _

def servedDb (name : String) : Db :=
  oneHostDb [servedRow name] (List.pairwise_singleton _ _) (servedRow_ref name)

theorem gate_sound_iff_served :
    GateSound plainDriver (servingNet "new") [⟨"10.0.20.162", "miam00112", "healthy", true⟩]
        (run (Env.answer plainDriver { net := servingNet "new" }) (syncRegistry false)
          { db := servedDb "new" }).2.db ↔
      ∀ r ∈ (servedDb "new").models, ¬ Stale plainDriver (servingNet "new") (servedDb "new") r :=
  gate_sound_iff plainDriver { net := servingNet "new" } { db := servedDb "new" } _ rfl

/-- The row of the model that the host served before stays routable. -/
theorem swapped_model_stays_routable :
    ¬ ∀ (drv : Driver) (env : Env) (w : World) (summary : List HostSummary),
      (run (env.answer drv) (syncRegistry false) w).1 = .ok (.hosts summary) →
        GateSound drv env.net summary (run (env.answer drv) (syncRegistry false) w).2.db := by
  intro hall
  have hsync : (run (Env.answer plainDriver { net := servingNet "new" }) (syncRegistry false)
      { db := servedDb "old" }).1 = .ok (.hosts [⟨"10.0.20.162", "miam00112", "healthy", true⟩]) := rfl
  refine fresh_of_gate_sound hsync (hall _ _ _ _ hsync) (servedRow "old")
    (List.mem_singleton_self _)
    ⟨rfl, by decide, .inr ⟨host162, List.mem_singleton_self _, rfl, ?_, ?_⟩⟩
  · decide
  · rintro ⟨m, hm, ht⟩
    have hl : (probed (servingNet "new") host162.guestIp).listed = [⟨.str "new", .null⟩] := rfl
    rw [hl] at hm
    rw [List.mem_singleton.mp hm] at ht
    have hname : "new" = "old" := Except.ok.inj ht
    exact absurd hname (by decide)

end ServerManager.RegistryGate
