import ServerManager.DesiredState
import ServerManager.GatewayConfig

namespace ServerManager.OneModel

open Interaction FleetDb Fleet Registry RegistryPass RegistryGate LitellmSync DesiredState
  GatewayConfig

/-- A sync that has begun: what is left of it and its connection. -/
abbrev Party := Svc SyncResult × World

/-- The database under any number of syncs, each in either write mode, started at
any time and going on call by call with any answers, until it ends or is
left where it is. Everything but the registry may change. -/
inductive Synced (drv : Driver) : Db → List Party → Prop
  | empty {db : Db} : db.models = [] → Synced drv db []
  | begin {db : Db} {ps : List Party} (cutover : Bool) : Synced drv db ps →
      Synced drv db ((syncRegistry cutover, { db := db }) :: ps)
  | call {db : Db} {before rest : List Party} {e : Eff} {k : Ans e → Svc SyncResult} {w : World}
      (net : Net)
      (fault : Option Effects.PyExc) (now : Int) :
        Synced drv db (before ++ (.call e k, w) :: rest) →
      Synced drv (answer drv net fault now { w with db := db } e).2.db
        (before ++ (k (answer drv net fault now { w with db := db } e).1,
          (answer drv net fault now { w with db := db } e).2) :: rest)
  | change {db db' : Db} {ps : List Party} : Synced drv db ps → db'.models = db.models →
      Synced drv db' ps

def AliasesListed (db : Db) : Prop :=
  ∀ r ∈ db.models, r.isAlias = some true → ∃ target, r.aliasTarget = some target ∧
    (r.logicalModelName, some target) ∈ aliases

def KeepsListed (db db' : Db) : Prop := AliasesListed db → AliasesListed db'

theorem KeepsListed.rfl {db : Db} : KeepsListed db db := id

theorem KeepsListed.trans {a b c : Db} (h : KeepsListed a b) (h' : KeepsListed b c) :
    KeepsListed a c := h' ∘ h

variable {drv : Driver}

theorem AliasesListed.map {db db' : Db} {f : ModelRow → ModelRow} (h : AliasesListed db)
    (hm : db'.models = db.models.map f)
    (hf : ∀ r, (f r).logicalModelName = r.logicalModelName ∧ (f r).isAlias = r.isAlias ∧
    (f r).aliasTarget = r.aliasTarget) :
    AliasesListed db' := by
  intro r hr hal
  rw [hm] at hr
  obtain ⟨s, hs, rfl⟩ := List.mem_map.mp hr
  obtain ⟨hn, ha, ht⟩ := hf s
  rw [hn, ht]
  apply h s hs
  rw [← ha, hal]

theorem AliasesListed.upsert {db db' : Db} {new : ModelRow} {hid : Int} (h : AliasesListed db)
    (hm : db'.models = upsertRows db.models new hid) (hal : new.isAlias = some false) :
    AliasesListed db' := by
  by_cases hany : db.models.any (·.at new.logicalModelName hid) = true
  · apply h.map (f := fun r => if r.at new.logicalModelName hid then r.refresh new else r)
      (hm.trans (if_pos hany))
    intro r
    split
    · exact ⟨rfl, rfl, rfl⟩
    · exact ⟨rfl, rfl, rfl⟩
  · intro r hr hr'
    rw [hm, upsertRows, if_neg hany] at hr
    rcases List.mem_append.mp hr with hr | hr
    · exact h r hr hr'
    · rw [List.mem_singleton.mp hr, hal] at hr'
      cases hr'

theorem effect_keepsListed {s : Stmt} (hs : ofList s) (now : Int) (db : Db) :
    KeepsListed db (effect drv now s db) := by
  intro h
  cases s with
  | upsertModel name hid engine url limit health routable =>
      unfold effect
      split
      next r hr =>
        obtain ⟨n, l, -, -, -, hm, -⟩ := exec_upsertModel_ok hr
        exact h.upsert hm rfl
      · exact h
  | markHost hid health =>
      apply h.map (f := fun r =>
        if r.hostId == some hid then { r with health := some health, routable := some false } else r) rfl
      intro r
      split
      · exact ⟨rfl, rfl, rfl⟩
      · exact ⟨rfl, rfl, rfl⟩
  | deleteAliases => exact fun r hr => h r (List.mem_of_mem_filter hr)
  | insertAlias name target health url routable =>
      intro r hr hal
      rcases List.mem_append.mp hr with hr | hr
      · exact h r hr hal
      · rw [List.mem_singleton.mp hr]
        exact ⟨target, rfl, hs⟩
  | _ => exact h

theorem Pending.keepsListed {w : World} {e : Eff} (h : Pending KeepsListed w) (he : namesAliases e)
    (net : Net)
    (fault : Option Effects.PyExc) (now : Int) :
    Pending KeepsListed (answer drv net fault now w e).2 := by
  apply h.answer (R := KeepsListed) (fun _ => KeepsListed.rfl) KeepsListed.trans drv net fault now
  intro s hs d
  rw [hs] at he
  exact effect_keepsListed he now d

theorem answer_keepsListed {w : World} {e : Eff} (h : Pending KeepsListed w) (he : namesAliases e)
    (net : Net)
    (fault : Option Effects.PyExc) (now : Int) :
    KeepsListed w.db (answer drv net fault now w e).2.db := by
  apply h.committed (R := KeepsListed) KeepsListed.trans KeepsListed.rfl drv net fault now
  intro s hs d
  rw [hs] at he
  exact effect_keepsListed he now d

def Underway (p : Party) : Prop := Only syncContact p.1 ∧ Pending KeepsListed p.2

theorem Underway.begin (cutover : Bool) (db : Db) : Underway (syncRegistry cutover, { db := db }) :=
  ⟨only_contacts cutover, nofun⟩

theorem Underway.call {e : Eff} {k : Ans e → Svc SyncResult} {w : World}
    (h : Underway (.call e k, w)) (drv : Driver)
    (db : Db) (net : Net) (fault : Option Effects.PyExc) (now : Int) :
    KeepsListed db (answer drv net fault now { w with db := db } e).2.db ∧
      Underway (k (answer drv net fault now { w with db := db } e).1,
        (answer drv net fault now { w with db := db } e).2) := by
  obtain ⟨⟨⟨-, he⟩, hk⟩, hp⟩ := h
  have hp' : Pending KeepsListed { w with db := db } := hp
  exact ⟨answer_keepsListed hp' he net fault now, hk _ () trivial,
    Pending.keepsListed hp' he net fault now⟩

theorem Synced.invariant {db : Db} {ps : List Party} (h : Synced drv db ps) : AliasesListed db ∧
    ∀ p ∈ ps, Underway p := by
  induction h with
  | empty hnil =>
      refine ⟨fun r hr => ?_, fun p hp => absurd hp List.not_mem_nil⟩
      rw [hnil] at hr
      exact absurd hr List.not_mem_nil
  | @begin db ps cutover _ ih =>
      refine ⟨ih.1, fun p hp => ?_⟩
      rcases List.mem_cons.mp hp with rfl | hp
      · exact Underway.begin cutover db
      · exact ih.2 p hp
  | @call db before rest e k w net fault now _ ih =>
      obtain ⟨hdb, hps⟩ := ih
      obtain ⟨hkeep, hnext⟩ :=
        (hps _ (List.mem_append_right _ List.mem_cons_self)).call drv db net fault now
      refine ⟨hkeep hdb, fun p hp => ?_⟩
      rcases List.mem_append.mp hp with hp | hp
      · exact hps p (List.mem_append_left _ hp)
      · rcases List.mem_cons.mp hp with rfl | hp
        · exact hnext
        · exact hps p (List.mem_append_right _ (List.mem_cons_of_mem _ hp))
  | change _ hm ih =>
      refine ⟨fun r hr => ?_, ih.2⟩
      rw [hm] at hr
      exact ih.1 r hr

theorem Synced.run (env : Env) {before rest : List Party} (p : Svc SyncResult) (w : World)
    (h : Synced drv w.db (before ++ (p, w) :: rest)) :
    ∃ q w', Synced drv (Interaction.run (env.answer drv) p w).2.db (before ++ (q, w') :: rest) := by
  induction p generalizing w with
  | ret a => exact ⟨_, _, h⟩
  | raise x => exact ⟨_, _, h⟩
  | call e k ih => exact ih _ _ (h.call env.net (env.fault w.ops) (env.clock w.ops))

def OneEach (es : List LitellmEntry) : Prop :=
  ∀ e ∈ es, ∀ e' ∈ es, e.modelName = e'.modelName → e.model = e'.model

/-- What a gateway with this database answers a name with. -/
inductive Serves (db : Db) : String → String → Prop
  | backend {r : ModelRow} {h : HostRow} : (r, h) ∈ db.backends →
      Serves db r.logicalModelName (openai r.logicalModelName)
  | role {a s : ModelRow} {g : HostRow} : a ∈ routableAliases db → (s, g) ∈ db.backends →
      a.aliasTarget = some s.logicalModelName →
        Serves db a.logicalModelName (openai s.logicalModelName)
  | openRouter {e : LitellmEntry} : fallbackEnabled (db.setting "openrouter.fallback_enabled") =
      true →
      e ∈ openRouterEntries → Serves db e.modelName e.model

/-- No host reports the name of an alias that is answered elsewhere or, while the
fallback is enabled, one of OpenRouter's. -/
def NamesApart (db : Db) : Prop :=
  ∀ r h, (r, h) ∈ db.backends →
    (∀ a ∈ routableAliases db, a.logicalModelName = r.logicalModelName →
      ∀ s g, (s, g) ∈ db.backends → a.aliasTarget ≠ some s.logicalModelName) ∧
    (fallbackEnabled (db.setting "openrouter.fallback_enabled") = true →
      ∀ e ∈ openRouterEntries, e.modelName ≠ r.logicalModelName)

theorem localEntries_serves {rows : List (String × String × Option String)}
    {row : String × String × Option String}
    (h : row ∈ rows) : ∃ e ∈ localEntries [] rows, e.modelName = row.1 ∧
    e.model = openai row.1 := by
  have hcount : (localEntries [] rows).countP (isLocal row.1 row.2.1) = 1 := by
    rw [countP_localEntries, if_pos]
    exact ⟨List.not_mem_nil, List.mem_map_of_mem (f := fun row => (row.1, row.2.1)) h⟩
  have hpos : 0 < (localEntries [] rows).countP (isLocal row.1 row.2.1) := by omega
  obtain ⟨e, he, hl⟩ := List.countP_pos_iff.mp hpos
  obtain ⟨hn, hm, -⟩ := isLocal_iff.mp hl
  exact ⟨e, he, hn, hm⟩

theorem aliasEntries_serves {backends : List (String × String)}
    {rows : List (String × Option String)}
    {row : String × Option String} {b : String × String} (hrow : row ∈ rows) (hb : b ∈ backends)
    (ht : row.2 = some b.1) :
    ∃ e ∈ aliasEntries backends rows, e.modelName = row.1 ∧ e.model = openai b.1 := by
  have hmem : b ∈ backends.filter (fun c => some c.1 == row.2) := by simp [hb, ht]
  obtain ⟨c, cs, hf⟩ := List.exists_cons_of_ne_nil (List.ne_nil_of_mem hmem)
  have hc : c ∈ backends.filter (fun c => some c.1 == row.2) := hf ▸ List.mem_cons_self
  have hname : c.1 = b.1 := by simpa [ht] using (List.mem_filter.mp hc).2
  refine ⟨aliasEntry row.1 c, List.mem_flatMap.mpr ⟨row, hrow, ?_⟩, rfl, congrArg openai hname⟩
  rw [hf]
  exact List.mem_map_of_mem List.mem_cons_self

theorem serves_of_mem {db : Db} {e : LitellmEntry} (he : e ∈ modelList drv db) :
    Serves db e.modelName e.model := by
  rcases List.mem_append.mp he with he | he
  · rcases List.mem_append.mp he with he | he
    · obtain ⟨row, hrow, rfl⟩ := mem_localEntries he
      obtain ⟨⟨r, h⟩, hp, rfl⟩ := List.mem_map.mp hrow
      exact .backend (mem_sortedBackends.mp hp)
    · obtain ⟨row, hrow, b, hb, ht, rfl⟩ := mem_aliasEntries he
      obtain ⟨⟨s, g⟩, hp, rfl⟩ := List.mem_map.mp hb
      obtain ⟨a, ha, rfl⟩ := List.mem_map.mp hrow
      exact .role ha (mem_sortedTargets.mp hp) ht.symm
  · split at he
    next hon => exact .openRouter hon he
    · exact absurd he List.not_mem_nil

theorem mem_of_serves (drv : Driver) {db : Db} {n m : String} (h : Serves db n m) :
    ∃ e ∈ modelList drv db, e.modelName = n ∧ e.model = m := by
  cases h with
  | @backend r g hb =>
      have hsorted : (r, g) ∈ sortedBackends drv db := mem_sortedBackends.mpr hb
      have hrow :=
        List.mem_map_of_mem (f := fun p => (p.1.logicalModelName, p.2.guestIp, p.1.engine)) hsorted
      obtain ⟨e, he, hn⟩ := localEntries_serves hrow
      exact ⟨e, List.mem_append_left _ (List.mem_append_left _ he), hn⟩
  | @role a s g ha hb ht =>
      have hsorted : (s, g) ∈ sortedTargets drv db := mem_sortedTargets.mpr hb
      have htarget :=
        List.mem_map_of_mem (f := fun p => (p.1.logicalModelName, p.2.guestIp)) hsorted
      have hrow := List.mem_map_of_mem (f := fun r => (r.logicalModelName, r.aliasTarget)) ha
      obtain ⟨e, he, hn⟩ := aliasEntries_serves hrow htarget ht
      exact ⟨e, List.mem_append_left _ (List.mem_append_right _ he), hn⟩
  | @openRouter e hon he =>
      refine ⟨e, List.mem_append_right _ ?_, rfl, rfl⟩
      rw [if_pos hon]
      exact he

theorem oneEach_iff {db : Db} : OneEach (modelList drv db) ↔
    ∀ n m m', Serves db n m → Serves db n m' → m = m' := by
  constructor
  · intro h n m m' hm hm'
    obtain ⟨e, he, hn, rfl⟩ := mem_of_serves drv hm
    obtain ⟨e', he', hn', rfl⟩ := mem_of_serves drv hm'
    exact h e he e' he' (hn.trans hn'.symm)
  · intro h e he e' he' hn
    exact h _ _ _ (serves_of_mem he) (hn ▸ serves_of_mem he')

theorem aliases_ne {n t : String} (h : (n, some t) ∈ aliases) : n ≠ t := by
  simp only [aliases, List.mem_cons, Prod.mk.injEq, Option.some.injEq, List.not_mem_nil, or_false,
    reduceCtorEq,
    and_false] at h
  rcases h with ⟨rfl, rfl⟩ | ⟨rfl, rfl⟩
  · decide
  · decide

theorem aliases_target {n t t' : String} (h : (n, some t) ∈ aliases) (h' : (n, some t') ∈ aliases) :
    t = t' := by
  have hkeys : (aliases.map (·.1)).Nodup := by decide
  have he := List.inj_on_of_nodup_map hkeys h h' rfl
  exact Option.some.inj (congrArg Prod.snd he)

theorem aliases_openRouter {n t : String} (h : (n, some t) ∈ aliases) : ∀ e ∈ openRouterEntries,
    e.modelName ≠ n := by
  simp only [aliases, List.mem_cons, Prod.mk.injEq, Option.some.injEq, List.not_mem_nil, or_false,
    reduceCtorEq,
    and_false] at h
  rcases h with ⟨rfl, rfl⟩ | ⟨rfl, rfl⟩
  · simp [openRouterEntries]
  · simp [openRouterEntries]

theorem openRouter_oneEach : OneEach openRouterEntries := by
  have hkeys : (openRouterEntries.map (·.modelName)).Nodup := by decide
  intro e he e' he' hn
  rw [List.inj_on_of_nodup_map hkeys he he' hn]

theorem openRouter_ne_openai {e : LitellmEntry} (he : e ∈ openRouterEntries) (n : String) :
    e.model ≠ openai n := by
  intro h
  have ho := openRouterEntries_isOpenRouter e he
  rw [openai_isOpenRouter h] at ho
  cases ho

theorem AliasesListed.target {db : Db} (hl : AliasesListed db) {a : ModelRow} {t : String}
    (ha : a ∈ routableAliases db)
    (ht : a.aliasTarget = some t) : (a.logicalModelName, some t) ∈ aliases := by
  obtain ⟨hmem, hal, -⟩ := mem_routableAliases.mp ha
  obtain ⟨target, htarget, h⟩ := hl a hmem hal
  obtain rfl : t = target := Option.some.inj (ht.symm.trans htarget)
  exact h

theorem NamesApart.backend {db : Db} (h : NamesApart db) {r : ModelRow} {g : HostRow}
    (hb : (r, g) ∈ db.backends)
    {n m : String} (hs : Serves db n m) (hn : n = r.logicalModelName) :
    m = openai r.logicalModelName := by
  obtain ⟨hroles, hfallback⟩ := h r g hb
  cases hs with
  | backend hb' => rw [hn]
  | role ha hb' ht => exact absurd ht (hroles _ ha hn _ _ hb')
  | openRouter hon he => exact absurd hn (hfallback hon _ he)

theorem NamesApart.role {db : Db} (h : NamesApart db) (hl : AliasesListed db) {a : ModelRow}
    {t : String}
    (ha : (a.logicalModelName, some t) ∈ aliases)
    (hserved : Serves db a.logicalModelName (openai t)) {n m : String}
    (hs : Serves db n m) (hn : n = a.logicalModelName) : m = openai t := by
  cases hs with
  | backend hb => exact (h.backend hb hserved hn.symm).symm
  | role ha' hb' ht' =>
      have hlisted := hl.target ha' ht'
      rw [hn] at hlisted
      rw [aliases_target hlisted ha]
  | openRouter hon he => exact absurd hn (aliases_openRouter ha _ he)

theorem AliasesListed.oneEach_iff {db : Db} (hl : AliasesListed db) : OneEach (modelList drv db) ↔
    NamesApart db := by
  rw [OneModel.oneEach_iff]
  constructor
  · intro h r g hb
    refine ⟨fun a ha hn s g' hb' ht => ?_, fun hon e he hn => ?_⟩
    · have hm := h _ _ _ (hn ▸ Serves.role ha hb' ht) (.backend hb)
      have hname : s.logicalModelName = r.logicalModelName := openai_inj hm
      exact aliases_ne (hl.target ha ht) (hn.trans hname.symm)
    · exact openRouter_ne_openai he _ (h _ _ _ (hn ▸ Serves.openRouter hon he) (.backend hb))
  · intro h n m m' hm hm'
    cases hm with
    | backend hb => exact (h.backend hb hm' rfl).symm
    | role ha hb ht => exact (h.role hl (hl.target ha ht) (.role ha hb ht) hm' rfl).symm
    | @openRouter e hon he =>
        generalize hn : e.modelName = n at hm'
        cases hm' with
        | backend hb => exact h.backend hb (.openRouter hon he) hn
        | role ha hb ht =>
            exact h.role hl (hl.target ha ht) (.role ha hb ht) (.openRouter hon he) hn
        | openRouter _ he' => exact openRouter_oneEach _ he _ he' hn

/-- In every database that syncs lead to, the configuration answers each name with
one model exactly when the names that the hosts report are apart from the program's own. -/
theorem one_model_iff (drv : Driver) (db : Db) (ps : List Party) (h : Synced drv db ps) (env : Env)
    (hq : Quiet env) :
    ∃ es, (run (env.answer drv) configModels { db := db }).1 = .ok (some es) ∧
      (OneEach es ↔ NamesApart db) :=
  ⟨modelList drv db, configModels_run hq _, h.invariant.1.oneEach_iff⟩

def syncedDb (name : String) : Db :=
  (run (Env.answer plainDriver { net := servingNet name }) (syncRegistry false)
    { db := emptyDb }).2.db

theorem syncedDb_synced (name : String) : ∃ ps, Synced plainDriver (syncedDb name) ps := by
  obtain ⟨q, w, h⟩ :=
    @Synced.run plainDriver { net := servingNet name } [] [] (syncRegistry false) { db := emptyDb }
    (.begin false (.empty rfl))
  exact ⟨_, h⟩

theorem syncedDb_backend {name : String} {summary : List HostSummary}
    (hs : (run (Env.answer plainDriver { net := servingNet name }) (syncRegistry false)
    { db := emptyDb }).1 =
      .ok (.hosts summary)) :
    (servedRow name, host162) ∈ (syncedDb name).backends ∧
      fallbackEnabled ((syncedDb name).setting "openrouter.fallback_enabled") = true := by
  obtain ⟨hrows, hb, -⟩ := sync_hosts hs
  have hsynced : synced plainDriver (servingNet name) none emptyDb = .ok [servedRow name] := rfl
  have hmodels := Except.ok.inj (hrows.symm.trans hsynced)
  unfold syncedDb
  rw [mem_backends, Db.setting, hmodels, hb.hosts, hb.settings]
  exact ⟨⟨List.mem_singleton_self _, rfl, rfl, List.mem_singleton_self host162, rfl⟩, rfl⟩

theorem one_model_after_sync : ∃ ps es, Synced plainDriver (syncedDb "new") ps ∧
    (run (Env.answer plainDriver { net := servingNet "new" }) configModels
    { db := syncedDb "new" }).1 = .ok (some es) ∧
      (OneEach es ↔ NamesApart (syncedDb "new")) := by
  obtain ⟨ps, hps⟩ := syncedDb_synced "new"
  obtain ⟨es, h⟩ :=
    one_model_iff plainDriver (syncedDb "new") ps hps { net := servingNet "new" } fun _ => rfl
  exact ⟨ps, es, hps, h⟩

/-- A host that reports `frontier` shares the name with a model of OpenRouter. -/
theorem frontier_answered_by_two :
    ¬ ∀ (drv : Driver) (db : Db) (ps : List Party), Synced drv db ps → ∀ (env : Env), Quiet env →
      ∀ es, (run (env.answer drv) configModels { db := db }).1 = .ok (some es) → OneEach es := by
  intro h
  obtain ⟨ps, hps⟩ := syncedDb_synced "frontier"
  have hq : Quiet { net := servingNet "frontier" } := fun _ => rfl
  have hone := h plainDriver _ ps hps _ hq _ (configModels_run hq _)
  have hsync : (run (Env.answer plainDriver { net := servingNet "frontier" }) (syncRegistry false)
      { db := emptyDb }).1 =
      .ok (.hosts [⟨"10.0.20.162", "miam00112", "healthy", true⟩]) := rfl
  obtain ⟨hb, hon⟩ := syncedDb_backend hsync
  obtain ⟨-, hapart⟩ := hps.invariant.1.oneEach_iff.mp hone _ _ hb
  have hmem : (⟨"frontier", "openrouter/deepseek/deepseek-v4.1-flash", none, openRouterKey,
      some 60⟩ : LitellmEntry) ∈
      openRouterEntries := by
    simp [openRouterEntries]
  exact hapart hon _ hmem rfl

end ServerManager.OneModel
