import ServerManager.RegistryGate

namespace ServerManager.GatewayConfig

open Interaction FleetDb Fleet Registry Transactions RegistryPass LitellmSync RegistryGate

/-- Databases after any number of syncs that start from an empty registry, each
with any answers and failures, while everything but the registry may change. -/
inductive Reached (drv : Driver) : Db → Prop
  | empty {db : Db} : db.models = [] → Reached drv db
  | sync {w : World} (env : Env) : Reached drv w.db →
      Reached drv (run (env.answer drv) (syncRegistry false) w).2.db
  | change {db db' : Db} : Reached drv db → db'.models = db.models → Reached drv db'

def ModelRow.Sorted (r : ModelRow) : Prop :=
  (r.isAlias = some false ∧ r.hostId ≠ none) ∨ (r.isAlias = some true ∧ r.hostId = none)

structure Coherent (rows : List ModelRow) : Prop where
  kinds : ∀ r ∈ rows, ModelRow.Sorted r
  names : ((rows.filter (fun r => r.isAlias == some true)).map (·.logicalModelName)).Nodup
  targets : ∀ r ∈ rows, r.isAlias = some true → ∃ target, r.aliasTarget = some target ∧
    r.logicalModelName ≠ target ∧
    (r.routable = some true ↔ ∃ s ∈ rows, s.isAlias = some false ∧ s.logicalModelName = target ∧
    s.routable = some true)

variable {drv : Driver}

theorem upsertRows_kinds {rows : List ModelRow} {new : ModelRow} {hid : Int}
    (hrows : ∀ r ∈ rows, ModelRow.Sorted r)
    (hnew : ModelRow.Sorted new) : ∀ r ∈ upsertRows rows new hid, ModelRow.Sorted r := by
  unfold upsertRows
  split
  · intro r hr
    obtain ⟨s, hs, rfl⟩ := List.mem_map.mp hr
    split
    · exact hrows s hs
    · exact hrows s hs
  · intro r hr
    rcases List.mem_append.mp hr with hr | hr
    · exact hrows r hr
    · rw [List.mem_singleton.mp hr]
      exact hnew

theorem writeRows_kinds {h : HostRow} {p : Probe} {ms : List ListedModel}
    {rows rows' : List ModelRow}
    (hw : writeRows drv h p ms rows = .ok rows') (hrows : ∀ r ∈ rows, ModelRow.Sorted r) :
    ∀ r ∈ rows', ModelRow.Sorted r := by
  induction ms generalizing rows with
  | nil =>
      cases hw
      exact hrows
  | cons m ms ih =>
      obtain ⟨new, hf, hw⟩ := writeRows_cons hw
      obtain ⟨-, hid, -, hal⟩ := rowFor_ok hf
      exact ih hw (upsertRows_kinds hrows (.inl ⟨hal, by rw [hid]; nofun⟩))

theorem passAll_kinds {net : Net} {hs : List HostRow} {rows rows' : List ModelRow}
    (hp : passAll drv net hs rows = .ok rows') (hrows : ∀ r ∈ rows, ModelRow.Sorted r) :
    ∀ r ∈ rows', ModelRow.Sorted r := by
  induction hs generalizing rows with
  | nil =>
      cases hp
      exact hrows
  | cons h hs ih =>
      obtain ⟨mid, hmid, hp⟩ := passAll_cons hp
      refine ih hp ?_
      unfold passRows at hmid
      split at hmid
      · cases hmid
        intro r hr
        obtain ⟨s, hs, rfl⟩ := List.mem_map.mp hr
        split
        · exact hrows s hs
        · exact hrows s hs
      · exact writeRows_kinds hmid hrows

theorem aliasNames_nodup (db : Db) (url : Option String) (rows : List ModelRow) :
    (((aliasRows db).filterMap (fun a => a.2.map (fun target => aliasRow url rows a.1 target))).map
      (·.logicalModelName)).Nodup := by
  unfold aliasRows
  split
  · change ["fast", "code"].Nodup
    decide
  · exact List.nodup_nil

theorem Coherent.synced {net : Net} {url : Option String} {db : Db} {rows' : List ModelRow}
    (hc : Coherent db.models)
    (h : synced drv net url db = .ok rows') : Coherent rows' := by
  obtain ⟨rows, hp, rfl⟩ := synced_eq h
  have hk := passAll_kinds hp hc.kinds
  have hkept : ∀ r ∈ kept rows, r.isAlias = some false ∧ r.hostId ≠ none := by
    intro r hr
    obtain ⟨hr, hal⟩ := mem_kept.mp hr
    rcases hk r hr with hs | hs
    · exact hs
    · exact absurd hs.1 hal
  have hnew : ∀ r ∈ (aliasRows db).filterMap (fun a =>
      a.2.map (fun target => aliasRow url (kept rows) a.1 target)),
      ∃ name target, (name, some target) ∈ aliasRows db ∧
        r = aliasRow url (kept rows) name target := by
    intro r hr
    obtain ⟨⟨name, t⟩, ha, hr⟩ := List.mem_filterMap.mp hr
    obtain ⟨target, ht, rfl⟩ := Option.map_eq_some_iff.mp hr
    have ht' : t = some target := ht
    exact ⟨name, target, ht' ▸ ha, rfl⟩
  refine ⟨?_, ?_, ?_⟩
  · intro r hr
    rcases List.mem_append.mp hr with hr | hr
    · exact .inl (hkept r hr)
    · obtain ⟨name, target, -, rfl⟩ := hnew r hr
      exact .inr ⟨rfl, rfl⟩
  · rw [List.filter_append]
    have hnone : (kept rows).filter (fun r => r.isAlias == some true) = [] := by
      refine List.filter_eq_nil_iff.mpr fun r hr => ?_
      rw [(hkept r hr).1]
      decide
    have hall : ((aliasRows db).filterMap (fun a =>
        a.2.map (fun target => aliasRow url (kept rows) a.1 target))).filter
        (fun r => r.isAlias == some true) =
        (aliasRows db).filterMap (fun a => a.2.map
          (fun target => aliasRow url (kept rows) a.1 target)) := by
      refine List.filter_eq_self.mpr fun r hr => ?_
      obtain ⟨name, target, -, rfl⟩ := hnew r hr
      rfl
    rw [hnone, hall, List.nil_append]
    exact aliasNames_nodup db url (kept rows)
  · intro r hr hal
    rcases List.mem_append.mp hr with hr | hr
    · rw [(hkept r hr).1] at hal
      cases hal
    · obtain ⟨name, target, hmem, rfl⟩ := hnew r hr
      have hne : name ≠ target := fun he =>
        aliases_apart db _ hmem _ hmem (congrArg some he.symm)
      refine ⟨target, rfl, hne, ?_⟩
      have hrt : (aliasRow url (kept rows) name target).routable = some true ↔
          0 < countTarget (kept rows) target :=
        ⟨fun h => of_decide_eq_true (Option.some.inj h), fun h => congrArg some (decide_eq_true h)⟩
      rw [hrt, countTarget_pos]
      constructor
      · rintro ⟨s, hs, hname, hsrt⟩
        exact ⟨s, List.mem_append_left _ hs, (hkept s hs).1, hname, hsrt⟩
      · rintro ⟨s, hs, hsal, hname, hsrt⟩
        rcases List.mem_append.mp hs with hs | hs
        · exact ⟨s, hs, hname, hsrt⟩
        · obtain ⟨name', target', -, rfl⟩ := hnew s hs
          cases hsal

theorem Reached.coherent {db : Db} (h : Reached drv db) : Coherent db.models := by
  induction h with
  | empty hnil =>
      rw [hnil]
      exact ⟨fun r hr => absurd hr List.not_mem_nil, List.nodup_nil,
        fun r hr => absurd hr List.not_mem_nil⟩
  | @sync w env _ ih =>
      by_cases hs : ∃ summary, (run (env.answer drv) (syncRegistry false) w).1 =
        .ok (.hosts summary)
      · obtain ⟨summary, hs⟩ := hs
        exact ih.synced (sync_hosts hs).1
      · rw [sync_rolled_back fun summary he => hs ⟨summary, he⟩]
        exact ih
  | change _ hm ih =>
      rw [hm]
      exact ih

theorem backendUrl_inj {a b : String} (h : backendUrl a = backendUrl b) : a = b := by
  have ht := congrArg String.toList h
  simp only [backendUrl, String.toList_append] at ht
  exact String.toList_inj.mp (List.append_cancel_left (List.append_cancel_right ht))

theorem openai_inj {a b : String} (h : openai a = openai b) : a = b := by
  have ht := congrArg String.toList h
  simp only [openai, String.toList_append] at ht
  exact String.toList_inj.mp (List.append_cancel_left ht)

def isLocal (name ip : String) (e : LitellmEntry) : Bool :=
  e.modelName == name && e.model == openai name && e.apiBase == some (backendUrl ip)

def isAliased (name target : String) (e : LitellmEntry) : Bool :=
  e.modelName == name && e.model == openai target

theorem isLocal_iff {name ip : String} {e : LitellmEntry} :
    isLocal name ip e = true ↔ e.modelName = name ∧ e.model = openai name ∧
      e.apiBase = some (backendUrl ip) := by
  simp [isLocal, and_assoc]

theorem isAliased_iff {name target : String} {e : LitellmEntry} :
    isAliased name target e = true ↔ e.modelName = name ∧ e.model = openai target := by
  simp [isAliased]

theorem isLocal_localEntry {name ip name' ip' : String} {engine : Option String} :
    isLocal name ip (localEntry name' ip' engine) = true ↔ (name', ip') = (name, ip) := by
  rw [isLocal_iff]
  constructor
  · rintro ⟨hn, -, hu⟩
    have hn' : name' = name := hn
    have hu' : ip' = ip := backendUrl_inj (Option.some.inj hu)
    rw [hn', hu']
  · intro h
    obtain ⟨rfl, rfl⟩ := Prod.mk.inj h
    exact ⟨rfl, rfl, rfl⟩

theorem isLocal_aliasEntry {name ip a : String} {b : String × String} (hne : a ≠ b.1) :
    isLocal name ip (aliasEntry a b) = false := by
  refine Bool.eq_false_iff.mpr fun h => ?_
  obtain ⟨hn, hm, -⟩ := isLocal_iff.mp h
  have hn' : a = name := hn
  exact hne (hn'.trans (openai_inj hm).symm)

theorem countP_localEntries (name ip : String) (seen : List (String × String))
    (rows : List (String × String × Option String)) :
    (localEntries seen rows).countP (isLocal name ip) =
      if (name, ip) ∉ seen ∧ (name, ip) ∈ rows.map (fun row => (row.1, row.2.1)) then 1 else 0 := by
  induction rows generalizing seen with
  | nil => simp [localEntries]
  | cons row rows ih =>
      obtain ⟨name', ip', engine⟩ := row
      rw [localEntries]
      by_cases hs : (name', ip') ∈ seen
      · rw [if_pos (by simpa using hs), ih]
        refine if_congr ?_ rfl rfl
        rw [List.map_cons, List.mem_cons]
        constructor
        · exact fun h => ⟨h.1, .inr h.2⟩
        · rintro ⟨hns, he | hm⟩
          · exact absurd (he ▸ hs) hns
          · exact ⟨hns, hm⟩
      · rw [if_neg (by simpa using hs), List.countP_cons, ih]
        by_cases he : (name', ip') = (name, ip)
        · rw [if_pos (isLocal_localEntry.mpr he)]
          rw [he] at hs
          simp [hs, he]
        · rw [if_neg (fun h => he (isLocal_localEntry.mp h)), Nat.add_zero]
          refine if_congr ?_ rfl rfl
          rw [List.map_cons, List.mem_cons, List.mem_cons]
          have he' : (name, ip) ≠ (name', ip') := fun h => he h.symm
          simp [he']

theorem isAliased_aliasEntry {name target a : String} {b : String × String}
    (h : isAliased name target (aliasEntry a b) = true) : a = name :=
  (isAliased_iff.mp h).1

theorem countP_aliasEntries_zero {name target : String} {backends : List (String × String)}
    {rows : List (String × Option String)} (h : name ∉ rows.map (·.1)) :
    (aliasEntries backends rows).countP (isAliased name target) = 0 := by
  refine List.countP_eq_zero.mpr fun e he hm => ?_
  obtain ⟨row, hrow, b, -, -, rfl⟩ := mem_aliasEntries he
  exact h (List.mem_map.mpr ⟨row, hrow, isAliased_aliasEntry hm⟩)

theorem countP_aliasEntries {name target : String} {backends : List (String × String)}
    {rows : List (String × Option String)} (hn : (rows.map (·.1)).Nodup)
    (hr : (name, some target) ∈ rows)
    (hb : target ∈ backends.map (·.1)) : (aliasEntries backends rows).countP
    (isAliased name target) = 1 := by
  induction rows with
  | nil => exact absurd hr List.not_mem_nil
  | cons row rows ih =>
      rw [List.map_cons, List.nodup_cons] at hn
      have hsplit : aliasEntries backends (row :: rows) =
          ((backends.filter (fun b => some b.1 == row.2)).take 1).map (aliasEntry row.1) ++
            aliasEntries backends rows :=
        List.flatMap_cons
      rw [hsplit, List.countP_append]
      rcases List.mem_cons.mp hr with rfl | hr
      · rw [countP_aliasEntries_zero hn.1, Nat.add_zero]
        obtain ⟨b, hbm, rfl⟩ := List.mem_map.mp hb
        cases hf : backends.filter (fun c => some c.1 == some b.1) with
        | nil => exact absurd (by simp) (List.filter_eq_nil_iff.mp hf b hbm)
        | cons c cs =>
            have hc : c ∈ backends.filter (fun c => some c.1 == some b.1) := hf ▸ List.mem_cons_self
            have hname : c.1 = b.1 := by simpa using (List.mem_filter.mp hc).2
            simp [isAliased, aliasEntry, hname]
      · have hne : row.1 ≠ name := fun he => hn.1 (he ▸ List.mem_map_of_mem hr)
        have hzero : (((backends.filter (fun b => some b.1 == row.2)).take 1).map
            (aliasEntry row.1)).countP
            (isAliased name target) = 0 := by
          refine List.countP_eq_zero.mpr fun e he hm => ?_
          obtain ⟨b, -, rfl⟩ := List.mem_map.mp he
          exact hne (isAliased_aliasEntry hm)
        rw [hzero, Nat.zero_add]
        exact ih hn.2 hr

/-- The gateway's model list agrees with the registry: the same names, one local
entry for each routable pair, one entry for each routable alias and no other ones
but those of OpenRouter. -/
structure Agrees (db : Db) (names : List String) (es : List LitellmEntry) : Prop where
  names : ∀ n, n ∈ names ↔ ∃ e ∈ es, e.isOpenRouter = false ∧ e.modelName = n
  pairs : ∀ r ∈ db.models, ∀ h ∈ db.hosts, r.routable = some true → r.isAlias ≠ some true →
    r.hostId = some h.hostId → es.countP (isLocal r.logicalModelName h.guestIp) = 1
  aliased : ∀ a ∈ db.models, a.routable = some true → a.isAlias = some true →
    ∃ target, a.aliasTarget = some target ∧ es.countP (isAliased a.logicalModelName target) = 1 ∧
      ∀ e ∈ es, isAliased a.logicalModelName target e = true →
        ∃ r h, (r, h) ∈ db.backends ∧ r.logicalModelName = target ∧
          e.apiBase = some (backendUrl h.guestIp)
  only : ∀ e ∈ es, e.isOpenRouter = false →
    (∃ r h, (r, h) ∈ db.backends ∧ isLocal r.logicalModelName h.guestIp e = true) ∨
      ∃ a ∈ routableAliases db, ∃ target, a.aliasTarget = some target ∧
        isAliased a.logicalModelName target e = true

theorem mem_routableAliases {db : Db} {a : ModelRow} :
    a ∈ routableAliases db ↔ a ∈ db.models ∧ a.isAlias = some true ∧ a.routable = some true := by
  simp [routableAliases, List.mem_filter]

theorem Coherent.backend {db : Db} (hc : Coherent db.models) {r : ModelRow} (hr : r ∈ db.models)
    (hrt : r.routable = some true) (hal : r.isAlias ≠ some true) : ∃ h, (r, h) ∈ db.backends := by
  rcases hc.kinds r hr with ⟨hf, hid⟩ | ⟨ht, -⟩
  · obtain ⟨i, hi⟩ := Option.ne_none_iff_exists'.mp hid
    obtain ⟨h, hh, rfl⟩ := List.mem_map.mp (db.hostRef r hr i hi)
    exact ⟨h, mem_backends.mpr ⟨hr, hrt, hf, hh, hi⟩⟩
  · exact absurd ht hal

theorem openRouter_isLocal {name ip : String} {e : LitellmEntry} (he : e ∈ openRouterEntries) :
    ¬ isLocal name ip e = true := by
  intro h
  have ho := openRouterEntries_isOpenRouter e he
  rw [openai_isOpenRouter (isLocal_iff.mp h).2.1] at ho
  cases ho

theorem openRouter_isAliased {name target : String} {e : LitellmEntry}
    (he : e ∈ openRouterEntries) :
    ¬ isAliased name target e = true := by
  intro h
  have ho := openRouterEntries_isOpenRouter e he
  rw [openai_isOpenRouter (isAliased_iff.mp h).2] at ho
  cases ho

section Agreement

variable {db : Db}

theorem countP_modelList (q : LitellmEntry → Bool) (ho : ∀ e ∈ openRouterEntries, ¬ q e = true) :
    (modelList drv db).countP q =
      (localEntries [] ((sortedBackends drv db).map
        (fun p => (p.1.logicalModelName, p.2.guestIp, p.1.engine)))).countP q +
        (aliasEntries ((sortedTargets drv db).map (fun p => (p.1.logicalModelName, p.2.guestIp)))
          ((routableAliases db).map (fun r => (r.logicalModelName, r.aliasTarget)))).countP q := by
  unfold modelList
  rw [List.countP_append, List.countP_append]
  have hzero : (if fallbackEnabled (db.setting "openrouter.fallback_enabled") then openRouterEntries
      else []).countP q =
      0 := by
    split
    · exact List.countP_eq_zero.mpr ho
    · exact List.countP_nil
  rw [hzero, Nat.add_zero]

theorem Coherent.pair (drv : Driver) (hc : Coherent db.models) {r : ModelRow} {h : HostRow}
    (hb : (r, h) ∈ db.backends) :
    (modelList drv db).countP (isLocal r.logicalModelName h.guestIp) = 1 := by
  rw [countP_modelList _ fun e he => openRouter_isLocal he, countP_localEntries, if_pos]
  · refine congrArg (1 + ·) (List.countP_eq_zero.mpr fun e he hm => ?_)
    obtain ⟨row, hrow, b, -, ht, rfl⟩ := mem_aliasEntries he
    obtain ⟨a, ha, rfl⟩ := List.mem_map.mp hrow
    obtain ⟨hamem, hal, -⟩ := mem_routableAliases.mp ha
    obtain ⟨target, htarget, hne, -⟩ := hc.targets a hamem hal
    have hb1 : b.1 = target := Option.some.inj (ht.trans htarget)
    rw [isLocal_aliasEntry (by rw [hb1]; exact hne)] at hm
    cases hm
  · refine ⟨List.not_mem_nil, List.mem_map.mpr
      ⟨_, List.mem_map.mpr ⟨(r, h), mem_sortedBackends.mpr hb, rfl⟩, rfl⟩⟩

theorem Coherent.alias_entry (drv : Driver) (hc : Coherent db.models) {a : ModelRow}
    (ha : a ∈ routableAliases db) :
    ∃ target, a.aliasTarget = some target ∧ (modelList drv db).countP
      (isAliased a.logicalModelName target) = 1 ∧
      a.logicalModelName ≠ target := by
  obtain ⟨hamem, hal, hart⟩ := mem_routableAliases.mp ha
  obtain ⟨target, htarget, hne, hiff⟩ := hc.targets a hamem hal
  obtain ⟨s, hs, hsal, hsname, hsrt⟩ := hiff.mp hart
  obtain ⟨h, hb⟩ := hc.backend hs hsrt (by rw [hsal]; nofun)
  refine ⟨target, htarget, ?_, hne⟩
  rw [countP_modelList _ fun e he => openRouter_isAliased he]
  have hlocal : (localEntries [] ((sortedBackends drv db).map
      (fun p => (p.1.logicalModelName, p.2.guestIp, p.1.engine)))).countP (isAliased a.logicalModelName target) = 0 := by
    refine List.countP_eq_zero.mpr fun e he hm => ?_
    obtain ⟨row, -, rfl⟩ := mem_localEntries he
    obtain ⟨hn, ht⟩ := isAliased_iff.mp hm
    have hn' : row.1 = a.logicalModelName := hn
    exact hne (hn'.symm.trans (openai_inj ht))
  rw [hlocal, Nat.zero_add]
  refine countP_aliasEntries ?_ ?_ ?_
  · rw [List.map_map]
    have hsub : (routableAliases db).Sublist (db.models.filter (fun r => r.isAlias == some true)) :=
      List.monotone_filter_right _ fun r hr => (Bool.and_eq_true_iff.mp hr).1
    exact hc.names.sublist (hsub.map _)
  · exact List.mem_map.mpr ⟨a, ha, by rw [htarget]⟩
  · exact List.mem_map.mpr ⟨_, List.mem_map.mpr ⟨(s, h), mem_sortedTargets.mpr hb, rfl⟩, hsname⟩

theorem Coherent.agrees (hc : Coherent db.models) :
    Agrees db (routableNames db) (modelList drv db) where
  names n := by
    rw [mem_routableNames]
    constructor
    · rintro ⟨r, hr, hrt, rfl⟩
      by_cases hal : r.isAlias = some true
      · obtain ⟨target, -, hcount, -⟩ := hc.alias_entry drv (mem_routableAliases.mpr ⟨hr, hal, hrt⟩)
        obtain ⟨e, he, hm⟩ :=
          List.countP_pos_iff.mp (Nat.lt_of_lt_of_eq Nat.zero_lt_one hcount.symm)
        obtain ⟨hn, ht⟩ := isAliased_iff.mp hm
        exact ⟨e, he, openai_isOpenRouter ht, hn⟩
      · obtain ⟨h, hb⟩ := hc.backend hr hrt hal
        have hcount := hc.pair drv hb
        obtain ⟨e, he, hm⟩ :=
          List.countP_pos_iff.mp (Nat.lt_of_lt_of_eq Nat.zero_lt_one hcount.symm)
        obtain ⟨hn, ht, -⟩ := isLocal_iff.mp hm
        exact ⟨e, he, openai_isOpenRouter ht, hn⟩
    · rintro ⟨e, he, ho, rfl⟩
      obtain ⟨r, h, hb, -, -, rfl | ⟨a, ha, -, rfl⟩⟩ := routed he ho
      · obtain ⟨hr, hrt, -⟩ := mem_backends.mp hb
        exact ⟨r, hr, hrt, rfl⟩
      · obtain ⟨hamem, -, hart⟩ := mem_routableAliases.mp ha
        exact ⟨a, hamem, hart, rfl⟩
  pairs r hr h hh hrt hal hid := by
    rcases hc.kinds r hr with ⟨hf, -⟩ | ⟨ht, -⟩
    · exact hc.pair drv (mem_backends.mpr ⟨hr, hrt, hf, hh, hid⟩)
    · exact absurd ht hal
  aliased a ha hart hal := by
    obtain ⟨target, htarget, hcount, hne⟩ :=
      hc.alias_entry drv (mem_routableAliases.mpr ⟨ha, hal, hart⟩)
    refine ⟨target, htarget, hcount, fun e he hm => ?_⟩
    obtain ⟨hn, ht⟩ := isAliased_iff.mp hm
    obtain ⟨r, h, hb, hmodel, hbase, -⟩ := routed he (openai_isOpenRouter ht)
    exact ⟨r, h, hb, openai_inj (hmodel.symm.trans ht), hbase⟩
  only e he ho := by
    obtain ⟨r, h, hb, hmodel, hbase, rfl | ⟨a, ha, htarget, rfl⟩⟩ := routed he ho
    · exact .inl ⟨r, h, hb, isLocal_iff.mpr ⟨rfl, rfl, rfl⟩⟩
    · exact .inr ⟨a, ha, r.logicalModelName, htarget, isAliased_iff.mpr ⟨rfl, rfl⟩⟩

end Agreement

/-- In every reachable database the configuration that is written is the one of
the models that are routable. -/
theorem config_agrees (drv : Driver) (db : Db) (h : Reached drv db) (env : Env) (hq : Quiet env) :
    ∃ names es, (run (env.answer drv) (routableModels false) { db := db }).1 = .ok names ∧
      (run (env.answer drv) configModels { db := db }).1 = .ok (some es) ∧ Agrees db names es :=
  ⟨routableNames db, modelList drv db, routableModels_run hq _, configModels_run hq _,
    h.coherent.agrees⟩

def emptyDb : Db := oneHostDb [] List.Pairwise.nil fun _ hr => absurd hr List.not_mem_nil

theorem config_agrees_after_sync : ∃ names es,
    (run (Env.answer plainDriver { net := servingNet "new" }) (routableModels false)
      { db := (run (Env.answer plainDriver { net := servingNet "new" }) (syncRegistry false) { db := emptyDb }).2.db }).1 =
        .ok names ∧
      (run (Env.answer plainDriver { net := servingNet "new" }) configModels
        { db := (run (Env.answer plainDriver { net := servingNet "new" }) (syncRegistry false) { db := emptyDb }).2.db }).1 =
          .ok (some es) ∧
      Agrees (run (Env.answer plainDriver { net := servingNet "new" }) (syncRegistry false)
        { db := emptyDb }).2.db names es :=
  config_agrees plainDriver _ (.sync { net := servingNet "new" } (.empty rfl))
    { net := servingNet "new" } fun _ => rfl

end ServerManager.GatewayConfig
