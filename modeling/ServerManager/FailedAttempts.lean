import ServerManager.FailureMarks
import ServerManager.Rehearsals

namespace ServerManager.FailedAttempts

open Interaction Interleaving PyJson Orm Effects Config Api Storage Frames JobRuns CreateCalls
  FailureMarks Rehearsals

theorem merge_actual (l c x : AgentRuntime) (d : Bool) :
    (l.merge c d x).actualState = if c.actualState = l.actualState then x.actualState
    else c.actualState := rfl

theorem rows_error {ws : List Write} {db : Db} {t : Time} {x : Stored}
    (hx : x ∈ (db.applyAll t ws).runtimes)
    (he : x.row.actualState = .error) :
    (∃ y ∈ db.runtimes, y.row.runtimeId = x.row.runtimeId ∧ y.row.actualState = .error) ∨
      (∃ r, .insertRuntime r ∈ ws ∧ r.actualState = .error) ∨
      ∃ l c d, .updateRuntime l c d ∈ ws ∧ l.runtimeId = x.row.runtimeId ∧ ¬ Spared l c := by
  induction ws generalizing db with
  | nil => exact .inl ⟨x, hx, rfl, he⟩
  | cons v ws ih =>
      have hx : x ∈ ((db.apply t v).applyAll t ws).runtimes := hx
      rcases ih hx with ⟨y, hy, hk, hye⟩ | ⟨r, hr, hre⟩ | ⟨l, c, d, hm, h⟩
      · cases v with
        | insertRuntime r =>
            rcases List.mem_append.mp hy with hy | hy
            · exact .inl ⟨y, hy, hk, hye⟩
            · rw [List.mem_singleton.mp hy] at hye
              exact .inr (.inl ⟨r, List.mem_cons_self, hye⟩)
        | updateRuntime l c d =>
            obtain ⟨z, hz, rfl⟩ := List.mem_map.mp hy
            by_cases hzl : z.row.runtimeId = l.runtimeId
            · rw [if_pos hzl] at hk hye
              have hzk : z.row.runtimeId = x.row.runtimeId := hk
              have hme : (l.merge c d z.row).actualState = .error := hye
              rw [merge_actual] at hme
              split at hme
              · exact .inl ⟨z, hz, hzk, hme⟩
              next hne =>
                  refine .inr (.inr ⟨l, c, d, List.mem_cons_self, hzl.symm.trans hzk,
                    fun hs => hne ?_⟩)
                  rw [hme, hs hme]
            · rw [if_neg hzl] at hk hye
              exact .inl ⟨z, hz, hk, hye⟩
        | updateJob | updateStep | insertJob | insertStep | insertEvent | insertBridge =>
            exact .inl ⟨y, hy, hk, hye⟩
      · exact .inr (.inl ⟨r, List.mem_cons_of_mem _ hr, hre⟩)
      · exact .inr (.inr ⟨l, c, d, List.mem_cons_of_mem _ hm, h⟩)

def jobKeys (j : ProvisioningJob) : Uuid × Uuid := (j.runtimeId, j.jobId)

def filedKeys : Write → List (Uuid × Uuid)
  | .insertJob j => [jobKeys j]
  | _ => []

theorem applyAll_jobKeys (t : Time) (ws : List Write) (db : Db) :
    (db.applyAll t ws).jobs.map jobKeys = db.jobs.map jobKeys ++ ws.flatMap filedKeys := by
  induction ws generalizing db with
  | nil => simp [Db.applyAll]
  | cons v ws ih =>
      have h := ih (db.apply t v)
      have hv : (db.apply t v).jobs.map jobKeys = db.jobs.map jobKeys ++ filedKeys v := by
        cases v with
        | insertJob j => simp [Db.apply, filedKeys]
        | updateJob l c =>
            simp only [Db.apply, filedKeys, List.map_map, List.append_nil]
            apply List.map_congr_left
            intro j hj
            simp only [Function.comp]
            split <;> rfl
        | updateRuntime | updateStep | insertRuntime | insertStep | insertEvent | insertBridge =>
            simp [Db.apply, filedKeys]
      rw [hv, List.append_assoc] at h
      exact h

def newEvents : Write → List RuntimeEvent
  | .insertEvent ev => [ev]
  | _ => []

theorem applyAll_newEvents (t : Time) (ws : List Write) (db : Db) :
    (db.applyAll t ws).events = db.events ++ ws.flatMap newEvents := by
  induction ws generalizing db with
  | nil => simp [Db.applyAll]
  | cons v ws ih =>
      have h := ih (db.apply t v)
      have hv : (db.apply t v).events = db.events ++ newEvents v := by
        cases v <;> simp [Db.apply, newEvents]
      rw [hv, List.append_assoc] at h
      exact h

def Dead (db : Db) (jid : Uuid) : Prop := ∀ j ∈ db.jobs, j.jobId = jid → j.state = .failed

structure Fatal (jid : Uuid) (ws : List Write) : Prop where
  insert : ∀ j, .insertJob j ∈ ws → j.jobId ≠ jid
  update : ∀ l c, .updateJob l c ∈ ws → l.jobId = jid → Fails l c

theorem Fatal.tail {jid : Uuid} {v : Write} {ws : List Write} (h : Fatal jid (v :: ws)) :
    Fatal jid ws :=
  ⟨fun j hj => h.insert j (List.mem_cons_of_mem _ hj),
    fun l c hm => h.update l c (List.mem_cons_of_mem _ hm)⟩

theorem Dead.applyAll {jid : Uuid} {ws : List Write} {db : Db} {t : Time} (h : Dead db jid)
    (hw : Fatal jid ws) :
    Dead (db.applyAll t ws) jid := by
  induction ws generalizing db with
  | nil => exact h
  | cons v ws ih =>
      suffices hv : Dead (db.apply t v) jid from ih hv hw.tail
      intro j hj hk
      cases v with
      | insertJob j' =>
          rcases List.mem_append.mp hj with hj | hj
          · exact h j hj hk
          · rw [List.mem_singleton.mp hj] at hk
            exact absurd hk (hw.insert j' List.mem_cons_self)
      | updateJob l c =>
          obtain ⟨y, hy, rfl⟩ := List.mem_map.mp hj
          by_cases hyl : y.jobId = l.jobId
          · rw [if_pos hyl] at hk ⊢
            have hyk : y.jobId = jid := hk
            obtain ⟨hl, hc⟩ := hw.update l c List.mem_cons_self (hyl.symm.trans hyk)
            simp [hc, hl.symm]
          · rw [if_neg hyl] at hk ⊢
            exact h y hy hk
      | updateRuntime | updateStep | insertRuntime | insertStep | insertEvent | insertBridge =>
          exact h j hj hk

theorem Fatal.applyAll {jid : Uuid} {ws : List Write} {db : Db} {t : Time} (hw : Fatal jid ws)
    (hm : ∃ l c, .updateJob l c ∈ ws ∧ l.jobId = jid) : Dead (db.applyAll t ws) jid := by
  induction ws generalizing db with
  | nil =>
      obtain ⟨l, c, hm, -⟩ := hm
      cases hm
  | cons v ws ih =>
      obtain ⟨l, c, hm, hk⟩ := hm
      rcases List.mem_cons.mp hm with rfl | hm
      · have hhead : Dead (db.apply t (.updateJob l c)) jid := by
          intro j hj hjk
          obtain ⟨y, hy, rfl⟩ := List.mem_map.mp hj
          by_cases hyl : y.jobId = l.jobId
          · rw [if_pos hyl]
            obtain ⟨hl, hc⟩ := hw.update l c List.mem_cons_self hk
            simp [hc, hl.symm]
          · rw [if_neg hyl] at hjk
            exact absurd (hjk.trans hk.symm) hyl
        exact hhead.applyAll hw.tail
      · have hrest : Dead ((db.apply t v).applyAll t ws) jid := ih hw.tail ⟨l, c, hm, hk⟩
        exact hrest

variable {R : Type} {rem : Remote R} {c d : Parties R} {i : Nat} {e : Eff} {a : Ans e}

/-- Every job belongs to the process that drew its key and that of its runtime,
and a runtime in the state ERROR to a process that has marked its job FAILED. -/
structure Accounted (c : Parties R) : Prop where
  fresh : ∀ i, (c.procs i).trace = [] → c.world.sessions i = {}
  drawn : ∀ i, ∀ u ∈ keysOf (c.procs i).trace, u ∈ c.world.uuids
  apart : ∀ i k u, u ∈ keysOf (c.procs i).trace → u ∈ keysOf (c.procs k).trace → i = k
  owned : ∀ k ∈ c.world.db.jobs.map jobKeys, ∃ i, keysOf (c.procs i).trace = [k.1, k.2]
  filed : ∀ i rid jid, keysOf (c.procs i).trace = [rid, jid] → Committed (c.procs i).trace →
    (rid, jid) ∈ c.world.db.jobs.map jobKeys
  errors : ∀ x ∈ c.world.db.runtimes, x.row.actualState = .error → ∃ i jid,
    keysOf (c.procs i).trace = [x.row.runtimeId, jid] ∧ Committed (c.procs i).trace ∧
      Erred (c.procs i).trace ∧
      Dead c.world.db jid

def Failed (db : Db) (rid : Uuid) : Prop :=
  (∃ j ∈ db.jobs, j.runtimeId = rid) ∧ ∀ j ∈ db.jobs, j.runtimeId = rid → j.state = .failed

theorem Accounted.failed (h : Accounted c) {x : Stored} (hx : x ∈ c.world.db.runtimes)
    (he : x.row.actualState = .error) : Failed c.world.db x.row.runtimeId := by
  obtain ⟨i, jid, hk, hc, -, hd⟩ := h.errors x hx he
  constructor
  · obtain ⟨j, hj, hkeys⟩ := List.mem_map.mp (h.filed i _ jid hk hc)
    exact ⟨j, hj, congrArg Prod.fst hkeys⟩
  · intro j hj hr
    obtain ⟨k, hkj⟩ := h.owned _ (List.mem_map_of_mem hj)
    -- the runtime's key tells the process, and that the key of its job
    have hik : i = k := h.apart i k x.row.runtimeId (by simp [hk]) (by simp [hkj, jobKeys, hr])
    subst hik
    rw [hk] at hkj
    have hjk : jid = j.jobId := by simpa [jobKeys] using (List.cons.inj hkj).2
    exact hd j hj hjk.symm

section Step

theorem erred_later (hs : Step (fun i => World.step rem i) c i ⟨e, a⟩ d) {k : Nat}
    (h : Erred (c.procs k).trace) : Erred (d.procs k).trace := by
  rcases traces hs k with ht | ⟨-, ht⟩
  · rwa [ht]
  · rw [ht]
    exact h.append _

theorem Accounted.fresh_step (h : Accounted c) (hs : Step (fun i => World.step rem i) c i ⟨e, a⟩ d)
    (k : Nat)
    (hk : (d.procs k).trace = []) : d.world.sessions k = {} := by
  rcases traces hs k with ht | ⟨-, ht⟩
  · have hki : k ≠ i := by
      rintro rfl
      rw [hs.trace_self] at ht
      simp at ht
    rw [step_other hs.world hki]
    exact h.fresh k (ht ▸ hk)
  · rw [ht] at hk
    simp at hk

theorem Accounted.draw (h : Accounted c) {u : Ans (.sys .uuid4)}
    (hs : Step (fun i => World.step rem i) c i ⟨.sys .uuid4, u⟩ d)
    (hp : (keysOf (c.procs i).trace).length < 2 ∧ ¬ Committed (c.procs i).trace) : Accounted d := by
  obtain ⟨hnew, hw⟩ := hs.world
  have hdb : d.world.db = c.world.db := by rw [hw]
  have huu : d.world.uuids = u :: c.world.uuids := congrArg World.uuids hw
  have hkeys : ∀ k v, v ∈ keysOf (d.procs k).trace → v ∈ keysOf (c.procs k).trace ∨ k = i ∧
      v = u := by
    intro k v hv
    rcases traces hs k with ht | ⟨rfl, ht⟩
    · rw [ht] at hv
      exact .inl hv
    · rw [ht, keysOf, List.filterMap_append] at hv
      exact (List.mem_append.mp hv).imp_right fun hv =>
        ⟨rfl, (Option.some.inj (by simpa [drawnKey] using hv)).symm⟩
  have hpair : ∀ k x y, keysOf (c.procs k).trace = [x, y] → keysOf (d.procs k).trace = [x, y] := by
    intro k x y hk
    rcases traces hs k with ht | ⟨rfl, -⟩
    · rw [ht, hk]
    · rw [hk] at hp
      exact absurd hp.1 (by simp)
  refine ⟨h.fresh_step hs, fun k v hv => ?_, fun k l v hk hl => ?_, fun x hx => ?_,
    fun k x y hk hc => ?_,
    fun x hx he => ?_⟩
  · rw [huu]
    rcases hkeys k v hv with hv | ⟨-, rfl⟩
    · exact List.mem_cons_of_mem _ (h.drawn k v hv)
    · exact List.mem_cons_self
  · rcases hkeys k v hk with hk | ⟨rfl, rfl⟩
    · rcases hkeys l v hl with hl | ⟨-, rfl⟩
      · exact h.apart k l v hk hl
      · exact absurd (h.drawn k _ hk) hnew
    · rcases hkeys l _ hl with hl | ⟨rfl, -⟩
      · exact absurd (h.drawn l _ hl) hnew
      · rfl
  · rw [hdb] at hx
    obtain ⟨k, hk⟩ := h.owned x hx
    exact ⟨k, hpair k _ _ hk⟩
  · rw [hdb]
    rcases traces hs k with ht | ⟨rfl, ht⟩
    · rw [ht] at hk hc
      exact h.filed k x y hk hc
    · rw [ht] at hc
      rcases List.mem_append.mp hc with hc | hc
      · exact absurd hc hp.2
      · cases List.mem_singleton.mp hc
  · rw [hdb] at hx ⊢
    obtain ⟨k, jid, hk, hc, her, hd⟩ := h.errors x hx he
    exact ⟨k, jid, hpair k _ _ hk, committed_later hs hc, erred_later hs her, hd⟩

theorem Accounted.still (h : Accounted c) (hs : Step (fun i => World.step rem i) c i ⟨e, a⟩ d)
    (hu : e ≠ .sys .uuid4)
    (hc : e ≠ .db .commit) : Accounted d := by
  have hdb : d.world.db = c.world.db := (step_db hs.world).resolve_right fun hx => hc hx.1
  have hkeys := keys_same hs hu
  refine ⟨h.fresh_step hs, fun k v hv => ?_, fun k l v hk hl => ?_, fun x hx => ?_,
    fun k x y hk hcom => ?_,
    fun x hx he => ?_⟩
  · rw [hkeys k] at hv
    exact step_uuids hs.world v (h.drawn k v hv)
  · rw [hkeys] at hk hl
    exact h.apart k l v hk hl
  · rw [hdb] at hx
    obtain ⟨k, hk⟩ := h.owned x hx
    exact ⟨k, (hkeys k).trans hk⟩
  · rw [hkeys k] at hk
    rw [hdb]
    refine h.filed k x y hk ?_
    rcases traces hs k with ht | ⟨rfl, ht⟩
    · rwa [ht] at hcom
    · rw [ht] at hcom
      rcases List.mem_append.mp hcom with hcom | hcom
      · exact hcom
      · cases List.mem_singleton.mp hcom
        exact absurd rfl hc
  · rw [hdb] at hx ⊢
    obtain ⟨k, jid, hk, hcom, her, hd⟩ := h.errors x hx he
    exact ⟨k, jid, (hkeys k).trans hk, committed_later hs hcom, erred_later hs her, hd⟩

theorem mem_filedKeys {ws : List Write} {k : Uuid × Uuid} :
    k ∈ ws.flatMap filedKeys ↔ ∃ j, .insertJob j ∈ ws ∧ jobKeys j = k := by
  constructor
  · intro hk
    obtain ⟨v, hv, hk⟩ := List.mem_flatMap.mp hk
    cases v with
    | insertJob j => exact ⟨j, hv, (List.mem_singleton.mp hk).symm⟩
    | updateRuntime | updateJob | updateStep | insertRuntime | insertStep | insertEvent
    | insertBridge => cases hk
  · rintro ⟨j, hj, rfl⟩
    exact List.mem_flatMap.mpr ⟨_, hj, List.mem_singleton.mpr rfl⟩

theorem Accounted.commit (h : Accounted c) {u : Ans (.db .commit)}
    (hs : Step (fun i => World.step rem i) c i ⟨.db .commit, u⟩ d)
    (hp : Kept (c.procs i).trace (c.world.sessions i).txn) : Accounted d := by
  obtain ⟨-, t, hdb⟩ := step_commit hs.world
  have hkeys := keys_same hs Eff.noConfusion
  have hjobs : d.world.db.jobs.map jobKeys =
      c.world.db.jobs.map jobKeys ++ (c.world.sessions i).txn.flatMap filedKeys := by
    rw [hdb]
    exact applyAll_jobKeys t _ _
  -- what the statements can do to a job whose process has marked it
  have hfatal : ∀ k rid jid, keysOf (c.procs k).trace = [rid, jid] → Erred (c.procs k).trace →
      Fatal jid (c.world.sessions i).txn := by
    intro k rid jid hk her
    have hme : ∀ x, keysOf (c.procs i).trace = [x, jid] → i = k := fun x hx =>
      h.apart i k jid (by simp [hx]) (by simp [hk])
    constructor
    · rintro j hj rfl
      obtain ⟨hkj, hno⟩ := hp.job j hj
      obtain rfl := hme _ hkj
      exact hno her
    · rintro l z hm rfl
      obtain ⟨⟨x, hx⟩, hf⟩ := hp.state l z hm
      obtain rfl := hme _ hx
      exact hf her
  refine ⟨h.fresh_step hs, fun k v hv => ?_, fun k l v hk hl => ?_, fun x hx => ?_,
    fun k x y hk hcom => ?_,
    fun x hx he => ?_⟩
  · rw [hkeys k] at hv
    exact step_uuids hs.world v (h.drawn k v hv)
  · rw [hkeys] at hk hl
    exact h.apart k l v hk hl
  · rw [hjobs] at hx
    rcases List.mem_append.mp hx with hx | hx
    · obtain ⟨k, hk⟩ := h.owned x hx
      exact ⟨k, (hkeys k).trans hk⟩
    · obtain ⟨j, hj, rfl⟩ := mem_filedKeys.mp hx
      exact ⟨i, (hkeys i).trans (hp.job j hj).1⟩
  · rw [hkeys k] at hk
    rw [hjobs]
    rcases traces hs k with ht | ⟨rfl, -⟩
    · rw [ht] at hcom
      exact List.mem_append_left _ (h.filed k x y hk hcom)
    · rcases hp.filed x y hk with hcom | ⟨j, hj⟩
      · exact List.mem_append_left _ (h.filed k x y hk hcom)
      · obtain ⟨hkj, -⟩ := hp.job j hj
        rw [hk] at hkj
        cases hkj
        exact List.mem_append_right _ (mem_filedKeys.mpr ⟨j, hj, rfl⟩)
  · have hx' := hx
    rw [hdb] at hx'
    rw [hdb]
    rcases rows_error hx' he with ⟨y, hy, hk, hye⟩ | ⟨r, hr, hre⟩ | ⟨l, z, dirty, hm, hk, hno⟩
    · obtain ⟨k, jid, hkk, hcom, her, hd⟩ := h.errors y hy hye
      rw [hk] at hkk
      exact ⟨k, jid, (hkeys k).trans hkk, committed_later hs hcom, erred_later hs her,
        hd.applyAll (hfatal k _ _ hkk her)⟩
    · exact absurd hre (hp.row r hr)
    · obtain ⟨her, y, v, hv, hkk⟩ := (hp.error l z dirty hm).resolve_left hno
      rw [hk] at hkk
      refine ⟨i, y.jobId, (hkeys i).trans hkk, ?_, erred_later hs her,
        (hfatal i _ _ hkk her).applyAll ⟨y, v, hv, rfl⟩⟩
      rw [hs.trace_self]
      exact List.mem_append_right _ List.mem_cons_self

theorem Accounted.next (h : Accounted c) (hs : Step (fun i => World.step rem i) c i ⟨e, a⟩ d)
    (hp : Promise (c.world.sessions i, (c.procs i).trace) e) : Accounted d := by
  unfold Promise at hp
  split at hp
  · exact h.draw hs hp
  · exact h.commit hs hp
  next hu hc => exact h.still hs hu hc

end Step

/-- The database is empty, and no request has begun. -/
structure Beginning (w : World R) : Prop where
  db : w.db = {}
  sessions : ∀ i, w.sessions i = {}

theorem accounted_reach {cfg : Settings} {reqs : Nat → Request} {w : World R} (hw : Beginning w)
    (hr : Reach (fun i => World.step rem i) (fun _ _ _ => True)
    (Interleaving.start w fun i => (reqs i).prog cfg) c) :
    Accounted c := by
  have hnil : ∀ i, ((Interleaving.start w fun i => (reqs i).prog cfg).procs i).trace = [] :=
    fun _ => rfl
  have hstart : Lawful (fun i (w : World R) => w.sessions i) (sessionStep rem) (fun _ => Promise)
      Accounted
      (Interleaving.start w fun i => (reqs i).prog cfg) := by
    refine ⟨⟨fun i _ => hw.sessions i, fun i u hu => ?_, fun i k u hu _ => ?_, fun k hk => ?_,
      fun i rid jid hk => ?_,
      fun x hx => ?_⟩, fun i => ?_⟩
    · exact absurd hu List.not_mem_nil
    · exact absurd hu List.not_mem_nil
    · have hdb : (Interleaving.start w fun i => (reqs i).prog cfg).world.db = {} := hw.db
      rw [hdb] at hk
      cases hk
    · cases hk
    · have hdb : (Interleaving.start w fun i => (reqs i).prog cfg).world.db = {} := hw.db
      rw [hdb] at hx
      cases hx
    · have hsat : Sat (traced (sessionStep rem)) Promise (fun _ _ => True) (fun _ _ => True)
          ((reqs i).prog cfg)
          ({}, []) := request_promises cfg (reqs i)
      rw [← hw.sessions i] at hsat
      exact hsat
  refine (Lawful.reach ?_ hstart hr).inv
  intro c d i e a hc hp _ hs
  exact ⟨hc.next hs hp, sessionStep_step hs.world, fun _ hj => step_other hs.world hj⟩

end ServerManager.FailedAttempts
