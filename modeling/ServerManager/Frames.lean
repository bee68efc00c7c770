import ServerManager.Sessions

namespace ServerManager.Frames

open Interaction PyJson Orm Effects Storage Sessions

variable {R : Type} {rem : Remote R} {i j : Nat} {w w' : World R} {e : Eff} {a : Ans e}

theorem setSession_ne (w : World R) (s : Session) (h : j ≠ i) :
    (w.setSession i s).sessions j = w.sessions j :=
  Function.update_of_ne h ..

theorem step_remote (hs : w.step rem i e a w') (he : ∀ c, e ≠ .db c) : w'.db = w.db ∧
    w'.sessions = w.sessions := by
  cases e with
  | pve c => obtain ⟨x, -, rfl⟩ := hs; exact ⟨rfl, rfl⟩
  | kea c => obtain ⟨x, -, rfl⟩ := hs; exact ⟨rfl, rfl⟩
  | db c => exact absurd rfl (he c)
  | sys c =>
      cases c with
      | now | uuid4 | ipNeigh => obtain ⟨-, rfl⟩ := hs; exact ⟨rfl, rfl⟩
      | sleep | polls | randbelow | tokenUrlsafe | guestExec | leaseInventory =>
          rw [show w' = w from hs]; exact ⟨rfl, rfl⟩

theorem dbStep_frame {c : DbCall} {a : DbAns c} (hs : w.dbStep i c a w') :
    (∃ s, w' = w.setSession i s) ∨ w' = w ∨
      (c = .commit ∧ ∃ t, w.clock ≤ t ∧ w' = { w.setSession i { w.sessions i with txn := [] } with
        db := w.db.applyAll t (w.sessions i).txn, clock := t }) := by
  cases c with
  | getRuntime rid =>
      simp only [World.dbStep] at hs
      split at hs
      · exact .inr (.inl hs.2)
      · split at hs
        · exact .inl ⟨_, hs.2⟩
        · exact .inr (.inl hs.2)
  | getJob jid =>
      simp only [World.dbStep] at hs
      split at hs
      · exact .inr (.inl hs.2)
      · split at hs
        · exact .inl ⟨_, hs.2⟩
        · exact .inr (.inl hs.2)
  | findJob q =>
      simp only [World.dbStep] at hs
      split at hs
      · exact .inl ⟨_, hs.2⟩
      · exact .inr (.inl hs.2)
  | selectRuntimes q => exact .inl ⟨_, hs.2⟩
  | placedNodes | findStep => exact .inr (.inl hs.2)
  | modify | modifyJob | setStep | addRuntime | addJob | addStep | addEvent | addBridge | close =>
      exact .inl ⟨_, hs⟩
  | flush =>
      cases a with
      | ok u => exact .inl ⟨_, hs.2.2⟩
      | error x => exact .inl ⟨_, hs.2.2.2⟩
  | commit => exact .inr (.inr ⟨rfl, hs⟩)

theorem step_other (hs : w.step rem i e a w') (hj : j ≠ i) : w'.sessions j = w.sessions j := by
  by_cases he : ∃ c, e = .db c
  · obtain ⟨c, rfl⟩ := he
    rcases dbStep_frame hs with ⟨s, rfl⟩ | rfl | ⟨-, t, -, rfl⟩
    · exact setSession_ne w s hj
    · rfl
    · exact setSession_ne w _ hj
  · rw [(step_remote hs fun c hc => he ⟨c, hc⟩).2]

theorem step_db (hs : w.step rem i e a w') :
    w'.db = w.db ∨ (e = .db .commit ∧ ∃ t, w'.db = w.db.applyAll t (w.sessions i).txn) := by
  by_cases he : ∃ c, e = .db c
  · obtain ⟨c, rfl⟩ := he
    rcases dbStep_frame hs with ⟨s, rfl⟩ | rfl | ⟨rfl, t, -, rfl⟩
    · exact .inl rfl
    · exact .inl rfl
    · exact .inr ⟨rfl, t, rfl⟩
  · exact .inl (step_remote hs fun c hc => he ⟨c, hc⟩).1

theorem step_commit {a : Ans (.db .commit)} (hs : w.step rem i (.db .commit) a w') :
    w'.sessions i = { w.sessions i with txn := [] } ∧ ∃ t,
      w'.db = w.db.applyAll t (w.sessions i).txn := by
  obtain ⟨t, -, rfl⟩ := hs
  exact ⟨setSession_self w i _, t, rfl⟩

theorem load_key (s : Session) (r : AgentRuntime) : (s.load r).1.runtimeId = r.runtimeId := by
  unfold Session.load
  split
  next o ho => simpa using List.find?_some ho
  · rfl

theorem load_objs (s : Session) (r : AgentRuntime) : ∃ os,
    (s.load r).2 = { s with objs := os } := by
  unfold Session.load
  split
  · exact ⟨s.objs, rfl⟩
  · exact ⟨_, rfl⟩

theorem mem_load {s : Session} {r : AgentRuntime} {o : Obj} (h : o ∈ (s.load r).2.objs) :
    o ∈ s.objs ∨ (o = ⟨r, r, false⟩ ∧ ∀ o' ∈ s.objs, o'.cur.runtimeId ≠ r.runtimeId) := by
  unfold Session.load at h
  split at h
  · exact .inl h
  next hn =>
      rcases List.mem_append.mp h with h | h
      · exact .inl h
      · refine .inr ⟨List.mem_singleton.mp h, fun o' ho' hk => ?_⟩
        exact absurd (by simpa using hk) (List.find?_eq_none.mp hn o' ho')

theorem load_mem {s : Session} {r : AgentRuntime} {o : Obj} (h : o ∈ s.objs) :
    o ∈ (s.load r).2.objs := by
  unfold Session.load
  split
  · exact h
  · exact List.mem_append_left _ h

theorem load_has (s : Session) (r : AgentRuntime) : ∃ o ∈ (s.load r).2.objs,
    o.cur.runtimeId = r.runtimeId := by
  unfold Session.load
  split
  next o ho => exact ⟨o, List.mem_of_find?_eq_some ho, by simpa using List.find?_some ho⟩
  · exact ⟨⟨r, r, false⟩, by simp, rfl⟩

theorem loadAll_objs (rs : List AgentRuntime) (s : Session) : ∃ os,
    (s.loadAll rs).2 = { s with objs := os } := by
  induction rs generalizing s with
  | nil => exact ⟨s.objs, rfl⟩
  | cons r rs ih =>
      obtain ⟨os, h⟩ := load_objs s r
      obtain ⟨os', h'⟩ := ih (s.load r).2
      refine ⟨os', ?_⟩
      rw [h] at h'
      simpa only [Session.loadAll, h] using h'

theorem loadAll_keys (rs : List AgentRuntime) (s : Session) :
    (s.loadAll rs).1.map (·.runtimeId) = rs.map (·.runtimeId) := by
  induction rs generalizing s with
  | nil => rfl
  | cons r rs ih =>
      have h := ih (s.load r).2
      simp only [Session.loadAll, List.map_cons, load_key, h]

theorem loadAll_mem {rs : List AgentRuntime} {s : Session} {o : Obj} (h : o ∈ s.objs) :
    o ∈ (s.loadAll rs).2.objs := by
  induction rs generalizing s with
  | nil => exact h
  | cons r rs ih => exact ih (load_mem h)

theorem mem_loadAll {rs : List AgentRuntime} {s : Session} {o : Obj}
    (h : o ∈ (s.loadAll rs).2.objs) :
    o ∈ s.objs ∨ ∃ r ∈ rs, o = ⟨r, r, false⟩ ∧ ∀ o' ∈ s.objs, o'.cur.runtimeId ≠ r.runtimeId := by
  induction rs generalizing s with
  | nil => exact .inl h
  | cons r rs ih =>
      rcases ih (s := (s.load r).2) h with h | ⟨r', hr', ho, hn⟩
      · rcases mem_load h with h | ⟨ho, hn⟩
        · exact .inl h
        · exact .inr ⟨r, List.mem_cons_self, ho, hn⟩
      · exact .inr ⟨r', List.mem_cons_of_mem _ hr', ho, fun o' ho' => hn o' (load_mem ho')⟩

theorem loadAll_has {rs : List AgentRuntime} {r : AgentRuntime} (hr : r ∈ rs) (s : Session) :
    ∃ o ∈ (s.loadAll rs).2.objs, o.cur.runtimeId = r.runtimeId := by
  induction rs generalizing s with
  | nil => cases hr
  | cons x rs ih =>
      rcases List.mem_cons.mp hr with rfl | hr
      · obtain ⟨o, ho, hk⟩ := load_has s r
        have hm : o ∈ ((s.load r).2.loadAll rs).2.objs := loadAll_mem ho
        exact ⟨o, hm, hk⟩
      · exact ih hr (s.load x).2

def Distinct (db : Db) : Prop := (db.runtimes.map (·.row.runtimeId)).Nodup

def NoInsert : Write → Prop
  | .insertRuntime _ => False
  | _ => True

theorem apply_keys {x : Write} (hx : NoInsert x) (t : Time) (db : Db) :
    (db.apply t x).runtimes.map (·.row.runtimeId) = db.runtimes.map (·.row.runtimeId) := by
  cases x with
  | updateRuntime l c d =>
      simp only [Db.apply, List.map_map]
      refine List.map_congr_left fun y _ => ?_
      simp only [Function.comp]
      split
      · rfl
      · rfl
  | insertRuntime r => exact False.elim hx
  | updateJob | updateStep | insertJob | insertStep | insertEvent | insertBridge => rfl

theorem applyAll_keys {ws : List Write} (h : ∀ x ∈ ws, NoInsert x) (t : Time) (db : Db) :
    (db.applyAll t ws).runtimes.map (·.row.runtimeId) = db.runtimes.map (·.row.runtimeId) := by
  induction ws generalizing db with
  | nil => rfl
  | cons x ws ih =>
      have ha := ih (fun y hy => h y (List.mem_cons_of_mem _ hy)) (db.apply t x)
      rw [apply_keys (h x List.mem_cons_self)] at ha
      exact ha

theorem runtime?_of_mem {db : Db} (hd : Distinct db) {x : Stored} (hx : x ∈ db.runtimes) :
    db.runtime? x.row.runtimeId = some x.row := by
  obtain ⟨rows, jobs, steps, events, bridges⟩ := db
  simp only [Distinct, Db.runtime?] at hd hx ⊢
  induction rows with
  | nil => cases hx
  | cons y rows ih =>
      obtain ⟨hy, hd'⟩ := List.nodup_cons.mp hd
      rcases List.mem_cons.mp hx with rfl | hx
      · simp
      · have hne : y.row.runtimeId ≠ x.row.runtimeId :=
          fun he => hy (List.mem_map.mpr ⟨x, hx, he.symm⟩)
        simpa [hne] using ih hd' hx

theorem query_mem {q : Query} {db : Db} {r : AgentRuntime} (h : r ∈ Query.run q db) :
    ∃ x ∈ db.runtimes, x.row = r := by
  cases q with
  | staleSandboxes t => exact List.mem_map.mp (List.mem_filter.mp h).1
  | others rid => exact List.mem_map.mp (List.mem_filter.mp h).1
  | reconcilable n =>
      obtain ⟨x, hx, rfl⟩ := List.mem_map.mp h
      have hs := List.mem_mergeSort.mp (List.mem_of_mem_take hx)
      exact ⟨x, (List.mem_filter.mp hs).1, rfl⟩

theorem query_nodup (q : Query) {db : Db} (h : Distinct db) :
    ((Query.run q db).map (·.runtimeId)).Nodup := by
  cases q with
  | staleSandboxes t =>
      refine List.Sublist.nodup (List.Sublist.map _ List.filter_sublist) ?_
      rw [List.map_map]
      exact h
  | others rid =>
      refine List.Sublist.nodup (List.Sublist.map _ List.filter_sublist) ?_
      rw [List.map_map]
      exact h
  | reconcilable n =>
      simp only [Query.run, List.map_map]
      refine List.Sublist.nodup (List.Sublist.map _ (List.take_sublist _ _)) ?_
      have hp := (List.mergeSort_perm (db.runtimes.filter (fun x =>
        x.row.desiredState ≠ .desiredDestroyed && x.row.createdByAgentRuntimeManager))
          (fun x y => x.updatedAt ≤ y.updatedAt)).map (fun x : Stored => x.row.runtimeId)
      refine (List.Perm.nodup_iff hp).mpr ?_
      exact List.Sublist.nodup (List.Sublist.map _ List.filter_sublist) h

theorem noInsert_pending {s : Session} (h : ∀ x ∈ s.new, NoInsert x) (t : Time) : ∀ x ∈ s.pending t,
    NoInsert x := by
  intro x hx
  simp only [Session.pending, List.mem_append] at hx
  rcases hx with (hx | hx) | hx
  · obtain ⟨o, -, hx⟩ := List.mem_flatMap.mp hx
    unfold Obj.write at hx
    split at hx
    · rw [List.mem_singleton.mp hx]
      trivial
    · cases hx
  · obtain ⟨o, -, hx⟩ := List.mem_flatMap.mp hx
    unfold JobObj.write at hx
    split at hx
    · rw [List.mem_singleton.mp hx]
      trivial
    · cases hx
  · obtain ⟨y, hy, rfl⟩ := List.mem_map.mp hx
    have hn := h y hy
    cases y with
    | insertRuntime r => exact hn
    | updateRuntime | updateJob | updateStep | insertJob | insertStep | insertEvent
    | insertBridge => trivial

def adds : Eff → Option Write
  | .db (.setStep st) => some (.updateStep st)
  | .db (.addRuntime r) => some (.insertRuntime r)
  | .db (.addJob j) => some (.insertJob j)
  | .db (.addStep st) => some (.insertStep st)
  | .db (.addEvent ev) => some (.insertEvent ev)
  | .db (.addBridge b) => some (.insertBridge b)
  | _ => none

def reads : Eff → Prop
  | .db (.getRuntime _) | .db (.getJob _) | .db (.findJob _) | .db .placedNodes
  | .db (.findStep ..) => True
  | .db _ => False
  | _ => True

def onJobs : Eff → Prop
  | .db (.getJob _) | .db (.findJob _) | .db (.modifyJob ..) => True
  | _ => False

inductive Turn (w : World R) (i : Nat) : Eff → Session → Prop
  | keep {e : Eff} : reads e → Turn w i e (w.sessions i)
  | load {rid : Uuid} {r : AgentRuntime} : (w.view i).runtime? rid = some r →
      (w.sessions i).obj? rid = none →
      Turn w i (.db (.getRuntime rid)) ((w.sessions i).load r).2
  | loadAll (q : Query) :
      Turn w i (.db (.selectRuntimes q)) ((w.sessions i).loadAll (Query.run q (w.view i))).2
  | jobs {e : Eff} (js : List JobObj) : onJobs e → Turn w i e { w.sessions i with jobs := js }
  | modify (rid : Uuid) (b : Bool) (f : AgentRuntime → AgentRuntime) :
      Turn w i (.db (.modify rid b f)) ((w.sessions i).modify rid b f)
  | add {e : Eff} {x : Write} : adds e = some x →
      Turn w i e { w.sessions i with new := (w.sessions i).new ++ [x] }
  | flush : Turn w i (.db .flush) ((w.sessions i).flush w.clock)
  | rollback : (w.db.duplicate ((w.sessions i).pending w.clock)) → Turn w i (.db .flush) {}
  | commit : Turn w i (.db .commit) { w.sessions i with txn := [] }
  | close : Turn w i (.db .close) {}

theorem loadJob_jobs (s : Session) (j : ProvisioningJob) : ∃ js,
    (s.loadJob j).2 = { s with jobs := js } := by
  unfold Session.loadJob
  split
  · exact ⟨s.jobs, rfl⟩
  · exact ⟨_, rfl⟩

theorem dbStep_turn {c : DbCall} {a : DbAns c} (hs : w.dbStep i c a w') :
    Turn w i (.db c) (w'.sessions i) := by
  have hset : ∀ s, w' = w.setSession i s → w'.sessions i = s :=
    fun s hw => hw ▸ setSession_self w i s
  cases c with
  | getRuntime rid =>
      simp only [World.dbStep] at hs
      split at hs
      · rw [hs.2]
        exact .keep trivial
      next ho =>
          split at hs
          next r hr =>
              rw [hset _ hs.2]
              exact .load hr ho
          · rw [hs.2]
            exact .keep trivial
  | getJob jid =>
      simp only [World.dbStep] at hs
      split at hs
      · rw [hs.2]
        exact .keep trivial
      · split at hs
        next j _ =>
            obtain ⟨js, hjs⟩ := loadJob_jobs (w.sessions i) j
            rw [hset _ hs.2, hjs]
            exact .jobs js trivial
        · rw [hs.2]
          exact .keep trivial
  | findJob q =>
      simp only [World.dbStep] at hs
      split at hs
      next j _ =>
          obtain ⟨js, hjs⟩ := loadJob_jobs (w.sessions i) j
          rw [hset _ hs.2, hjs]
          exact .jobs js trivial
      · rw [hs.2]
        exact .keep trivial
  | selectRuntimes q => rw [hset _ hs.2]; exact .loadAll q
  | placedNodes => rw [hs.2]; exact .keep trivial
  | findStep => rw [hs.2]; exact .keep trivial
  | modify rid b f => rw [hset _ hs]; exact .modify rid b f
  | modifyJob jid f => rw [hset _ hs]; exact .jobs _ trivial
  | setStep st => rw [hset _ hs]; exact .add rfl
  | addRuntime r => rw [hset _ hs]; exact .add rfl
  | addJob j => rw [hset _ hs]; exact .add rfl
  | addStep st => rw [hset _ hs]; exact .add rfl
  | addEvent ev => rw [hset _ hs]; exact .add rfl
  | addBridge b => rw [hset _ hs]; exact .add rfl
  | flush =>
      cases a with
      | ok u => rw [hset _ hs.2.2]; exact .flush
      | error x => rw [hset _ hs.2.2.2]; exact .rollback hs.2.1
  | commit =>
      have hc : w'.sessions i = { w.sessions i with txn := [] } := by
        obtain ⟨t, -, rfl⟩ := hs
        exact setSession_self w i _
      rw [hc]
      exact .commit
  | close => rw [hset _ hs]; exact .close

theorem step_turn (hs : w.step rem i e a w') : Turn w i e (w'.sessions i) := by
  cases e with
  | db c => exact dbStep_turn hs
  | pve c => rw [(step_remote hs fun _ h => Eff.noConfusion h).2]; exact .keep trivial
  | kea c => rw [(step_remote hs fun _ h => Eff.noConfusion h).2]; exact .keep trivial
  | sys c => rw [(step_remote hs fun _ h => Eff.noConfusion h).2]; exact .keep trivial

def SessionNoInsert (s : Session) : Prop := (∀ x ∈ s.new, NoInsert x) ∧ ∀ x ∈ s.txn, NoInsert x

def insertsRow : Eff → Prop
  | .db (.addRuntime _) => True
  | _ => False

theorem step_noInsert (hs : w.step rem i e a w') (he : ¬ insertsRow e)
    (h : SessionNoInsert (w.sessions i)) : SessionNoInsert (w'.sessions i) := by
  have ht := step_turn hs
  generalize w'.sessions i = s' at ht
  cases ht with
  | keep => exact h
  | @load rid r _ _ =>
      obtain ⟨os, hos⟩ := load_objs (w.sessions i) r
      rw [hos]
      exact h
  | loadAll q =>
      obtain ⟨os, hos⟩ := loadAll_objs (Query.run q (w.view i)) (w.sessions i)
      rw [hos]
      exact h
  | jobs | modify => exact h
  | @add _ x hx =>
      refine ⟨fun y hy => ?_, h.2⟩
      rcases List.mem_append.mp hy with hy | hy
      · exact h.1 y hy
      · rw [List.mem_singleton.mp hy]
        cases x with
        | insertRuntime r =>
            unfold adds at hx
            split at hx
            all_goals cases hx
            exact absurd trivial he
        | updateRuntime | updateJob | updateStep | insertJob | insertStep | insertEvent
        | insertBridge => trivial
  | flush =>
      refine ⟨fun _ hx => absurd hx List.not_mem_nil, fun x hx => ?_⟩
      rcases List.mem_append.mp hx with hx | hx
      · exact h.2 x hx
      · exact noInsert_pending h.1 w.clock x hx
  | commit => exact ⟨h.1, fun _ hx => absurd hx List.not_mem_nil⟩
  | rollback | close =>
      exact ⟨fun _ hx => absurd hx List.not_mem_nil, fun _ hx => absurd hx List.not_mem_nil⟩

theorem job_pending {s : Session} {t : Time} {j : ProvisioningJob}
    (h : .insertJob j ∈ s.pending t) :
    .insertJob j ∈ s.new := by
  simp only [Session.pending, List.mem_append] at h
  rcases h with (h | h) | h
  · obtain ⟨o, -, h⟩ := List.mem_flatMap.mp h
    unfold Obj.write at h
    split at h
    · cases List.mem_singleton.mp h
    · cases h
  · obtain ⟨o, -, h⟩ := List.mem_flatMap.mp h
    unfold JobObj.write at h
    split at h
    · cases List.mem_singleton.mp h
    · cases h
  · obtain ⟨x, hx, he⟩ := List.mem_map.mp h
    cases x with
    | insertJob j' =>
        cases he
        exact hx
    | updateRuntime | insertRuntime | updateJob | updateStep | insertStep | insertEvent
    | insertBridge => cases he

def Local (s : Session) : (e : Eff) → Ans e → Session → Prop
  | .db (.getRuntime rid), a, s' =>
      ∀ r : AgentRuntime, a = some r → r.runtimeId = rid ∧ ∃ o ∈ s'.objs, o.cur = r
  | .db (.modify rid b f), _, s' => s' = s.modify rid b f
  | .db (.addEvent ev), _, s' => s' = { s with new := s.new ++ [.insertEvent ev] }
  | .db .flush, a, s' =>
      match a with
      | .ok _ => ∃ t, s' = s.flush t
      | .error _ => ∃ j, .insertJob j ∈ s.new
  | .db .commit, _, s' => s' = { s with txn := [] }
  | .db _, _, _ => True
  | _, _, s' => s' = s

theorem obj_key {s : Session} {rid : Uuid} {o : Obj} (h : s.obj? rid = some o) :
    o.cur.runtimeId = rid := by
  simpa using List.find?_some h

theorem load_new {s : Session} {r : AgentRuntime} (h : s.obj? r.runtimeId = none) :
    (s.load r).2 = { s with objs := s.objs ++ [⟨r, r, false⟩] } := by
  unfold Session.load
  rw [h]

theorem dbStep_local {c : DbCall} {a : DbAns c} (hs : w.dbStep i c a w') :
    Local (w.sessions i) (.db c) a (w'.sessions i) := by
  have hset : ∀ s, w' = w.setSession i s → w'.sessions i = s :=
    fun s hw => hw ▸ setSession_self w i s
  cases c with
  | getRuntime rid =>
      simp only [World.dbStep] at hs
      split at hs
      next o ho =>
          obtain ⟨rfl, rfl⟩ := hs
          intro r hr
          cases hr
          exact ⟨obj_key ho, o, List.mem_of_find?_eq_some ho, rfl⟩
      next ho =>
          split at hs
          next r hr =>
              have hk := runtime?_key hr
              obtain ⟨rfl, hw⟩ := hs
              rintro r' ⟨⟩
              rw [hset _ hw, load_new (hk.symm ▸ ho)]
              exact ⟨hk, ⟨r, r, false⟩, by simp, rfl⟩
          · obtain ⟨rfl, -⟩ := hs
            intro r hr
            cases hr
  | modify rid b f => exact hset _ hs
  | addEvent ev => exact hset _ hs
  | flush =>
      cases a with
      | ok u => exact ⟨w.clock, hset _ hs.2.2⟩
      | error x =>
          obtain ⟨-, ⟨j, hj, -⟩, -⟩ := hs
          exact ⟨j, job_pending hj⟩
  | commit =>
      obtain ⟨t, -, rfl⟩ := hs
      exact setSession_self w i _
  | getJob | findJob | selectRuntimes | placedNodes | findStep | modifyJob | setStep | addRuntime
  | addJob | addStep
  | addBridge | close => trivial

theorem step_local (hs : w.step rem i e a w') : Local (w.sessions i) e a (w'.sessions i) := by
  cases e with
  | db c => exact dbStep_local hs
  | pve c => exact congrFun (step_remote hs fun _ h => Eff.noConfusion h).2 i
  | kea c => exact congrFun (step_remote hs fun _ h => Eff.noConfusion h).2 i
  | sys c => exact congrFun (step_remote hs fun _ h => Eff.noConfusion h).2 i

theorem step_new {N : Write → Prop} (hs : w.step rem i e a w') (hx : ∀ x, adds e = some x → N x)
    (h : ∀ x ∈ (w.sessions i).new, N x) : ∀ x ∈ (w'.sessions i).new, N x := by
  have ht := step_turn hs
  generalize w'.sessions i = s' at ht
  cases ht with
  | keep | jobs | modify | commit => exact h
  | @load rid r _ _ =>
      obtain ⟨os, hos⟩ := load_objs (w.sessions i) r
      rw [hos]
      exact h
  | loadAll q =>
      obtain ⟨os, hos⟩ := loadAll_objs (Query.run q (w.view i)) (w.sessions i)
      rw [hos]
      exact h
  | @add _ x hadd =>
      intro y hy
      rcases List.mem_append.mp hy with hy | hy
      · exact h y hy
      · rw [List.mem_singleton.mp hy]
        exact hx x hadd
  | flush | rollback | close => exact fun _ hy => absurd hy List.not_mem_nil

end ServerManager.Frames
