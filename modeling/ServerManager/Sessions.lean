import ServerManager.Storage

namespace ServerManager.Sessions

open PyJson Orm Effects Storage

/-- The effect of a statement on the row with key `rid`. -/
def onRow (rid : Uuid) (x : Option AgentRuntime) : Write → Option AgentRuntime
  | .updateRuntime loaded cur dirty =>
      if loaded.runtimeId = rid then x.map (loaded.merge cur dirty) else x
  | .insertRuntime r => x.or (if r.runtimeId = rid then some r else none)
  | _ => x

theorem find_update (t : Time) (loaded cur : AgentRuntime) (dirty : Bool) (rid : Uuid)
    (rows : List Stored) :
    ((rows.map (fun x => if x.row.runtimeId = loaded.runtimeId then
        (⟨loaded.merge cur dirty x.row, t⟩ : Stored) else x)).find?
          (fun x => x.row.runtimeId = rid)).map (·.row) =
      onRow rid ((rows.find? (fun x => x.row.runtimeId = rid)).map (·.row))
        (.updateRuntime loaded cur dirty) := by
  induction rows with
  | nil => simp [onRow]
  | cons x rows ih =>
      have hkey : ∀ y : AgentRuntime, (loaded.merge cur dirty y).runtimeId = y.runtimeId :=
        fun _ => rfl
      by_cases hx : x.row.runtimeId = loaded.runtimeId
      · by_cases hr : x.row.runtimeId = rid
        · have hl : loaded.runtimeId = rid := hx.symm.trans hr
          simp [onRow, hr, hl, hkey]
        · simp only [List.map_cons, hx, if_true]
          rw [List.find?_cons_of_neg (by simpa [hkey] using hr),
            List.find?_cons_of_neg (by simpa using hr)]
          exact ih
      · by_cases hr : x.row.runtimeId = rid
        · have hl : loaded.runtimeId ≠ rid := fun h => hx (hr.trans h.symm)
          have hl' : rid ≠ loaded.runtimeId := hl.symm
          simp [onRow, hr, hl, hl']
        · simp only [List.map_cons, hx, if_false]
          rw [List.find?_cons_of_neg (by simpa using hr),
            List.find?_cons_of_neg (by simpa using hr)]
          exact ih

theorem apply_row (t : Time) (db : Db) (w : Write) (rid : Uuid) :
    (db.apply t w).runtime? rid = onRow rid (db.runtime? rid) w := by
  cases w with
  | updateRuntime loaded cur dirty => exact find_update t loaded cur dirty rid db.runtimes
  | insertRuntime r =>
      simp only [Db.runtime?, Db.apply, List.find?_append, onRow]
      cases hf : db.runtimes.find? (fun x => x.row.runtimeId = rid) with
      | some x => simp
      | none =>
          by_cases hr : r.runtimeId = rid
          · simp [hr]
          · simp [hr]
  | updateJob | updateStep | insertJob | insertStep | insertEvent | insertBridge => rfl

theorem applyAll_row (t : Time) (db : Db) (ws : List Write) (rid : Uuid) :
    (db.applyAll t ws).runtime? rid = ws.foldl (onRow rid) (db.runtime? rid) := by
  induction ws generalizing db with
  | nil => rfl
  | cons w ws ih =>
      have h := ih (db.apply t w)
      rw [apply_row] at h
      exact h

/-- The row a session sees: the committed one, as its open transaction has changed it. -/
def seenRow (db : Db) (s : Session) (rid : Uuid) : Option AgentRuntime :=
  s.txn.foldl (onRow rid) (db.runtime? rid)

theorem view_row {R : Type} (w : World R) (i : Nat) (rid : Uuid) :
    (w.view i).runtime? rid = seenRow w.db (w.sessions i) rid :=
  applyAll_row w.clock w.db (w.sessions i).txn rid

theorem merge_unchanged {loaded cur : AgentRuntime} (h : changed loaded cur = false)
    (x : AgentRuntime) :
    loaded.merge cur false x = x := by
  simp only [changed, ne_eq, decide_not, Bool.or_eq_false_iff, Bool.not_eq_eq_eq_not,
    Bool.not_false,
    decide_eq_true_eq] at h
  simp [AgentRuntime.merge, h]

theorem merge_merge (loaded cur : AgentRuntime) (dirty : Bool) (x : AgentRuntime) :
    loaded.merge cur dirty (loaded.merge cur dirty x) = loaded.merge cur dirty x := by
  simp only [AgentRuntime.merge, AgentRuntime.mk.injEq, true_and]
  refine ⟨?_, ?_, ?_, ?_, ?_, ?_, ?_, ?_, ?_, ?_, ?_, ?_⟩
  all_goals split <;> rfl

theorem keep_or_new {α : Type} [DecidableEq α] (x y : α) : (if x = y then y else x) = x := by
  split
  next h => exact h.symm
  · rfl

theorem merge_own (r cur : AgentRuntime) (dirty : Bool) :
    r.merge cur dirty r =
      { r with
        node := cur.node, vmid := cur.vmid, desiredState := cur.desiredState, actualState :=
          cur.actualState
        ownershipMeta := if dirty then cur.ownershipMeta else r.ownershipMeta
        hermesStateRepo := cur.hermesStateRepo, hermesStateBranch := cur.hermesStateBranch
        stateSyncHealth := cur.stateSyncHealth, lastReconcileAt := cur.lastReconcileAt
        lastError := cur.lastError, recoveryCount := cur.recoveryCount
        sandboxExpiresAt := cur.sandboxExpiresAt } := by
  simp only [AgentRuntime.merge, keep_or_new]

/-- Assignments to mapped scalar columns, which every update writes. -/
def Tracked (f : AgentRuntime → AgentRuntime) : Prop :=
  ∀ (r c : AgentRuntime) (dirty : Bool), (f c).runtimeId = c.runtimeId ∧
    r.merge (f c) dirty r = f (r.merge c dirty r)

/-- The statement leaves the row with key `rid` alone. -/
def Aside (rid : Uuid) : Write → Prop
  | .updateRuntime loaded _ _ => loaded.runtimeId ≠ rid
  | .insertRuntime r => r.runtimeId ≠ rid
  | _ => True

/-- The statement inserts no job, which is what a unique index could refuse. -/
def Plain : Write → Prop
  | .insertJob _ => False
  | _ => True

theorem onRow_aside {rid : Uuid} {w : Write} (h : Aside rid w) (x : Option AgentRuntime) :
    onRow rid x w = x := by
  cases w with
  | updateRuntime loaded cur dirty => exact if_neg h
  | insertRuntime r =>
      have hr : (if r.runtimeId = rid then some r else none) = none := if_neg h
      rw [onRow, hr, Option.or_none]
  | updateJob | updateStep | insertJob | insertStep | insertEvent | insertBridge => rfl

theorem aside_stamped {rid : Uuid} {w : Write} (h : Aside rid w) (t : Time) :
    Aside rid (stamped t w) := by
  cases w with
  | insertRuntime r => exact h
  | updateRuntime | updateJob | updateStep | insertJob | insertStep | insertEvent | insertBridge =>
      exact h

theorem foldl_aside {rid : Uuid} {ws : List Write} (h : ∀ w ∈ ws, Aside rid w)
    (x : Option AgentRuntime) :
    ws.foldl (onRow rid) x = x := by
  induction ws generalizing x with
  | nil => rfl
  | cons w ws ih =>
      rw [List.foldl_cons, onRow_aside (h w List.mem_cons_self)]
      exact ih (fun v hv => h v (List.mem_cons_of_mem _ hv)) x

/-- The session sees the row as `r`, and its object for it, if it has one, is in step. -/
structure Ready (db : Db) (s : Session) (rid : Uuid) (r : AgentRuntime) : Prop where
  row : seenRow db s rid = some r
  key : r.runtimeId = rid
  obj : ∀ o ∈ s.objs, o.cur.runtimeId = rid → o = ⟨r, r, false⟩
  keys : ∀ o ∈ s.objs, o.loaded.runtimeId = o.cur.runtimeId
  new : ∀ w ∈ s.new, Aside rid w ∧ Plain w

/-- The session sees the row as `r` and has the object that was loaded as `r`
and now reads `cur`. -/
structure Holds (db : Db) (s : Session) (rid : Uuid) (r cur : AgentRuntime) (dirty : Bool) :
    Prop where
  row : seenRow db s rid = some r
  key : r.runtimeId = rid ∧ cur.runtimeId = rid
  has : ∃ o ∈ s.objs, o.cur.runtimeId = rid
  obj : ∀ o ∈ s.objs, o.cur.runtimeId = rid → o = ⟨r, cur, dirty⟩
  keys : ∀ o ∈ s.objs, o.loaded.runtimeId = o.cur.runtimeId
  new : ∀ w ∈ s.new, Aside rid w ∧ Plain w
  tracks : r.merge cur dirty r = cur

variable {db : Db} {s : Session} {rid : Uuid} {r cur : AgentRuntime} {dirty : Bool}

theorem merge_self (r : AgentRuntime) : r.merge r false r = r := by
  simp [AgentRuntime.merge]

theorem Ready.known (h : Ready db s rid r) {o : Obj} (ho : s.obj? rid = some o) :
    o.cur = r ∧ Holds db s rid r r false := by
  have hm := List.mem_of_find?_eq_some ho
  have hk : o.cur.runtimeId = rid := by simpa using List.find?_some ho
  rw [h.obj o hm hk]
  exact ⟨rfl, h.row, ⟨h.key, h.key⟩, ⟨o, hm, hk⟩, h.obj, h.keys, h.new, merge_self r⟩

theorem Ready.load (h : Ready db s rid r) :
    Holds db { s with objs := s.objs ++ [⟨r, r, false⟩] } rid r r false where
  row := h.row
  key := ⟨h.key, h.key⟩
  has := ⟨⟨r, r, false⟩, by simp, h.key⟩
  obj o hm hk := by
    rcases List.mem_append.mp hm with hm | hm
    · exact h.obj o hm hk
    · exact List.mem_singleton.mp hm
  keys o hm := by
    rcases List.mem_append.mp hm with hm | hm
    · exact h.keys o hm
    · rw [List.mem_singleton.mp hm]
  new := h.new
  tracks := merge_self r

theorem Holds.add (h : Holds db s rid r cur dirty) {x : Write} (hx : Aside rid x ∧ Plain x) :
    Holds db { s with new := s.new ++ [x] } rid r cur dirty where
  row := h.row
  key := h.key
  has := h.has
  obj := h.obj
  keys := h.keys
  new w hw := by
    rcases List.mem_append.mp hw with hw | hw
    · exact h.new w hw
    · rw [List.mem_singleton.mp hw]
      exact hx
  tracks := h.tracks

theorem Holds.modify (h : Holds db s rid r cur dirty) {b : Bool} {f : AgentRuntime → AgentRuntime}
    (hf : r.merge { f cur with runtimeId := rid } (dirty || b) r =
    { f cur with runtimeId := rid }) :
    Holds db (s.modify rid b f) rid r { f cur with runtimeId := rid } (dirty || b) where
  row := h.row
  key := ⟨h.key.1, rfl⟩
  has := by
    obtain ⟨o, hm, hk⟩ := h.has
    refine ⟨_, List.mem_map_of_mem hm, ?_⟩
    rw [if_pos hk]
    exact hk
  obj o hm hk := by
    obtain ⟨o', hm', rfl⟩ := List.mem_map.mp hm
    by_cases hk' : o'.cur.runtimeId = rid
    · have ho := h.obj o' hm' hk'
      rw [if_pos hk']
      subst ho
      simp only [h.key.2]
    · rw [if_neg hk'] at hk
      exact absurd hk hk'
  keys o hm := by
    obtain ⟨o', hm', rfl⟩ := List.mem_map.mp hm
    split
    · exact h.keys o' hm'
    · exact h.keys o' hm'
  new := h.new
  tracks := hf

theorem Holds.assign (h : Holds db s rid r cur dirty) {f : AgentRuntime → AgentRuntime}
    (hf : Tracked f) :
    Holds db (s.modify rid false f) rid r (f cur) dirty := by
  have hk : (f cur).runtimeId = rid := (hf r cur dirty).1.trans h.key.2
  have he : { f cur with runtimeId := rid } = f cur := by rw [← hk]
  have hm : r.merge (f cur) dirty r = f cur := by rw [(hf r cur dirty).2, h.tracks]
  have hh := h.modify (b := false) (f := f) (by rw [he, Bool.or_false, hm])
  rwa [he, Bool.or_false] at hh

theorem write_row {o : Obj} (h : o.loaded.runtimeId = rid) (x : AgentRuntime) :
    o.write.foldl (onRow rid) (some x) = some (o.loaded.merge o.cur o.dirty x) := by
  unfold Obj.write
  split
  · simp [onRow, h]
  next hc =>
      obtain ⟨hc, hd⟩ : changed o.loaded o.cur = false ∧ o.dirty = false := by simpa using hc
      rw [hd, merge_unchanged hc]
      rfl

theorem write_aside {o : Obj} (h : o.loaded.runtimeId ≠ rid) : ∀ w ∈ o.write, Aside rid w := by
  intro w hw
  unfold Obj.write at hw
  split at hw
  · rw [List.mem_singleton.mp hw]
    exact h
  · cases hw

theorem objs_row {os : List Obj} (hobj : ∀ o ∈ os, o.cur.runtimeId = rid → o = ⟨r, cur, dirty⟩)
    (hkeys : ∀ o ∈ os, o.loaded.runtimeId = o.cur.runtimeId) (ht : r.merge cur dirty r = cur)
    (hr : r.runtimeId = rid) {x : AgentRuntime}
    (hx : x = cur ∨ (x = r ∧ ∃ o ∈ os, o.cur.runtimeId = rid)) :
    (os.flatMap Obj.write).foldl (onRow rid) (some x) = some cur := by
  have hcur : r.merge cur dirty cur = cur := by
    have hm := merge_merge r cur dirty r
    rwa [ht] at hm
  induction os generalizing x with
  | nil =>
      rcases hx with rfl | ⟨-, o, hm, -⟩
      · rfl
      · cases hm
  | cons o os ih =>
      have ih' := fun {x} => @ih (fun o' hm => hobj o' (List.mem_cons_of_mem _ hm))
        (fun o' hm => hkeys o' (List.mem_cons_of_mem _ hm)) x
      rw [List.flatMap_cons, List.foldl_append]
      by_cases hk : o.cur.runtimeId = rid
      · have ho := hobj o List.mem_cons_self hk
        subst ho
        rw [write_row hr]
        refine ih' (.inl ?_)
        rcases hx with rfl | ⟨rfl, -⟩
        · exact hcur
        · exact ht
      · have hl : o.loaded.runtimeId ≠ rid := by rwa [hkeys o List.mem_cons_self]
        rw [foldl_aside (write_aside hl)]
        refine ih' ?_
        rcases hx with rfl | ⟨rfl, o', hm, hk'⟩
        · exact .inl rfl
        · rcases List.mem_cons.mp hm with rfl | hm
          · exact absurd hk' hk
          · exact .inr ⟨rfl, o', hm, hk'⟩

theorem jobs_aside (js : List JobObj) : ∀ w ∈ js.flatMap JobObj.write, Aside rid w := by
  intro w hw
  obtain ⟨j, -, hw⟩ := List.mem_flatMap.mp hw
  unfold JobObj.write at hw
  split at hw
  · rw [List.mem_singleton.mp hw]
    trivial
  · cases hw

theorem inserted_aside {ws : List Write} (h : ∀ w ∈ ws, Aside rid w) :
    ∀ o ∈ Session.inserted ws, o.cur.runtimeId ≠ rid ∧ o.loaded.runtimeId = o.cur.runtimeId := by
  induction ws with
  | nil => intro o ho; cases ho
  | cons w ws ih =>
      have ih' := ih fun v hv => h v (List.mem_cons_of_mem _ hv)
      cases w with
      | insertRuntime r =>
          intro o ho
          rcases List.mem_cons.mp ho with rfl | ho
          · exact ⟨h (.insertRuntime r) List.mem_cons_self, rfl⟩
          · exact ih' o ho
      | updateRuntime | updateJob | updateStep | insertJob | insertStep | insertEvent
      | insertBridge =>
          exact ih'

theorem Holds.flush (h : Holds db s rid r cur dirty) (t : Time) :
    Holds db (s.flush t) rid cur cur false where
  row := by
    have hnew : ∀ w ∈ s.new.map (stamped t), Aside rid w := by
      intro w hw
      obtain ⟨v, hv, rfl⟩ := List.mem_map.mp hw
      exact aside_stamped (h.new v hv).1 t
    have hrow : s.txn.foldl (onRow rid) (db.runtime? rid) = some r := h.row
    simp only [seenRow, Session.flush, Session.pending, List.foldl_append]
    rw [hrow, objs_row h.obj h.keys h.tracks h.key.1 (.inr ⟨rfl, h.has⟩),
      foldl_aside (jobs_aside s.jobs),
      foldl_aside hnew]
  key := ⟨h.key.2, h.key.2⟩
  has := by
    obtain ⟨o, hm, hk⟩ := h.has
    exact ⟨⟨o.cur, o.cur, false⟩, List.mem_append_left _ (List.mem_map_of_mem hm), hk⟩
  obj o hm hk := by
    rcases List.mem_append.mp hm with hm | hm
    · obtain ⟨o', hm', rfl⟩ := List.mem_map.mp hm
      rw [h.obj o' hm' hk]
    · exact absurd hk (inserted_aside (fun w hw => by
        obtain ⟨v, hv, rfl⟩ := List.mem_map.mp hw
        exact aside_stamped (h.new v hv).1 t) o hm).1
  keys o hm := by
    rcases List.mem_append.mp hm with hm | hm
    · obtain ⟨o', hm', rfl⟩ := List.mem_map.mp hm
      rfl
    · exact (inserted_aside (fun w hw => by
        obtain ⟨v, hv, rfl⟩ := List.mem_map.mp hw
        exact aside_stamped (h.new v hv).1 t) o hm).2
  new w hw := by cases hw
  tracks := merge_self cur

theorem Holds.commit (h : Holds db s rid r cur dirty) (t : Time) :
    Holds (db.applyAll t s.txn) { s with txn := [] } rid r cur dirty where
  row := (applyAll_row t db s.txn rid).trans h.row
  key := h.key
  has := h.has
  obj := h.obj
  keys := h.keys
  new := h.new
  tracks := h.tracks

theorem plain_pending {s : Session} (h : ∀ w ∈ s.new, Plain w) (t : Time) : ∀ w ∈ s.pending t,
    Plain w := by
  intro w hw
  simp only [Session.pending, List.mem_append] at hw
  rcases hw with (hw | hw) | hw
  · obtain ⟨o, -, hw⟩ := List.mem_flatMap.mp hw
    unfold Obj.write at hw
    split at hw
    · rw [List.mem_singleton.mp hw]
      trivial
    · cases hw
  · obtain ⟨o, -, hw⟩ := List.mem_flatMap.mp hw
    unfold JobObj.write at hw
    split at hw
    · rw [List.mem_singleton.mp hw]
      trivial
    · cases hw
  · obtain ⟨v, hv, rfl⟩ := List.mem_map.mp hw
    have hp := h v hv
    cases v with
    | insertJob j => exact hp
    | updateRuntime | updateJob | updateStep | insertRuntime | insertStep | insertEvent
    | insertBridge => trivial

theorem not_duplicate {s : Session} (h : ∀ w ∈ s.new, Plain w) (t : Time) (db : Db) :
    ¬ db.duplicate (s.pending t) := by
  rintro ⟨j, hj, -⟩
  exact plain_pending h t _ hj

def beside (rid : Uuid) : Eff → Prop
  | .db (.modify rid' _ _) => rid' ≠ rid
  | .db (.addRuntime r) => r.runtimeId ≠ rid
  | .db (.addJob _) | .db (.selectRuntimes _) | .db .flush | .db .commit | .db .close => False
  | _ => True

variable {R : Type} {rem : Remote R} {i : Nat} {w w' : World R}

theorem setSession_self (w : World R) (i : Nat) (s : Session) : (w.setSession i s).sessions i = s :=
  Function.update_self ..

theorem modify_other {b : Bool} {f : AgentRuntime → AgentRuntime} {rid' : Uuid}
    (h : Holds db s rid r cur dirty) (hne : rid' ≠ rid) :
    Holds db (s.modify rid' b f) rid r cur dirty where
  row := h.row
  key := h.key
  has := by
    obtain ⟨o, hm, hk⟩ := h.has
    refine ⟨_, List.mem_map_of_mem hm, ?_⟩
    rw [if_neg (fun he => hne (he.symm.trans hk))]
    exact hk
  obj o hm hk := by
    obtain ⟨o', hm', rfl⟩ := List.mem_map.mp hm
    by_cases hk' : o'.cur.runtimeId = rid'
    · rw [if_pos hk'] at hk
      exact absurd (hk'.symm.trans hk) hne
    · rw [if_neg hk'] at hk ⊢
      exact h.obj o' hm' hk
  keys o hm := by
    obtain ⟨o', hm', rfl⟩ := List.mem_map.mp hm
    split
    · exact h.keys o' hm'
    · exact h.keys o' hm'
  new := h.new
  tracks := h.tracks

theorem load_other {r' : AgentRuntime} (h : Holds db s rid r cur dirty) (hne : r'.runtimeId ≠ rid) :
    Holds db (s.load r').2 rid r cur dirty := by
  unfold Session.load
  split
  · exact h
  · exact
      { row := h.row
        key := h.key
        has := by
          obtain ⟨o, hm, hk⟩ := h.has
          exact ⟨o, List.mem_append_left _ hm, hk⟩
        obj := fun o hm hk => by
          rcases List.mem_append.mp hm with hm | hm
          · exact h.obj o hm hk
          · rw [List.mem_singleton.mp hm] at hk
            exact absurd hk hne
        keys := fun o hm => by
          rcases List.mem_append.mp hm with hm | hm
          · exact h.keys o hm
          · rw [List.mem_singleton.mp hm]
        new := h.new
        tracks := h.tracks }

theorem runtime?_key {db : Db} {rid : Uuid} {r : AgentRuntime} (h : db.runtime? rid = some r) :
    r.runtimeId = rid := by
  obtain ⟨x, hx, rfl⟩ := Option.map_eq_some_iff.mp h
  simpa using List.find?_some hx

theorem Holds.jobs (h : Holds db s rid r cur dirty) (js : List JobObj) :
    Holds db { s with jobs := js } rid r cur dirty :=
  ⟨h.row, h.key, h.has, h.obj, h.keys, h.new, h.tracks⟩

theorem Holds.loadJob (h : Holds db s rid r cur dirty) (j : ProvisioningJob) :
    Holds db (s.loadJob j).2 rid r cur dirty := by
  unfold Session.loadJob
  split
  · exact h
  · exact h.jobs _

theorem Holds.known (h : Holds db s rid r cur dirty) : ∃ o, s.obj? rid = some o ∧ o.cur = cur := by
  cases ho : s.obj? rid with
  | none =>
      obtain ⟨o, hm, hk⟩ := h.has
      exact absurd (by simpa using hk) (List.find?_eq_none.mp ho o hm)
  | some o =>
      have hk : o.cur.runtimeId = rid := by simpa using List.find?_some ho
      refine ⟨o, rfl, ?_⟩
      rw [h.obj o (List.mem_of_find?_eq_some ho) hk]

theorem holds_db_beside {c : DbCall} {a : DbAns c} (hc : beside rid (.db c))
    (hs : w.dbStep i c a w')
    (h : Holds w.db (w.sessions i) rid r cur dirty) :
    Holds w'.db (w'.sessions i) rid r cur dirty := by
  have hset : ∀ s, Holds w.db s rid r cur dirty →
      Holds (w.setSession i s).db ((w.setSession i s).sessions i) rid r cur dirty := by
    intro s hs
    rw [setSession_self]
    exact hs
  cases c with
  | getRuntime rid' =>
      simp only [World.dbStep] at hs
      split at hs
      · rw [hs.2]
        exact h
      next ho =>
          split at hs
          next r' hr' =>
              rw [hs.2]
              refine hset _ (load_other h ?_)
              rintro rfl
              obtain ⟨o, ho', -⟩ := h.known
              rw [runtime?_key hr', ho] at ho'
              cases ho'
          · rw [hs.2]
            exact h
  | getJob jid =>
      simp only [World.dbStep] at hs
      split at hs
      · rw [hs.2]
        exact h
      · split at hs
        · rw [hs.2]
          exact hset _ (h.loadJob _)
        · rw [hs.2]
          exact h
  | findJob q =>
      simp only [World.dbStep] at hs
      split at hs
      · rw [hs.2]
        exact hset _ (h.loadJob _)
      · rw [hs.2]
        exact h
  | placedNodes => rw [hs.2]; exact h
  | findStep jid seq => rw [hs.2]; exact h
  | modify rid' b f => rw [show w' = _ from hs]; exact hset _ (modify_other h hc)
  | modifyJob jid f => rw [show w' = _ from hs]; exact hset _ (h.jobs _)
  | setStep st => rw [show w' = _ from hs]; exact hset _ (h.add ⟨trivial, trivial⟩)
  | addRuntime r' => rw [show w' = _ from hs]; exact hset _ (h.add ⟨hc, trivial⟩)
  | addStep st => rw [show w' = _ from hs]; exact hset _ (h.add ⟨trivial, trivial⟩)
  | addEvent ev => rw [show w' = _ from hs]; exact hset _ (h.add ⟨trivial, trivial⟩)
  | addBridge b => rw [show w' = _ from hs]; exact hset _ (h.add ⟨trivial, trivial⟩)
  | selectRuntimes | addJob | flush | commit | close => exact False.elim hc

theorem holds_beside {e : Eff} {a : Ans e} (hs : w.step rem i e a w') (he : beside rid e)
    (h : Holds w.db (w.sessions i) rid r cur dirty) :
    Holds w'.db (w'.sessions i) rid r cur dirty := by
  cases e with
  | pve c => obtain ⟨x, -, rfl⟩ := hs; exact h
  | kea c => obtain ⟨x, -, rfl⟩ := hs; exact h
  | db c => exact holds_db_beside he hs h
  | sys c =>
      cases c with
      | now | uuid4 | ipNeigh => obtain ⟨-, rfl⟩ := hs; exact h
      | sleep | polls | randbelow | tokenUrlsafe | guestExec | leaseInventory =>
          rw [show w' = w from hs]; exact h

theorem holds_assign {f : AgentRuntime → AgentRuntime} {a : Ans (.db (.modify rid false f))}
    (hs : w.step rem i (.db (.modify rid false f)) a w')
    (h : Holds w.db (w.sessions i) rid r cur dirty)
    (hf : Tracked f) : Holds w'.db (w'.sessions i) rid r (f cur) dirty := by
  rw [show w' = w.setSession i ((w.sessions i).modify rid false f) from hs, setSession_self]
  exact h.assign hf

theorem holds_flush {a : Except PyExc Unit} (hs : w.step rem i (.db .flush) a w')
    (h : Holds w.db (w.sessions i) rid r cur dirty) :
    a = .ok () ∧ Holds w'.db (w'.sessions i) rid cur cur false := by
  cases a with
  | ok u =>
      refine ⟨rfl, ?_⟩
      rw [hs.2.2, setSession_self]
      exact h.flush w.clock
  | error x => exact absurd hs.2.1 (not_duplicate (fun v hv => (h.new v hv).2) w.clock w.db)

theorem holds_commit {a : Ans (.db .commit)} (hs : w.step rem i (.db .commit) a w')
    (h : Holds w.db (w.sessions i) rid r cur dirty) :
    Holds w'.db (w'.sessions i) rid r cur dirty ∧ w'.db.runtime? rid = some r := by
  obtain ⟨t, -, rfl⟩ := hs
  have hc := h.commit t
  refine ⟨?_, hc.row⟩
  have hs' := setSession_self w i { w.sessions i with txn := [] }
  simp only [hs']
  exact hc

theorem ready_get {a : Option AgentRuntime} (hs : w.step rem i (.db (.getRuntime rid)) a w')
    (h : Ready w.db (w.sessions i) rid r) :
    a = some r ∧ Holds w'.db (w'.sessions i) rid r r false := by
  simp only [World.step, World.dbStep] at hs
  split at hs
  next o ho =>
      obtain ⟨ho', hh⟩ := h.known ho
      rw [hs.2, ← ho']
      exact ⟨hs.1, ho' ▸ hh⟩
  next ho =>
      have hv : (w.view i).runtime? rid = some r := (view_row w i rid).trans h.row
      rw [hv] at hs
      refine ⟨hs.1, ?_⟩
      have hl : (w.sessions i).load r = (r, { w.sessions i with objs := (w.sessions
          i).objs ++ [⟨r, r, false⟩] }) := by
        unfold Session.load
        rw [h.key, ho]
      rw [hs.2, setSession_self, hl]
      exact h.load

end ServerManager.Sessions
