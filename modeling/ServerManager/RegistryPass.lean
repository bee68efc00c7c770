import ServerManager.Transactions

namespace ServerManager.RegistryPass

open Interaction FleetDb Fleet Registry Transactions
open Effects (PyExc)

variable {drv : Driver} {env : Env}

/-- What `probe_host` finds at an address. -/
def probed (net : Net) (ip : String) : Probe :=
  match readModels (net.models ip) with
  | (p, none) => p
  | (p, some mid) => { p with healthCompletion := some (completionText (net.completion ip mid)) }

theorem run_probeHost (ip : String) (v : View) :
    run (View.answer drv env) (probeHost ip) v = (.ok (probed env.net ip), v) := by
  have h : run (View.answer drv env) (probeHost ip) v =
      run (View.answer drv env) (match readModels (env.net.models ip) with
        | (p, none) => pure p
        | (p, some mid) =>
            .call (.completion ip mid) fun code => pure { p with healthCompletion := some (completionText code) }) v :=
    rfl
  rw [h, probed]
  rcases readModels (env.net.models ip) with ⟨p, _ | mid⟩
  · rfl
  · rfl

def raising (drv : Driver) (cutover : Bool) : PyExc → PyExc := if cutover then drv.wrap else id

theorem run_send {cutover : Bool} (s : Stmt) (v : View) :
    run (View.answer drv env) (send cutover s) v = v.statement drv env (raising drv cutover) s := by
  cases cutover with
  | false => exact run_execute s v
  | true => exact run_adapter s v

theorem statement_ok {raising : PyExc → PyExc} {s : Stmt} {v v' : View} {rows : s.Rows}
    (h : v.statement drv env raising s = (.ok rows, v')) :
    env.fault v.ops = none ∧ exec drv (env.clock v.ops) v.db s = .ok (rows, v'.db) ∧
      v'.ops = v.ops + 1 := by
  revert h
  unfold View.statement
  cases env.fault v.ops with
  | some x => exact fun h => by cases h
  | none =>
      rcases exec drv (env.clock v.ops) v.db s with x | r
      · exact fun h => by cases h
      · exact fun h => by cases h; exact ⟨rfl, rfl, rfl⟩

theorem run_send_ok {cutover : Bool} {s : Stmt} {v v' : View} {rows : s.Rows}
    (h : run (View.answer drv env) (send cutover s) v = (.ok rows, v')) :
    env.fault v.ops = none ∧ exec drv (env.clock v.ops) v.db s = .ok (rows, v'.db) ∧
      v'.ops = v.ops + 1 :=
  statement_ok ((run_send s v).symm.trans h)

theorem run_execute_ok {s : Stmt} {v v' : View} {rows : s.Rows}
    (h : run (View.answer drv env) (execute s) v = (.ok rows, v')) :
    env.fault v.ops = none ∧ exec drv (env.clock v.ops) v.db s = .ok (rows, v'.db) ∧
      v'.ops = v.ops + 1 :=
  statement_ok ((run_execute s v).symm.trans h)

def rowFor (drv : Driver) (h : HostRow) (p : Probe) (m : ListedModel) : Except PyExc ModelRow := do
  let name ← drv.text m.id
  let limit ← drv.int m.maxModelLen
  pure (Db.modelFor name h.hostId (engineOf h.guestIp) (backendUrl h.guestIp) limit p.state
    (gate p (some (h.desiredPowerState, h.managementMode))))

def writeRows (drv : Driver) (h : HostRow) (p : Probe) : List ListedModel → List ModelRow →
    Except PyExc (List ModelRow)
  | [], rows => .ok rows
  | m :: ms, rows => do
      let new ← rowFor drv h p m
      writeRows drv h p ms (upsertRows rows new h.hostId)

def passRows (drv : Driver) (h : HostRow) (p : Probe) (rows : List ModelRow) :
    Except PyExc (List ModelRow) :=
  if p.listed.isEmpty then .ok (markRows rows h.hostId p.state) else writeRows drv h p p.listed rows

def passAll (drv : Driver) (net : Net) : List HostRow → List ModelRow → Except PyExc (List ModelRow)
  | [], rows => .ok rows
  | h :: hs, rows => do
      let rows ← passRows drv h (probed net h.guestIp) rows
      passAll drv net hs rows

structure Beside (db db' : Db) : Prop where
  hosts : db'.hosts = db.hosts
  settings : db'.settings = db.settings
  events : db'.events = db.events

theorem Beside.rfl {db : Db} : Beside db db := ⟨Eq.refl _, Eq.refl _, Eq.refl _⟩

theorem Beside.trans {a b c : Db} (h : Beside a b) (h' : Beside b c) : Beside a c :=
  ⟨h'.hosts.trans h.hosts, h'.settings.trans h.settings, h'.events.trans h.events⟩

theorem exec_upsertModel_ok {now : Int} {db db' : Db} {name limit : PyJson.Json} {hid : Int}
    {engine url health : String}
    {routable : Bool} {u : Unit} (h : exec drv now db
    (.upsertModel name hid engine url limit health routable) = .ok (u, db')) :
    ∃ n l, drv.text name = .ok n ∧ drv.int limit = .ok l ∧ hid ∈ db.hosts.map HostRow.hostId ∧
      db'.models = upsertRows db.models (Db.modelFor n hid engine url l health routable) hid ∧
        Beside db db' := by
  simp only [exec, bind, Except.bind] at h
  cases ht : drv.text name with
  | error x => rw [ht] at h; cases h
  | ok n =>
      cases hi : drv.int limit with
      | error x => rw [ht, hi] at h; cases h
      | ok l =>
          rw [ht, hi] at h
          simp only at h
          split at h
          next href =>
            obtain ⟨-, rfl⟩ := Prod.mk.inj (Except.ok.inj h)
            exact ⟨n, l, rfl, rfl, href, rfl, rfl, rfl, rfl⟩
          · cases h

def onRegistry : Stmt → Prop
  | .updateHost .. => False
  | .insertEvent .. => False
  | .tickHosts => False
  | _ => True

theorem exec_beside {s : Stmt} (hs : onRegistry s) {now : Int} {db db' : Db} {rows : s.Rows}
    (h : exec drv now db s = .ok (rows, db')) : Beside db db' := by
  cases s with
  | upsertModel name hid engine url limit health routable =>
      obtain ⟨-, -, -, -, -, -, hb⟩ := exec_upsertModel_ok h
      exact hb
  | updateHost ip c v => exact hs.elim
  | insertEvent ip t d => exact hs.elim
  | markHost hid health =>
      obtain ⟨-, rfl⟩ := Prod.mk.inj (Except.ok.inj h)
      exact ⟨rfl, rfl, rfl⟩
  | deleteAliases =>
      obtain ⟨-, rfl⟩ := Prod.mk.inj (Except.ok.inj h)
      exact ⟨rfl, rfl, rfl⟩
  | insertAlias name target health url routable =>
      obtain ⟨-, rfl⟩ := Prod.mk.inj (Except.ok.inj h)
      exact ⟨rfl, rfl, rfl⟩
  | _ =>
      obtain ⟨-, rfl⟩ := Prod.mk.inj (Except.ok.inj h)
      exact Beside.rfl

theorem upsertModels_ok {cutover : Bool} {h : HostRow} {p : Probe} {ms : List ListedModel}
    {v v' : View}
    (hr : run (View.answer drv env) (upsertModels cutover h.hostId h.guestIp p.state
      (gate p (some (h.desiredPowerState, h.managementMode))) ms) v = (.ok (), v')) :
    writeRows drv h p ms v.db.models = .ok v'.db.models ∧ Beside v.db v'.db := by
  induction ms generalizing v with
  | nil =>
      cases hr
      exact ⟨rfl, Beside.rfl⟩
  | cons m ms ih =>
      obtain ⟨rows, u, hs, hrest⟩ := run_bind_ok hr
      obtain ⟨-, he, -⟩ := run_send_ok hs
      obtain ⟨n, l, ht, hi, -, hm, hb⟩ := exec_upsertModel_ok he
      obtain ⟨hw, hb'⟩ := ih hrest
      refine ⟨?_, hb.trans hb'⟩
      rw [hm] at hw
      rw [writeRows, rowFor, ht, hi]
      exact hw

theorem host_of_mem {db : Db} {h : HostRow} (hh : h ∈ db.hosts) : db.host h.hostId = some h := by
  have hk := db.hostKey
  unfold Db.host
  revert hh hk
  induction db.hosts with
  | nil => exact fun hh => absurd hh List.not_mem_nil
  | cons g hs ih =>
      intro hh hk
      rw [List.map_cons, List.nodup_cons] at hk
      rcases List.mem_cons.mp hh with rfl | hh
      · simp
      · have hne : g.hostId ≠ h.hostId := fun he => hk.1 (he ▸ List.mem_map_of_mem hh)
        rw [List.find?_cons_of_neg (by simpa using hne)]
        exact ih hh hk.2

def summaryOf (net : Net) (h : HostRow) : HostSummary :=
  ⟨h.guestIp, h.name, (probed net h.guestIp).state,
    gate (probed net h.guestIp) (some (h.desiredPowerState, h.managementMode))⟩

theorem syncHost_ok {cutover : Bool} {h : HostRow} {row : HostSummary} {v v' : View}
    (hh : h ∈ v.db.hosts)
    (hr : run (View.answer drv env) (syncHost cutover (h.hostId, h.guestIp, h.name)) v =
    (.ok row, v')) :
    passRows drv h (probed env.net h.guestIp) v.db.models = .ok v'.db.models ∧ Beside v.db v'.db ∧
      row = summaryOf env.net h := by
  obtain ⟨p, u, hp, hr⟩ := run_bind_ok hr
  rw [run_probeHost] at hp
  cases hp
  obtain ⟨flags, u, hf, hr⟩ := run_bind_ok hr
  obtain ⟨-, he, -⟩ := run_send_ok hf
  obtain ⟨hfl, hu⟩ := Prod.mk.inj (Except.ok.inj he)
  rw [host_of_mem hh] at hfl
  subst hfl
  obtain ⟨_, t, hw, hr⟩ := run_bind_ok hr
  cases hr
  rw [hu]
  unfold writeHost at hw
  unfold passRows
  split at hw
  next hl =>
    rw [if_pos hl]
    obtain ⟨_, w, hs, hw⟩ := run_bind_ok hw
    cases hw
    obtain ⟨-, he, -⟩ := run_send_ok hs
    obtain ⟨-, hd⟩ := Prod.mk.inj (Except.ok.inj he)
    rw [← hd]
    exact ⟨rfl, ⟨rfl, rfl, rfl⟩, rfl⟩
  next hl =>
    rw [if_neg hl]
    obtain ⟨hp, hb⟩ := upsertModels_ok hw
    exact ⟨hp, hb, rfl⟩

theorem syncHosts_ok {cutover : Bool} {hs : List HostRow} {rows : List HostSummary} {v v' : View}
    (hh : ∀ h ∈ hs, h ∈ v.db.hosts)
    (hr : run (View.answer drv env) (syncHosts cutover
    (hs.map (fun h => (h.hostId, h.guestIp, h.name)))) v =
      (.ok rows, v')) :
    passAll drv env.net hs v.db.models = .ok v'.db.models ∧ Beside v.db v'.db ∧
      rows = hs.map (summaryOf env.net) := by
  induction hs generalizing v rows with
  | nil =>
      cases hr
      exact ⟨rfl, Beside.rfl, rfl⟩
  | cons h hs ih =>
      obtain ⟨row, u, hh₁, hr⟩ := run_bind_ok hr
      obtain ⟨hp, hb, rfl⟩ := syncHost_ok (hh h List.mem_cons_self) hh₁
      obtain ⟨rest, t, hr, he⟩ := run_bind_ok hr
      cases he
      obtain ⟨hp', hb', rfl⟩ :=
        ih (fun g hg => by rw [hb.hosts]; exact hh g (List.mem_cons_of_mem _ hg)) hr
      refine ⟨?_, hb.trans hb', rfl⟩
      rw [passAll, hp]
      exact hp'

def addAliases (url : Option String) : List (String × Option String) → List ModelRow → List ModelRow
  | [], rows => rows
  | (_, none) :: rest, rows => addAliases url rest rows
  | (name, some target) :: rest, rows =>
      let ok :=
        decide (rows.countP (fun r => r.logicalModelName == target && r.routable == some true) > 0)
      addAliases url rest (rows ++ [Db.aliasFor name target (if ok then "healthy" else "unhealthy")
        url ok])

theorem syncAliases_ok {cutover : Bool} {rows : List (String × Option String)} {v v' : View}
    (hr : run (View.answer drv env) (syncAliases cutover rows) v = (.ok (), v')) :
    v'.db.models = addAliases (aliasUrl cutover) rows v.db.models ∧ Beside v.db v'.db := by
  induction rows generalizing v with
  | nil =>
      cases hr
      exact ⟨rfl, Beside.rfl⟩
  | cons row rows ih =>
      rcases row with ⟨name, _ | target⟩
      · exact ih hr
      · obtain ⟨_, u, ha, hr⟩ := run_bind_ok hr
        obtain ⟨n, t, hn, ha⟩ := run_bind_ok ha
        obtain ⟨_, t', hi, ha⟩ := run_bind_ok ha
        cases ha
        obtain ⟨-, he, -⟩ := run_send_ok hn
        obtain ⟨hcount, ht⟩ := Prod.mk.inj (Except.ok.inj he)
        obtain ⟨-, he, -⟩ := run_send_ok hi
        obtain ⟨-, hu⟩ := Prod.mk.inj (Except.ok.inj he)
        obtain ⟨hm, hb⟩ := ih hr
        refine ⟨?_, Beside.trans ?_ hb⟩
        · rw [hm, ← hu, ← ht, ← hcount]
          rfl
        · rw [← hu, ← ht]
          exact ⟨rfl, rfl, rfl⟩

def inventory (db : Db) : List HostRow := db.hosts.insertionSort (fun a b => a.hostId ≤ b.hostId)

def aliasRows (db : Db) : List (String × Option String) :=
  if aliasesOn (db.setting "v011.role_aliases.enabled") then aliases else []

/-- The registry after a sync in which every statement succeeds. -/
def synced (drv : Driver) (net : Net) (url : Option String) (db : Db) :
    Except PyExc (List ModelRow) := do
  let rows ← passAll drv net (inventory db) db.models
  pure (addAliases url (aliasRows db) (rows.filter (fun r => r.isAlias != some true)))

theorem syncBody_ok {cutover : Bool} {summary : List HostSummary} {v v' : View}
    (hr : run (View.answer drv env) (syncBody cutover) v = (.ok summary, v')) :
    synced drv env.net (aliasUrl cutover) v.db = .ok v'.db.models ∧ Beside v.db v'.db ∧
      summary = (inventory v.db).map (summaryOf env.net) := by
  obtain ⟨hosts, u, hi, hr⟩ := run_bind_ok hr
  obtain ⟨-, he, -⟩ := run_execute_ok hi
  obtain ⟨rfl, hu⟩ := Prod.mk.inj (Except.ok.inj he)
  obtain ⟨rows, t, hs, hr⟩ := run_bind_ok hr
  have hmem : ∀ h ∈ inventory v.db, h ∈ u.db.hosts := fun h hh => by
    rw [← hu]
    exact (List.mem_insertionSort _).mp hh
  obtain ⟨hp, hb, rfl⟩ := syncHosts_ok hmem hs
  obtain ⟨row, u₂, hrow, hr⟩ := run_bind_ok hr
  obtain ⟨-, he, -⟩ := run_execute_ok hrow
  obtain ⟨rfl, hu₂⟩ := Prod.mk.inj (Except.ok.inj he)
  obtain ⟨_, u₃, hdel, hr⟩ := run_bind_ok hr
  obtain ⟨-, he, -⟩ := run_send_ok hdel
  obtain ⟨-, hu₃⟩ := Prod.mk.inj (Except.ok.inj he)
  obtain ⟨_, u₄, hal, hr⟩ := run_bind_ok hr
  cases hr
  obtain ⟨hm, hb'⟩ := syncAliases_ok hal
  rw [← hu₃, ← hu₂] at hm hb'
  rw [← hu] at hp hb
  have hdel' : Beside t.db t.db.deleteAliases := ⟨rfl, rfl, rfl⟩
  refine ⟨?_, hb.trans (hdel'.trans hb'), rfl⟩
  have hset : t.db.setting "v011.role_aliases.enabled" =
      v.db.setting "v011.role_aliases.enabled" := by
    unfold Db.setting
    rw [hb.settings]
  rw [hset] at hm
  rw [synced, hp, hm]
  rfl

def rowsOf (k : Option Int) (rows : List ModelRow) : List ModelRow :=
  rows.filter (fun r => r.hostId == k)

theorem mem_rowsOf {k : Option Int} {rows : List ModelRow} {r : ModelRow} :
    r ∈ rowsOf k rows ↔ r ∈ rows ∧ r.hostId = k := by
  simp [rowsOf, List.mem_filter]

theorem rowsOf_map {f : ModelRow → ModelRow} (hf : ∀ r, (f r).hostId = r.hostId) (k : Option Int)
    (rows : List ModelRow) :
    rowsOf k (rows.map f) = (rowsOf k rows).map f := by
  unfold rowsOf
  rw [List.filter_map]
  refine congrArg (List.map f) (List.filter_congr fun r _ => ?_)
  simp only [Function.comp, hf]

theorem rowsOf_markRows_self (rows : List ModelRow) (hid : Int) (health : String) :
    rowsOf (some hid) (markRows rows hid health) = markRows (rowsOf (some hid) rows) hid health :=
  rowsOf_map (fun r => by split <;> rfl) _ _

theorem rowsOf_markRows_ne {k : Option Int} {hid : Int} (hk : k ≠ some hid) (rows : List ModelRow)
    (health : String) :
    rowsOf k (markRows rows hid health) = rowsOf k rows := by
  unfold markRows
  rw [rowsOf_map (fun r => by split <;> rfl)]
  calc (rowsOf k rows).map _ = (rowsOf k rows).map id := by
        refine List.map_congr_left fun r hr => if_neg ?_
        rw [(mem_rowsOf.mp hr).2]
        simpa using hk
    _ = rowsOf k rows := List.map_id _

theorem any_at_rowsOf (rows : List ModelRow) (name : String) (hid : Int) :
    (rowsOf (some hid) rows).any (·.at name hid) = rows.any (·.at name hid) := by
  unfold rowsOf
  rw [List.any_filter]
  refine congrArg (List.any rows) (funext fun r => ?_)
  unfold ModelRow.at
  cases r.hostId == some hid <;> simp

theorem rowsOf_upsertRows_self {new : ModelRow} {hid : Int} (hnew : new.hostId = some hid)
    (rows : List ModelRow) :
    rowsOf (some hid) (upsertRows rows new hid) = upsertRows (rowsOf (some hid) rows) new hid := by
  unfold upsertRows
  rw [any_at_rowsOf]
  split
  · exact rowsOf_map (fun r => by split <;> rfl) _ _
  · unfold rowsOf
    rw [List.filter_append]
    simp [hnew]

theorem rowsOf_upsertRows_ne {new : ModelRow} {hid : Int} {k : Option Int}
    (hnew : new.hostId = some hid)
    (hk : k ≠ some hid) (rows : List ModelRow) :
    rowsOf k (upsertRows rows new hid) = rowsOf k rows := by
  unfold upsertRows
  split
  · rw [rowsOf_map (fun r => by split <;> rfl)]
    calc (rowsOf k rows).map _ = (rowsOf k rows).map id := by
          refine List.map_congr_left fun r hr => if_neg fun hat => hk ?_
          rw [← (mem_rowsOf.mp hr).2]
          exact (ModelRow.at_iff.mp hat).2
      _ = rowsOf k rows := List.map_id _
  · unfold rowsOf
    rw [List.filter_append]
    have hne : (new.hostId == k) = false := by
      rw [hnew]
      exact beq_eq_false_iff_ne.mpr fun he => hk he.symm
    simp [hne]

theorem rowFor_ok {h : HostRow} {p : Probe} {m : ListedModel} {new : ModelRow}
    (hr : rowFor drv h p m = .ok new) :
    drv.text m.id = .ok new.logicalModelName ∧ new.hostId = some h.hostId ∧
      new.routable = some (gate p (some (h.desiredPowerState, h.managementMode))) ∧
        new.isAlias = some false := by
  simp only [rowFor, bind, Except.bind] at hr
  cases ht : drv.text m.id with
  | error x => rw [ht] at hr; cases hr
  | ok name =>
      cases hi : drv.int m.maxModelLen with
      | error x => rw [ht, hi] at hr; cases hr
      | ok limit =>
          rw [ht, hi] at hr
          cases hr
          exact ⟨rfl, rfl, rfl, rfl⟩

theorem writeRows_cons {h : HostRow} {p : Probe} {m : ListedModel} {ms : List ListedModel}
    {rows rows' : List ModelRow}
    (hr : writeRows drv h p (m :: ms) rows = .ok rows') :
    ∃ new, rowFor drv h p m = .ok new ∧ writeRows drv h p ms (upsertRows rows new h.hostId) =
      .ok rows' := by
  simp only [writeRows, bind, Except.bind] at hr
  cases hf : rowFor drv h p m with
  | error x => rw [hf] at hr; cases hr
  | ok new =>
      rw [hf] at hr
      exact ⟨new, rfl, hr⟩

theorem writeRows_self {h : HostRow} {p : Probe} {ms : List ListedModel}
    {rows rows' : List ModelRow}
    (hr : writeRows drv h p ms rows = .ok rows') :
    writeRows drv h p ms (rowsOf (some h.hostId) rows) = .ok (rowsOf (some h.hostId) rows') := by
  induction ms generalizing rows with
  | nil =>
      cases hr
      rfl
  | cons m ms ih =>
      obtain ⟨new, hf, hr⟩ := writeRows_cons hr
      rw [writeRows, hf]
      have hi := ih hr
      rw [rowsOf_upsertRows_self (rowFor_ok hf).2.1] at hi
      exact hi

theorem writeRows_ne {h : HostRow} {p : Probe} {ms : List ListedModel} {rows rows' : List ModelRow}
    {k : Option Int}
    (hk : k ≠ some h.hostId) (hr : writeRows drv h p ms rows = .ok rows') :
    rowsOf k rows' = rowsOf k rows := by
  induction ms generalizing rows with
  | nil =>
      cases hr
      rfl
  | cons m ms ih =>
      obtain ⟨new, hf, hr⟩ := writeRows_cons hr
      rw [ih hr, rowsOf_upsertRows_ne (rowFor_ok hf).2.1 hk]

theorem passRows_self {h : HostRow} {p : Probe} {rows rows' : List ModelRow}
    (hr : passRows drv h p rows = .ok rows') :
    passRows drv h p (rowsOf (some h.hostId) rows) = .ok (rowsOf (some h.hostId) rows') := by
  unfold passRows at hr ⊢
  split at hr
  next hl =>
    rw [if_pos hl]
    cases hr
    rw [rowsOf_markRows_self]
  next hl =>
    rw [if_neg hl]
    exact writeRows_self hr

theorem passRows_ne {h : HostRow} {p : Probe} {rows rows' : List ModelRow} {k : Option Int}
    (hk : k ≠ some h.hostId) (hr : passRows drv h p rows = .ok rows') :
    rowsOf k rows' = rowsOf k rows := by
  unfold passRows at hr
  split at hr
  · cases hr
    exact rowsOf_markRows_ne hk _ _
  · exact writeRows_ne hk hr

theorem passAll_cons {net : Net} {h : HostRow} {hs : List HostRow} {rows rows' : List ModelRow}
    (hr : passAll drv net (h :: hs) rows = .ok rows') :
    ∃ mid, passRows drv h (probed net h.guestIp) rows = .ok mid ∧
      passAll drv net hs mid = .ok rows' := by
  simp only [passAll, bind, Except.bind] at hr
  cases hp : passRows drv h (probed net h.guestIp) rows with
  | error x => rw [hp] at hr; cases hr
  | ok mid =>
      rw [hp] at hr
      exact ⟨mid, rfl, hr⟩

theorem passAll_ne {net : Net} {hs : List HostRow} {rows rows' : List ModelRow} {k : Option Int}
    (hk : ∀ h ∈ hs, k ≠ some h.hostId) (hr : passAll drv net hs rows = .ok rows') :
    rowsOf k rows' = rowsOf k rows := by
  induction hs generalizing rows with
  | nil =>
      cases hr
      rfl
  | cons h hs ih =>
      obtain ⟨mid, hp, hr⟩ := passAll_cons hr
      rw [ih (fun g hg => hk g (List.mem_cons_of_mem _ hg)) hr,
        passRows_ne (hk h List.mem_cons_self) hp]

theorem passAll_self {net : Net} {hs : List HostRow} {rows rows' : List ModelRow} {h : HostRow}
    (hn : (hs.map HostRow.hostId).Nodup) (hh : h ∈ hs) (hr : passAll drv net hs rows = .ok rows') :
    passRows drv h (probed net h.guestIp) (rowsOf (some h.hostId) rows) =
      .ok (rowsOf (some h.hostId) rows') := by
  induction hs generalizing rows with
  | nil => exact absurd hh List.not_mem_nil
  | cons g hs ih =>
      obtain ⟨mid, hp, hq⟩ := passAll_cons hr
      rw [List.map_cons, List.nodup_cons] at hn
      rcases List.mem_cons.mp hh with rfl | hh
      · have hrest : rowsOf (some h.hostId) rows' = rowsOf (some h.hostId) mid := by
          refine passAll_ne (fun f hf he => ?_) hq
          rw [Option.some.inj he] at hn
          exact hn.1 (List.mem_map_of_mem hf)
        rw [hrest]
        exact passRows_self hp
      · have hne : some h.hostId ≠ some g.hostId := fun he =>
          hn.1 (Option.some.inj he ▸ List.mem_map_of_mem hh)
        rw [← passRows_ne hne hp]
        exact ih hn.2 hh hq

/-- The host lists something that is stored under this name. -/
def Lists (drv : Driver) (p : Probe) (name : String) : Prop :=
  ∃ m ∈ p.listed, drv.text m.id = .ok name

theorem mem_upsertRows {rows : List ModelRow} {new r : ModelRow} {hid : Int}
    (hr : r ∈ upsertRows rows new hid) :
    (r ∈ rows ∧ r.at new.logicalModelName hid = false) ∨
      (r.logicalModelName = new.logicalModelName ∧ r.routable = new.routable) := by
  unfold upsertRows at hr
  split at hr
  · obtain ⟨s, hs, rfl⟩ := List.mem_map.mp hr
    split
    next hat => exact .inr ⟨(ModelRow.at_iff.mp hat).1, rfl⟩
    next hat => exact .inl ⟨hs, by simpa using hat⟩
  next hany =>
    rcases List.mem_append.mp hr with hr | hr
    · left
      refine ⟨hr, ?_⟩
      by_contra hat
      exact hany (List.any_eq_true.mpr ⟨r, hr, by simpa using hat⟩)
    · rw [List.mem_singleton.mp hr]
      exact .inr ⟨rfl, rfl⟩

theorem mem_upsertRows_of_not_at {rows : List ModelRow} {new r : ModelRow} {hid : Int}
    (hr : r ∈ rows)
    (hat : r.at new.logicalModelName hid = false) : r ∈ upsertRows rows new hid := by
  unfold upsertRows
  split
  · exact List.mem_map.mpr ⟨r, hr, by rw [hat]; rfl⟩
  · exact List.mem_append_left _ hr

/-- A row of the host after the pass is one it had and whose model it does not
list any more, or one that its gate has been written to. -/
theorem mem_writeRows {h : HostRow} {p : Probe} {ms : List ListedModel} {rows rows' : List ModelRow}
    {r : ModelRow}
    (hw : writeRows drv h p ms rows = .ok rows') (hr : r ∈ rows') (hk : r.hostId = some h.hostId) :
    (r ∈ rows ∧ ∀ m ∈ ms, drv.text m.id ≠ .ok r.logicalModelName) ∨
      ((∃ m ∈ ms, drv.text m.id = .ok r.logicalModelName) ∧
        r.routable = some (gate p (some (h.desiredPowerState, h.managementMode)))) := by
  induction ms generalizing rows with
  | nil =>
      cases hw
      exact .inl ⟨hr, fun m hm => absurd hm List.not_mem_nil⟩
  | cons m ms ih =>
      obtain ⟨new, hf, hw⟩ := writeRows_cons hw
      obtain ⟨hn, -, hg, -⟩ := rowFor_ok hf
      rcases ih hw with ⟨hu, hnot⟩ | ⟨⟨m', hm', ht⟩, hg'⟩
      · rcases mem_upsertRows hu with ⟨hr', hat⟩ | ⟨hname, hrt⟩
        · left
          refine ⟨hr', fun m' hm' => ?_⟩
          rcases List.mem_cons.mp hm' with rfl | hm'
          · intro ht
            have hat' : r.at new.logicalModelName h.hostId = true :=
              ModelRow.at_iff.mpr ⟨Except.ok.inj (ht.symm.trans hn), hk⟩
            rw [hat'] at hat
            cases hat
          · exact hnot m' hm'
        · right
          exact ⟨⟨m, List.mem_cons_self, by rw [hname]; exact hn⟩, by rw [hrt]; exact hg⟩
      · exact .inr ⟨⟨m', List.mem_cons_of_mem _ hm', ht⟩, hg'⟩

theorem writeRows_keeps {h : HostRow} {p : Probe} {ms : List ListedModel}
    {rows rows' : List ModelRow} {r : ModelRow}
    (hw : writeRows drv h p ms rows = .ok rows') (hr : r ∈ rows)
    (hnot : ∀ m ∈ ms, drv.text m.id ≠ .ok r.logicalModelName) : r ∈ rows' := by
  induction ms generalizing rows with
  | nil =>
      cases hw
      exact hr
  | cons m ms ih =>
      obtain ⟨new, hf, hw⟩ := writeRows_cons hw
      refine ih hw (mem_upsertRows_of_not_at hr ?_) fun m' hm' =>
        hnot m' (List.mem_cons_of_mem _ hm')
      by_contra hat
      obtain ⟨hname, -⟩ := ModelRow.at_iff.mp (by simpa using hat)
      exact hnot m List.mem_cons_self (hname ▸ (rowFor_ok hf).1)

def countTarget (rows : List ModelRow) (target : String) : Nat :=
  rows.countP (fun r => r.logicalModelName == target && r.routable == some true)

def aliasRow (url : Option String) (rows : List ModelRow) (name target : String) : ModelRow :=
  let ok := decide (countTarget rows target > 0)
  Db.aliasFor name target (if ok then "healthy" else "unhealthy") url ok

theorem aliasRow_append (url : Option String) (rows : List ModelRow) (name target : String)
    {x : ModelRow}
    (hx : x.logicalModelName ≠ target) : aliasRow url (rows ++ [x]) name target =
    aliasRow url rows name target := by
  have hc : countTarget (rows ++ [x]) target = countTarget rows target := by
    unfold countTarget
    rw [List.countP_append, List.countP_singleton, if_neg (by simp [hx]), Nat.add_zero]
  unfold aliasRow
  rw [hc]

theorem addAliases_eq (url : Option String) {named : List (String × Option String)}
    (hsep : ∀ a ∈ named, ∀ b ∈ named, b.2 ≠ some a.1) (rows : List ModelRow) :
    addAliases url named rows =
      rows ++ named.filterMap (fun a => a.2.map (fun target => aliasRow url rows a.1 target)) := by
  induction named generalizing rows with
  | nil => simp [addAliases]
  | cons a named ih =>
      have hrest : ∀ a ∈ named, ∀ b ∈ named, b.2 ≠ some a.1 := fun x hx y hy =>
        hsep x (List.mem_cons_of_mem _ hx) y (List.mem_cons_of_mem _ hy)
      rcases a with ⟨name, _ | target⟩
      · rw [addAliases, ih hrest]
        rfl
      · have hstep : addAliases url ((name, some target) :: named) rows =
            addAliases url named (rows ++ [aliasRow url rows name target]) := rfl
        rw [hstep, ih hrest, List.append_assoc]
        refine congrArg (rows ++ ·) (congrArg (aliasRow url rows name target :: ·) ?_)
        refine List.filterMap_congr fun b hb => ?_
        rcases b with ⟨name', _ | target'⟩
        · rfl
        · have hne : (aliasRow url rows name target).logicalModelName ≠ target' := fun he =>
            hsep (name, some target) List.mem_cons_self (name', some target')
              (List.mem_cons_of_mem _ hb)
              (congrArg some he.symm)
          simp only [Option.map_some]
          rw [aliasRow_append _ _ _ _ hne]

theorem aliases_apart (db : Db) : ∀ a ∈ aliasRows db, ∀ b ∈ aliasRows db, b.2 ≠ some a.1 := by
  unfold aliasRows
  split
  · decide
  · nofun

def kept (rows : List ModelRow) : List ModelRow := rows.filter (fun r => r.isAlias != some true)

theorem mem_kept {rows : List ModelRow} {r : ModelRow} : r ∈ kept rows ↔
    r ∈ rows ∧ r.isAlias ≠ some true := by
  simp [kept, List.mem_filter]

theorem synced_eq {net : Net} {url : Option String} {db : Db} {rows' : List ModelRow}
    (h : synced drv net url db = .ok rows') :
    ∃ rows, passAll drv net (inventory db) db.models = .ok rows ∧
      rows' = kept rows ++ (aliasRows db).filterMap
        (fun a => a.2.map (fun target => aliasRow url (kept rows) a.1 target)) := by
  simp only [synced, bind, Except.bind] at h
  cases hp : passAll drv net (inventory db) db.models with
  | error x => rw [hp] at h; cases h
  | ok rows =>
      rw [hp] at h
      refine ⟨rows, rfl, ?_⟩
      rw [← addAliases_eq url (aliases_apart db)]
      exact (Except.ok.inj h).symm

theorem countTarget_pos {rows : List ModelRow} {target : String} :
    0 < countTarget rows target ↔ ∃ r ∈ rows, r.logicalModelName = target ∧
      r.routable = some true := by
  unfold countTarget
  rw [List.countP_pos_iff]
  simp

theorem inventory_nodup (db : Db) : ((inventory db).map HostRow.hostId).Nodup :=
  ((List.perm_insertionSort _ db.hosts).map HostRow.hostId).nodup_iff.mpr db.hostKey

theorem mem_inventory {db : Db} {h : HostRow} : h ∈ inventory db ↔ h ∈ db.hosts :=
  List.mem_insertionSort _

end ServerManager.RegistryPass
