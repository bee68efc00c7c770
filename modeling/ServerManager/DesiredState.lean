import ServerManager.HostsApi
import ServerManager.RegistryGate

namespace ServerManager.DesiredState

open Interaction PyJson FleetDb Fleet Registry Transactions RegistryPass HostsApi
open Effects (PyExc)

variable {drv : Driver} {env : Env}

def callsRegistry : Eff → Prop
  | .sql s => onRegistry s
  | .orm s => onRegistry s
  | .pve _ => False
  | .restart _ => False
  | _ => True

/-- Neither what is committed nor what the open transaction would commit differs but in the
registry. -/
def OnlyRegistry (db : Db) (w : World) : Prop :=
  Beside db w.db ∧ Pending Beside w

theorem effect_beside {s : Stmt} (hs : onRegistry s) (now : Int) (db : Db) :
    Beside db (effect drv now s db) := by
  unfold Fleet.effect
  split
  next r hr =>
    obtain ⟨rows, db'⟩ := r
    exact exec_beside hs hr
  · exact Beside.rfl

theorem answer_onlyRegistry {db : Db} (w : World) (e : Eff) (he : callsRegistry e)
    (h : OnlyRegistry db w) :
    OnlyRegistry db (env.answer drv w e).2 := by
  obtain ⟨hdb, htxn⟩ := h
  refine ⟨htxn.committed (R := Beside) Beside.trans hdb drv _ _ _ fun s hs d => ?_,
    htxn.answer (R := Beside) (fun _ => Beside.rfl) Beside.trans drv _ _ _ fun s hs d => ?_⟩
  · rw [hs] at he
    exact effect_beside he _ d
  · rw [hs] at he
    exact effect_beside he _ d

theorem only_orRaise {α : Type} {φ : Eff → Prop} (x : Except PyExc α) : Only φ (orRaise x) := by
  cases x with
  | ok a => trivial
  | error e => trivial

theorem only_pg {φ : Eff → Prop} (h : φ .connect) : Only φ pg := only_call h fun _ => trivial

theorem only_execute {φ : Eff → Prop} {s : Stmt} (h : φ (.sql s)) : Only φ (execute s) :=
  only_call h fun a => only_orRaise a

theorem only_commit {φ : Eff → Prop} (h : φ .commit) : Only φ commit :=
  only_call h fun a => only_orRaise a

theorem only_rollback {φ : Eff → Prop} (h : φ .rollback) : Only φ rollback :=
  only_call h fun a => only_orRaise a

def onSync : Eff → Prop
  | .sql s => onRegistry s
  | .orm s => onRegistry s
  | .pve _ => False
  | .restart _ => False
  | .sleep _ => False
  | .auditFile .. => False
  | _ => True

theorem onSync.callsRegistry {e : Eff} (h : onSync e) : callsRegistry e := by
  cases e with
  | sql s => exact h
  | orm s => exact h
  | pve r => exact h
  | restart ip => exact h
  | _ => trivial

/-- An alias that a statement inserts is one of the list, with its target. -/
def ofList : Stmt → Prop
  | .insertAlias name target .. => (name, some target) ∈ aliases
  | _ => True

def namesAliases : Eff → Prop
  | .sql s => ofList s
  | .orm s => ofList s
  | _ => True

def syncContact (e : Eff) : Prop := onSync e ∧ namesAliases e

theorem only_send {cutover : Bool} {s : Stmt} (hs : onRegistry s) (ha : ofList s) :
    Only syncContact (send cutover s) := by
  cases cutover with
  | false => exact only_call ⟨hs, ha⟩ fun a => only_orRaise a
  | true => exact only_call ⟨hs, ha⟩ fun a => only_orRaise a

theorem only_probeHost {φ : Eff → Prop} (ip : String) (hm : φ (.getModels ip))
    (hc : ∀ m, φ (.completion ip m)) :
    Only φ (probeHost ip) := by
  refine only_call hm fun a => ?_
  rcases readModels a with ⟨p, _ | mid⟩
  · trivial
  · exact only_call (hc mid) fun _ => trivial

theorem only_syncHosts (cutover : Bool) (hosts : List (Int × String × String)) :
    Only syncContact (syncHosts cutover hosts) := by
  have hupsert : ∀ hid ip state rt ms, Only syncContact
      (upsertModels cutover hid ip state rt ms) := by
    intro hid ip state rt ms
    induction ms with
    | nil => trivial
    | cons m ms ih => exact (only_send (by trivial) (by trivial)).bind fun _ => ih
  induction hosts with
  | nil => trivial
  | cons host hosts ih =>
      refine Only.bind ?_ fun _ => ih.bind fun _ => trivial
      apply (only_probeHost _ ⟨trivial, trivial⟩ fun _ => ⟨trivial, trivial⟩).bind
      intro p
      apply (only_send (by trivial) (by trivial)).bind
      intro flags
      refine Only.bind ?_ fun _ => trivial
      unfold writeHost
      split
      · exact (only_send (by trivial) (by trivial)).bind fun _ => trivial
      · exact hupsert _ _ _ _ _

theorem only_syncAliases (cutover : Bool) {rows : List (String × Option String)}
    (hrows : ∀ row ∈ rows, row ∈ aliases) :
    Only syncContact (syncAliases cutover rows) := by
  induction rows with
  | nil => trivial
  | cons row rows ih =>
      have ih := ih fun r hr => hrows r (List.mem_cons_of_mem _ hr)
      rcases row with ⟨name, _ | target⟩
      · exact ih
      · have halias : (name, some target) ∈ aliases := hrows _ List.mem_cons_self
        apply Only.bind _ fun _ => ih
        refine (only_send (by trivial) (by trivial)).bind fun n : Nat => ?_
        refine Only.bind ?_ fun _ => only_pure _
        exact only_send (s := .insertAlias name target _ _ _) trivial halias

theorem only_closing {α : Type} {φ : Eff → Prop} {p : Svc α} (hp : Only φ p) (hc : φ .close) :
    Only φ (closing p) := by
  refine Only.bind (hp.tryCatch fun x => ?_) fun a => ?_
  · exact (only_call hc fun _ => only_pure _).bind fun _ => only_throw x
  · exact (only_call hc fun _ => only_pure _).bind fun _ => only_pure a

theorem only_contacts (cutover : Bool) : Only syncContact (syncRegistry cutover) := by
  refine (only_pg ⟨trivial, trivial⟩).bind fun b => ?_
  split
  · refine only_closing (Only.tryCatch ?_ fun x => ?_) ⟨trivial, trivial⟩
    · refine Only.bind ?_ fun summary => (only_commit ⟨trivial, trivial⟩).bind fun _ => only_pure _
      refine (only_execute ⟨trivial, trivial⟩).bind fun hosts =>
        (only_syncHosts cutover hosts).bind fun rows => ?_
      refine (only_execute ⟨trivial, trivial⟩).bind fun row =>
        (only_send (by trivial) (by trivial)).bind fun _ => ?_
      refine (only_syncAliases cutover fun a ha => ?_).bind fun _ => only_pure _
      split at ha
      · exact ha
      · exact absurd ha List.not_mem_nil
    · exact (only_rollback ⟨trivial, trivial⟩).bind fun _ => only_pure _
  · exact only_pure _

theorem only_sync (cutover : Bool) : Only onSync (syncRegistry cutover) :=
  (only_contacts cutover).mono fun _ he => he.1

theorem only_syncRegistry (cutover : Bool) : Only callsRegistry (syncRegistry cutover) :=
  (only_sync cutover).mono fun _ => onSync.callsRegistry

theorem sync_beside (drv : Driver) (env : Env) (cutover : Bool) (w : World) (hw : w.txn = .closed) :
    Beside w.db (run (env.answer drv) (syncRegistry cutover) w).2.db := by
  have h : OnlyRegistry w.db w := ⟨Beside.rfl, fun pending hp => by rw [hw] at hp; cases hp⟩
  exact ((only_syncRegistry cutover).run_keeps (f := env.answer drv)
    (fun s e he hs => answer_onlyRegistry s e he hs) h).1

def changesOf (dps mode : Json) : List (HostColumn × String) :=
  (if dps.truthy then [(.desiredPowerState, dps.pyStr)] else []) ++
    (if mode.truthy then [(.managementMode, mode.pyStr)] else [])

def applied (ip : String) (changes : List (HostColumn × String)) (db : Db) : Db :=
  changes.foldl (fun db c => db.setHost ip c.1 c.2) db

def updateAll (cutover : Bool) (ip : String) : List (HostColumn × String) → Svc Unit
  | [] => pure ()
  | c :: cs => do
      let _ ← send cutover (.updateHost ip c.1 c.2)
      updateAll cutover ip cs

theorem changeHost_eq (cutover : Bool) (ip : String) (dps mode : Json) (detail : String) :
    changeHost cutover ip dps mode detail = (do
      updateAll cutover ip (changesOf dps mode)
      let _ ← send cutover (.insertEvent ip "desired_state_change" detail)
      send cutover (.hostState ip)) := by
  unfold changeHost updateHost changesOf
  cases dps.truthy <;> cases mode.truthy <;>
    simp only [Bool.false_eq_true, if_false, if_true, List.nil_append, List.append_nil,
      List.cons_append, updateAll,
      Prog.bind_assoc] <;> rfl

theorem run_updateAll (drv : Driver) (env : Env) (ip : String) (cs : List (HostColumn × String))
    (w : World) :
    ∃ w', w'.txn = w.txn ∧
      ((run (env.answer drv) (updateAll true ip cs) w = (.ok (), w') ∧ w'.db = applied ip cs w.db ∧
          w'.ops = w.ops + cs.length ∧ ∀ i < cs.length, env.fault (w.ops + i) = none) ∨
        ∃ x k, k < cs.length ∧ run (env.answer drv) (updateAll true ip cs) w = (.error x, w') ∧
          w'.db = applied ip (cs.take k) w.db ∧ (∀ i < k, env.fault (w.ops + i) = none) ∧
          env.fault (w.ops + k) ≠ none) := by
  induction cs generalizing w with
  | nil => exact ⟨w, rfl, .inl ⟨rfl, rfl, rfl, fun i hi => absurd hi (Nat.not_lt_zero i)⟩⟩
  | cons c cs ih =>
      rw [updateAll, run_bind, send, if_pos rfl, run_adapter, answer_orm]
      cases hf : env.fault w.ops with
      | some x =>
          refine ⟨{ w with ops := w.ops + 1, now := env.clock w.ops }, rfl,
            .inr ⟨drv.wrap x, 0, Nat.succ_pos _, rfl, rfl, fun i hi => absurd hi (Nat.not_lt_zero i), ?_⟩⟩
          rw [Nat.add_zero, hf]
          nofun
      | none =>
          have hclear : ∀ {k : Nat}, (∀ i < k, env.fault (w.ops + 1 + i) = none) →
              ∀ i < k + 1, env.fault (w.ops + i) = none := by
            intro k hk i hi
            cases i with
            | zero => exact hf
            | succ i =>
                have := hk i (by omega)
                rwa [Nat.add_assoc, Nat.add_comm 1 i] at this
          obtain ⟨w', ht, h⟩ :=
            ih { w with db := w.db.setHost ip c.1 c.2, ops := w.ops + 1, now := env.clock w.ops }
          refine ⟨w', ht, ?_⟩
          rcases h with ⟨hr, hd, ho, hn⟩ | ⟨x, k, hk, hr, hd, hn, hx⟩
          · left
            refine ⟨hr, hd, ?_, hclear hn⟩
            rw [ho, List.length_cons]
            simp only
            omega
          · right
            refine ⟨x, k + 1, Nat.succ_lt_succ hk, hr, hd, hclear hn, ?_⟩
            rwa [Nat.add_assoc, Nat.add_comm 1 k] at hx

theorem applied_events (ip : String) (cs : List (HostColumn × String)) (db : Db) :
    (applied ip cs db).events = db.events ∧ (applied ip cs db).models = db.models := by
  induction cs generalizing db with
  | nil => exact ⟨rfl, rfl⟩
  | cons c cs ih => exact ih (db.setHost ip c.1 c.2)

theorem insertEvent_hosts (db : Db) (ev : RecoveryEvent) : (db.insertEvent ev).hosts = db.hosts :=
  rfl

def hostState (h : HostRow) : String × String × String :=
  (h.guestIp, h.desiredPowerState, h.managementMode)

def changeEvent (ip detail : String) (now : Int) : RecoveryEvent :=
  ⟨ip, "desired_state_change", detail, now⟩

theorem run_changeHost (drv : Driver) (env : Env) (ip : String) (dps mode : Json) (detail : String)
    (w : World) :
    ∃ r w', run (env.answer drv) (changeHost true ip dps mode detail) w = (r, w') ∧ w'.txn = w.txn ∧
      ((∃ t, w'.db = (applied ip (changesOf dps mode) w.db).insertEvent (changeEvent ip detail t) ∧
          (∀ i ≤ (changesOf dps mode).length, env.fault (w.ops + i) = none) ∧
          w'.ops = w.ops + (changesOf dps mode).length + 2 ∧ ∀ row, r = .ok row → row = (w'.db.hostAt ip).map hostState) ∨
        ∃ x k, r = .error x ∧ k ≤ (changesOf dps mode).length ∧
          w'.db = applied ip ((changesOf dps mode).take k) w.db ∧
            (∀ i < k, env.fault (w.ops + i) = none) ∧
          env.fault (w.ops + k) ≠ none) := by
  rw [changeHost_eq, run_bind]
  obtain ⟨u, ht, ⟨hr, hd, ho, hn⟩ | ⟨x, k, hk, hr, hd, hn, hx⟩⟩ :=
    run_updateAll drv env ip (changesOf dps mode) w
  · rw [hr]
    simp only
    rw [run_bind, send, if_pos rfl, run_adapter, answer_orm, ho]
    cases hf : env.fault (w.ops + (changesOf dps mode).length) with
    | some x =>
        refine ⟨_, _, rfl, ht, .inr ⟨_, (changesOf dps mode).length, rfl, le_rfl, ?_, hn, ?_⟩⟩
        · rw [List.take_length]
          exact hd
        · rw [hf]
          exact Option.some_ne_none x
    | none =>
        simp only [exec]
        have hall : ∀ i ≤ (changesOf dps mode).length, env.fault (w.ops + i) = none := by
          intro i hi
          rcases Nat.lt_or_eq_of_le hi with hlt | rfl
          · exact hn i hlt
          · exact hf
        rw [send, if_pos rfl, run_adapter, answer_orm]
        simp only
        cases env.fault (w.ops + (changesOf dps mode).length + 1) with
        | some y =>
            exact ⟨_, _, rfl, ht, .inl ⟨env.clock
              (w.ops + (changesOf dps mode).length), by rw [hd]; rfl, hall, rfl, error_ne_ok⟩⟩
        | none =>
            refine ⟨_, _, rfl, ht, .inl ⟨env.clock
              (w.ops + (changesOf dps mode).length), by rw [hd]; rfl, hall, rfl, ?_⟩⟩
            intro row hrow
            exact (Except.ok.inj hrow).symm
  · rw [hr]
    exact ⟨_, u, rfl, ht, .inr ⟨x, k, rfl, Nat.le_of_lt hk, hd, hn, hx⟩⟩

theorem strict_updateAll (cutover : Bool) (ip : String) (cs : List (HostColumn × String)) :
    Strict cutover (updateAll cutover ip cs) := by
  induction cs with
  | nil => trivial
  | cons c cs ih => exact (strict_send _).bind fun _ => ih

theorem strict_changeHost (cutover : Bool) (ip : String) (dps mode : Json) (detail : String) :
    Strict cutover (changeHost cutover ip dps mode detail) := by
  rw [changeHost_eq]
  exact (strict_updateAll cutover ip _).bind fun _ => (strict_send _).bind fun _ => strict_send _

theorem view_updateAll {cutover : Bool} {ip : String} {cs : List (HostColumn × String)}
    {v v' : View}
    (hr : run (View.answer drv env) (updateAll cutover ip cs) v = (.ok (), v')) :
    v'.db = applied ip cs v.db ∧ v'.ops = v.ops + cs.length := by
  induction cs generalizing v with
  | nil =>
      cases hr
      exact ⟨rfl, rfl⟩
  | cons c cs ih =>
      obtain ⟨_, u, hs, hr⟩ := run_bind_ok hr
      obtain ⟨-, he, ho⟩ := run_send_ok hs
      obtain ⟨-, hu⟩ := Prod.mk.inj (Except.ok.inj he)
      obtain ⟨hdb, hops⟩ := ih hr
      rw [hdb, hops, ← hu, ho, List.length_cons]
      refine ⟨rfl, ?_⟩
      omega

theorem view_changeHost {cutover : Bool} {ip : String} {dps mode : Json} {detail : String}
    {v v' : View}
    {row : Option (String × String × String)}
    (hr : run (View.answer drv env) (changeHost cutover ip dps mode detail) v = (.ok row, v')) :
    ∃ t, v'.db = (applied ip (changesOf dps mode) v.db).insertEvent (changeEvent ip detail t) ∧
      v'.ops = v.ops + (changesOf dps mode).length + 2 ∧ row = (v'.db.hostAt ip).map hostState := by
  rw [changeHost_eq] at hr
  obtain ⟨_, u, hu, hr⟩ := run_bind_ok hr
  obtain ⟨_, u₂, he, hr⟩ := run_bind_ok hr
  obtain ⟨hall, hops⟩ := view_updateAll hu
  obtain ⟨-, hx, ho⟩ := run_send_ok he
  obtain ⟨-, hdb⟩ := Prod.mk.inj (Except.ok.inj hx)
  obtain ⟨-, hx, ho'⟩ := run_send_ok hr
  obtain ⟨hrow, hdb'⟩ := Prod.mk.inj (Except.ok.inj hx)
  refine ⟨env.clock u.ops, ?_, ?_, ?_⟩
  · rw [← hdb', ← hdb, hall]
    rfl
  · rw [ho', ho, hops]
  · rw [← hrow, hdb']
    rfl

theorem run_storeLegacy (drv : Driver) (env : Env) (ip : String) (dps mode : Json) (detail : String)
    (w : World)
    (hw : w.txn = .closed) :
    ∃ r w', run (env.answer drv) (storeDesiredState false ip dps mode detail) w = (r, w') ∧
      w'.txn = .closed ∧
      (((∃ x, r = .error x) ∧ w'.db = w.db) ∨
        ∃ t, w'.db = (applied ip (changesOf dps mode) w.db).insertEvent (changeEvent ip detail t) ∧
          w'.ops = w.ops + (changesOf dps mode).length + 4 ∧ r = .ok ((w'.db.hostAt ip).map hostState)) := by
  rw [storeDesiredState, if_neg Bool.false_ne_true, run_bind, run_pg, answer_connect]
  cases env.fault w.ops with
  | some x => exact ⟨_, _, rfl, hw, .inl ⟨⟨_, rfl⟩, rfl⟩⟩
  | none =>
      simp only [if_true]
      rw [run_closing, run_bind]
      obtain ⟨u, hr, hd, ho, -, hl⟩ := (strict_changeHost false ip dps mode detail).legacy drv env
        (w := { w with txn := .live id, ops := w.ops + 1, now := env.clock w.ops }) rfl
      rw [hr]
      cases hv : run (View.answer drv env) (changeHost false ip dps mode detail) ⟨id w.db, w.ops + 1⟩ with
      | mk res v =>
          rw [hv] at hl ho
          cases res with
          | error x => exact ⟨_, _, rfl, rfl, .inl ⟨⟨x, rfl⟩, hd⟩⟩
          | ok row =>
              obtain ⟨pending, hp, hpv⟩ := hl row rfl
              simp only
              rw [run_bind, run_commit, answer_commit hp]
              cases env.fault u.ops with
              | some x => exact ⟨_, _, rfl, rfl, .inl ⟨⟨x, rfl⟩, hd⟩⟩
              | none =>
                  obtain ⟨t, hvdb, hvo, hrow⟩ := view_changeHost hv
                  have hpu : pending u.db = v.db := by rw [hd]; exact hpv
                  refine ⟨_, _, rfl, rfl, .inr ⟨t, ?_, ?_, ?_⟩⟩
                  · change pending u.db = _
                    rw [hpu]
                    exact hvdb
                  · change u.ops + 1 = _
                    rw [ho, hvo]
                    simp only
                    omega
                  · change Except.ok row = Except.ok (((pending u.db).hostAt ip).map _)
                    rw [hpu, hrow]

theorem finishChange_beside (drv : Driver) (env : Env) (cutover : Bool) (dps : Json)
    (row : Option (String × String × String)) {w : World} (hw : w.txn = .closed) :
    Beside w.db (run (env.answer drv) (finishChange cutover dps row) w).2.db := by
  unfold finishChange
  split
  · rw [run_bind]
    have hb := sync_beside drv env cutover w hw
    cases hr : run (env.answer drv) (syncRegistry cutover) w with
    | mk res t =>
        rw [hr] at hb
        cases res with
        | error x => exact hb
        | ok r =>
            simp only [run_orRaise]
            exact hb
  · rw [run_orRaise]
    exact Beside.rfl

/-- The requested changes are all committed together with one event that describes them, or the
hosts are as before. -/
def Atomic (ip : String) (req : HostRequest) (db db' : Db) : Prop :=
  db'.hosts = db.hosts ∨ ∃ dps mode t, readChange ip req = .ok (.ok (dps, mode)) ∧
    db'.hosts = (applied ip (changesOf dps mode) db).hosts ∧
    db'.events = db.events ++ [changeEvent ip (changeDetail req dps mode) t]

/-- With the adapter the updates before a statement that fails, the event at the latest, have
changed the host. -/
def Torn (env : Env) (cutover : Bool) (ip : String) (req : HostRequest) (db : Db) : Prop :=
  cutover = true ∧ ∃ dps mode, readChange ip req = .ok (.ok (dps, mode)) ∧
    ∃ k ≤ (changesOf dps mode).length,
    (∀ i < k, env.fault i = none) ∧ env.fault k ≠ none ∧
      (applied ip ((changesOf dps mode).take k) db).hosts ≠ db.hosts

theorem setDesiredState_run {cutover : Bool} {ip : String} {req : HostRequest} {dps mode : Json}
    (h : readChange ip req = .ok (.ok (dps, mode))) (w : World) :
    run (env.answer drv) (setDesiredState cutover ip req) w =
      match run (env.answer drv) (storeDesiredState cutover ip dps mode
        (changeDetail req dps mode)) w with
      | (.ok row, t) => run (env.answer drv) (finishChange cutover dps row) t
      | (.error x, t) => (.error x, t) := by
  have hprog : setDesiredState cutover ip req =
      storeDesiredState cutover ip dps mode (changeDetail req dps mode) >>=
        finishChange cutover dps := by
    rw [setDesiredState, h]
  rw [hprog, run_bind]
  rcases run (env.answer drv) (storeDesiredState cutover ip dps mode (changeDetail req dps mode)) w with ⟨x | row, t⟩
  · rfl
  · rfl

theorem change_legacy {ip : String} {req : HostRequest} (db : Db) :
    Atomic ip req db (run (env.answer drv) (setDesiredState false ip req) { db := db }).2.db := by
  cases h : readChange ip req with
  | error x =>
      left
      rw [setDesiredState, h]
      rfl
  | ok r =>
      cases r with
      | error reply =>
          left
          rw [setDesiredState, h]
          rfl
      | ok values =>
          obtain ⟨dps, mode⟩ := values
          rw [setDesiredState_run h]
          obtain ⟨r, w', hr, hw, ⟨⟨x, rfl⟩, hd⟩ | ⟨t, hd, -, rfl⟩⟩ :=
            run_storeLegacy drv env ip dps mode (changeDetail req dps mode) { db := db } rfl
          · rw [hr]
            exact .inl (congrArg Db.hosts hd)
          · rw [hr]
            have hb := finishChange_beside drv env false dps
              ((w'.db.hostAt ip).map hostState) hw
            refine .inr ⟨dps, mode, t, h, ?_, ?_⟩
            · exact hb.hosts.trans ((congrArg Db.hosts hd).trans (insertEvent_hosts _ _))
            · refine hb.events.trans ((congrArg Db.events hd).trans ?_)
              exact congrArg (· ++ _) (applied_events ip _ db).1

theorem change_cutover {ip : String} {req : HostRequest} (db : Db) :
    Atomic ip req db (run (env.answer drv) (setDesiredState true ip req) { db := db }).2.db ↔
      ¬ Torn env true ip req db := by
  cases h : readChange ip req with
  | error x =>
      refine iff_of_true (.inl ?_) ?_
      · rw [setDesiredState, h]
        rfl
      · rintro ⟨-, dps, mode, hr, -⟩
        rw [h] at hr
        cases hr
  | ok r =>
      cases r with
      | error reply =>
          refine iff_of_true (.inl ?_) ?_
          · rw [setDesiredState, h]
            rfl
          · rintro ⟨-, dps, mode, hr, -⟩
            rw [h] at hr
            cases hr
      | ok values =>
          obtain ⟨dps, mode⟩ := values
          rw [setDesiredState_run h, storeDesiredState, if_pos rfl]
          obtain ⟨r, w', hr, hw, ⟨t, hd, hclear, -, -⟩ | ⟨x, k, rfl, hk, hd, hclear, hfault⟩⟩ :=
            run_changeHost drv env ip dps mode (changeDetail req dps mode) { db := db }
          · rw [hr]
            refine iff_of_true ?_ ?_
            · right
              refine ⟨dps, mode, t, h, ?_⟩
              have hhosts : ∀ d, Beside w'.db d →
                  d.hosts = (applied ip (changesOf dps mode) db).hosts ∧
                  d.events = db.events ++ [changeEvent ip (changeDetail req dps mode) t] := by
                intro d hb
                refine ⟨hb.hosts.trans ((congrArg Db.hosts hd).trans (insertEvent_hosts _ _)),
                  hb.events.trans ((congrArg Db.events hd).trans ?_)⟩
                exact congrArg (· ++ _) (applied_events ip _ db).1
              cases r with
              | error x => exact hhosts _ Beside.rfl
              | ok row => exact hhosts _ (finishChange_beside _ _ _ _ row hw)
            · rintro ⟨-, dps', mode', hr', k, hk, -, hfault, -⟩
              rw [h] at hr'
              cases hr'
              have hc := hclear k hk
              rw [Nat.zero_add] at hc
              exact hfault hc
          · rw [hr]
            simp only [Nat.zero_add] at hclear hfault
            constructor
            · rintro (hsame | ⟨dps', mode', t, -, -, hev⟩)
              · rintro ⟨-, dps', mode', hr', j, hj, hclear', hfault', hne⟩
                rw [h] at hr'
                cases hr'
                have hjk : j = k := by
                  rcases Nat.lt_trichotomy j k with hlt | rfl | hlt
                  · exact absurd (hclear j hlt) hfault'
                  · rfl
                  · exact absurd (hclear' k hlt) hfault
                rw [hjk] at hne
                exact hne ((congrArg Db.hosts hd).symm.trans hsame)
              · have hlen :=
                  congrArg List.length (((congrArg Db.events hd).trans
                    (applied_events ip _ db).1).symm.trans hev)
                rw [List.length_append] at hlen
                simp at hlen
            · intro hnot
              left
              by_contra hne
              refine hnot ⟨rfl, dps, mode, h, k, hk, hclear, hfault, fun he => hne ?_⟩
              exact (congrArg Db.hosts hd).trans he

/-- A change is atomic exactly when it is not torn. -/
theorem change_atomic_iff (drv : Driver) (env : Env) (cutover : Bool) (ip : String)
    (req : HostRequest) (db : Db) :
    Atomic ip req db (run (env.answer drv) (setDesiredState cutover ip req) { db := db }).2.db ↔
      ¬ Torn env cutover ip req db := by
  cases cutover with
  | true => exact change_cutover db
  | false => exact iff_of_true (change_legacy db) fun h => Bool.false_ne_true h.1

def adminRequest (fields : List (String × Json)) : HostRequest :=
  { user := some "operator", role := some "Admin", body := .ok (.obj fields) }

def stopRequest : HostRequest := adminRequest [("desired_power_state", .str "STOPPED_INTENTIONAL")]

def lostConnection : PyExc :=
  ⟨.other "OperationalError", "server closed the connection unexpectedly"⟩

/-- The operation number `k` on the database fails. -/
def failingAt (net : Net) (k : Nat) : Env :=
  { net := net, fault := fun n => if n = k then some lostConnection else none }

/-- The stop is committed and its event is not. -/
theorem stop_without_event : ¬ ∀ (drv : Driver) (env : Env) (cutover : Bool) (ip : String) (req :
    HostRequest) (db : Db),
    Atomic ip req db (run (env.answer drv) (setDesiredState cutover ip req) { db := db }).2.db := by
  intro hall
  have h :=
    hall plainDriver (failingAt (RegistryGate.servingNet "new") 1) true "10.0.20.162" stopRequest
    (RegistryGate.servedDb "new")
  refine change_cutover (RegistryGate.servedDb "new") |>.mp h
    ⟨rfl, .str "STOPPED_INTENTIONAL", .null, rfl, 1, le_rfl, ?_⟩
  refine ⟨fun i hi => if_neg (by omega), nofun, ?_⟩
  decide

end ServerManager.DesiredState
