import ServerManager.HostSlices

namespace ServerManager.HostIsolation

open Interaction PyJson FleetDb Fleet Registry RecoveryEngine Transactions DesiredState EngineRules
  HostSlices
open Effects (PyExc)

def alone (db : Db) (h : HostRow) : Db where
  hosts := [h]
  models := rowsOf h db.models
  settings := db.settings
  events := db.events.filter (fun ev => ev.ip == h.guestIp)
  hostKey := List.nodup_singleton _
  ipKey := List.nodup_singleton _
  modelKey := db.modelKey.filter _
  hostRef := by
    intro r hr i hi
    have he := beq_iff_eq.mp (List.mem_filter.mp hr).2
    rw [he] at hi
    exact List.mem_singleton.mpr (Option.some.inj hi).symm

theorem mem_alone (db : Db) (h : HostRow) : h ∈ (alone db h).hosts := List.mem_cons_self

theorem slice_alone {db : Db} {h : HostRow} (hh : h ∈ db.hosts) : Slice h db (alone db h) := by
  refine ⟨?_, ?_, ?_⟩
  · have hself : (alone db h).host h.hostId = some h := by simp [Db.host, alone]
    rw [hself]
    cases hf : db.host h.hostId with
    | none =>
        have hno := List.find?_eq_none.mp hf h hh
        exact absurd (beq_self_eq_true h.hostId) hno
    | some g =>
        have hid : g.hostId = h.hostId := by simpa using List.find?_some hf
        rw [List.inj_on_of_nodup_map db.hostKey (List.mem_of_find?_eq_some hf) hh hid]
  · change rowsOf h db.models = rowsOf h (rowsOf h db.models)
    unfold rowsOf
    rw [List.filter_filter]
    simp
  · change _ = (db.events.filter _).filter _
    rw [List.filter_filter]
    simp

/-- Before a pass the connection is closed; `now` is the time of the database. -/
def start (db : Db) (now : Int) : State := (⟨db, .closed, 0, now⟩, [])

def syncPass (drv : Driver) (oracle : Oracle) (cutover : Bool) (db : Db) (now : Int) :
    Except PyExc SyncResult × State :=
  run (serve drv oracle db.hosts) (syncRegistry cutover) (start db now)

def tickPass (drv : Driver) (oracle : Oracle) (cutover : Bool) (db : Db) (now : Int) :
    Except PyExc Unit × State :=
  run (serve drv oracle db.hosts) (tick cutover) (start db now)

/-- The sync ends with its `commit`. -/
def synced (drv : Driver) (oracle : Oracle) (cutover : Bool) (db : Db) (now : Int) : Bool :=
  match (syncPass drv oracle cutover db now).1 with
  | .ok (.hosts _) => true
  | _ => false

def ended (drv : Driver) (oracle : Oracle) (cutover : Bool) (db : Db) (now : Int) : Bool :=
  (tickPass drv oracle cutover db now).1.isOk

def entry (h : HostRow) : Int × String × String := (h.hostId, h.guestIp, h.name)

def mine (h : HostRow) (e : Eff) : Prop := about h e = true ∨ link e

theorem only_sendWhen {φ : Eff → Prop} {cutover : Bool} {s : Stmt} (hs : φ (.sql s))
    (ho : φ (.orm s)) : Only φ (send cutover s) := by
  cases cutover with
  | false => exact only_call hs fun a => only_orRaise a
  | true => exact only_call ho fun a => only_orRaise a

/-- The calls of `sync_registry` for a host, whatever they are good for. -/
theorem only_syncHost {φ : Eff → Prop} {cutover : Bool} {h : HostRow}
    (hm : φ (.getModels h.guestIp))
    (hc : ∀ m, φ (.completion h.guestIp m))
    (hs : ∀ s, stmtAbout h s = true → φ (.sql s) ∧ φ (.orm s)) :
    Only φ (syncHost cutover (entry h)) := by
  have hsend : ∀ s, stmtAbout h s = true → Only φ (send cutover s) :=
    fun s ha => only_sendWhen (hs s ha).1 (hs s ha).2
  have hupsert : ∀ state rt ms, Only φ (upsertModels cutover h.hostId h.guestIp state rt ms) := by
    intro state rt ms
    induction ms with
    | nil => trivial
    | cons m ms ih => exact (hsend _ (beq_self_eq_true _)).bind fun _ => ih
  refine (only_probeHost _ hm hc).bind fun p => ?_
  refine (hsend _ (beq_self_eq_true _)).bind fun flags => Only.bind ?_ fun _ => only_pure _
  unfold writeHost
  split
  · exact (hsend _ (beq_self_eq_true _)).bind fun _ => only_pure _
  · exact hupsert _ _ _

theorem mine_syncHost (cutover : Bool) (h : HostRow) : Only (mine h) (syncHost cutover (entry h)) :=
  only_syncHost (.inl (beq_self_eq_true _)) (fun _ => .inl (beq_self_eq_true _)) fun _ hs =>
    ⟨.inl hs, .inl hs⟩

structure Apart (g k : HostRow) : Prop where
  ids : g.hostId ≠ k.hostId
  ips : g.guestIp ≠ k.guestIp

theorem apart_of_ne {db : Db} {g k : HostRow} (hg : g ∈ db.hosts) (hk : k ∈ db.hosts)
    (hne : g ≠ k) : Apart g k :=
  ⟨fun he => hne (List.inj_on_of_nodup_map db.hostKey hg hk he),
    fun he => hne (List.inj_on_of_nodup_map db.ipKey hg hk he)⟩

theorem Apart.aside {g k : HostRow} (h : Apart g k) {s : Stmt} (hs : stmtAbout g s = true) :
    aside k s := by
  have hid : ∀ i, (i == g.hostId) = true → (i == k.hostId) = false := by
    intro i hi
    rw [beq_iff_eq.mp hi]
    exact beq_eq_false_iff_ne.mpr h.ids
  have hip : ∀ i, (i == g.guestIp) = true → (i == k.guestIp) = false := by
    intro i hi
    rw [beq_iff_eq.mp hi]
    exact beq_eq_false_iff_ne.mpr h.ips
  cases s with
  | hostFlags i => exact hid _ hs
  | upsertModel n i => exact hid _ hs
  | markHost i t => exact hid _ hs
  | insertEvent i t d => exact hip _ hs
  | countEvents i t m => exact hip _ hs
  | _ => cases hs

theorem Apart.sends {g k : HostRow} (h : Apart g k) (cutover : Bool) :
    Only (sends k) (syncHost cutover (entry g)) :=
  only_syncHost (beq_eq_false_iff_ne.mpr h.ips) (fun _ => beq_eq_false_iff_ne.mpr h.ips) fun _ hs =>
    ⟨h.aside hs, h.aside hs⟩

def Live (s : State) : Prop := ∃ pending, s.1.txn = .live pending

section Loop

variable {drv : Driver} {oracle : Oracle} {cutover : Bool} {hosts : List HostRow} {α : Type}

variable (drv oracle) in
theorem run_same {db db' : Db} {h : HostRow} (hh : h ∈ db.hosts) (hh' : h ∈ db'.hosts) {p : Svc α}
    (hp : Only (mine h) p)
    {s t : State} (hst : Same h s t) :
    (run (serve drv oracle db.hosts) p s).1 = (run (serve drv oracle db'.hosts) p t).1 ∧
      Same h (run (serve drv oracle db.hosts) p s).2 (run (serve drv oracle db'.hosts) p t).2 :=
  hp.run_same (fun _ _ _ he hst => tell_same hh hh' he hst) hst

theorem near_of_same {h : HostRow} {s t : State} (hst : Same h s t) : Near h s s :=
  ⟨rfl, Slice.rfl, .inr (hst.txn.trans hst.txn.symm)⟩

variable (drv oracle hosts) in
theorem run_near {h : HostRow} {p : Svc α} (hp : Only (sends h) p) {s₀ s : State}
    (hs : Near h s₀ s) :
    Near h s₀ (run (serve drv oracle hosts) p s).2 :=
  hp.run_keeps (fun _ _ he hn => hn.serve he drv oracle hosts) hs

theorem same_of_near {h : HostRow} {s s' t : State} (hn : Near h s s') (hl : Live s')
    (hst : Same h s t) : Same h s' t := by
  obtain ⟨p, hp⟩ := hl
  have ha : Alike h s.1.txn s'.1.txn := hn.txn.resolve_left (by rw [hp]; intro he; cases he)
  exact ⟨hn.own.symm.trans hst.own, hn.db.symm.trans hst.db, ha.symm.trans hst.txn⟩

theorem tell_sql (drv : Driver) (oracle : Oracle) (hosts : List HostRow) {s : State} (hs : Live s)
    (st : Stmt) :
    (∃ x, (serve drv oracle hosts s (.sql st)).1 = .error x) ∨
      ∃ r, (serve drv oracle hosts s (.sql st)).1 = .ok r ∧
        Live (serve drv oracle hosts s (.sql st)).2 := by
  obtain ⟨pending, hw⟩ := hs
  unfold serve Fleet.answer
  simp only [hw]
  cases (outcome oracle hosts s (.sql st)).fault with
  | some x => exact .inl ⟨x, rfl⟩
  | none =>
      simp only
      cases exec drv (outcome oracle hosts s (.sql st)).now (pending s.1.db) st with
      | error x => exact .inl ⟨x, rfl⟩
      | ok r => exact .inr ⟨r.1, rfl, _, rfl⟩

theorem tell_orm (drv : Driver) (oracle : Oracle) (hosts : List HostRow) {s : State} (hs : Live s)
    (st : Stmt) :
    Live (serve drv oracle hosts s (.orm st)).2 := by
  obtain ⟨pending, hw⟩ := hs
  refine ⟨pending, Eq.trans ?_ hw⟩
  unfold serve Fleet.answer
  simp only
  cases (outcome oracle hosts s (.orm st)).fault with
  | some x => rfl
  | none =>
      simp only
      cases exec drv (outcome oracle hosts s (.orm st)).now s.1.db st with
      | error x => rfl
      | ok r => rfl

theorem strict_live {p : Svc α} (h : Strict cutover p) {s t : State} (hs : Live s) {a : α}
    (hr : run (serve drv oracle hosts) p s = (.ok a, t)) : Live t := by
  induction p generalizing s with
  | ret b =>
      cases hr
      exact hs
  | raise x => cases hr
  | call e k ih =>
      obtain ⟨pending, hw⟩ := hs
      rw [run_call] at hr
      cases e with
      | sql s' =>
          obtain ⟨-, hx, hk⟩ := h
          have ha := tell_sql drv oracle hosts ⟨pending, hw⟩ s'
          rcases ha with ⟨x, ha⟩ | ⟨r, ha, hl⟩
          · rw [ha, hx x] at hr
            cases hr
          · rw [ha] at hr
            exact ih _ (hk r) hl hr
      | orm s' =>
          obtain ⟨-, hx, hk⟩ := h
          have hl := tell_orm drv oracle hosts ⟨pending, hw⟩ s'
          cases ha : (serve drv oracle hosts s (.orm s')).1 with
          | error x =>
              rw [ha, hx x] at hr
              cases hr
          | ok r =>
              rw [ha] at hr
              exact ih _ (hk r) hl hr
      | getModels ip =>
          exact ih _ (h _) (s := (serve drv oracle hosts s (.getModels ip)).2) ⟨pending, hw⟩ hr
      | completion ip m =>
          exact ih _ (h _) (s := (serve drv oracle hosts s (.completion ip m)).2) ⟨pending, hw⟩ hr
      | pve r => exact ih _ (h _) (s := (serve drv oracle hosts s (.pve r)).2) ⟨pending, hw⟩ hr
      | connect => exact h.elim
      | commit => exact h.elim
      | rollback => exact h.elim
      | close => exact h.elim
      | restart ip => exact h.elim
      | sleep n => exact h.elim
      | auditFile ip t d b => exact h.elim

variable (drv oracle cutover) in
theorem syncHost_same {db db' : Db} {h : HostRow} (hh : h ∈ db.hosts) (hh' : h ∈ db'.hosts)
    {s t : State} (hst : Same h s t) :
    (run (serve drv oracle db.hosts) (syncHost cutover (entry h)) s).1 =
        (run (serve drv oracle db'.hosts) (syncHost cutover (entry h)) t).1 ∧
      Same h (run (serve drv oracle db.hosts) (syncHost cutover (entry h)) s).2
        (run (serve drv oracle db'.hosts) (syncHost cutover (entry h)) t).2 :=
  run_same _ _ hh hh' (mine_syncHost cutover h) hst

theorem syncHost_other {g k : HostRow} (h : Apart g k) {s s' t : State} (hst : Same k s t)
    (hl : Live s) {row : HostSummary}
    (hr : run (serve drv oracle hosts) (syncHost cutover (entry g)) s = (.ok row, s')) :
    Same k s' t := by
  have hn := run_near drv oracle hosts (h.sends cutover) (near_of_same hst)
  rw [hr] at hn
  exact same_of_near hn (strict_live (strict_syncHost cutover _) hl hr) hst

end Loop

section Fleet

variable {drv : Driver} {oracle : Oracle} {cutover : Bool} {db : Db}

def afterOwn (drv : Driver) (oracle : Oracle) (cutover : Bool) (done : List HostRow)
    (t : HostRow → State) (k : HostRow) : State :=
  if k ∈ done then (run (serve drv oracle [k]) (syncHost cutover (entry k)) (t k)).2 else t k

def ownEntry (drv : Driver) (oracle : Oracle) (cutover : Bool) (t : HostRow → State) (k : HostRow) :
    Except PyExc HostSummary :=
  (run (serve drv oracle [k]) (syncHost cutover (entry k)) (t k)).1

theorem syncHosts_same {done rest : List HostRow} (hd : (done ++ rest).Nodup)
    (hsub : ∀ k ∈ rest, k ∈ db.hosts)
    {t : HostRow → State} {s : State} (hl : Live s)
    (hs : ∀ k ∈ db.hosts, Same k s (afterOwn drv oracle cutover done t k))
    (rows : List HostSummary) (hok : rest.map (ownEntry drv oracle cutover t) =
    rows.map Except.ok) :
    ∃ s', run (serve drv oracle db.hosts) (syncHosts cutover (rest.map entry)) s = (.ok rows, s') ∧
      Live s' ∧
      ∀ k ∈ db.hosts, Same k s' (afterOwn drv oracle cutover (done ++ rest) t k) := by
  induction rest generalizing done s rows with
  | nil =>
      obtain rfl : rows = [] := by simpa using hok.symm
      refine ⟨s, rfl, hl, ?_⟩
      rw [List.append_nil]
      exact hs
  | cons g rest ih =>
      cases rows with
      | nil => cases hok
      | cons row rows =>
          obtain ⟨hrow, hrows⟩ := List.cons.inj hok
          have hg : g ∈ db.hosts := hsub g List.mem_cons_self
          have hout : g ∉ done :=
            fun hin => (List.nodup_append.mp hd).2.2 g hin g List.mem_cons_self rfl
          have hsame := hs g hg
          rw [afterOwn, if_neg hout] at hsame
          obtain ⟨hres, hafter⟩ := syncHost_same drv oracle cutover hg (mem_alone db g) hsame
          have hrun : run (serve drv oracle db.hosts) (syncHost cutover (entry g)) s =
              (.ok row, (run (serve drv oracle db.hosts) (syncHost cutover (entry g)) s).2) :=
            Prod.ext (hres.trans hrow) rfl
          have hstep : ∀ k ∈ db.hosts, Same k
              (run (serve drv oracle db.hosts) (syncHost cutover (entry g)) s).2
              (afterOwn drv oracle cutover (done ++ [g]) t k) := by
            intro k hk
            by_cases hkg : k = g
            · subst hkg
              rw [afterOwn, if_pos (List.mem_append_right _ List.mem_cons_self)]
              exact hafter
            · have hk' := hs k hk
              have hmem : k ∈ done ++ [g] ↔ k ∈ done := by simp [hkg]
              rw [afterOwn] at hk' ⊢
              rw [if_congr hmem rfl rfl]
              exact syncHost_other (apart_of_ne hg hk fun he => hkg he.symm) hk' hl hrun
          obtain ⟨s', hr', hl', hs'⟩ := ih (show ((done ++ [g]) ++ rest).Nodup by simpa using hd)
            (fun k hk => hsub k (List.mem_cons_of_mem _ hk))
              (strict_live (strict_syncHost cutover _) hl hrun) hstep rows hrows
          refine ⟨s', ?_, hl', by simpa using hs'⟩
          rw [List.map_cons, syncHosts, run_bind, hrun]
          simp only
          rw [run_bind, hr']
          rfl

theorem run_syncHosts_append (f : State → (e : Eff) → Ans e × State)
    (xs ys : List (Int × String × String)) (s : State) :
    run f (syncHosts cutover (xs ++ ys)) s =
      run f (do
        let rows ← syncHosts cutover xs
        let rows' ← syncHosts cutover ys
        pure (rows ++ rows')) s := by
  induction xs generalizing s with
  | nil =>
      change _ = run f (syncHosts cutover ys >>= fun rows' => pure ([] ++ rows')) s
      rw [List.nil_append, run_bind]
      rcases run f (syncHosts cutover ys) s with ⟨x | rows, u⟩
      · rfl
      · rfl
  | cons x xs ih =>
      rw [List.cons_append, syncHosts, syncHosts, run_bind, Prog.bind_assoc, run_bind]
      rcases run f (syncHost cutover x) s with ⟨x | row, u⟩
      · rfl
      · simp only
        rw [run_bind, ih, run_bind, Prog.bind_assoc, run_bind]
        rcases run f (syncHosts cutover xs) u with ⟨x | rows, v⟩
        · rfl
        · simp only
          rw [run_bind]
          change _ = run f (syncHosts cutover ys >>= fun rows' => pure (row :: rows ++ rows')) v
          rw [run_bind]
          rcases run f (syncHosts cutover ys) v with ⟨x | rows', z⟩
          · rfl
          · rfl

theorem entries_ok {t : HostRow → State} {rest : List HostRow}
    (h : ∀ k ∈ rest, ∃ row, ownEntry drv oracle cutover t k = .ok row) :
    ∃ rows : List HostSummary, rest.map (ownEntry drv oracle cutover t) = rows.map Except.ok := by
  induction rest with
  | nil => exact ⟨[], rfl⟩
  | cons k rest ih =>
      obtain ⟨row, hrow⟩ := h k List.mem_cons_self
      obtain ⟨rows, hrows⟩ := ih fun k hk => h k (List.mem_cons_of_mem _ hk)
      exact ⟨row :: rows, List.cons_eq_cons.mpr ⟨hrow, hrows⟩⟩

theorem syncHosts_error {pre post : List HostRow} {g : HostRow} (hd : (pre ++ g :: post).Nodup)
    (hsub : ∀ k ∈ pre ++ g :: post, k ∈ db.hosts) {t : HostRow → State} {s : State} (hl : Live s)
    (hs : ∀ k ∈ db.hosts, Same k s (t k)) (hpre : ∀ k ∈ pre, ∃ row,
    ownEntry drv oracle cutover t k = .ok row) {x : PyExc}
    (hg : ownEntry drv oracle cutover t g = .error x) :
    ∃ s', run (serve drv oracle db.hosts) (syncHosts cutover ((pre ++ g :: post).map entry)) s =
      (.error x, s') ∧
      Same g s' (run (serve drv oracle [g]) (syncHost cutover (entry g)) (t g)).2 ∧ ∀ k ∈ post,
        own k s'.2 = own k (t k).2 := by
  obtain ⟨rows, hrows⟩ := entries_ok hpre
  have hgdb : g ∈ db.hosts := hsub g (List.mem_append_right _ List.mem_cons_self)
  have hout : g ∉ pre := fun hin => (List.nodup_append.mp hd).2.2 g hin g List.mem_cons_self rfl
  obtain ⟨s₁, hr, hl₁, hs₁⟩ :=
    syncHosts_same (t := t) (show ([] ++ pre).Nodup from (List.nodup_append.mp hd).1)
    (fun k hk => hsub k (List.mem_append_left _ hk)) hl
    (show ∀ k ∈ db.hosts, Same k s (afterOwn drv oracle cutover [] t k) from hs) rows hrows
  have hsame := hs₁ g hgdb
  rw [List.nil_append, afterOwn, if_neg hout] at hsame
  obtain ⟨hres, hafter⟩ := syncHost_same drv oracle cutover hgdb (mem_alone db g) hsame
  have hrun : run (serve drv oracle db.hosts) (syncHost cutover (entry g)) s₁ =
      (.error x, (run (serve drv oracle db.hosts) (syncHost cutover (entry g)) s₁).2) :=
        Prod.ext (hres.trans hg) rfl
  refine ⟨_, ?_, hafter, fun k hk => ?_⟩
  · rw [List.map_append, run_syncHosts_append, run_bind, hr]
    simp only
    rw [List.map_cons, syncHosts, Prog.bind_assoc, run_bind, hrun]
  · have hkdb : k ∈ db.hosts := hsub k (List.mem_append_right _ (List.mem_cons_of_mem _ hk))
    have hkout : k ∉ pre :=
      fun hin => (List.nodup_append.mp hd).2.2 k hin k (List.mem_cons_of_mem _ hk) rfl
    have hkg : g ≠ k := fun he => (List.nodup_cons.mp (List.nodup_append.mp hd).2.1).1 (he ▸ hk)
    have hk₁ := hs₁ k hkdb
    rw [List.nil_append, afterOwn, if_neg hkout] at hk₁
    have hn := run_near drv oracle db.hosts ((apart_of_ne hgdb hkdb hkg).sends cutover)
      (near_of_same hk₁)
    exact hn.own.symm.trans hk₁.own

end Fleet

/-- They have no owner and cannot fail on their own. -/
def general : Stmt → Prop
  | .hostInventory => True
  | .aliasSetting => True
  | .deleteAliases => True
  | .countRoutable _ => True
  | .insertAlias .. => True
  | .tickHosts => True
  | _ => False

theorem general_about {s : Stmt} (hs : general s) (h : HostRow) : stmtAbout h s = false := by
  cases s with
  | hostInventory | aliasSetting | deleteAliases | countRoutable | insertAlias | tickHosts => rfl
  | _ => exact hs.elim

theorem general_quiet {s : Stmt} (hs : general s) (oracle : Oracle) (hosts : List HostRow)
    (st : State) :
    outcome oracle hosts st (.sql s) = quiet st.1.now ∧
      outcome oracle hosts st (.orm s) = quiet st.1.now := by
  have hno : ∀ e, (∀ h, about h e = stmtAbout h s) → ownerOf hosts e = none := by
    intro e he
    refine List.find?_eq_none.mpr fun h _ => ?_
    rw [he, general_about hs]
    exact Bool.false_ne_true
  constructor
  · unfold outcome
    rw [hno _ fun _ => rfl]
  · unfold outcome
    rw [hno _ fun _ => rfl]

theorem general_exec {s : Stmt} (hs : general s) (drv : Driver) (now : Int) (d : Db) : ∃ r,
    exec drv now d s = .ok r := by
  cases s with
  | hostInventory | aliasSetting | deleteAliases | countRoutable | insertAlias | tickHosts =>
      exact ⟨_, rfl⟩
  | _ => exact hs.elim

theorem general_ok {s : Stmt} (hs : general s) (drv : Driver) (oracle : Oracle)
    (hosts : List HostRow) {st : State}
    (hl : Live st) (cutover : Bool) : ∃ rows u,
    run (serve drv oracle hosts) (send cutover s) st = (.ok rows, u) ∧ Live u := by
  have hstrict : Strict cutover (send cutover s) := strict_send s
  have hok : ∃ rows, (run (serve drv oracle hosts) (send cutover s) st).1 = .ok rows := by
    obtain ⟨pending, hw⟩ := hl
    obtain ⟨hsql, horm⟩ := general_quiet hs oracle hosts st
    cases cutover with
    | false =>
        obtain ⟨r, hr⟩ := general_exec hs drv st.1.now (pending st.1.db)
        refine ⟨r.1, ?_⟩
        rw [send, if_neg Bool.false_ne_true, execute, run_call]
        have ha : (serve drv oracle hosts st (.sql s)).1 = .ok r.1 := by
          unfold serve Fleet.answer
          simp only [hsql, hw, quiet, hr]
        rw [ha]
        rfl
    | true =>
        obtain ⟨r, hr⟩ := general_exec hs drv st.1.now st.1.db
        refine ⟨r.1, ?_⟩
        rw [send, if_pos rfl, adapter, run_call]
        have ha : (serve drv oracle hosts st (.orm s)).1 = .ok r.1 := by
          unfold serve Fleet.answer
          simp only [horm, quiet, hr]
        rw [ha]
        rfl
  obtain ⟨rows, hrows⟩ := hok
  have hrun : run (serve drv oracle hosts) (send cutover s) st =
      (.ok rows, (run (serve drv oracle hosts) (send cutover s) st).2) :=
    Prod.ext hrows rfl
  exact ⟨rows, _, hrun, strict_live hstrict hl hrun⟩

theorem sends_general {s : Stmt} (hs : general s) (hd : s ≠ .deleteAliases) (h : HostRow)
    (cutover : Bool) :
    Only (sends h) (send cutover s) := by
  have ha : aside h s := by
    cases s with
    | deleteAliases => exact absurd rfl hd
    | hostInventory | aliasSetting | countRoutable | insertAlias | tickHosts => rfl
    | _ => exact hs.elim
  exact only_sendWhen ha ha

section Tail

variable {drv : Driver} {oracle : Oracle} {cutover : Bool}

/-- What `sync_registry` does after the hosts. -/
def aliasTail (cutover : Bool) (summary : List HostSummary) : Svc (List HostSummary) := do
  let row ← execute .aliasSetting
  let _ ← send cutover .deleteAliases
  syncAliases cutover (if aliasesOn row then aliases else [])
  pure summary

theorem syncBody_eq : syncBody cutover = execute .hostInventory >>= fun hosts =>
    syncHosts cutover hosts >>= aliasTail cutover := rfl

variable (drv oracle cutover) in
theorem syncAliases_ok (hosts : List HostRow) (rows : List (String × Option String)) {s : State}
    (hl : Live s) :
    ∃ u, run (serve drv oracle hosts) (syncAliases cutover rows) s = (.ok (), u) ∧ Live u := by
  induction rows generalizing s with
  | nil => exact ⟨s, rfl, hl⟩
  | cons row rows ih =>
      rcases row with ⟨name, _ | target⟩
      · exact ih hl
      · obtain ⟨n, u, hu, hlu⟩ :=
          general_ok (s := .countRoutable target) trivial drv oracle hosts hl cutover
        obtain ⟨r, v, hv, hlv⟩ :=
          general_ok (s := .insertAlias name target
            (if decide ((n : Nat) > 0) then "healthy" else "unhealthy")
          (aliasUrl cutover) (decide ((n : Nat) > 0))) trivial drv oracle hosts hlu cutover
        obtain ⟨z, hz, hlz⟩ := ih hlv
        refine ⟨z, ?_, hlz⟩
        rw [syncAliases, run_bind, syncAlias, run_bind, hu]
        simp only
        rw [run_bind, hv]
        exact hz

theorem sends_syncAliases (h : HostRow) (rows : List (String × Option String)) :
    Only (sends h) (syncAliases cutover rows) := by
  induction rows with
  | nil => trivial
  | cons row rows ih =>
      rcases row with ⟨name, _ | target⟩
      · exact ih
      · refine Only.bind ?_ fun _ => ih
        refine (sends_general (s := .countRoutable target) trivial (by intro h; cases h) h
          cutover).bind fun n => ?_
        exact (sends_general (s := .insertAlias ..) trivial (by intro h; cases h) h cutover).bind
          fun _ => only_pure _

theorem sends_same {hosts : List HostRow} {h : HostRow} {α : Type} {p : Svc α}
    (hp : Only (sends h) p) {s s' t : State}
    (hst : Same h s t) {a : α} (hr : run (serve drv oracle hosts) p s = (.ok a, s'))
    (hl : Live s') : Same h s' t := by
  have hn := run_near drv oracle hosts hp (near_of_same hst)
  rw [hr] at hn
  exact same_of_near hn hl hst

variable (drv oracle cutover) in
theorem deleteAliases_same (db db' : Db) {h : HostRow} {s t : State} (hst : Same h s t) :
    Same h (run (serve drv oracle db.hosts) (send cutover .deleteAliases) s).2
      (run (serve drv oracle db'.hosts) (send cutover .deleteAliases) t).2 := by
  have hagree : ∀ now now' d d', Slice h d d' →
      Agree h (exec drv now d .deleteAliases) (exec drv now' d' .deleteAliases) :=
    fun now _ _ _ hd => exec_deleteAliases drv now hd
  have hs := general_quiet (s := .deleteAliases) trivial oracle db.hosts s
  have ht := general_quiet (s := .deleteAliases) trivial oracle db'.hosts t
  cases cutover with
  | false =>
      rw [send, if_neg Bool.false_ne_true, run_execute, run_execute]
      refine (tell_of_answer (by rw [hs.1, ht.1]; rfl) (by rw [hs.1, ht.1]; rfl) ?_ hst).2
      rintro st (he | he)
      · cases he
        exact hagree _ _
      · cases he
  | true =>
      rw [send, if_pos rfl, run_adapter, run_adapter]
      refine (tell_of_answer (by rw [hs.2, ht.2]; rfl) (by rw [hs.2, ht.2]; rfl) ?_ hst).2
      rintro st (he | he)
      · cases he
      · cases he
        exact hagree _ _

theorem run_aliasTail {hosts : List HostRow} {summary : List HostSummary} {s s₁ s₂ s₃ : State}
    {row : Option String} {r : Unit}
    (h₁ : run (serve drv oracle hosts) (execute .aliasSetting) s = (.ok row, s₁))
    (h₂ : run (serve drv oracle hosts) (send cutover .deleteAliases) s₁ = (.ok r, s₂))
    (h₃ : run (serve drv oracle hosts) (syncAliases cutover (if aliasesOn row then aliases else []))
    s₂ = (.ok (), s₃)) :
    run (serve drv oracle hosts) (aliasTail cutover summary) s = (.ok summary, s₃) := by
  rw [aliasTail, run_bind, h₁]
  simp only
  rw [run_bind, h₂]
  simp only
  rw [run_bind, h₃]
  rfl

variable (drv oracle cutover) in
theorem aliasTail_ok (hosts : List HostRow) {s : State} (hl : Live s) (summary : List HostSummary) :
    ∃ u, run (serve drv oracle hosts) (aliasTail cutover summary) s = (.ok summary, u) ∧
      Live u := by
  obtain ⟨row, s₁, hs₁, hl₁⟩ := general_ok (s := .aliasSetting) trivial drv oracle hosts hl false
  obtain ⟨r, s₂, hs₂, hl₂⟩ := general_ok (s := .deleteAliases) trivial drv oracle hosts hl₁ cutover
  obtain ⟨s₃, hs₃, hl₃⟩ := syncAliases_ok drv oracle cutover hosts
    (if aliasesOn row then aliases else []) hl₂
  exact ⟨s₃, run_aliasTail hs₁ hs₂ hs₃, hl₃⟩

theorem aliasTail_same (db db' : Db) {h : HostRow} {s t u v : State} (hst : Same h s t)
    (hls : Live s) (hlt : Live t)
    {summary summary' : List HostSummary} (hu :
    run (serve drv oracle db.hosts) (aliasTail cutover summary) s = (.ok summary, u))
    (hv : run (serve drv oracle db'.hosts) (aliasTail cutover summary') t = (.ok summary', v)) :
    Same h u v := by
  have hread : Only (sends h) (execute .aliasSetting) :=
    sends_general (s := .aliasSetting) trivial (by intro h; cases h) h false
  obtain ⟨row, s₁, hs₁, hls₁⟩ :=
    general_ok (s := .aliasSetting) trivial drv oracle db.hosts hls false
  obtain ⟨row', t₁, ht₁, hlt₁⟩ :=
    general_ok (s := .aliasSetting) trivial drv oracle db'.hosts hlt false
  have hst₁ : Same h s₁ t₁ := (sends_same hread (sends_same hread hst hs₁ hls₁).symm ht₁ hlt₁).symm
  obtain ⟨r, s₂, hs₂, hls₂⟩ :=
    general_ok (s := .deleteAliases) trivial drv oracle db.hosts hls₁ cutover
  obtain ⟨r', t₂, ht₂, hlt₂⟩ :=
    general_ok (s := .deleteAliases) trivial drv oracle db'.hosts hlt₁ cutover
  have hst₂ : Same h s₂ t₂ := by
    have hd := deleteAliases_same drv oracle cutover db db' hst₁
    rw [hs₂, ht₂] at hd
    exact hd
  obtain ⟨s₃, hs₃, hls₃⟩ := syncAliases_ok drv oracle cutover db.hosts
    (if aliasesOn row then aliases else []) hls₂
  obtain ⟨t₃, ht₃, hlt₃⟩ := syncAliases_ok drv oracle cutover db'.hosts
    (if aliasesOn row' then aliases else []) hlt₂
  cases (run_aliasTail hs₁ hs₂ hs₃).symm.trans hu
  cases (run_aliasTail ht₁ ht₂ ht₃).symm.trans hv
  have hrows : ∀ rows, Only (sends h) (syncAliases cutover rows) := sends_syncAliases h
  exact (sends_same (hrows _) (sends_same (hrows _) hst₂ hs₃ hls₃).symm ht₃ hlt₃).symm

end Tail

section Ends

variable {drv : Driver} {oracle : Oracle} {cutover : Bool} {db : Db} {now : Int}

def connected (drv : Driver) (oracle : Oracle) (db : Db) (now : Int) : State :=
  (serve drv oracle db.hosts (start db now) .connect).2

def opened (drv : Driver) (oracle : Oracle) (db : Db) (now : Int) : State :=
  (serve drv oracle db.hosts (connected drv oracle db now) (.sql .hostInventory)).2

def inventory (db : Db) : List HostRow := db.hosts.insertionSort (fun a b => a.hostId ≤ b.hostId)

theorem link_quiet {e : Eff} (he : link e) (oracle : Oracle) (hosts : List HostRow) (s : State) :
    outcome oracle hosts s e = quiet s.1.now := by
  unfold outcome
  rw [link_owner he hosts]

theorem tell_connect (s : State) :
    serve drv oracle db.hosts s .connect =
      (true, ({ s.1 with txn := .live id, ops := s.1.ops + 1 }, s.2 ++ [⟨.connect, true⟩])) := by
  unfold serve
  rw [link_quiet (e := .connect) trivial]
  rfl

theorem tell_inventory : (serve drv oracle db.hosts (connected drv oracle db now)
    (.sql .hostInventory)).1 = .ok ((inventory db).map entry) := by
  have hc : connected drv oracle db now = _ := congrArg Prod.snd (tell_connect (start db now))
  unfold serve
  rw [(general_quiet (s := .hostInventory) trivial oracle db.hosts _).1, hc]
  rfl

theorem opened_live : Live (opened drv oracle db now) := by
  have hc : Live (connected drv oracle db now) :=
    ⟨id, congrArg (fun r => r.2.1.txn) (tell_connect (start db now))⟩
  rcases tell_sql drv oracle db.hosts hc .hostInventory with ⟨x, hx⟩ | ⟨-, -, hl⟩
  · rw [tell_inventory] at hx
    cases hx
  · exact hl

theorem opened_same {h : HostRow} (hh : h ∈ db.hosts) :
    Same h (opened drv oracle db now) (opened drv oracle (alone db h) now) := by
  have hstart : Same h (start db now) (start (alone db h) now) := ⟨rfl, slice_alone hh, .closed⟩
  have hconn : Same h (connected drv oracle db now) (connected drv oracle (alone db h) now) :=
    (tell_same (e := .connect) hh List.mem_cons_self (.inr trivial) hstart).2
  have hread : Only (sends h) (execute .hostInventory) :=
    sends_general (s := .hostInventory) trivial (by intro h; cases h) h false
  have hrun : ∀ db : Db, run (serve drv oracle db.hosts) (execute .hostInventory)
      (connected drv oracle db now) =
      (.ok ((inventory db).map entry), opened drv oracle db now) := fun db => by
    rw [run_execute, tell_inventory]
    rfl
  exact (sends_same hread (sends_same hread hconn (hrun db) opened_live).symm (hrun (alone db h))
    opened_live).symm

theorem run_closing {α : Type} (f : State → (e : Eff) → Ans e × State) (p : Svc α) (s : State) :
    run f (closing p) s = ((run f p s).1, (f (run f p s).2 .close).2) := by
  rw [closing, run_bind, run_tryCatch]
  rcases run f p s with ⟨_ | a, u⟩
  · rfl
  · rfl

theorem syncPass_eq : syncPass drv oracle cutover db now =
    run (serve drv oracle db.hosts) (closing (tryCatch (do
      let summary ← syncBody cutover
      commit
      pure (.hosts summary)) (fun e => do
      rollback
      pure (.error (shown e))))) (connected drv oracle db now) := by
  rw [syncPass, syncRegistry, run_bind, run_pg, tell_connect]
  simp only [if_true]
  rw [connected, tell_connect]

def settle : Svc Unit := do
  commit
  close

def undo : Svc Unit := do
  rollback
  close

theorem only_settle (h : HostRow) : Only (mine h) settle :=
  (only_commit (.inr trivial)).bind fun _ => only_call (.inr trivial) fun _ => trivial

theorem only_undo (h : HostRow) : Only (mine h) undo :=
  (only_rollback (.inr trivial)).bind fun _ => only_call (.inr trivial) fun _ => trivial

theorem syncPass_ok {s : State} {summary : List HostSummary}
    (hb : run (serve drv oracle db.hosts) (syncBody cutover) (connected drv oracle db now) =
    (.ok summary, s)) (hl : Live s) :
    syncPass drv oracle cutover db now = (.ok (.hosts summary),
      (run (serve drv oracle db.hosts) settle s).2) := by
  obtain ⟨pending, hw⟩ := hl
  have hc : (serve drv oracle db.hosts s .commit).1 = .ok () := by
    unfold serve Fleet.answer
    simp only [link_quiet (e := .commit) trivial, hw, quiet]
  rw [syncPass_eq, run_closing, run_tryCatch, run_bind, hb]
  simp only
  rw [run_bind, run_commit, hc, settle, run_bind, run_commit, hc]
  rfl

theorem syncPass_error {s : State} {x : PyExc}
    (hb : run (serve drv oracle db.hosts) (syncBody cutover) (connected drv oracle db now) =
    (.error x, s)) (ho : s.1.txn ≠ .closed) :
    syncPass drv oracle cutover db now = (.ok (.error (shown x)),
      (run (serve drv oracle db.hosts) undo s).2) := by
  have hr : (serve drv oracle db.hosts s .rollback).1 = .ok () := by
    unfold serve Fleet.answer
    simp only [link_quiet (e := .rollback) trivial, quiet]
  rw [syncPass_eq, run_closing, run_tryCatch, run_bind, hb]
  simp only
  rw [run_bind, run_rollback, hr, undo, run_bind, run_rollback, hr]
  rfl

end Ends

section Sync

variable {drv : Driver} {oracle : Oracle} {cutover : Bool} {db : Db} {now : Int}

def atLoop (drv : Driver) (oracle : Oracle) (db : Db) (now : Int) (k : HostRow) : State :=
  opened drv oracle (alone db k) now

theorem run_syncBody : run (serve drv oracle db.hosts) (syncBody cutover)
    (connected drv oracle db now) =
    run (serve drv oracle db.hosts) (syncHosts cutover ((inventory db).map entry) >>=
      aliasTail cutover) (opened drv oracle db now) := by
  rw [syncBody_eq, run_bind, run_execute, tell_inventory]
  rfl

theorem mem_inventory {k : HostRow} : k ∈ inventory db ↔ k ∈ db.hosts := List.mem_insertionSort _

variable (db) in
theorem inventory_nodup : (inventory db).Nodup :=
  (List.perm_insertionSort _ _).nodup_iff.mpr (List.Nodup.of_map _ db.hostKey)

def asks : Eff → Prop
  | .sql _ => True
  | .orm _ => True
  | .getModels _ => True
  | .completion .. => True
  | .pve _ => True
  | _ => False

theorem strict_asks {α : Type} {p : Svc α} (h : Strict cutover p) : Only asks p := by
  induction p with
  | ret a => trivial
  | raise x => trivial
  | call e k ih =>
      cases e with
      | sql s =>
          refine only_call trivial fun a => ?_
          cases a with
          | error x =>
              rw [h.2.1 x]
              trivial
          | ok r => exact ih _ (h.2.2 r)
      | orm s =>
          refine only_call trivial fun a => ?_
          cases a with
          | error x =>
              rw [h.2.1 x]
              trivial
          | ok r => exact ih _ (h.2.2 r)
      | getModels ip => exact only_call trivial fun a => ih a (h a)
      | completion ip m => exact only_call trivial fun a => ih a (h a)
      | pve r => exact only_call trivial fun a => ih a (h a)
      | connect => exact h.elim
      | commit => exact h.elim
      | rollback => exact h.elim
      | close => exact h.elim
      | restart ip => exact h.elim
      | sleep n => exact h.elim
      | auditFile ip t d b => exact h.elim

theorem asks_open {hosts : List HostRow} {s : State} {e : Eff} (he : asks e)
    (hs : s.1.txn ≠ .closed) :
    (serve drv oracle hosts s e).2.1.txn ≠ .closed := by
  cases e with
  | sql st =>
      by_cases hl : Live s
      · obtain ⟨pending, hw⟩ := hl
        unfold serve Fleet.answer
        simp only [hw]
        cases (outcome oracle hosts s (.sql st)).fault with
        | some x => exact aborted_open
        | none =>
            simp only
            cases exec drv (outcome oracle hosts s (.sql st)).now (pending s.1.db) st with
            | error x => exact aborted_open
            | ok r => exact live_open rfl
      · have hw : s.1.txn = .aborted := by
          cases hw : s.1.txn with
          | closed => exact absurd hw hs
          | live pending => exact absurd ⟨pending, hw⟩ hl
          | aborted => rfl
        unfold serve Fleet.answer
        simp only [hw]
        exact aborted_open
  | orm st =>
      unfold serve Fleet.answer
      simp only
      cases (outcome oracle hosts s (.orm st)).fault with
      | some x => exact hs
      | none =>
          simp only
          cases exec drv (outcome oracle hosts s (.orm st)).now s.1.db st with
          | error x => exact hs
          | ok r => exact hs
  | getModels | completion | pve => exact hs
  | _ => exact he.elim

variable (drv oracle cutover db now) in
theorem body_open : (run (serve drv oracle db.hosts) (syncBody cutover)
    (connected drv oracle db now)).2.1.txn ≠ .closed := by
  have hkeep : ∀ (s : State) e, asks e → s.1.txn ≠ .closed →
      (serve drv oracle db.hosts s e).2.1.txn ≠ .closed :=
    fun s e he hs => asks_open he hs
  refine (strict_asks (strict_syncBody cutover)).run_keeps hkeep ?_
  rw [connected, tell_connect]
  exact live_open rfl

variable (drv oracle cutover db now) in
theorem run_one (k : HostRow) : run (serve drv oracle [k])
    (syncHosts cutover ((inventory (alone db k)).map entry)) (atLoop drv oracle db now k) =
    match run (serve drv oracle [k]) (syncHost cutover (entry k)) (atLoop drv oracle db now k) with
    | (.ok row, s) => (.ok [row], s)
    | (.error x, s) => (.error x, s) := by
  change run _ (syncHosts cutover [entry k]) _ = _
  rw [syncHosts, run_bind]
  rcases run (serve drv oracle [k]) (syncHost cutover (entry k)) (atLoop drv oracle db now k) with ⟨x | row, s⟩
  · rfl
  · rfl

theorem alone_ok {k : HostRow} {row : HostSummary}
    (hk : ownEntry drv oracle cutover (atLoop drv oracle db now) k = .ok row) :
    Live (run (serve drv oracle [k]) (syncHost cutover (entry k)) (atLoop drv oracle db now k)).2 ∧
      ∃ u, run (serve drv oracle [k]) (aliasTail cutover [row])
          (run (serve drv oracle [k]) (syncHost cutover (entry k)) (atLoop drv oracle db now k)).2 =
            (.ok [row], u) ∧
        syncPass drv oracle cutover (alone db k) now =
          (.ok (.hosts [row]), (run (serve drv oracle [k]) settle u).2) := by
  have hrun : run (serve drv oracle [k]) (syncHost cutover (entry k)) (atLoop drv oracle db now k) =
      (.ok row, (run (serve drv oracle [k]) (syncHost cutover (entry k))
        (atLoop drv oracle db now k)).2) := Prod.ext hk rfl
  have hl := strict_live (strict_syncHost cutover _) opened_live hrun
  obtain ⟨u, hu, hlu⟩ := aliasTail_ok drv oracle cutover [k] hl [row]
  refine ⟨hl, u, hu, @syncPass_ok drv oracle cutover (alone db k) now _ _ ?_ hlu⟩
  have h₁ := run_one drv oracle cutover db now k
  rw [hrun] at h₁
  have h₁ : run (serve drv oracle (alone db k).hosts)
      (syncHosts cutover ((inventory (alone db k)).map entry))
      (opened drv oracle (alone db k) now) = _ := h₁
  rw [run_syncBody, run_bind, h₁]
  exact hu

theorem sync_all (hok : ∀ k ∈ db.hosts, ∃ row,
    ownEntry drv oracle cutover (atLoop drv oracle db now) k = .ok row) :
    ∃ rows s, syncPass drv oracle cutover db now = (.ok (.hosts rows), s) ∧
      (inventory db).map (ownEntry drv oracle cutover (atLoop drv oracle db now)) =
        rows.map Except.ok ∧
      ∀ k ∈ db.hosts, ∃ row u, syncPass drv oracle cutover (alone db k) now =
        (.ok (.hosts [row]), u) ∧
        ownEntry drv oracle cutover (atLoop drv oracle db now) k = .ok row ∧ Same k s u := by
  obtain ⟨rows, hrows⟩ := entries_ok fun k (hk : k ∈ inventory db) => hok k (mem_inventory.mp hk)
  obtain ⟨s₁, hr, hl, hs₁⟩ :=
    syncHosts_same (show ([] ++ inventory db).Nodup from inventory_nodup db)
    (fun k hk => mem_inventory.mp hk) opened_live (fun k hk => opened_same hk) rows hrows
  obtain ⟨s₂, hs₂, hls₂⟩ := aliasTail_ok drv oracle cutover db.hosts hl rows
  have hbody : run (serve drv oracle db.hosts) (syncBody cutover) (connected drv oracle db now) =
      (.ok rows, s₂) := by
    rw [run_syncBody, run_bind, hr]
    exact hs₂
  refine ⟨rows, _, syncPass_ok hbody hls₂, hrows, fun k hk => ?_⟩
  obtain ⟨row, hrow⟩ := hok k hk
  have hsame := hs₁ k hk
  rw [List.nil_append, afterOwn, if_pos (mem_inventory.mpr hk)] at hsame
  obtain ⟨hlt, u₂, hu₂, hpass⟩ := alone_ok hrow
  have hsame₂ := aliasTail_same db (alone db k) hsame hl hlt hs₂ hu₂
  exact ⟨row, _, hpass, hrow, (run_same _ _ hk (mem_alone db k) (only_settle k) hsame₂).2⟩

variable (drv oracle) in
theorem own_kept {α : Type} (h : HostRow) (hosts : List HostRow) {p : Svc α}
    (hp : Only (fun e => about h e = false) p) (s : State) :
    own h (run (serve drv oracle hosts) p s).2.2 = own h s.2 := by
  have hkeep : ∀ (u : State) e, about h e = false → own h u.2 = own h s.2 →
      own h (serve drv oracle hosts u e).2.2 = own h s.2 := by
    intro u e he hu
    unfold serve
    rw [own_snoc, he]
    exact (List.append_nil _).trans hu
  exact hp.run_keeps (I := fun u : State => own h u.2 = own h s.2) hkeep rfl

theorem own_atLoop (k : HostRow) : own k (atLoop drv oracle db now k).2 = [] := by
  have h₁ : own k (connected drv oracle (alone db k) now).2 = [] := by
    rw [connected, tell_connect]
    rfl
  have h₂ := own_kept drv oracle k (alone db k).hosts
    (only_execute (s := .hostInventory) rfl) (connected drv oracle (alone db k) now)
  rw [run_execute] at h₂
  exact h₂.trans h₁

theorem run_syncBody_error {x : PyExc} {s : State}
    (h : run (serve drv oracle db.hosts) (syncHosts cutover ((inventory db).map entry))
    (opened drv oracle db now) = (.error x, s)) :
    syncPass drv oracle cutover db now = (.ok (.error (shown x)),
      (run (serve drv oracle db.hosts) undo s).2) := by
  have hbody : run (serve drv oracle db.hosts) (syncBody cutover) (connected drv oracle db now) =
      (.error x, s) := by
    rw [run_syncBody, run_bind, h]
  have hopen := body_open drv oracle cutover db now
  rw [hbody] at hopen
  exact syncPass_error hbody hopen

theorem alone_error {k : HostRow} {x : PyExc}
    (hk : ownEntry drv oracle cutover (atLoop drv oracle db now) k = .error x) :
    syncPass drv oracle cutover (alone db k) now =
      (.ok (.error (shown x)), (run (serve drv oracle [k]) undo
      (run (serve drv oracle [k]) (syncHost cutover (entry k)) (atLoop drv oracle db now k)).2).2) := by
  refine @run_syncBody_error drv oracle cutover (alone db k) now _ _ ?_
  have h₁ := run_one drv oracle cutover db now k
  have hrun : run (serve drv oracle [k]) (syncHost cutover (entry k)) (atLoop drv oracle db now k) =
      (.error x, (run (serve drv oracle [k]) (syncHost cutover (entry k))
        (atLoop drv oracle db now k)).2) := Prod.ext hk rfl
  rw [hrun] at h₁
  exact h₁

theorem sync_fails {pre post : List HostRow} {g : HostRow} {x : PyExc}
    (hi : inventory db = pre ++ g :: post)
    (hpre : ∀ k ∈ pre, ∃ row, ownEntry drv oracle cutover (atLoop drv oracle db now) k = .ok row)
    (hg : ownEntry drv oracle cutover (atLoop drv oracle db now) g = .error x) :
    ∃ s, syncPass drv oracle cutover db now = (.ok (.error (shown x)), s) ∧
      Same g s (syncPass drv oracle cutover (alone db g) now).2 ∧ ∀ k ∈ post, own k s.2 = [] := by
  have hsub : ∀ k ∈ pre ++ g :: post, k ∈ db.hosts := fun k hk => mem_inventory.mp (hi ▸ hk)
  obtain ⟨s, hr, hsame, hpost⟩ :=
    syncHosts_error (hi ▸ inventory_nodup _) hsub opened_live (fun k hk => opened_same hk) hpre hg
  rw [← hi] at hr
  refine ⟨_, run_syncBody_error hr, ?_, fun k hk => ?_⟩
  · rw [alone_error hg]
    exact (run_same _ _ (hsub g (List.mem_append_right _ List.mem_cons_self)) (mem_alone db g)
      (only_undo g) hsame).2
  · have hundo : Only (fun e => about k e = false) undo :=
      (only_rollback (φ := fun e => about k e = false) rfl).bind fun _ => only_call rfl fun _ =>
        trivial
    rw [own_kept _ _ _ _ hundo, hpost k hk]
    exact own_atLoop k

variable (drv oracle) in
theorem own_grows {α : Type} (h : HostRow) (hosts : List HostRow) (p : Svc α) (s : State) :
    (own h s.2).length ≤ (own h (run (serve drv oracle hosts) p s).2.2).length := by
  induction p generalizing s with
  | ret a => exact le_rfl
  | raise x => exact le_rfl
  | call e k ih =>
      refine le_trans ?_ (ih _ _)
      unfold serve
      rw [own_snoc, List.length_append]
      exact Nat.le_add_right _ _

theorem own_called {α : Type} {h : HostRow} {hosts : List HostRow} {e : Eff} (he : about h e = true)
    (k : Ans e → Svc α) (s : State) :
    (own h s.2).length < (own h (run (serve drv oracle hosts) (.call e k) s).2.2).length := by
  rw [run_call]
  refine lt_of_lt_of_le ?_ (own_grows _ _ _ _ _ _)
  unfold serve
  rw [own_snoc, he, List.length_append]
  exact Nat.lt_succ_self _

theorem synced_alone_iff {k : HostRow} : synced drv oracle cutover (alone db k) now = true ↔
    ∃ row, ownEntry drv oracle cutover (atLoop drv oracle db now) k = .ok row := by
  cases hk : ownEntry drv oracle cutover (atLoop drv oracle db now) k with
  | ok row =>
      obtain ⟨-, u, -, hpass⟩ := alone_ok hk
      unfold synced
      rw [hpass]
      exact ⟨fun _ => ⟨row, rfl⟩, fun _ => rfl⟩
  | error x =>
      unfold synced
      rw [alone_error hk]
      exact ⟨fun h => absurd h Bool.false_ne_true, fun ⟨_, h⟩ => by cases h⟩

end Sync

section Turns

variable {drv : Driver} {oracle : Oracle} {cutover : Bool} {db : Db} {now : Int}

theorem row_ip {k : HostRow} {t : HostRow → State} {row : HostSummary}
    (h : ownEntry drv oracle cutover t k = .ok row) :
    row.ip = k.guestIp := by
  have hrun : run (serve drv oracle [k]) (syncHost cutover (entry k)) (t k) =
      (.ok row, (run (serve drv oracle [k]) (syncHost cutover (entry k)) (t k)).2) := Prod.ext h rfl
  obtain ⟨p, u, -, hrun⟩ := run_bind_ok hrun
  obtain ⟨flags, v, -, hrun⟩ := run_bind_ok hrun
  obtain ⟨-, w, -, hrun⟩ := run_bind_ok hrun
  cases hrun
  rfl

theorem stateOf_row {rows : List HostSummary} {t : HostRow → State}
    (hrows : (inventory db).map (ownEntry drv oracle cutover t) = rows.map Except.ok) {k : HostRow}
    (hk : k ∈ db.hosts)
    {row : HostSummary} (hrow : ownEntry drv oracle cutover t k = .ok row) :
    stateOf rows k.guestIp = stateOf [row] k.guestIp := by
  have hmem : ∀ {r}, r ∈ rows ↔ ∃ g ∈ db.hosts, ownEntry drv oracle cutover t g = .ok r := by
    intro r
    have h₁ : r ∈ rows ↔ Except.ok r ∈ (inventory db).map (ownEntry drv oracle cutover t) := by
      rw [hrows, List.mem_map]
      exact ⟨fun h => ⟨r, h, rfl⟩, fun ⟨r', h, he⟩ => Except.ok.inj he ▸ h⟩
    rw [h₁, List.mem_map]
    exact exists_congr fun g => and_congr_left fun _ => mem_inventory
  have hfind : ∀ {l : List HostSummary}, row ∈ l → (∀ r ∈ l, r.ip = k.guestIp → r = row) →
      l.find? (fun r => r.ip == k.guestIp) = some row := by
    intro l hin hone
    cases hf : l.find? (fun r => r.ip == k.guestIp) with
    | none => exact absurd (beq_iff_eq.mpr (row_ip hrow)) (List.find?_eq_none.mp hf row hin)
    | some r => rw [hone r (List.mem_of_find?_eq_some hf) (by simpa using List.find?_some hf)]
  have hone : ∀ r ∈ rows, r.ip = k.guestIp → r = row := by
    intro r hr hip
    obtain ⟨g, hg, he⟩ := hmem.mp hr
    have hgk : g = k := List.inj_on_of_nodup_map db.ipKey hg hk ((row_ip he).symm.trans hip)
    rw [hgk] at he
    exact Except.ok.inj (he.symm.trans hrow)
  unfold stateOf
  rw [hfind (List.mem_reverse.mpr (hmem.mpr ⟨k, hk, hrow⟩)) fun r hr =>
    hone r (List.mem_reverse.mp hr),
    hfind (List.mem_reverse.mpr List.mem_cons_self) fun r hr _ => List.mem_singleton.mp (List.mem_reverse.mp hr)]

theorem hostTurn_congr {summary summary' : List HostSummary} {h : HostRow}
    (he : stateOf summary h.guestIp = stateOf summary' h.guestIp) :
    hostTurn cutover summary h = hostTurn cutover summary' h := by
  unfold hostTurn
  rw [he]

theorem mine_audit (h : HostRow) (t : String) (d : Json) :
    Only (mine h) (audit cutover h.guestIp t d) :=
  only_audit (fun _ => .inl (beq_self_eq_true _)) (.inl (beq_self_eq_true _))
    (.inl (beq_self_eq_true _))
    ⟨.inr trivial, .inr trivial, .inr trivial, .inr trivial⟩

theorem mine_pve {h : HostRow} {r : PveReq} (hr : nodeOf h.guestIp = .ok (vmOf r)) :
    mine h (.pve r) := by
  left
  unfold about
  rw [hr]
  exact beq_self_eq_true _

variable (cutover) in
theorem mine_rules (h : HostRow) : Rules cutover h.guestIp (fun _ p => Only (mine h) p) where
  pure _ := trivial
  bind hp hf := hp.bind hf
  polls hp := hp.mono fun e he => by
    cases e with
    | sleep n => exact .inr trivial
    | getModels ip => exact .inl (beq_iff_eq.mpr he)
    | completion ip m => exact .inl (beq_iff_eq.mpr he)
    | pve r => cases r with
      | current node vmid => exact mine_pve he
      | power node vmid action => exact he.elim
    | _ => exact he.elim
  audit _ d := mine_audit h _ d

variable (cutover) in
theorem mine_hostTurn (summary : List HostSummary) (h : HostRow) :
    Only (mine h) (hostTurn cutover summary h) := by
  have hr := mine_rules cutover h
  have hcount : ∀ t m, Only (mine h) (recentCount cutover h.guestIp t m) := fun t m =>
    only_recentCount (.inr trivial) (.inl (beq_self_eq_true _)) (.inl (beq_self_eq_true _))
      (.inr trivial)
  refine hr.hostTurn summary (fun _ _ => ?_) ?_
  · exact hr.start hcount (mine_audit h) (only_vmPower fun _ _ hn =>
      mine_pve (r := .power _ _ _) hn) _
  · exact hr.service hcount (mine_audit h) (only_call (.inl (beq_self_eq_true _)) fun _ => trivial)

theorem Apart.beside {g k : HostRow} (h : Apart g k) {e : Eff} (he : mine g e) : beside k e := by
  have hip : ∀ i, (i == g.guestIp) = true → (i == k.guestIp) = false := by
    intro i hi
    rw [beq_iff_eq.mp hi]
    exact beq_eq_false_iff_ne.mpr h.ips
  rcases he with he | he
  · cases e with
    | sql s => exact h.aside he
    | orm s => exact h.aside he
    | getModels ip => exact hip _ he
    | completion ip m => exact hip _ he
    | restart ip => exact hip _ he
    | auditFile ip t d b => exact hip _ he
    | pve r =>
        unfold HostSlices.beside about
        unfold about at he
        cases hk : nodeOf k.guestIp with
        | error x => rfl
        | ok vm =>
            cases hg : nodeOf g.guestIp with
            | error x =>
                rw [hg] at he
                cases he
            | ok vm' =>
                rw [hg] at he
                refine beq_eq_false_iff_ne.mpr fun hv => h.ips ?_
                rw [beq_iff_eq.mp he, ← hv] at hg
                exact nodeOf_inj hg hk
    | _ => cases he
  · cases e with
    | connect | commit | rollback | close | sleep => rfl
    | _ => exact he.elim

def Shut (s : State) : Prop := s.1.txn = .closed

def Shuts {α : Type} (p : Svc α) : Prop :=
  ∀ (drv : Driver) (oracle : Oracle) (hosts : List HostRow) (s : State), Shut s →
    Shut (run (serve drv oracle hosts) p s).2

theorem shuts_bind {α β : Type} {p : Svc α} {f : α → Svc β} (hp : Shuts p) (hf : ∀ a, Shuts (f a)) :
    Shuts (p >>= f) := by
  intro drv oracle hosts s hs
  have h₁ := hp drv oracle hosts s hs
  rw [run_bind]
  revert h₁
  rcases run (serve drv oracle hosts) p s with ⟨x | a, u⟩
  · exact fun h₁ => h₁
  · exact fun h₁ => hf a drv oracle hosts u h₁

def apart : Eff → Prop
  | .connect => False
  | .sql _ => False
  | .commit => False
  | .rollback => False
  | .close => False
  | _ => True

theorem shuts_only {α : Type} {p : Svc α} (hp : Only apart p) : Shuts p := by
  intro drv oracle hosts s hs
  refine hp.run_keeps (I := Shut) (fun u e he hu => ?_) hs
  cases e with
  | orm st =>
      unfold serve Fleet.answer Shut
      simp only
      cases (outcome oracle hosts u (.orm st)).fault with
      | some x => exact hu
      | none =>
          simp only
          cases exec drv (outcome oracle hosts u (.orm st)).now u.1.db st with
          | error x => exact hu
          | ok r => exact hu
  | getModels | completion | pve | restart | sleep | auditFile => exact hu
  | _ => exact he.elim

/-- `if conn := pg(): … finally: conn.close()`. -/
theorem shuts_session {α : Type} (p q : Svc α) :
    Shuts (pg >>= fun b => if b = true then closing p else q) := by
  intro drv oracle hosts s hs
  rw [run_bind, run_pg]
  simp only
  split
  · rw [run_closing]
    rfl
  next hb =>
    have hconn : (serve drv oracle hosts s .connect).1 = true := by
      unfold serve
      rw [link_quiet (e := .connect) trivial]
      rfl
    exact absurd hconn hb

theorem shuts_audit (ip t : String) (d : Json) : Shuts (audit cutover ip t d) := by
  refine shuts_bind (p := .call (.auditFile ip t d false) .ret)
    (shuts_only (only_call trivial fun _ => trivial)) fun _ => ?_
  cases cutover with
  | true =>
      rw [if_pos rfl]
      exact shuts_only (Only.tryCatch (only_call trivial fun a => only_orRaise a) fun _ =>
        only_call trivial fun _ => trivial)
  | false =>
      rw [if_neg Bool.false_ne_true]
      exact shuts_session _ _

theorem shuts_recentCount (ip t : String) (m : Nat) : Shuts (recentCount cutover ip t m) := by
  unfold recentCount
  cases cutover with
  | true =>
      rw [if_pos rfl]
      exact shuts_only (Only.tryCatch (only_call trivial fun a => only_orRaise a) fun _ =>
        only_pure _)
  | false =>
      rw [if_neg Bool.false_ne_true]
      exact shuts_session _ _

theorem polls_apart {ip : String} {e : Eff} (h : polls ip e) : apart e := by
  cases e with
  | sleep | getModels | completion | pve => trivial
  | _ => exact h.elim

variable (cutover) in
theorem shuts_rules (ip : String) : Rules cutover ip (fun _ p => Shuts p) where
  pure _ := shuts_only (only_pure _)
  bind hp hf := shuts_bind hp hf
  polls hp := shuts_only (hp.mono fun _ he => polls_apart he)
  audit _ d := shuts_audit ip _ d

variable (cutover) in
theorem shuts_hostTurn (summary : List HostSummary) (h : HostRow) :
    Shuts (hostTurn cutover summary h) := by
  have hr := shuts_rules cutover h.guestIp
  refine hr.hostTurn summary (fun _ _ => ?_) ?_
  · exact hr.start (shuts_recentCount _) (shuts_audit _)
      (shuts_only (only_vmPower fun _ _ _ => trivial)) _
  · exact hr.service (shuts_recentCount _) (shuts_audit _)
      (shuts_only (only_call trivial fun _ => trivial))

theorem kept_of_shut {h : HostRow} {s : State} (hs : Shut s) : Kept h s s := by
  refine ⟨rfl, Slice.rfl, ?_⟩
  intro pending hp
  rw [hs] at hp
  cases hp

variable (drv oracle) in
theorem run_kept {α : Type} {h : HostRow} (hosts : List HostRow) {p : Svc α}
    (hp : Only (beside h) p) {s : State} (hs : Shut s) :
    Kept h s (run (serve drv oracle hosts) p s).2 :=
  hp.run_keeps (I := Kept h s) (fun _ _ he hk => hk.serve he drv oracle hosts) (kept_of_shut hs)

theorem turn_other {g k : HostRow} (h : Apart g k) {hosts : List HostRow}
    {summary : List HostSummary} {s t : State}
    (hst : Same k s t) (hs : Shut s) : Same k
    (run (serve drv oracle hosts) (hostTurn cutover summary g) s).2 t := by
  have hk := run_kept drv oracle hosts
    ((mine_hostTurn cutover summary g).mono fun _ he => h.beside he) hs
  have hx := shuts_hostTurn cutover summary g drv oracle hosts s hs
  refine ⟨hk.own.trans hst.own, hk.db.symm.trans hst.db, ?_⟩
  have ha := hst.txn
  rw [hs] at ha
  rw [hx]
  exact ha

def afterTurn (drv : Driver) (oracle : Oracle) (cutover : Bool) (rows : List HostSummary)
    (done : List HostRow)
    (u : HostRow → State) (k : HostRow) : State :=
  if k ∈ done then (run (serve drv oracle [k]) (hostTurn cutover rows k) (u k)).2 else u k

theorem turns_same {done rest : List HostRow} (hd : (done ++ rest).Nodup)
    (hsub : ∀ k ∈ rest, k ∈ db.hosts)
    {rows : List HostSummary} {u : HostRow → State} {s : State} (hx : Shut s)
    (hs : ∀ k ∈ db.hosts, Same k s (afterTurn drv oracle cutover rows done u k))
    (hok : ∀ k ∈ rest, (run (serve drv oracle [k]) (hostTurn cutover rows k) (u k)).1 = .ok ()) :
    ∃ s', run (serve drv oracle db.hosts) (turns cutover rows rest) s = (.ok (), s') ∧ Shut s' ∧
      ∀ k ∈ db.hosts, Same k s' (afterTurn drv oracle cutover rows (done ++ rest) u k) := by
  induction rest generalizing done s with
  | nil =>
      refine ⟨s, rfl, hx, ?_⟩
      rw [List.append_nil]
      exact hs
  | cons g rest ih =>
      have hg : g ∈ db.hosts := hsub g List.mem_cons_self
      have hout : g ∉ done :=
        fun hin => (List.nodup_append.mp hd).2.2 g hin g List.mem_cons_self rfl
      have hsame := hs g hg
      rw [afterTurn, if_neg hout] at hsame
      obtain ⟨hres, hafter⟩ := run_same drv oracle hg (mem_alone db g)
        (mine_hostTurn cutover rows g) hsame
      have hrun : run (serve drv oracle db.hosts) (hostTurn cutover rows g) s =
          (.ok (), (run (serve drv oracle db.hosts) (hostTurn cutover rows g) s).2) :=
        Prod.ext (hres.trans (hok g List.mem_cons_self)) rfl
      have hstep : ∀ k ∈ db.hosts, Same k (run (serve drv oracle db.hosts) (hostTurn cutover rows g)
          s).2
          (afterTurn drv oracle cutover rows (done ++ [g]) u k) := by
        intro k hk
        by_cases hkg : k = g
        · subst hkg
          rw [afterTurn, if_pos (List.mem_append_right _ List.mem_cons_self)]
          exact hafter
        · have hk' := hs k hk
          have hmem : k ∈ done ++ [g] ↔ k ∈ done := by simp [hkg]
          rw [afterTurn] at hk' ⊢
          rw [if_congr hmem rfl rfl]
          exact turn_other (apart_of_ne hg hk fun he => hkg he.symm) hk' hx
      obtain ⟨s', hr', hx', hs'⟩ := ih (show ((done ++ [g]) ++ rest).Nodup by simpa using hd)
        (fun k hk => hsub k (List.mem_cons_of_mem _ hk))
          (shuts_hostTurn _ rows g drv oracle db.hosts s hx) hstep
        fun k hk => hok k (List.mem_cons_of_mem _ hk)
      refine ⟨s', ?_, hx', by simpa using hs'⟩
      rw [turns, run_bind, hrun]
      exact hr'

theorem run_turns_append (f : State → (e : Eff) → Ans e × State) (rows : List HostSummary)
    (xs ys : List HostRow) (s : State) :
    run f (turns cutover rows (xs ++ ys)) s =
      run f (turns cutover rows xs >>= fun _ => turns cutover rows ys) s := by
  induction xs generalizing s with
  | nil => rfl
  | cons x xs ih =>
      rw [List.cons_append, turns, turns, Prog.bind_assoc, run_bind, run_bind]
      rcases run f (hostTurn cutover rows x) s with ⟨x | u, v⟩
      · rfl
      · exact ih v

variable (cutover) in
theorem beside_turns {h : HostRow} (rows : List HostSummary) {rest : List HostRow}
    (hr : ∀ g ∈ rest, Apart g h) :
    Only (beside h) (turns cutover rows rest) := by
  induction rest with
  | nil => trivial
  | cons g rest ih =>
      refine Only.bind ((mine_hostTurn _ rows g).mono fun _ he =>
        (hr g List.mem_cons_self).beside he) fun _ => ?_
      exact ih fun g hg => hr g (List.mem_cons_of_mem _ hg)

def turnOrder (drv : Driver) (db : Db) : List HostRow :=
  db.hosts.insertionSort (fun a b => drv.le a.guestIp b.guestIp = true)

variable (drv) in
theorem mem_turnOrder {k : HostRow} : k ∈ turnOrder drv db ↔ k ∈ db.hosts :=
  List.mem_insertionSort _

variable (drv db) in
theorem turnOrder_nodup : (turnOrder drv db).Nodup :=
  (List.perm_insertionSort _ _).nodup_iff.mpr (List.Nodup.of_map _ db.hostKey)

def afterRead (drv : Driver) (oracle : Oracle) (hosts : List HostRow) (s : State) : State :=
  (serve drv oracle hosts (serve drv oracle hosts (serve drv oracle hosts s .connect).2
    (.sql .tickHosts)).2 .close).2

theorem tell_tickHosts (s : State) :
    (serve drv oracle db.hosts (serve drv oracle db.hosts s .connect).2 (.sql .tickHosts)).1 =
    .ok (turnOrder drv s.1.db) ∧
      Live (serve drv oracle db.hosts (serve drv oracle db.hosts s .connect).2
        (.sql .tickHosts)).2 := by
  have hl : Live (serve drv oracle db.hosts s .connect).2 :=
    ⟨id, congrArg (fun r => r.2.1.txn) (tell_connect s)⟩
  have hr : (serve drv oracle db.hosts (serve drv oracle db.hosts s .connect).2
      (.sql .tickHosts)).1 = .ok (turnOrder drv s.1.db) := by
    rw [tell_connect]
    unfold serve
    rw [(general_quiet (s := .tickHosts) trivial oracle db.hosts _).1]
    rfl
  rcases tell_sql drv oracle db.hosts hl .tickHosts with ⟨x, hx⟩ | ⟨-, -, hl'⟩
  · rw [hr] at hx
    cases hx
  · exact ⟨hr, hl'⟩

theorem run_readHosts (s : State) : run (serve drv oracle db.hosts) readHosts s =
    (.ok (some (turnOrder drv s.1.db)), afterRead drv oracle db.hosts s) := by
  rw [readHosts, run_bind, run_pg]
  have hc : (serve drv oracle db.hosts s .connect).1 = true := congrArg Prod.fst (tell_connect s)
  simp only [hc, if_true]
  rw [run_closing, run_bind, run_execute, (tell_tickHosts s).1]
  rfl

theorem afterRead_same {h : HostRow} (hh : h ∈ db.hosts) {s t : State} (hst : Same h s t) :
    Same h (afterRead drv oracle db.hosts s) (afterRead drv oracle [h] t) := by
  have h₁ : Same h (serve drv oracle db.hosts s .connect).2
      (serve drv oracle (alone db h).hosts t .connect).2 :=
    (tell_same (e := .connect) hh List.mem_cons_self (.inr trivial) hst).2
  have hread : Only (sends h) (execute .tickHosts) :=
    sends_general (s := .tickHosts) trivial (by intro h; cases h) h false
  have hrun : ∀ (db : Db) (s : State), run (serve drv oracle db.hosts) (execute .tickHosts)
      (serve drv oracle db.hosts s .connect).2 =
      (.ok (turnOrder drv s.1.db), (serve drv oracle db.hosts
        (serve drv oracle db.hosts s .connect).2 (.sql .tickHosts)).2) :=
    fun db s => by rw [run_execute, (tell_tickHosts s).1]
  have h₂ :=
    (sends_same hread (sends_same hread h₁ (hrun db s) (tell_tickHosts s).2).symm
    (hrun (alone db h) t)
    (tell_tickHosts t).2).symm
  exact (tell_same (e := .close) hh (mem_alone db h) (.inr trivial) h₂).2

theorem afterRead_shut (hosts : List HostRow) (s : State) : Shut (afterRead drv oracle hosts s) :=
  rfl

variable (drv oracle cutover db now) in
theorem sync_hosts : (syncPass drv oracle cutover db now).2.1.db.hosts = db.hosts := by
  have hkeep : ∀ (s : State) e, callsRegistry e → OnlyRegistry db s.1 →
      OnlyRegistry db (serve drv oracle db.hosts s e).2.1 := by
    intro s e he hs
    exact @answer_onlyRegistry drv ⟨(outcome oracle db.hosts s e).net,
      fun _ => (outcome oracle db.hosts s e).fault,
      fun _ => (outcome oracle db.hosts s e).now⟩ db s.1 e he hs
  have hstart : OnlyRegistry db (start db now).1 :=
    ⟨RegistryPass.Beside.rfl, by intro p hp; cases hp⟩
  exact ((only_syncRegistry cutover).run_keeps hkeep hstart).1.hosts

theorem tickPass_eq {rows : List HostSummary} {s : State}
    (h : syncPass drv oracle cutover db now = (.ok (.hosts rows), s)) :
    tickPass drv oracle cutover db now =
      run (serve drv oracle db.hosts) (turns cutover rows (turnOrder drv db))
        (afterRead drv oracle db.hosts s) := by
  have hsync : run (serve drv oracle db.hosts) (syncRegistry cutover) (start db now) =
      (.ok (.hosts rows), s) := h
  have hhosts : turnOrder drv s.1.db = turnOrder drv db := by
    have hs := sync_hosts drv oracle cutover db now
    rw [h] at hs
    unfold turnOrder
    rw [hs]
  rw [tickPass, tick, run_bind, hsync]
  simp only
  rw [afterSync, run_bind, run_readHosts, hhosts]

theorem tickPass_error {x : String} (h : (syncPass drv oracle cutover db now).1 = .ok (.error x)) :
    (tickPass drv oracle cutover db now).2 = (syncPass drv oracle cutover db now).2 := by
  rw [tickPass, tick, run_bind]
  unfold syncPass at h ⊢
  revert h
  rcases run (serve drv oracle db.hosts) (syncRegistry cutover) (start db now) with ⟨r, s⟩
  intro h
  cases h
  rfl

end Turns

section Isolation

def before (h : HostRow) (hosts : List HostRow) : List HostRow :=
  hosts.takeWhile (fun g => g.hostId != h.hostId)

/-- The pass treats a host as it would without the others. -/
structure Isolated (drv : Driver) (oracle : Oracle) (cutover : Bool) (db : Db) (now : Int)
    (h : HostRow) : Prop where
  commits : synced drv oracle cutover db now = synced drv oracle cutover (alone db h) now
  calls : own h (tickPass drv oracle cutover db now).2.2 =
    own h (tickPass drv oracle cutover (alone db h) now).2.2
  slice : Slice h (tickPass drv oracle cutover db now).2.1.db
    (tickPass drv oracle cutover (alone db h) now).2.1.db

def Mapped (h : HostRow) : Prop := ∃ vm, nodeOf h.guestIp = .ok vm

/-- What each of the other hosts would do on its own leaves the pass to this one. -/
structure Clear (drv : Driver) (oracle : Oracle) (cutover : Bool) (db : Db) (now : Int)
    (h : HostRow) : Prop where
  reached : ∀ g ∈ db.hosts, g.hostId < h.hostId → synced drv oracle cutover (alone db g) now = true
  committed : synced drv oracle cutover (alone db h) now = true → ∀ g ∈ db.hosts,
    synced drv oracle cutover (alone db g) now = true
  turned : synced drv oracle cutover (alone db h) now = true → Mapped h →
    ∀ g ∈ before h (turnOrder drv db), ended drv oracle cutover (alone db g) now = true

variable {drv : Driver} {oracle : Oracle} {cutover : Bool} {db : Db} {now : Int}

theorem first_split {α : Type} {p : α → Prop} {l : List α} (h : ¬ ∀ a ∈ l, p a) :
    ∃ pre a post, l = pre ++ a :: post ∧ ¬ p a ∧ ∀ b ∈ pre, p b := by
  induction l with
  | nil => exact absurd (fun a ha => absurd ha List.not_mem_nil) h
  | cons x l ih =>
      by_cases hx : p x
      · have hl : ¬ ∀ a ∈ l, p a := fun hl => h (List.forall_mem_cons.mpr ⟨hx, hl⟩)
        obtain ⟨pre, a, post, rfl, ha, hb⟩ := ih hl
        exact ⟨x :: pre, a, post, rfl, ha, List.forall_mem_cons.mpr ⟨hx, hb⟩⟩
      · exact ⟨[], x, l, rfl, hx, fun b hb => absurd hb List.not_mem_nil⟩

theorem before_split {h : HostRow} {pre post l : List HostRow} (hl : l = pre ++ h :: post)
    (hpre : ∀ g ∈ pre, g.hostId ≠ h.hostId) : before h l = pre := by
  rw [hl, before, List.takeWhile_append_of_pos fun g hg => bne_iff_ne.mpr (hpre g hg)]
  simp

theorem inventory_lt {pre post : List HostRow} {g : HostRow}
    (hi : inventory db = pre ++ g :: post) :
    (∀ k ∈ pre, k.hostId < g.hostId) ∧ ∀ k ∈ post, g.hostId < k.hostId := by
  have htotal : Std.Total (fun a b : HostRow => a.hostId ≤ b.hostId) := ⟨fun a b => le_total _ _⟩
  have htrans : IsTrans HostRow (fun a b => a.hostId ≤ b.hostId) := ⟨fun _ _ _ => le_trans⟩
  have hsorted := List.pairwise_insertionSort (fun a b : HostRow => a.hostId ≤ b.hostId) db.hosts
  have hkeys : ∀ a ∈ inventory db, ∀ b ∈ inventory db, a.hostId = b.hostId → a = b :=
    fun a ha b hb he =>
    List.inj_on_of_nodup_map db.hostKey (mem_inventory.mp ha) (mem_inventory.mp hb) he
  change (inventory db).Pairwise _ at hsorted
  have hnodup := inventory_nodup db
  rw [hi] at hsorted hkeys hnodup
  have hmem : g ∈ pre ++ g :: post := List.mem_append_right _ List.mem_cons_self
  obtain ⟨-, hgpost, hcross⟩ := List.pairwise_append.mp hsorted
  constructor
  · intro k hk
    refine lt_of_le_of_ne (hcross k hk g List.mem_cons_self) fun he => ?_
    have hkg := hkeys k (List.mem_append_left _ hk) g hmem he
    exact (List.nodup_append.mp hnodup).2.2 k hk g List.mem_cons_self hkg
  · intro k hk
    refine lt_of_le_of_ne ((List.pairwise_cons.mp hgpost).1 k hk) fun he => ?_
    have hkg := hkeys g hmem k (List.mem_append_right _ (List.mem_cons_of_mem _ hk)) he
    exact (List.nodup_cons.mp (List.nodup_append.mp hnodup).2.1).1 (hkg ▸ hk)

variable (drv oracle cutover db now) in
theorem own_asked (h : HostRow) : 0 < (own h (tickPass drv oracle cutover (alone db h)
    now).2.2).length := by
  have hsync : (own h (syncPass drv oracle cutover (alone db h) now).2.2).length ≤
      (own h (tickPass drv oracle cutover (alone db h) now).2.2).length := by
    rw [syncPass, tickPass, tick, run_bind]
    rcases run (serve drv oracle (alone db h).hosts) (syncRegistry cutover) (start (alone db h) now) with ⟨x | r, s⟩
    · exact le_rfl
    · exact own_grows _ _ _ _ (afterSync cutover r) s
  refine lt_of_lt_of_le ?_ hsync
  have hasked : 0 < (own h (run (serve drv oracle [h]) (syncHost cutover (entry h))
      (atLoop drv oracle db now h)).2.2).length := by
    obtain ⟨k, hk⟩ : ∃ k, syncHost cutover (entry h) = .call (.getModels h.guestIp) k := ⟨_, rfl⟩
    rw [hk]
    exact lt_of_le_of_lt (Nat.zero_le _) (own_called (e := .getModels h.guestIp)
      (beq_self_eq_true _) k _)
  cases hk : ownEntry drv oracle cutover (atLoop drv oracle db now) h with
  | ok row =>
      obtain ⟨-, u, hu, hpass⟩ := alone_ok hk
      have htail := own_grows drv oracle h [h] (aliasTail cutover [row])
        (run (serve drv oracle [h]) (syncHost cutover (entry h)) (atLoop drv oracle db now h)).2
      rw [hu] at htail
      rw [hpass]
      exact lt_of_lt_of_le hasked (htail.trans (own_grows _ _ _ _ settle u))
  | error x =>
      rw [alone_error hk]
      exact lt_of_lt_of_le hasked (own_grows _ _ _ _ undo _)

theorem isolated_iff_failing {pre post : List HostRow} {g h : HostRow} {x : PyExc}
    (hi : inventory db = pre ++ g :: post)
    (hpre : ∀ k ∈ pre, ∃ row, ownEntry drv oracle cutover (atLoop drv oracle db now) k = .ok row)
    (hg : ownEntry drv oracle cutover (atLoop drv oracle db now) g = .error x) (hh : h ∈ db.hosts) :
    Isolated drv oracle cutover db now h ↔ Clear drv oracle cutover db now h := by
  obtain ⟨s, hpass, hsame, hpost⟩ := sync_fails hi hpre hg
  have hgno : synced drv oracle cutover (alone db g) now = false := by
    refine Bool.eq_false_iff.mpr fun hs => ?_
    obtain ⟨row, hrow⟩ := synced_alone_iff.mp hs
    rw [hg] at hrow
    cases hrow
  have hno : synced drv oracle cutover db now = false := by
    unfold synced
    rw [hpass]
  have hend : (tickPass drv oracle cutover db now).2 = s := by
    rw [tickPass_error (x := shown x) (by rw [hpass]), hpass]
  obtain ⟨hlt, hgt⟩ := inventory_lt hi
  have hgdb : g ∈ db.hosts := mem_inventory.mp (hi ▸ List.mem_append_right _ List.mem_cons_self)
  have hcase : h ∈ pre ∨ h = g ∨ h ∈ post := by
    have hin : h ∈ inventory db := mem_inventory.mpr hh
    rw [hi] at hin
    simpa using hin
  rcases hcase with hp | rfl | hp
  · have hyes : synced drv oracle cutover (alone db h) now = true :=
      synced_alone_iff.mpr (hpre h hp)
    refine iff_of_false (fun hiso => ?_) fun hc => ?_
    · have := hiso.commits
      rw [hno, hyes] at this
      cases this
    · have := hc.committed hyes g hgdb
      rw [hgno] at this
      cases this
  · have hres : (syncPass drv oracle cutover (alone db h) now).1 = .ok (.error (shown x)) := by
      rw [alone_error hg]
    have hend' := tickPass_error hres
    have hiso : Isolated drv oracle cutover db now h := by
      refine ⟨hno.trans hgno.symm, ?_, ?_⟩
      · rw [hend, hend']
        exact hsame.own
      · rw [hend, hend']
        exact hsame.db
    refine iff_of_true hiso ⟨fun k hk hlt' => ?_, fun hs => ?_, fun hs => ?_⟩
    · have hin : k ∈ inventory db := mem_inventory.mpr hk
      rw [hi] at hin
      rcases List.mem_append.mp hin with hp | hp
      · exact synced_alone_iff.mpr (hpre k hp)
      · rcases List.mem_cons.mp hp with rfl | hp
        · exact absurd hlt' (lt_irrefl _)
        · exact absurd hlt' (lt_asymm (hgt k hp))
    · rw [hgno] at hs
      cases hs
    · rw [hgno] at hs
      cases hs
  · refine iff_of_false (fun hiso => ?_) fun hc => ?_
    · have hcalls := hiso.calls
      rw [hend] at hcalls
      have hown : own h (tickPass drv oracle cutover (alone db h) now).2.2 = [] :=
        hcalls.symm.trans (hpost h hp)
      have hpos := own_asked drv oracle cutover db now h
      rw [hown] at hpos
      exact absurd hpos (Nat.lt_irrefl _)
    · have := hc.reached g hgdb (hgt h hp)
      rw [hgno] at this
      cases this

theorem alone_tick {k : HostRow} {row : HostSummary} {u : State}
    (hpass : syncPass drv oracle cutover (alone db k) now = (.ok (.hosts [row]), u))
    {rows : List HostSummary}
    (hstate : stateOf rows k.guestIp = stateOf [row] k.guestIp) :
    tickPass drv oracle cutover (alone db k) now =
      run (serve drv oracle [k]) (hostTurn cutover rows k) (afterRead drv oracle [k] u) := by
  have hone : turnOrder drv (alone db k) = [k] := rfl
  rw [tickPass_eq hpass, hone, turns, run_bind, hostTurn_congr hstate]
  have hhosts : (alone db k).hosts = [k] := rfl
  rw [hhosts]
  rcases run (serve drv oracle [k]) (hostTurn cutover [row] k) (afterRead drv oracle [k] u) with ⟨x | ⟨⟩, t⟩
  · rfl
  · rfl

theorem turns_error {pre post : List HostRow} {g : HostRow} (hd : (pre ++ g :: post).Nodup)
    (hsub : ∀ k ∈ pre ++ g :: post, k ∈ db.hosts) {rows : List HostSummary} {u : HostRow → State}
    {s : State} (hx : Shut s)
    (hs : ∀ k ∈ db.hosts, Same k s (u k))
    (hpre : ∀ k ∈ pre, (run (serve drv oracle [k]) (hostTurn cutover rows k) (u k)).1 = .ok ())
    {x : PyExc}
    (hg : (run (serve drv oracle [g]) (hostTurn cutover rows g) (u g)).1 = .error x) :
    (run (serve drv oracle db.hosts) (turns cutover rows (pre ++ g :: post)) s).1 = .error x := by
  have hgdb : g ∈ db.hosts := hsub g (List.mem_append_right _ List.mem_cons_self)
  have hout : g ∉ pre := fun hin => (List.nodup_append.mp hd).2.2 g hin g List.mem_cons_self rfl
  obtain ⟨s₁, hr, hx₁, hs₁⟩ :=
    turns_same (u := u) (show ([] ++ pre).Nodup from (List.nodup_append.mp hd).1)
    (fun k hk => hsub k (List.mem_append_left _ hk)) hx
    (show ∀ k ∈ db.hosts, Same k s (afterTurn drv oracle cutover rows [] u k) from hs) hpre
  have hsame := hs₁ g hgdb
  rw [List.nil_append, afterTurn, if_neg hout] at hsame
  have hres := (run_same drv oracle hgdb (mem_alone db g)
    (mine_hostTurn cutover rows g) hsame).1
  have hrun : run (serve drv oracle db.hosts) (hostTurn cutover rows g) s₁ =
      (.error x, (run (serve drv oracle db.hosts) (hostTurn cutover rows g) s₁).2) :=
        Prod.ext (hres.trans hg) rfl
  rw [run_turns_append, run_bind, hr]
  simp only
  rw [turns, run_bind, hrun]

theorem turns_reached {pre post : List HostRow} {h : HostRow} (hd : (pre ++ h :: post).Nodup)
    (hsub : ∀ k ∈ pre ++ h :: post, k ∈ db.hosts) {rows : List HostSummary} {u : HostRow → State}
    {s : State} (hx : Shut s)
    (hs : ∀ k ∈ db.hosts, Same k s (u k))
    (hpre : ∀ k ∈ pre, (run (serve drv oracle [k]) (hostTurn cutover rows k) (u k)).1 = .ok ()) :
    own h (run (serve drv oracle db.hosts) (turns cutover rows (pre ++ h :: post)) s).2.2 =
        own h (run (serve drv oracle [h]) (hostTurn cutover rows h) (u h)).2.2 ∧
      Slice h (run (serve drv oracle db.hosts) (turns cutover rows (pre ++ h :: post)) s).2.1.db
        (run (serve drv oracle [h]) (hostTurn cutover rows h) (u h)).2.1.db := by
  have hh : h ∈ db.hosts := hsub h (List.mem_append_right _ List.mem_cons_self)
  have hout : h ∉ pre := fun hin => (List.nodup_append.mp hd).2.2 h hin h List.mem_cons_self rfl
  obtain ⟨s₁, hr, hx₁, hs₁⟩ :=
    turns_same (u := u) (show ([] ++ pre).Nodup from (List.nodup_append.mp hd).1)
    (fun k hk => hsub k (List.mem_append_left _ hk)) hx
    (show ∀ k ∈ db.hosts, Same k s (afterTurn drv oracle cutover rows [] u k) from hs) hpre
  have hsame := hs₁ h hh
  rw [List.nil_append, afterTurn, if_neg hout] at hsame
  have hafter := (run_same drv oracle hh (mem_alone db h)
    (mine_hostTurn cutover rows h) hsame).2
  have hx₂ := shuts_hostTurn cutover rows h drv oracle db.hosts s₁ hx₁
  have hrest : ∀ g ∈ post, Apart g h := fun g hg =>
    apart_of_ne (hsub g (List.mem_append_right _ (List.mem_cons_of_mem _ hg))) hh fun he =>
      (List.nodup_cons.mp (List.nodup_append.mp hd).2.1).1 (he ▸ hg)
  rw [run_turns_append, run_bind, hr]
  simp only
  rw [turns, run_bind]
  revert hafter hx₂
  rcases run (serve drv oracle db.hosts) (hostTurn cutover rows h) s₁ with ⟨x | a, s₂⟩
  · intro hafter _
    exact ⟨hafter.own, hafter.db⟩
  · intro hafter hx₂
    have hkept := run_kept drv oracle db.hosts
      (beside_turns cutover rows hrest) hx₂
    exact ⟨hkept.own.trans hafter.own, hkept.db.symm.trans hafter.db⟩

theorem hostTurn_unmapped {h : HostRow} (hm : ¬ Mapped h) (rows : List HostSummary)
    (f : State → (e : Eff) → Ans e × State) (s : State) :
    (run f (hostTurn cutover rows h) s).2 = s := by
  cases hn : nodeOf h.guestIp with
  | ok vm => exact absurd ⟨vm, hn⟩ hm
  | error x =>
      rw [hostTurn, vmStatus, hn]
      rfl

variable (drv oracle cutover) in
theorem hostTurn_mapped {h : HostRow} (hm : Mapped h) (rows : List HostSummary) (s : State) :
    (own h s.2).length < (own h (run (serve drv oracle [h]) (hostTurn cutover rows h)
    s).2.2).length := by
  obtain ⟨⟨node, vmid⟩, hn⟩ := hm
  obtain ⟨k, hk⟩ : ∃ k, hostTurn cutover rows h = .call (.pve (.current node vmid)) k := by
    rw [hostTurn, vmStatus, hn]
    exact ⟨_, rfl⟩
  have habout : about h (.pve (.current node vmid)) = true := by
    unfold about
    rw [hn]
    exact beq_self_eq_true _
  rw [hk]
  exact own_called habout k s

theorem isolated_iff_synced (hok : ∀ k ∈ db.hosts, ∃ row,
    ownEntry drv oracle cutover (atLoop drv oracle db now) k = .ok row)
    {h : HostRow} (hh : h ∈ db.hosts) : Isolated drv oracle cutover db now h ↔
    Clear drv oracle cutover db now h := by
  obtain ⟨rows, s, hpass, hrows, hall⟩ := sync_all hok
  have hsynced : ∀ k ∈ db.hosts, synced drv oracle cutover (alone db k) now = true :=
    fun k hk => synced_alone_iff.mpr (hok k hk)
  have hyes : synced drv oracle cutover db now = true := by
    unfold synced
    rw [hpass]
  let u : HostRow → State :=
    fun k => afterRead drv oracle [k] (syncPass drv oracle cutover (alone db k) now).2
  have hsame : ∀ k ∈ db.hosts, Same k (afterRead drv oracle db.hosts s) (u k) := by
    intro k hk
    obtain ⟨row, v, hp, -, hs⟩ := hall k hk
    refine afterRead_same hk ?_
    rw [hp]
    exact hs
  have hturn : ∀ k ∈ db.hosts, tickPass drv oracle cutover (alone db k) now =
      run (serve drv oracle [k]) (hostTurn cutover rows k) (u k) := by
    intro k hk
    obtain ⟨row, v, hp, hrow, -⟩ := hall k hk
    have hv : u k = afterRead drv oracle [k] v := by
      change afterRead drv oracle [k] (syncPass drv oracle cutover (alone db k) now).2 = _
      rw [hp]
    rw [hv]
    exact alone_tick hp (stateOf_row hrows hk hrow)
  have hended : ∀ k ∈ db.hosts, ended drv oracle cutover (alone db k) now = true ↔
      (run (serve drv oracle [k]) (hostTurn cutover rows k) (u k)).1 = .ok () := by
    intro k hk
    unfold ended
    rw [hturn k hk]
    cases (run (serve drv oracle [k]) (hostTurn cutover rows k) (u k)).1 with
    | ok a => exact ⟨fun _ => rfl, fun _ => rfl⟩
    | error x => exact ⟨fun he => (by cases he), fun he => (by cases he)⟩
  obtain ⟨pre, post, hsplit⟩ := List.append_of_mem ((mem_turnOrder drv).mpr hh)
  have hnodup := turnOrder_nodup drv db
  have hsub : ∀ k ∈ pre ++ h :: post, k ∈ db.hosts :=
    fun k hk => (mem_turnOrder drv).mp (hsplit ▸ hk)
  rw [hsplit] at hnodup
  have hne : ∀ g ∈ pre, g ≠ h :=
    fun g hg he => (List.nodup_append.mp hnodup).2.2 g hg h List.mem_cons_self he
  have hbefore : before h (turnOrder drv db) = pre :=
    before_split hsplit fun g hg he => hne g hg
      (List.inj_on_of_nodup_map db.hostKey (hsub g (List.mem_append_left _ hg)) hh he)
  have htick := tickPass_eq hpass
  rw [hsplit] at htick
  by_cases hpre : ∀ g ∈ pre, (run (serve drv oracle [g]) (hostTurn cutover rows g) (u g)).1 = .ok ()
  · have hreach := turns_reached hnodup hsub (afterRead_shut db.hosts s) hsame hpre
    refine iff_of_true ⟨hyes.trans (hsynced h hh).symm, ?_, ?_⟩
      ⟨fun g hg _ => hsynced g hg, fun _ => hsynced, fun _ _ g hg => ?_⟩
    · rw [htick, hturn h hh]
      exact hreach.1
    · rw [htick, hturn h hh]
      exact hreach.2
    · rw [hbefore] at hg
      exact (hended g (hsub g (List.mem_append_left _ hg))).mpr (hpre g hg)
  · obtain ⟨p, g, q, hpq, hg, hp⟩ := first_split hpre
    have hgpre : g ∈ pre := hpq ▸ List.mem_append_right _ List.mem_cons_self
    have hgdb : g ∈ db.hosts := hsub g (List.mem_append_left _ hgpre)
    cases hgx : (run (serve drv oracle [g]) (hostTurn cutover rows g) (u g)).1 with
    | ok a => exact absurd hgx hg
    | error x =>
        have hpost : pre ++ h :: post = p ++ g :: (q ++ h :: post) := by
          rw [hpq, List.append_assoc, List.cons_append]
        have hstop : run (serve drv oracle db.hosts) (turns cutover rows pre)
            (afterRead drv oracle db.hosts s) =
            (.error x, (run (serve drv oracle db.hosts) (turns cutover rows pre)
              (afterRead drv oracle db.hosts s)).2) := by
          refine Prod.ext ?_ rfl
          rw [hpq]
          exact turns_error (hpq ▸ (List.nodup_append.mp hnodup).1)
            (fun k hk => hsub k (List.mem_append_left _ (hpq ▸ hk)))
            (afterRead_shut db.hosts s) hsame hp hgx
        rw [run_turns_append, run_bind, hstop] at htick
        have hkept := run_kept drv oracle db.hosts
          (beside_turns cutover rows fun g hg =>
            apart_of_ne (hsub g (List.mem_append_left _ hg)) hh (hne g hg))
          (@afterRead_shut drv oracle db.hosts s)
        have hown := hkept.own.trans (hsame h hh).own
        by_cases hm : Mapped h
        · refine iff_of_false (fun hiso => ?_) fun hc => ?_
          · have hcalls := hiso.calls
            rw [htick, hturn h hh] at hcalls
            have hlt := hostTurn_mapped drv oracle cutover hm rows (u h)
            rw [← hcalls, hown] at hlt
            exact absurd hlt (Nat.lt_irrefl _)
          · have hend := hc.turned (hsynced h hh) hm g (hbefore.symm ▸ hgpre)
            rw [hended g hgdb] at hend
            exact hg hend
        · refine iff_of_true ⟨hyes.trans (hsynced h hh).symm, ?_, ?_⟩
            ⟨fun g hg _ => hsynced g hg, fun _ => hsynced, fun _ hm' => absurd hm' hm⟩
          · rw [htick, hturn h hh, hostTurn_unmapped hm]
            exact hown
          · rw [htick, hturn h hh, hostTurn_unmapped hm]
            exact hkept.db.symm.trans (hsame h hh).db

/-- What the engine does for a host is what it would do without the others
exactly when no other host stops the sync or the loop before it. -/
theorem isolated_iff {h : HostRow} (hh : h ∈ db.hosts) :
    Isolated drv oracle cutover db now h ↔ Clear drv oracle cutover db now h := by
  by_cases hok : ∀ k ∈ db.hosts, ∃ row, ownEntry drv oracle cutover (atLoop drv oracle db now) k =
    .ok row
  · exact isolated_iff_synced hok hh
  · obtain ⟨pre, g, post, hi, hg, hpre⟩ :=
      first_split (l := inventory db) fun hall => hok fun k hk => hall k (mem_inventory.mpr hk)
    cases hgx : ownEntry drv oracle cutover (atLoop drv oracle db now) g with
    | ok row => exact absurd ⟨row, hgx⟩ hg
    | error x => exact isolated_iff_failing hi hpre hgx hh

/-- A host that is not in `NODE_MAP`. -/
def strayHost : HostRow := ⟨1, "stray", "10.0.20.100", "RUNNING", "UNMANAGED", "RUNNING"⟩

def stoppedHost : HostRow := ⟨2, "worker", "10.0.20.168", "RUNNING", "MANAGED", "RUNNING"⟩

def twoHosts : Db :=
  ⟨[strayHost, stoppedHost], [], [],
    [], by decide, by decide, List.Pairwise.nil, fun _ hr => absurd hr List.not_mem_nil⟩

def allStopped : Oracle := fun _ _ =>
  { models := .error ⟨.other "ConnectError", "All connection attempts failed"⟩
    completion := .error ⟨.other "ConnectError", "All connection attempts failed"⟩
    pve := some (.obj [("data", .obj [("status", .str "stopped")])])
    fault := none
    now := 0 }

theorem stray_host_ends_tick : ¬ ∀ drv oracle cutover db now h, h ∈ db.hosts →
    h.managementMode = "MANAGED" →
    Isolated drv oracle cutover db now h := by
  intro hall
  have hiso :=
    hall plainDriver allStopped true twoHosts 0 stoppedHost
      (List.mem_cons_of_mem _ List.mem_cons_self) rfl
  have hcalls := congrArg List.length hiso.calls
  have hfew : (own stoppedHost (tickPass plainDriver allStopped true twoHosts 0).2.2).length =
      3 := by decide +kernel
  have hmore : (own stoppedHost (tickPass plainDriver allStopped true (alone twoHosts stoppedHost)
      0).2.2).length ≠ 3 := by
    decide +kernel
  exact hmore (hcalls.symm.trans hfew)

/-- Another host of `NODE_MAP`, before the stopped one. -/
def firstHost : HostRow := ⟨1, "first", "10.0.20.163", "RUNNING", "MANAGED", "RUNNING"⟩

def mappedHosts : Db :=
  ⟨[firstHost, stoppedHost], [], [],
    [], by decide, by decide, List.Pairwise.nil, fun _ hr => absurd hr List.not_mem_nil⟩

theorem mapped_host_isolated : Isolated plainDriver allStopped true mappedHosts 0 stoppedHost := by
  refine (isolated_iff (List.mem_cons_of_mem _ List.mem_cons_self)).mpr
    ⟨?_, fun _ => ?_, fun _ _ => ?_⟩
  · decide +kernel
  · decide +kernel
  · decide +kernel

end Isolation

end ServerManager.HostIsolation
