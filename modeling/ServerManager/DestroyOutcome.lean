import ServerManager.OwnershipVerdict

namespace ServerManager.DestroyOutcome

open Interaction PyJson Orm Effects Config ProxmoxVm SandboxNetwork Api Storage Sessions Calls

/-- The last call that `shutdown` makes, or the one of `destroy`. -/
def closing : PveCall → Prop
  | .stop .. | .destroy .. => True
  | _ => False

/-- Both `shutdown` and `destroy` have returned. -/
structure Returned (tr : PyTrace) : Prop where
  shutdown : (∃ n v t x, (⟨.pve (.shutdown n v t), Except.ok x⟩ : Event Eff Ans) ∈ tr) ∨
    ∃ n v x, (⟨.pve (.stop n v), Except.ok x⟩ : Event Eff Ans) ∈ tr
  destroy : ∃ n v query x, (⟨.pve (.destroy n v query), Except.ok x⟩ : Event Eff Ans) ∈ tr

/-- `shutdown` or `destroy` has raised. -/
def Raised (tr : PyTrace) : Prop :=
  ∃ c x, closing c ∧ (⟨.pve c, Except.error x⟩ : Event Eff Ans) ∈ tr

def undestroyed (ev : Event Eff Ans) : Prop :=
  ∀ n v query x, ev ≠ ⟨.pve (.destroy n v query), Except.ok x⟩

/-- The entry is no exception of `shutdown` or `destroy`. -/
def unraised (ev : Event Eff Ans) : Prop := ∀ c x, closing c → ev ≠ ⟨.pve c, Except.error x⟩

variable {tr : PyTrace}

theorem not_returned (h : ∀ ev ∈ tr, undestroyed ev) : ¬ Returned tr := by
  rintro ⟨-, n, v, query, x, hm⟩
  exact h _ hm n v query x rfl

theorem not_raised (h : ∀ ev ∈ tr, unraised ev) : ¬ Raised tr := by
  rintro ⟨c, x, hc, hm⟩
  exact h _ hm c x hc rfl

def mild (e : Eff) : Prop := ∀ c, e = .pve c → ¬ closing c

theorem mild_undestroyed {e : Eff} (h : mild e) (a : Ans e) : undestroyed ⟨e, a⟩ := by
  intro n v query x he
  exact h _ (congrArg Sigma.fst he) trivial

theorem mild_unraised {e : Eff} (h : mild e) (a : Ans e) : unraised ⟨e, a⟩ := by
  intro c x hc he
  exact h _ (congrArg Sigma.fst he) hc

theorem mild_observes {e : Eff} (h : observes e) : mild e := by
  rintro c rfl hc
  cases c with
  | stop | destroy => exact h
  | nodes | nextid | config | status | storage | interfaces | clone | setConfig | start
  | shutdown => exact hc

theorem mild_db {c : DbCall} : mild (.db c) := fun _ he => Eff.noConfusion he

theorem mild_kea {c : KeaCall} : mild (.kea c) := fun _ he => Eff.noConfusion he

variable {R : Type} {rem : Remote R} {i : Nat} {w w' : World R} {r cur : AgentRuntime} {rid : Uuid}
  {db : Db}
  {evs : List RuntimeEvent} {e : Eff} {a : Ans e}

/-- The session has the one row in hand, with events still to be written. -/
structure Holding (i : Nat) (r cur : AgentRuntime) (evs : List RuntimeEvent) (db : Db)
    (w : World R) : Prop where
  session : w.sessions i = { objs := [⟨r, cur, false⟩], new := evs.map .insertEvent }
  db : w.db = db

theorem Holding.aside (h : Holding i r cur evs db w) (hs : w.step rem i e a w')
    (he : ∀ c, e ≠ .db c) :
    Holding i r cur evs db w' := by
  obtain ⟨hdb, hses⟩ := Frames.step_remote hs he
  exact ⟨by rw [hses, h.session], by rw [hdb, h.db]⟩

theorem holding_get {a : Option AgentRuntime} (hs : w.sessions i = {})
    (hr : w.db.runtime? rid = some r)
    (hst : w.step rem i (.db (.getRuntime rid)) a w') : a = some r ∧ Holding i r r [] w.db w' := by
  have hst' : World.dbStep w i (.getRuntime rid) a w' := hst
  have hobj : (w.sessions i).obj? rid = none := by rw [hs]; rfl
  have hview : (w.view i).runtime? rid = some r := by
    rw [World.view, hs]
    exact hr
  simp only [World.dbStep, hobj, hview] at hst'
  obtain ⟨ha, rfl⟩ := hst'
  exact ⟨ha, by rw [setSession_self, hs]; rfl, rfl⟩

theorem Holding.add {ev : RuntimeEvent} {a : Ans (.db (.addEvent ev))}
    (h : Holding i r cur evs db w)
    (hst : w.step rem i (.db (.addEvent ev)) a w') : Holding i r cur (evs ++ [ev]) db w' := by
  have hw' : w' = w.setSession i { w.sessions i with new := (w.sessions i).new ++ [.insertEvent
      ev] } := hst
  refine ⟨?_, by rw [hw']; exact h.db⟩
  rw [hw', setSession_self, h.session]
  simp

theorem Holding.assign {f : AgentRuntime → AgentRuntime} {a : Ans (.db (.modify rid false f))}
    (h : Holding i r cur evs db w) (hk : cur.runtimeId = rid) (hf : (f cur).runtimeId = rid)
    (hst : w.step rem i (.db (.modify rid false f)) a w') : Holding i r (f cur) evs db w' := by
  have hw' : w' = w.setSession i ((w.sessions i).modify rid false f) := hst
  refine ⟨?_, by rw [hw']; exact h.db⟩
  rw [hw', setSession_self, h.session]
  simp only [Session.modify, hk, List.map_cons, List.map_nil, if_true, Bool.or_false]
  rw [← hf]

def owed (r cur : AgentRuntime) (evs : List RuntimeEvent) : List Write :=
  Obj.write ⟨r, cur, false⟩ ++ evs.map .insertEvent

theorem stamped_events (t : Time) (evs : List RuntimeEvent) :
    (evs.map Write.insertEvent).map (stamped t) = evs.map .insertEvent := by
  simp [stamped]

theorem Holding.pending (h : Holding i r cur evs db w) (t : Time) :
    (w.sessions i).pending t = owed r cur evs := by
  rw [h.session]
  simp [Session.pending, owed, stamped]

theorem owed_jobs : ∀ j, .insertJob j ∉ owed r cur evs := by
  intro j hm
  rcases List.mem_append.mp hm with hm | hm
  · unfold Obj.write at hm
    split at hm
    · cases List.mem_singleton.mp hm
    · cases hm
  · obtain ⟨ev, -, hev⟩ := List.mem_map.mp hm
    cases hev

theorem inserted_events (evs : List RuntimeEvent) :
    Session.inserted (evs.map .insertEvent) = [] := by
  induction evs with
  | nil => rfl
  | cons ev evs ih => exact ih

theorem insertedJobs_events (evs : List RuntimeEvent) :
    Session.insertedJobs (evs.map .insertEvent) = [] := by
  induction evs with
  | nil => rfl
  | cons ev evs ih => exact ih

theorem Holding.flush {a : Except PyExc Unit} (h : Holding i r cur evs db w)
    (hst : w.step rem i (.db .flush) a w') :
    a = .ok () ∧ w'.sessions i = { objs := [⟨cur, cur, false⟩], txn := owed r cur evs } ∧
      w'.db = db := by
  cases a with
  | ok u =>
      have hw' : w' = w.setSession i ((w.sessions i).flush w.clock) := hst.2.2
      refine ⟨rfl, ?_, by rw [hw']; exact h.db⟩
      have hp := h.pending w.clock
      rw [hw', setSession_self, Session.flush, hp, h.session]
      simp only [stamped_events, inserted_events, insertedJobs_events, List.map_cons, List.map_nil,
        List.append_nil,
        List.nil_append]
  | error x =>
      obtain ⟨j, hj, -⟩ := hst.2.1
      rw [h.pending] at hj
      exact absurd hj (owed_jobs j)

theorem applyAll_events (t : Time) (db : Db) (evs : List RuntimeEvent) :
    db.applyAll t (evs.map .insertEvent) = { db with events := db.events ++ evs } := by
  induction evs generalizing db with
  | nil => simp [Db.applyAll]
  | cons ev evs ih =>
      have h := ih { db with events := db.events ++ [ev] }
      rw [List.append_assoc] at h
      exact h

/-- A committed event announces the destruction of the VM. -/
def Audited (rid : Uuid) (n : String) (v : Int) (db db' : Db) : Prop :=
  ∃ ev, ev.action = "destroy_audit" ∧ ev.runtimeId = rid ∧
    ev.detail = [("vmid", .int v), ("node", .str n)] ∧
    db' = { db with events := db.events ++ [ev] }

/-- A VM is stopped or destroyed only when that has been announced. -/
def Guard (rid : Uuid) (db : Db) (s : World R × PyTrace) (e : Eff) : Prop :=
  ∀ n v, target e = some (n, v) → Audited rid n v db s.1.db

theorem guard_db {c : DbCall} {s : World R × PyTrace} : Guard rid db s (.db c) := fun _ _ h => by
  cases h

theorem guard_kea {c : KeaCall} {s : World R × PyTrace} : Guard rid db s (.kea c) := fun _ _ h => by
  cases h

theorem guard_observes {s : World R × PyTrace} (h : observes e) : Guard rid db s e := by
  intro n v ht
  cases e with
  | db | kea | sys => cases ht
  | pve c =>
      cases c with
      | start | shutdown | stop | destroy => exact False.elim h
      | nodes | nextid | config | status | storage | interfaces | clone | setConfig => cases ht

/-- Mild calls keep what every entry of the trace satisfies. -/
def Lasting (P : Event Eff Ans → Prop) : Prop := ∀ e a, mild e → P ⟨e, a⟩

theorem lasting_undestroyed : Lasting undestroyed := fun _ a h => mild_undestroyed h a

theorem lasting_unraised : Lasting unraised := fun _ a h => mild_unraised h a

section Requests

variable {P : Event Eff Ans → Prop} {s : World R × PyTrace} {db₀ : Db}
  {X : World R × PyTrace → PyExc → Prop}

theorem all_append {past : PyTrace} (h : ∀ ev ∈ past, P ev) (ha : P ⟨e, a⟩) :
    ∀ ev ∈ past ++ [⟨e, a⟩], P ev := by
  intro ev hev
  rcases List.mem_append.mp hev with hev | hev
  · exact h ev hev
  · rw [List.mem_singleton.mp hev]
    exact ha

def Along (i : Nat) (r cur : AgentRuntime) (evs : List RuntimeEvent) (db : Db)
    (P : Event Eff Ans → Prop)
    (s : World R × PyTrace) : Prop :=
  Holding i r cur evs db s.1 ∧ ∀ ev ∈ s.2, P ev

theorem addEvent_along {ev : RuntimeEvent} (hP : Lasting P) (h : Along i r cur evs db P s) :
    Sat (traced (World.step rem i)) (Guard rid db₀) (fun s _ => Along i r cur (evs ++ [ev]) db P s)
      X (addEvent ev) s := by
  refine ⟨guard_db, fun a s' hst => ⟨h.1.add hst.1, ?_⟩⟩
  rw [hst.2]
  exact all_append h.2 (hP _ a mild_db)

theorem commit_along (hP : Lasting P) (h : Along i r cur evs db P s) :
    Sat (traced (World.step rem i)) (Guard rid db₀)
      (fun s _ => ∃ t, Along i cur cur [] (db.applyAll t (owed r cur evs)) P s) X commit s := by
  refine Sat.seq (Q := fun s _ => (s.1.sessions i =
    { objs := [⟨cur, cur, false⟩], txn := owed r cur evs } ∧
    s.1.db = db) ∧ ∀ ev ∈ s.2, P ev) ⟨guard_db, fun a s' hst => ?_⟩ ?_
  · obtain ⟨ha, hses⟩ := h.1.flush hst.1
    rw [ha]
    refine ⟨hses, ?_⟩
    rw [hst.2]
    exact all_append h.2 (hP _ a mild_db)
  · rintro s₁ - ⟨⟨hses, hdb⟩, htr⟩
    refine ⟨guard_db, fun a s' hst => ?_⟩
    obtain ⟨t, -, hw⟩ := hst.1
    refine ⟨t, ⟨?_, ?_⟩, ?_⟩
    · rw [hw]
      exact (setSession_self _ _ _).trans (by rw [hses]; rfl)
    · rw [hw, ← hdb, hses]
    · rw [hst.2]
      exact all_append htr (hP _ a mild_db)

theorem kea_along {α : Type} {p : Py α} (hp : Only (fun e => ∃ c, e = .kea c) p) (hP : Lasting P)
    (h : Along i r cur evs db P s) :
    Sat (traced (World.step rem i)) (Guard rid db₀) (fun s _ => Along i r cur evs db P s)
      (fun s _ => Along i r cur evs db P s) p s := by
  refine Sat.weaken (hp.keeps (T := traced (World.step rem i)) (I := Along i r cur evs db P) ?_ h)
    ?_
  · rintro s e a s' ⟨c, rfl⟩ hs hst
    have hne : ∀ d, Eff.kea c ≠ .db d := fun _ he => Eff.noConfusion he
    refine ⟨hs.1.aside hst.1 hne, ?_⟩
    rw [hst.2]
    exact all_append hs.2 (hP _ a mild_kea)
  · rintro s e ⟨⟨c, rfl⟩, -⟩
    exact guard_kea

theorem only_kea_release (cfg : Settings) (ip : String) :
    Only (fun e => ∃ c, e = .kea c) (do
      let _ ← newService cfg
      release ip) :=
  Only.bind (only_newService cfg) fun _ => only_release ip ⟨_, rfl⟩ (fun _ => ⟨_, rfl⟩) ⟨_, rfl⟩

def Records (r : AgentRuntime) : Prop :=
  ((Dict.get? r.ownershipMeta "sandbox_ip").getD .null).truthy = true ∧
    ((Dict.get? r.ownershipMeta "sandbox_reservation_uuid").getD .null).truthy = true

/-- The events about the reservation: one of two where there is one. -/
def Released (rid : Uuid) (r : AgentRuntime) (evs : List RuntimeEvent) : Prop :=
  (Records r → ∃ ev, evs = [ev] ∧ ev.runtimeId = rid ∧
    (ev.action = "sandbox_reservation_released" ∨ ev.action = "sandbox_reservation_release_failed")) ∧
  (¬ Records r → evs = [])

theorem release_along (cfg : Settings) (actor : String) (hP : Lasting P)
    (h : Along i r cur evs db P s) :
    Sat (traced (World.step rem i)) (Guard rid db₀)
      (fun s _ => ∃ rel, Released rid r rel ∧ Along i r cur (evs ++ rel) db P s) X
      (releaseReservation cfg rid r.ownershipMeta actor) s := by
  unfold releaseReservation
  dsimp only
  split
  next ht =>
      have hrec : Records r := by simpa [Records] using ht
      have hone : ∀ ev : RuntimeEvent, ev.runtimeId = rid →
          ev.action = "sandbox_reservation_released" ∨
          ev.action = "sandbox_reservation_release_failed" → Released rid r [ev] :=
        fun ev hid hact => ⟨fun _ => ⟨ev, rfl, hid, hact⟩, fun hn => absurd hrec hn⟩
      rw [sat_tryCatch, ← Prog.bind_assoc]
      refine Sat.seq ((kea_along (only_kea_release cfg _) hP h).mono (fun _ _ h => h) fun s x h =>
        ?_) ?_
      · exact (addEvent_along hP h).mono (fun s _ h => ⟨_, hone _ rfl (.inr rfl), h⟩) fun _ _ h => h
      · rintro s - h
        exact (addEvent_along hP h).mono (fun s _ h => ⟨_, hone _ rfl (.inl rfl), h⟩) fun _ _ h => h
  next ht =>
      have hrec : ¬ Records r := by simpa [Records] using ht
      exact ⟨[], ⟨fun h => absurd h hrec, fun _ => rfl⟩, by simpa using h⟩

def Calm (ev : Event Eff Ans) : Prop := undestroyed ev ∧ unraised ev

theorem lasting_calm : Lasting Calm :=
  fun e a h => ⟨lasting_undestroyed e a h, lasting_unraised e a h⟩

variable {n : String} {v : Int}

theorem shutdown_along (ha : Audited rid n v db₀ db) (h : Along i r cur evs db Calm s) :
    Sat (traced (World.step rem i)) (Guard rid db₀) (fun s _ => Along i r cur evs db Calm s)
      (fun s _ => Along i r cur evs db undestroyed s) (shutdown n v) s := by
  have hguard : ∀ {s : World R × PyTrace} {c : PveCall}, s.1.db = db →
      target (.pve c) = some (n, v) →
      Guard rid db₀ s (.pve c) := by
    rintro s c hdb hc n' v' ht
    rw [hc] at ht
    cases ht
    exact hdb ▸ ha
  unfold shutdown stopForce
  refine (sat_tryCatch _ _ _).mpr ((sat_bind _ _ _).mpr
    ((sat_pve _).mpr ⟨hguard h.1.db rfl, fun a s₁ hst => ?_⟩))
  have hmild : mild (.pve (.shutdown n v 180)) := fun c he hc => by cases he; exact hc
  have h₁ : Along i r cur evs db Calm s₁ := by
    refine ⟨h.1.aside hst.1 (fun _ he => Eff.noConfusion he), ?_⟩
    rw [hst.2]
    exact all_append h.2 (lasting_calm (.pve (.shutdown n v 180)) a hmild)
  cases a with
  | ok x => exact h₁
  | error x =>
      refine (sat_bind _ _ _).mpr ((sat_pve _).mpr ⟨hguard h₁.1.db rfl, fun a s₂ hst => ?_⟩)
      have h₂ : Holding i r cur evs db s₂.1 := h₁.1.aside hst.1 fun _ he => Eff.noConfusion he
      have hstop : undestroyed ⟨.pve (.stop n v), a⟩ := fun _ _ _ _ he => by cases he
      cases a with
      | ok y =>
          refine ⟨h₂, ?_⟩
          rw [hst.2]
          exact all_append h₁.2 ⟨hstop, fun _ _ _ he => by cases he⟩
      | error y =>
          refine ⟨h₂, ?_⟩
          rw [hst.2]
          exact all_append (fun ev hev => (h₁.2 ev hev).1) hstop

theorem destroy_along (ha : Audited rid n v db₀ db) (h : Along i r cur evs db Calm s) :
    Sat (traced (World.step rem i)) (Guard rid db₀) (fun s _ => Along i r cur evs db unraised s)
      (fun s _ => Along i r cur evs db undestroyed s) (destroy n v) s := by
  have hguard : Guard rid db₀ s (.pve (.destroy n v (destroyQuery true true))) := by
    intro n' v' ht
    cases ht
    exact h.1.db ▸ ha
  unfold destroy
  refine (sat_bind _ _ _).mpr ((sat_pve _).mpr ⟨hguard, fun a s₁ hst => ?_⟩)
  have h₁ : Holding i r cur evs db s₁.1 := h.1.aside hst.1 fun _ he => Eff.noConfusion he
  cases a with
  | ok x =>
      refine ⟨h₁, ?_⟩
      rw [hst.2]
      exact all_append (fun ev hev => (h.2 ev hev).2) fun _ _ _ he => by cases he
  | error x =>
      refine ⟨h₁, ?_⟩
      rw [hst.2]
      exact all_append (fun ev hev => (h.2 ev hev).1) fun _ _ _ _ he => by cases he

def gone (r : AgentRuntime) : AgentRuntime :=
  { r with actualState := .destroyed, desiredState := .desiredDestroyed, vmid := none, node := none }

theorem owed_gone (hv : r.vmid = some v) (evs : List RuntimeEvent) :
    owed r (gone r) evs = .updateRuntime r (gone r) false :: evs.map .insertEvent := by
  have hc : changed r (gone r) = true := by simp [changed, gone, hv]
  simp [owed, Obj.write, hc]

theorem applyAll_gone (hr : db.runtime? rid = some r) (hv : r.vmid = some v) (t : Time)
    (evs : List RuntimeEvent) :
    (db.applyAll t (owed r (gone r) evs)).runtime? rid = some (gone r) ∧
      (db.applyAll t (owed r (gone r) evs)).events = db.events ++ evs := by
  rw [owed_gone hv]
  change ((db.apply t (.updateRuntime r (gone r) false)).applyAll t (evs.map .insertEvent)).runtime?
    rid = _ ∧
    ((db.apply t (.updateRuntime r (gone r) false)).applyAll t (evs.map .insertEvent)).events = _
  rw [applyAll_events]
  refine ⟨?_, rfl⟩
  have hrow := apply_row t db (.updateRuntime r (gone r) false) rid
  rw [hr, onRow, if_pos (runtime?_key hr), Option.map_some, merge_own] at hrow
  exact hrow

/-- The request has destroyed the VM and says so. -/
def Done (rid : Uuid) (r : AgentRuntime) (db db' : Db) : Prop :=
  db'.runtime? rid = some (gone r) ∧ ∃ audit complete rel, audit.action = "destroy_audit" ∧
    complete.action = "destroy_complete" ∧ complete.runtimeId = rid ∧ Released rid r rel ∧
    db'.events = db.events ++ audit :: complete :: rel

/-- The request has announced the destruction, and nothing else has changed. -/
def Failed (db db' : Db) : Prop :=
  db'.runtimes = db.runtimes ∧ ∃ audit, audit.action = "destroy_audit" ∧
    db'.events = db.events ++ [audit]

def completion (rid : Uuid) (actor : String) : RuntimeEvent where
  runtimeId := rid
  actor := actor
  action := "destroy_complete"
  detail := [("note", .str "ACMS persistent identity/history NOT deleted")]

theorem complete_along (cfg : Settings) (actor : String) (hr : db₀.runtime? rid = some r)
    (hv : r.vmid = some v)
    (ha : Audited rid n v db₀ db) (h : Along i r r [] db unraised s) :
    Sat (traced (World.step rem i)) (Guard rid db₀)
      (fun s _ => (∀ ev ∈ s.2, unraised ev) ∧ Done rid r db₀ s.1.db) X
        (destroyComplete cfg rid r actor) s := by
  obtain ⟨audit, hact, -, -, rfl⟩ := ha
  have hkey := runtime?_key hr
  unfold destroyComplete
  refine Sat.seq (Q := fun s _ => Along i r (gone r) [] { db₀ with events := db₀.events ++ [audit] }
    unraised s)
    ⟨guard_db, fun a s₁ hst => ?_⟩ ?_
  · refine ⟨h.1.assign hkey hkey hst.1, ?_⟩
    rw [hst.2]
    exact all_append h.2 (lasting_unraised _ a mild_db)
  · rintro s₁ - h₁
    refine Sat.seq (addEvent_along lasting_unraised h₁) ?_
    rintro s₂ - h₂
    refine Sat.seq (release_along cfg actor lasting_unraised h₂) ?_
    rintro s₃ - ⟨rel, hrel, h₃⟩
    refine (commit_along lasting_unraised h₃).mono ?_ fun _ _ h => h
    rintro s₄ - ⟨t, h₄⟩
    have hdb : s₄.1.db = Db.applyAll t { db₀ with events := db₀.events ++ [audit] }
        (owed r (gone r) ([] ++ [completion rid actor] ++ rel)) := h₄.1.db
    obtain ⟨hrow, hevs⟩ :=
      applyAll_gone (show Db.runtime? { db₀ with events := db₀.events ++ [audit] } rid =
        some r from hr)
      hv t ([] ++ [completion rid actor] ++ rel)
    rw [hdb]
    refine ⟨h₄.2, hrow, audit, completion rid actor, rel, hact, rfl, rfl, hrel, ?_⟩
    rw [hevs]
    simp

def Stopped (db : Db) (s : World R × PyTrace) : Prop :=
  (∀ ev ∈ s.2, undestroyed ev) ∧ (Raised s.2 → Failed db s.1.db)

theorem stopped_calm (h : ∀ ev ∈ s.2, Calm ev) : Stopped db₀ s :=
  ⟨fun ev hev => (h ev hev).1, fun hr => absurd hr (not_raised fun ev hev => (h ev hev).2)⟩

theorem verify_along (protectedVmids : List Int) (h : Along i r cur evs db Calm s) :
    Sat (traced (World.step rem i)) (Guard rid db₀) (fun s _ => Along i r cur evs db Calm s)
      (fun s _ => Along i r cur evs db Calm s) (verifyOwnership protectedVmids n v r) s := by
  refine Sat.weaken ((only_verifyOwnership protectedVmids n v r).keeps
    (T := traced (World.step rem i))
    (I := Along i r cur evs db Calm) ?_ h) fun _ _ he => guard_observes he.1
  intro s e a s' he hs hst
  have hne : ∀ d, e ≠ .db d := fun d hd => by
    subst hd
    exact he
  refine ⟨hs.1.aside hst.1 hne, ?_⟩
  rw [hst.2]
  exact all_append hs.2 (lasting_calm e a (mild_observes he))

theorem refused_along (actor : String) (x : PyExc) (h : Along i r r [] db Calm s) :
    Sat (traced (World.step rem i)) (Guard rid db₀) (fun _ _ => False)
      (fun s _ => ∀ ev ∈ s.2, Calm ev)
      (destroyRefused rid actor x) s := by
  unfold destroyRefused
  split
  · refine Sat.seq (addEvent_along lasting_calm h) ?_
    rintro s₁ - h₁
    refine Sat.seq (commit_along lasting_calm h₁) ?_
    rintro s₂ - ⟨t, h₂⟩
    exact h₂.2
  · exact h.2

theorem announced_along (actor : String) (h : Along i r r [] db Calm s) :
    Sat (traced (World.step rem i)) (Guard rid db)
      (fun s _ => ∃ db', Audited rid n v db db' ∧ db'.runtimes = db.runtimes ∧
        Along i r r [] db' Calm s) X
      (do
        addEvent
          { runtimeId := rid, actor, action := "destroy_audit"
            detail := [("vmid", .int v), ("node", .str n)] }
        commit) s := by
  refine Sat.seq (addEvent_along lasting_calm h) ?_
  rintro s₁ - h₁
  refine (commit_along lasting_calm h₁).mono ?_ fun _ _ h => h
  rintro s₂ - ⟨t, h₂⟩
  rw [owed, Obj.write_self, List.nil_append, applyAll_events] at h₂
  exact ⟨_, ⟨_, rfl, rfl, rfl, rfl⟩, rfl, h₂⟩

end Requests

section Whole

variable {cfg : Settings} {actor : String}

theorem close_along {db₀ : Db} {P : Event Eff Ans → Prop} {D : Db → Prop}
    {X : World R × PyTrace → PyExc → Prop}
    {s : World R × PyTrace} (hP : Lasting P) (h : (∀ ev ∈ s.2, P ev) ∧ D s.1.db) :
    Sat (traced (World.step rem i)) (Guard rid db₀) (fun s _ => (∀ ev ∈ s.2, P ev) ∧ D s.1.db) X
      close s := by
  refine ⟨guard_db, fun a s' hst => ?_⟩
  have hw : s'.1 = s.1.setSession i {} := hst.1
  refine ⟨?_, ?_⟩
  · rw [hst.2]
    exact all_append h.1 (hP _ a mild_db)
  · rw [hw]
    exact h.2

theorem raised_append {c : DbCall} {a : DbAns c} (h : Raised (tr ++ [⟨.db c, a⟩])) : Raised tr := by
  obtain ⟨c', x, hc, hm⟩ := h
  rcases List.mem_append.mp hm with hm | hm
  · exact ⟨c', x, hc, hm⟩
  · cases List.mem_singleton.mp hm

theorem close_stopped {db₀ : Db} {X : World R × PyTrace → PyExc → Prop} {s : World R × PyTrace}
    (h : Stopped db₀ s) :
    Sat (traced (World.step rem i)) (Guard rid db₀) (fun s _ => Stopped db₀ s) X close s := by
  refine ⟨guard_db, fun a s' hst => ?_⟩
  have hw : s'.1 = s.1.setSession i {} := hst.1
  refine ⟨?_, fun hr => ?_⟩
  · rw [hst.2]
    exact all_append h.1 (lasting_undestroyed _ a mild_db)
  · rw [hst.2] at hr
    rw [hw]
    exact h.2 (raised_append hr)

theorem destroy_sat (hs : w.sessions i = {}) (hr : w.db.runtime? rid = some r) :
    Sat (traced (World.step rem i)) (Guard rid w.db)
      (fun s _ => (∀ ev ∈ s.2, unraised ev) ∧ Done rid r w.db s.1.db) (fun s _ => Stopped w.db s)
      (destroyAgentRuntime cfg rid actor) (w, []) := by
  unfold destroyAgentRuntime
  rw [sat_withSession]
  refine Sat.mono (Q := fun s _ => (∀ ev ∈ s.2, unraised ev) ∧ Done rid r w.db s.1.db)
    (X := fun s _ => Stopped w.db s)
    ?_ (fun _ _ h => close_along lasting_unraised h) fun _ _ h => close_stopped h
  rw [sat_bind, sat_getRuntime]
  refine ⟨guard_db, fun a s₁ hst => ?_⟩
  obtain ⟨rfl, hold⟩ := holding_get hs hr hst.1
  have h₁ : Along i r r [] w.db Calm s₁ := by
    refine ⟨hold, ?_⟩
    rw [hst.2]
    exact all_append (fun _ h => absurd h List.not_mem_nil) (lasting_calm _ _ mild_db)
  dsimp only
  split
  next n v hn hv =>
      refine Sat.seq (Q := fun s _ => Along i r r [] w.db Calm s) ?_ ?_
      · refine (sat_tryCatch _ _ _).mpr ((verify_along cfg.protectedVmids h₁).mono (fun _ _ h => h)
          ?_)
        rintro s₂ x h₂
        exact (refused_along actor x h₂).mono (fun _ _ h => h.elim) fun _ _ h => stopped_calm h
      · rintro s₂ - h₂
        rw [← Prog.bind_assoc]
        refine Sat.seq (announced_along (n := n) (v := v) actor h₂) ?_
        rintro s₃ - ⟨db', haud, hrows, h₃⟩
        have hfail : ∀ {s : World R × PyTrace}, Along i r r [] db' undestroyed s →
            Stopped w.db s := by
          intro s h
          refine ⟨h.2, fun _ => ?_⟩
          obtain ⟨ev, hact, -, -, rfl⟩ := haud
          rw [h.1.db]
          exact ⟨rfl, ev, hact, rfl⟩
        refine Sat.seq ((shutdown_along haud h₃).mono (fun _ _ h => h) fun _ _ h => hfail h) ?_
        rintro s₄ - h₄
        refine Sat.seq ((destroy_along haud h₄).mono (fun _ _ h => h) fun _ _ h => hfail h) ?_
        rintro s₅ - h₅
        exact complete_along cfg actor hr hv haud h₅
  · exact stopped_calm h₁.2

/-- The database after a request that has ended. -/
structure Settled (rid : Uuid) (r : AgentRuntime) (db db' : Db) (tr : PyTrace) (q : Py Unit) :
    Prop where
  done : Returned tr → q = .ret () ∧ Done rid r db db'
  failed : Raised tr → Failed db db'

/-- A DELETE announces what it destroys, records a destruction that went
through whatever Kea does, and changes no row when it did not. -/
theorem destroy_settles (hs : w.sessions i = {}) (hr : w.db.runtime? rid = some r) :
    (∀ tr u e k n v, Exec (World.step rem i) w (destroyAgentRuntime cfg rid actor) tr u
    (.call e k) →
      target e = some (n, v) → Audited rid n v w.db u.db) ∧
    ∀ tr w' q, Exec (World.step rem i) w (destroyAgentRuntime cfg rid actor) tr w' q →
      (∀ e k, q ≠ .call e k) →
      Settled rid r w.db w'.db tr q := by
  have hsat :=
    fun tr u p (hx : Exec (World.step rem i) w (destroyAgentRuntime cfg rid actor) tr u p) =>
    (destroy_sat hs hr).exec (hx.traced [])
  constructor
  · intro tr u e k n v hx ht
    exact (hsat tr u _ hx).1 n v ht
  · intro tr w' q hx hq
    have h := hsat tr w' q hx
    rw [List.nil_append] at h
    cases q with
    | ret u => exact ⟨fun _ => ⟨rfl, h.2⟩, fun hr => absurd hr (not_raised h.1)⟩
    | raise x => exact ⟨fun hr => absurd hr (not_returned h.1), fun hr => h.2 hr⟩
    | call e k => exact absurd rfl (hq e k)

end Whole

def sandbox : AgentRuntime :=
  { OwnershipGate.worker with
    ownershipMeta := [("sandbox_ip", .str "10.0.20.222"), ("sandbox_reservation_uuid", .str "u1")] }

def obedient : Replay.Oracle Unit where
  pve _ c :=
    match c with
    | .status .. => some (.ok (.obj [("status", .str "running")]), ())
    | .config .. => some (.ok (.obj [("description", .str OwnershipGate.workerMarker)]), ())
    | .shutdown .. | .destroy .. => some (.ok .null, ())
    | _ => none
  kea _ _ := none
  neigh _ _ := none

def before : Replay.Machine Unit := ⟨{ runtimes := [⟨sandbox, 0⟩] }, [{}], 0, [], ()⟩

def deleted : PyTrace × Replay.Machine Unit × Py Unit :=
  play (Replay.Machine.answer obedient 0) 30 before
    (destroyAgentRuntime {} OwnershipGate.workerId "operator")

theorem deleted_over :
    (deleted.2.2.ended && deleted.2.1.db.events.map (·.action) =
      ["destroy_audit", "destroy_complete", "sandbox_reservation_release_failed"]) = true := by
  decide +kernel

theorem deleted_settles :
    Settled OwnershipGate.workerId sandbox before.db (deleted.2.1.world fun _ => ()).db deleted.1
      deleted.2.2 := by
  have hx : Exec (World.step Remote.any 0) (before.world fun _ => ())
      (destroyAgentRuntime {} OwnershipGate.workerId "operator") deleted.1
        (deleted.2.1.world fun _ => ()) deleted.2.2 :=
    play_exec (Replay.Machine.world fun _ => ()) (Replay.Machine.answer obedient 0)
      (fun m e a m' => Replay.Machine.answer_step obedient.follows_any 0 m e a m') 30 before _
  exact (destroy_settles rfl rfl).2 _ _ _ hx
    (Prog.ended_ne_call (Bool.and_eq_true_iff.mp deleted_over).1)

end ServerManager.DestroyOutcome
