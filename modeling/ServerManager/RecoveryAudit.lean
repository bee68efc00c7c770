import ServerManager.RecoveryBounds
import ServerManager.GatewayConfig

namespace ServerManager.RecoveryAudit

open Interaction PyJson FleetDb Fleet Registry RecoveryEngine EngineRules RecoveryBounds
  SlidingWindow DesiredState
open Effects (PyExc)

def auditTrace (cutover : Bool) (ip eventType : String) (detail : Json) : Trace Eff Ans :=
  ⟨.auditFile ip eventType detail false, ()⟩ ::
    if cutover then [⟨.orm (.insertEvent ip eventType (dumps detail)), .ok ()⟩]
    else [⟨.connect, true⟩, ⟨.sql (.insertEvent ip eventType (dumps detail)), .ok ()⟩,
      ⟨.commit, .ok ()⟩, ⟨.close, ()⟩]

/-- A start of a VM or a restart of a service comes directly after the audit of an attempt for that
host. -/
def Announced (cutover : Bool) (past : Trace Eff Ans) : Eff → Prop
  | .pve (.power node vmid .start) =>
      ∃ ip detail, nodeOf ip = .ok (node, vmid) ∧ auditTrace cutover ip vmStart detail <:+ past
  | .restart ip => ∃ detail, auditTrace cutover ip serviceRestart detail <:+ past
  | _ => True

/-- The database is there for every audit, takes its event and commits it. -/
structure Commits (past : Trace Eff Ans) (ev : Event Eff Ans) : Prop where
  connected : ∀ {ip t d}, past.getLast? = some ⟨.auditFile ip t d false, ()⟩ →
    ev ≠ ⟨.connect, false⟩
  inserted : ∀ {ip t d x}, ev ≠ ⟨.sql (.insertEvent ip t d), .error x⟩
  committed : ∀ {ip t d x}, past.getLast? = some ⟨.sql (.insertEvent ip t d), .ok ()⟩ →
    ev ≠ ⟨.commit, .error x⟩
  stored : ∀ {ip t d x}, ev ≠ ⟨.orm (.insertEvent ip t d), .error x⟩

/-- The audit of an attempt fails and goes on: the connection or the adapter's
statement is refused, or a `rollback` succeeds after the insert or its commit has failed. -/
def silent (past : Trace Eff Ans) (ev : Event Eff Ans) : Prop :=
  match ev with
  | ⟨.connect, a⟩ =>
      a = false ∧ ∃ ip t d, Attempt t ∧ past.getLast? = some ⟨.auditFile ip t d false, ()⟩
  | ⟨.orm (.insertEvent _ t _), a⟩ => Attempt t ∧ ∃ x, a = .error x
  | ⟨.rollback, a⟩ => (∃ u, a = .ok u) ∧ ∃ ip t d, Attempt t ∧
      ((∃ x, [⟨.sql (.insertEvent ip t d), .error x⟩] <:+ past) ∨
        ∃ x, [⟨.sql (.insertEvent ip t d), .ok ()⟩, ⟨.commit, .error x⟩] <:+ past)
  | _ => False

section Programs

variable {cutover : Bool} {α β : Type}

/-- Surroundings in which no audit of an attempt fails and goes on. -/
def audible : Trace Eff Ans → (e : Eff) → Ans e → Trace Eff Ans → Prop :=
  noted (fun past ev => ¬ silent past ev)

/-- Every action is announced. -/
def Told (cutover : Bool) (p : Svc α) : Prop :=
  ∀ past, Sat audible (Announced cutover) (fun _ _ => True) (fun _ _ => True) p past

def noAction : Eff → Prop
  | .pve (.power _ _ .start) => False
  | .restart _ => False
  | _ => True

theorem noAction.announced {e : Eff} (h : noAction e) (past : Trace Eff Ans) :
    Announced cutover past e := by
  cases e with
  | pve r => cases r with
    | current node vmid => trivial
    | power node vmid action => cases action with
      | start => exact h.elim
      | shutdown => trivial
  | restart ip => exact h.elim
  | _ => trivial

theorem still_noAction {e : Eff} (h : still e) : noAction e := by
  cases e with
  | pve r => cases r with
    | current node vmid => trivial
    | power node vmid action => cases action with
      | start => exact h
      | shutdown => trivial
  | restart ip => exact h
  | _ => trivial

theorem Told.of_only {p : Svc α} (h : Only noAction p) : Told cutover p := fun _ =>
  ((h.keeps (T := audible) (I := fun _ => True) (fun _ _ _ _ _ _ _ => trivial) trivial).weaken
    fun past _ he => he.1.announced past).mono (fun _ _ _ => trivial) fun _ _ _ => trivial

theorem Told.bind {p : Svc α} {f : α → Svc β} (h : Told cutover p) (hf : ∀ a, Told cutover (f a)) :
    Told cutover (p >>= f) :=
  fun past => (h past).seq fun past a _ => hf a past

theorem Told.guarded {p : Svc Unit} (h : Told cutover p) : Told cutover (guarded p) := fun past =>
  (sat_tryCatch _ _ past).mpr ((h past).mono (fun _ _ _ => trivial) fun _ _ _ => trivial)

theorem audit_noAction {ip t : String} {d : Json} : Only noAction (audit cutover ip t d) :=
  only_audit (fun _ => trivial) trivial trivial ⟨trivial, trivial, trivial, trivial⟩

theorem told_rules (cutover : Bool) (ip : String) :
    Rules cutover ip (fun _ p => Told cutover p) where
  pure _ := fun _ => trivial
  bind hp hf := hp.bind hf
  polls h := .of_only (h.mono fun _ he => still_noAction he.still)
  audit _ _ := .of_only audit_noAction

theorem audit_told {t : String} (ht : Attempt t) (ip : String) (d : Json) (past : Trace Eff Ans) :
    Sat audible (Announced cutover) (fun past _ => auditTrace cutover ip t d <:+ past)
      (fun _ _ => True)
      (audit cutover ip t d) past := by
  refine ⟨trivial, fun _ past₁ h₁ => ?_⟩
  obtain ⟨rfl, -⟩ := h₁
  unfold insertAudit
  cases cutover with
  | true =>
      rw [if_pos rfl, sat_tryCatch]
      refine ⟨trivial, fun a past₂ h₂ => ?_⟩
      obtain ⟨rfl, hs⟩ := h₂
      cases a with
      | error x => exact absurd ⟨ht, x, rfl⟩ hs
      | ok u => exact ⟨past, by simp [auditTrace]⟩
  | false =>
      rw [if_neg Bool.false_ne_true, sat_bind]
      refine ⟨trivial, fun b past₂ h₂ => ?_⟩
      obtain ⟨rfl, hs⟩ := h₂
      cases b with
      | false => exact absurd ⟨rfl, ip, t, d, ht, by simp⟩ hs
      | true =>
          refine (sat_bind _ _ _).mpr ((sat_tryCatch _ _ _).mpr
            ((sat_tryCatch _ _ _).mpr ((sat_bind _ _ _).mpr ?_)))
          refine ⟨trivial, fun a past₃ h₃ => ?_⟩
          obtain ⟨rfl, -⟩ := h₃
          cases a with
          | error x =>
              refine ⟨trivial, fun a past₄ h₄ => ?_⟩
              obtain ⟨rfl, hs⟩ := h₄
              cases a with
              | ok u => exact absurd ⟨⟨u, rfl⟩, ip, t, _, ht, .inl ⟨x, List.suffix_append _ _⟩⟩ hs
              | error y => exact ⟨trivial, fun _ _ _ => trivial⟩
          | ok u =>
              refine ⟨trivial, fun a past₄ h₄ => ?_⟩
              obtain ⟨rfl, -⟩ := h₄
              cases a with
              | error x =>
                  refine ⟨trivial, fun a past₅ h₅ => ?_⟩
                  obtain ⟨rfl, hs⟩ := h₅
                  cases a with
                  | ok u =>
                      have hsilent : [⟨.sql (.insertEvent ip t (dumps d)), .ok ()⟩,
                          ⟨.commit, .error x⟩] <:+
                          past ++ [⟨.auditFile ip t d false, ()⟩] ++ [⟨.connect, true⟩] ++
                            [⟨.sql (.insertEvent ip t (dumps d)), .ok ()⟩] ++
                              [⟨.commit, .error x⟩] :=
                        ⟨past ++ [⟨.auditFile ip t d false, ()⟩] ++ [⟨.connect, true⟩], by simp⟩
                      exact absurd ⟨⟨u, rfl⟩, ip, t, dumps d, ht, .inr ⟨x, hsilent⟩⟩ hs
                  | error y => exact ⟨trivial, fun _ _ _ => trivial⟩
              | ok u =>
                  refine ⟨trivial, fun _ past₅ h₅ => ?_⟩
                  obtain ⟨rfl, -⟩ := h₅
                  exact ⟨past, by simp [auditTrace]⟩

theorem recoverVmStart_told (ip desired : String) :
    Told cutover (recoverVmStart cutover ip desired) := by
  have hcount : ∀ t m, Told cutover (recentCount cutover ip t m) := fun t m =>
    .of_only (only_recentCount trivial trivial trivial trivial)
  refine (hcount vmStart 30).bind fun n => ?_
  split
  · exact .of_only audit_noAction
  · refine (hcount vmStart 30).bind fun k past => ?_
    refine (audit_told (.inl rfl) ip _ past).seq fun past _ hpast => ?_
    refine (sat_bind _ _ past).mpr ?_
    unfold vmPower
    cases hn : nodeOf ip with
    | error x => trivial
    | ok p =>
        refine ⟨⟨ip, _, hn, hpast⟩, fun a past' _ => ?_⟩
        have hrest : Told cutover (do
            let data ← orRaise (dictGet ((a.getD .null).orElse (.obj [])) "data")
            pure data.truthy) := .of_only ((only_orRaise _).bind fun _ => only_pure _)
        exact (hrest past').mono (fun past' _ _ => (told_rules cutover ip).awaitVm 40 past')
          fun _ _ _ => trivial

theorem restartService_told (ip : String) : Told cutover (restartService cutover ip) := by
  have hcount : Told cutover (recentCount cutover ip serviceRestart 30) :=
    .of_only (only_recentCount trivial trivial trivial trivial)
  refine hcount.bind fun k past => (audit_told (.inr rfl) ip _ past).seq fun past _ hpast => ?_
  exact ⟨⟨_, hpast⟩, fun _ past' _ => (told_rules cutover ip).awaitService 60 past'⟩

theorem recoverService_told (ip : String) : Told cutover (recoverService cutover ip) := by
  have hcount : ∀ m, Told cutover (recentCount cutover ip serviceRestart m) := fun m =>
    .of_only (only_recentCount trivial trivial trivial trivial)
  refine (hcount 30).bind fun n => ?_
  split
  · exact .of_only audit_noAction
  · refine (hcount 3).bind fun last => ?_
    split
    · refine (hcount 3).bind fun again => ?_
      split
      · exact fun _ => trivial
      · exact restartService_told ip
    · exact restartService_told ip

theorem ticks_told (n : Nat) : Told cutover (ticks cutover n) :=
  Rules.ticks (told_rules cutover) (.of_only ((still_sync cutover).mono fun _ he =>
    still_noAction he))
    (.of_only (only_readHosts trivial trivial trivial)) (fun _ hp => hp.guarded) recoverVmStart_told
    recoverService_told n

end Programs

theorem commits_audible {tr : Trace Eff Ans} (h : Along Commits tr) :
    Along (fun past ev => ¬ silent past ev) tr := by
  intro before ev after he hs
  have hev := h before ev after he
  rcases ev with ⟨e, a⟩
  cases e with
  | connect =>
      obtain ⟨rfl, ip, t, d, -, hl⟩ := hs
      exact hev.connected hl rfl
  | orm s =>
      cases s with
      | insertEvent ip t d =>
          obtain ⟨-, x, rfl⟩ := hs
          exact hev.stored rfl
      | _ => exact hs
  | rollback =>
      obtain ⟨-, ip, t, d, -, ⟨x, pre, rfl⟩ | ⟨x, pre, rfl⟩⟩ := hs
      · rw [List.append_assoc] at he
        exact (h pre _ _ he).inserted rfl
      · have he' : tr = (pre ++ [⟨.sql (.insertEvent ip t d), .ok ()⟩]) ++ ⟨.commit, .error x⟩ ::
            ⟨.rollback, a⟩ :: after := by
          rw [he]
          simp
        exact (h _ _ _ he').committed List.getLast?_concat rfl
  | _ => exact hs

theorem run_announced {drv : Driver} {cutover : Bool} {n : Nat} {w w' : World} {tr : Trace Eff Ans}
    {q : Svc Unit}
    (hx : Exec (Live drv) w (ticks cutover n) tr w' q)
    (hok : Along (fun past ev => ¬ silent past ev) tr) :
    Along (fun past ev => Announced cutover past ev.1) tr := by
  intro before ev after he
  have hnoted := hx.noted hok
  rw [he] at hnoted
  obtain ⟨past, past', k, hb, -⟩ := hnoted.split
  have hpast : past = before := hb.noted_end
  have hsat := (ticks_told n []).exec hb
  rw [hpast] at hsat
  exact hsat.1

/-- No half-open half hour holds more attempts for a host than are allowed. -/
structure WithinLimits (events : List RecoveryEvent) : Prop where
  starts : ∀ ip, Limited vmStartMax window (attempts ip vmStart events)
  restarts : ∀ ip, Limited serviceRestartMax window (attempts ip serviceRestart events)

theorem withinLimits_iff {events : List RecoveryEvent} : WithinLimits events ↔ Bounded events := by
  constructor
  · rintro h ip t (rfl | rfl)
    · exact h.starts ip
    · exact h.restarts ip
  · exact fun h => ⟨fun ip => h ip vmStart (.inl rfl), fun ip => h ip serviceRestart (.inr rfl)⟩

/-- In every run in which what audits write is committed, the attempts stay
within their limits and every action has its own. -/
theorem attempts_limited (drv : Driver) (cutover : Bool) (n : Nat) (w w' : World)
    (tr : Trace Eff Ans) (q : Svc Unit)
    (hw : w.txn = .closed) (hx : Exec (Live drv) w (ticks cutover n) tr w' q)
    (hc : Along Commits tr) :
    (∃ new, w'.db.events = w.db.events ++ new ∧ WithinLimits new) ∧
      (WithinLimits w.db.events → WithinLimits w'.db.events) ∧
        Along (fun past ev => Announced cutover past ev.1) tr := by
  refine ⟨?_, fun hlimits => ?_, run_announced hx (commits_audible hc)⟩
  · obtain ⟨new, he, hb⟩ := run_limits hw (List.append_nil _).symm Bounded.nil hx
    exact ⟨new, he, withinLimits_iff.mpr hb⟩
  · obtain ⟨new, he, hb⟩ := @run_limits _ _ _ _ _ _ _ [] _ hw rfl (withinLimits_iff.mp hlimits) hx
    rw [he]
    exact withinLimits_iff.mpr hb

def stoppedNet : Net where
  models _ := .error ⟨.other "ConnectTimeout", "timed out"⟩
  completion _ _ := .ok 200
  pve _ := some (.obj [("data", .obj [("status", .str "stopped")])])

/-- Each call takes a second and fails when `faulty` says so. -/
def oracle (drv : Driver) (net : Net) (faulty : Eff → Bool) (w : World) (e : Eff) :
    Option (Ans e × World) :=
  some (answer drv net (if faulty e then some lostConnection else none) (w.now + 1000000) w e)

theorem oracle_live {drv : Driver} {net : Net} {faulty : Eff → Bool} {w w' : World} {e : Eff}
    {a : Ans e}
    (h : oracle drv net faulty w e = some (a, w')) : Live drv w e a w' :=
  ⟨w, net, _, w.now + 1000000, ⟨rfl, rfl, [], (List.append_nil _).symm,
    fun _ h => absurd h List.not_mem_nil⟩, by omega,
    Option.some.inj h⟩

def engineRun (faulty : Eff → Bool) (k : Nat) : Trace Eff Ans × World × Svc Unit :=
  play (oracle plainDriver stoppedNet faulty) k { db := GatewayConfig.emptyDb } (ticks false 1)

theorem engineRun_exec (faulty : Eff → Bool) (k : Nat) :
    Exec (Live plainDriver) { db := GatewayConfig.emptyDb } (ticks false 1) (engineRun faulty k).1
      (engineRun faulty k).2.1
      (engineRun faulty k).2.2 :=
  play_exec id (oracle plainDriver stoppedNet faulty) (fun _ _ _ _ h => oracle_live h) k
    { db := GatewayConfig.emptyDb }
    (ticks false 1)

def fine : Event Eff Ans → Bool
  | ⟨.connect, a⟩ => a
  | ⟨.sql _, a⟩ => a.isOk
  | ⟨.commit, a⟩ => a.isOk
  | ⟨.orm _, a⟩ => a.isOk
  | _ => true

theorem commits_of_fine {tr : Trace Eff Ans} (h : tr.all fine = true) : Along Commits tr := by
  intro before ev after he
  have hev : fine ev = true :=
    List.all_eq_true.mp h ev (by rw [he]; exact List.mem_append_right _ List.mem_cons_self)
  refine ⟨?_, ?_, ?_, ?_⟩
  · rintro ip t d - rfl
    cases hev
  · rintro ip t d x rfl
    cases hev
  · rintro ip t d x - rfl
    cases hev
  · rintro ip t d x rfl
    cases hev

theorem attempts_limited_start :
    (∃ new, (engineRun (fun _ => false) 31).2.1.db.events = GatewayConfig.emptyDb.events ++ new ∧
    WithinLimits new) ∧
      (WithinLimits GatewayConfig.emptyDb.events →
        WithinLimits (engineRun (fun _ => false) 31).2.1.db.events) ∧
      Along (fun past ev => Announced false past ev.1) (engineRun (fun _ => false) 31).1 :=
  attempts_limited plainDriver false 1 { db := GatewayConfig.emptyDb } _ _ _ rfl
    (engineRun_exec (fun _ => false) 31)
    (commits_of_fine (by decide +kernel))

/-- At an action the row of its attempt is committed. -/
def Recorded (cutover : Bool) (past : Trace Eff Ans) (w : World) : Eff → Prop
  | .pve (.power node vmid .start) => ∃ ip detail t, nodeOf ip = .ok (node, vmid) ∧
      auditTrace cutover ip vmStart detail <:+ past ∧ ⟨ip, vmStart, dumps detail, t⟩ ∈ w.db.events
  | .restart ip => ∃ detail t, auditTrace cutover ip serviceRestart detail <:+ past ∧
      ⟨ip, serviceRestart, dumps detail, t⟩ ∈ w.db.events
  | _ => True

theorem live_events {drv : Driver} {w w' : World} {e : Eff} {a : Ans e} (hs : Live drv w e a w') :
    ∃ w₁ net fault now, w₁.txn = w.txn ∧ (∀ ev ∈ w.db.events, ev ∈ w₁.db.events) ∧
      answer drv net fault now w₁ e = (a, w') := by
  obtain ⟨w₁, net, fault, now, ho, -, ha⟩ := hs
  obtain ⟨evs, he, -⟩ := ho.events
  exact ⟨w₁, net, fault, now, ho.txn, fun ev hev => he ▸ List.mem_append_left _ hev, ha⟩

theorem connect_opens {drv : Driver} {net : Net} {fault : Option PyExc} {now : Int} {w w' : World}
    (h : answer drv net fault now w .connect = (true, w')) : w'.txn = .live id := by
  revert h
  unfold Fleet.answer
  cases fault with
  | some x => exact fun h => by cases h
  | none =>
      intro h
      obtain ⟨-, rfl⟩ := Prod.mk.inj h
      rfl

theorem insert_pends {drv : Driver} {net : Net} {fault : Option PyExc} {now : Int} {ip t d : String}
    {u : Unit}
    {w w' : World} (hw : w.txn = .live id) (h :
    answer drv net fault now w (.sql (.insertEvent ip t d)) = (.ok u, w')) :
    w'.txn = .live (fun db => db.insertEvent ⟨ip, t, d, now⟩) := by
  revert h
  unfold Fleet.answer
  rw [hw]
  cases fault with
  | some x => exact fun h => by cases h
  | none =>
      intro h
      obtain ⟨-, rfl⟩ := Prod.mk.inj h
      rfl

theorem commit_stores {drv : Driver} {net : Net} {fault : Option PyExc} {now : Int}
    {pending : Db → Db} {u : Unit}
    {w w' : World} (hw : w.txn = .live pending)
    (h : answer drv net fault now w .commit = (.ok u, w')) :
    w'.db = pending w.db := by
  revert h
  unfold Fleet.answer
  rw [hw]
  cases fault with
  | some x => exact fun h => by cases h
  | none =>
      intro h
      obtain ⟨-, rfl⟩ := Prod.mk.inj h
      rfl

theorem audit_recorded {drv : Driver} {cutover : Bool} {ip t : String} {d : Json} {w w' : World}
    {p q : Svc Unit}
    (hx : Exec (Live drv) w p (auditTrace cutover ip t d) w' q) : ∃ c,
    ⟨ip, t, dumps d, c⟩ ∈ w'.db.events := by
  obtain ⟨w₁, r₁, -, hx⟩ := hx.head
  cases cutover with
  | true =>
      obtain ⟨w₂, r₂, h₂, hx⟩ := hx.head
      obtain ⟨v, net, fault, now, -, -, ha⟩ := live_events h₂
      rw [hx.stay]
      revert ha
      unfold Fleet.answer
      cases fault with
      | some x => exact fun ha => by cases ha
      | none =>
          intro ha
          obtain ⟨-, rfl⟩ := Prod.mk.inj ha
          exact ⟨now, List.mem_append_right _ List.mem_cons_self⟩
  | false =>
      obtain ⟨w₂, r₂, h₂, hx⟩ := hx.head
      obtain ⟨w₃, r₃, h₃, hx⟩ := hx.head
      obtain ⟨w₄, r₄, h₄, hx⟩ := hx.head
      obtain ⟨w₅, r₅, h₅, hx⟩ := hx.head
      rw [hx.stay]
      obtain ⟨v₁, net, fault, now, -, -, ha₂⟩ := live_events h₂
      obtain ⟨v₂, net, fault, now, ht₂, -, ha₃⟩ := live_events h₃
      obtain ⟨v₃, net, fault, _, ht₃, -, ha₄⟩ := live_events h₄
      obtain ⟨v₄, net, fault, _, -, hev, ha₅⟩ := live_events h₅
      have hpend := insert_pends (ht₂.trans (connect_opens ha₂)) ha₃
      have hdb := commit_stores (ht₃.trans hpend) ha₄
      obtain ⟨-, rfl⟩ := Prod.mk.inj ha₅
      refine ⟨now, hev _ ?_⟩
      rw [hdb]
      exact List.mem_append_right _ List.mem_cons_self

/-- Where no audit of an attempt fails and goes on, every action has its committed row. -/
theorem actions_recorded (drv : Driver) (cutover : Bool) (n : Nat) (w w' : World)
    (tr : Trace Eff Ans) (e : Eff)
    (k : Ans e → Svc Unit) (hx : Exec (Live drv) w (ticks cutover n) tr w' (.call e k))
    (hok : Along (fun past ev => ¬ silent past ev) tr) : Recorded cutover tr w' e := by
  have hsat := (ticks_told n []).exec (hx.noted hok)
  have htold : Announced cutover tr e := hsat.1
  have hrow : ∀ {ip t d}, auditTrace cutover ip t d <:+ tr → ∃ c,
      ⟨ip, t, dumps d, c⟩ ∈ w'.db.events := by
    rintro ip t d ⟨pre, rfl⟩
    obtain ⟨u, r, -, hlast⟩ := hx.split_at
    exact audit_recorded hlast
  cases e with
  | pve r => cases r with
    | current node vmid => trivial
    | power node vmid action => cases action with
      | shutdown => trivial
      | start =>
          obtain ⟨ip, d, hn, hsuf⟩ := htold
          obtain ⟨c, hc⟩ := hrow hsuf
          exact ⟨ip, d, c, hn, hsuf, hc⟩
  | restart ip =>
      obtain ⟨d, hsuf⟩ := htold
      obtain ⟨c, hc⟩ := hrow hsuf
      exact ⟨d, c, hsuf, hc⟩
  | _ => trivial

theorem actions_recorded_start :
    Recorded false (engineRun (fun _ => false) 29).1 (engineRun (fun _ => false) 29).2.1
      (.pve (.power "miam00112" 401 .start)) :=
  actions_recorded plainDriver false 1 { db := GatewayConfig.emptyDb } _ _ _ _
    (engineRun_exec (fun _ => false) 29)
    (commits_audible (commits_of_fine (by decide +kernel)))

def rejectsInserts : Eff → Bool
  | .sql (.insertEvent ..) => true
  | _ => false

/-- The database can be read and refuses the rows: the VM is started all the same. -/
theorem start_without_row : ¬ ∀ (drv : Driver) (cutover : Bool) (n : Nat) (w w' : World) (tr :
    Trace Eff Ans) (e : Eff)
    (k : Ans e → Svc Unit), Exec (Live drv) w (ticks cutover n) tr w' (.call e k) →
    Recorded cutover tr w' e := by
  intro hall
  have h :=
    hall plainDriver false 1 { db := GatewayConfig.emptyDb } _ _
      (.pve (.power "miam00112" 401 .start)) _
    (engineRun_exec rejectsInserts 29)
  obtain ⟨ip, d, t, -, -, hev⟩ := h
  have hnone : (engineRun rejectsInserts 29).2.1.db.events = [] := rfl
  rw [hnone] at hev
  exact absurd hev List.not_mem_nil

end ServerManager.RecoveryAudit
