import ServerManager.RecoveryAudit

namespace ServerManager.ServiceCooldown

open Interaction PyJson FleetDb Fleet Registry RecoveryEngine EngineRules RecoveryBounds
  RecoveryAudit
open Effects (PyExc)

/-- `SERVICE_RESTART_COOLDOWN_S`, in the unit of `created_at`. -/
def cooldown : Int := serviceRestartCooldownS * 1000000

def restarts (ip : String) (events : List RecoveryEvent) : List Int :=
  attempts ip serviceRestart events

/-- Each restart comes when the cooldown of those before it is over. -/
def Spaced (events : List RecoveryEvent) : Prop :=
  ∀ ip, (restarts ip events).Pairwise (fun s t => s + cooldown ≤ t)

def Over (events : List RecoveryEvent) (ip : String) (t : Int) : Prop :=
  ∀ s ∈ restarts ip events, s + cooldown ≤ t

theorem restarts_append (ip : String) (events events' : List RecoveryEvent) :
    restarts ip (events ++ events') = restarts ip events ++ restarts ip events' :=
      attempts_append _ _ _ _

theorem restarts_other {ip : String} {evs : List RecoveryEvent}
    (hevs : ∀ ev ∈ evs, ¬ Attempt ev.eventType) :
    restarts ip evs = [] :=
  attempts_other fun ev hev hk => hevs ev hev (.inr hk.2)

theorem Spaced.append {base events : List RecoveryEvent} {ev : RecoveryEvent} (h : Spaced events)
    (hover : ev.eventType = serviceRestart → Over (base ++ events) ev.ip ev.createdAt) :
    Spaced (events ++ [ev]) := by
  intro ip
  rw [restarts_append]
  by_cases hev : ev.ip = ip ∧ ev.eventType = serviceRestart
  · obtain ⟨rfl, ht⟩ := hev
    have hone : restarts ev.ip [ev] = [ev.createdAt] := by simp [restarts, attempts, ht]
    rw [hone]
    refine List.pairwise_append.mpr ⟨h ev.ip, List.pairwise_singleton _ _, fun s hs t hmem => ?_⟩
    rw [List.mem_singleton.mp hmem]
    apply hover ht
    rw [restarts_append]
    exact List.mem_append_right _ hs
  · have hnone : restarts ip [ev] = [] := attempts_other fun ev' hev' => by
      rw [List.mem_singleton.mp hev']
      exact hev
    rw [hnone, List.append_nil]
    exact h ip

def spacing : Ledger where
  kept := Spaced
  room events ip t s := t = serviceRestart → Over events ip s
  free h ht := absurd (.inr ht) h
  later h hs ht s hmem := (h ht s hmem).trans hs
  beside h hevs ht := by
    unfold Over
    rw [restarts_append, restarts_other hevs, List.append_nil]
    exact h ht
  other h hevs ip := by
    rw [restarts_append, restarts_other hevs, List.append_nil]
    exact h ip
  more h hover := h.append hover

/-- A count of the last three minutes that finds no restart of the host comes when
there has been none for the whole cooldown. -/
def CountsCooled (w : World) (e : Eff) (w' : World) : Prop :=
  ∀ ip, e = .sql (.countEvents ip serviceRestart 3) ∨ e = .orm (.countEvents ip serviceRestart 3) →
    (∀ s ∈ restarts ip w.db.events, s ≤ w'.now - 3 * minute) → Over w.db.events ip w'.now

def Cooled (drv : Driver) (w : World) (e : Eff) (a : Ans e) (w' : World) : Prop :=
  Live drv w e a w' ∧ CountsCooled w e w'

theorem cooled_within (drv : Driver) : Within drv (Cooled drv) := fun _ _ _ _ h => h.1

section Programs

variable {drv : Driver} {cutover : Bool}

theorem restarts_live {w w' : World} {e : Eff} {a : Ans e} (hs : Live drv w e a w') (he : calm e)
    (ip : String) :
    restarts ip w'.db.events = restarts ip w.db.events := by
  obtain ⟨w₁, net, fault, now, ho, hn, ha⟩ := hs
  obtain ⟨evs, hevs, hother⟩ := ho.events
  have hc := (calm_answer drv net fault (w := w₁) he (ho.now ▸ hn)).1
  rw [ha] at hc
  rw [hc, hevs, restarts_append, restarts_other hother, List.append_nil]

theorem cooled_sat (ip : String) {w : World} (hi : Idle w) :
    Sat (Cooled drv) (Written spacing) (fun w n => Idle w ∧ (n = 0 → Over w.db.events ip w.now))
      (fun w _ => Idle w)
      (recentCount cutover ip serviceRestart 3) w := by
  apply recentCount_sat (cooled_within drv) hi
  · intro w w' n hi hs hn
    have hlive := hs.imp (·.1) (·.1)
    have hcount := counted hi hlive
    rw [hn] at hcount
    have hold : ∀ s ∈ restarts ip w'.db.events, s ≤ w'.now - 3 * minute := by
      intro s hmem
      simpa using List.countP_eq_zero.mp hcount.symm s hmem
    rcases hs with ⟨hl, hc⟩ | ⟨hl, hc⟩
    · have hsame := restarts_live hl trivial ip
      unfold Over
      rw [hsame] at hold ⊢
      exact hc ip (.inl rfl) hold
    · have hsame := restarts_live hl trivial ip
      unfold Over
      rw [hsame] at hold ⊢
      exact hc ip (.inr rfl) hold
  · intro w w' n u hs hover hn
    exact room_live (L := spacing) (fun _ => hover hn) hs.1 trivial rfl
  · intro w hn
    cases hn

theorem recoverService_sound (ip : String) : Sound spacing (Cooled drv)
    (recoverService cutover ip) := by
  intro w hw
  have hT := cooled_within drv
  have hcount : Sound spacing (Cooled drv) (recentCount cutover ip serviceRestart 30) :=
    .of_only hT (only_recentCount trivial trivial trivial trivial)
  refine (hcount w hw).seq fun w n hi => ?_
  split
  · exact audit_sound hT (by decide) ip _ w hi
  · refine (cooled_sat ip hi).seq fun w k hk => ?_
    split
    · refine (cooled_sat ip hk.1).seq fun w m hm => ?_
      split
      · exact hm.1
      next hlt => exact restartService_sat hT hm.1 fun _ => hm.2 (by omega)
    next hno =>
      have hzero : k = 0 := by
        by_contra hk
        exact hno ⟨hk, by decide⟩
      exact restartService_sat hT hk.1 fun _ => hk.2 hzero

theorem recoverVmStart_sound (ip desired : String) :
    Sound spacing (Cooled drv) (recoverVmStart cutover ip desired) := by
  have hT := cooled_within drv
  apply RecoveryBounds.recoverVmStart_sound hT desired
  intro w hw
  have hcount : Sound spacing (Cooled drv) (recentCount cutover ip vmStart 30) :=
    .of_only hT (only_recentCount trivial trivial trivial trivial)
  have hroom : ∀ w : World, spacing.room w.db.events ip vmStart w.now :=
    fun w ht => absurd ht (by decide)
  exact (hcount w hw).mono (fun w n hi => ⟨hi, fun _ => hroom w⟩) fun _ _ hi => hi

/-- In every run whose counts of three minutes find restarts of the cooldown
wherever there are some, restarts of a host are a cooldown apart. -/
theorem restarts_spaced (drv : Driver) (cutover : Bool) (n : Nat) (w w' : World)
    (tr : Trace Eff Ans) (q : Svc Unit)
    (hw : w.txn = .closed) (hx : Exec (Cooled drv) w (ticks cutover n) tr w' q) :
    (∃ new, w'.db.events = w.db.events ++ new ∧ Spaced new) ∧
    (Spaced w.db.events → Spaced w'.db.events) := by
  have hT := cooled_within drv
  constructor
  · exact run_books (L := spacing) hT recoverVmStart_sound recoverService_sound hw
      (List.append_nil _).symm
      (fun _ => List.Pairwise.nil) hx
  · intro hs
    have hbase : w.db.events = [] ++ w.db.events := rfl
    obtain ⟨new, he, hnew⟩ :=
      run_books (L := spacing) hT recoverVmStart_sound recoverService_sound hw hbase hs hx
    rw [he]
    exact hnew

end Programs

def justRestarted (w : World) : Bool :=
  (w.db.events.getLast?.map (·.eventType)) == some serviceRestart

/-- The host serves while the restart is the last event, and fails again after it. -/
def relapsingNet (w : World) : Net where
  models _ := .ok (200, .ok (.obj [("data", .arr [.obj [("id", .str "m")]])]))
  completion _ _ := .ok (if justRestarted w then 200 else 500)
  pve _ := some (.obj [("data", .obj [("status", .str "running")])])

def paced (pace : Nat) (w : World) (e : Eff) : Option (Ans e × World) :=
  some (answer plainDriver (relapsingNet w) none (w.now + pace) w e)

theorem paced_live {pace : Nat} {w w' : World} {e : Eff} {a : Ans e}
    (h : paced pace w e = some (a, w')) :
    Live plainDriver w e a w' :=
  ⟨w, relapsingNet w, none, w.now + pace, ⟨rfl, rfl, [], (List.append_nil _).symm,
    fun _ h => absurd h List.not_mem_nil⟩,
    by omega, Option.some.inj h⟩

def twoTicks (oracle : World → (e : Eff) → Option (Ans e × World)) :
    Trace Eff Ans × World × Svc Unit :=
  play oracle 74 { db := GatewayConfig.emptyDb } (ticks false 2)

/-- With twenty seconds for each the second restart comes eight minutes after the first. -/
theorem restarted_within_cooldown : ¬ ∀ (drv : Driver) (cutover : Bool) (n : Nat) (w w' :
    World) (tr : Trace Eff Ans)
    (q : Svc Unit), w.txn = .closed → Exec (Live drv) w (ticks cutover n) tr w' q →
    Along Commits tr →
      Spaced w.db.events → Spaced w'.db.events := by
  intro h
  have hx : Exec (Live plainDriver) { db := GatewayConfig.emptyDb } (ticks false 2)
      (twoTicks (paced 20000000)).1
      (twoTicks (paced 20000000)).2.1 (twoTicks (paced 20000000)).2.2 :=
    play_exec id (paced 20000000) (fun _ _ _ _ h => paced_live h) 74 _ _
  have hspaced :=
    h _ _ _ _ _ _ _ rfl hx (commits_of_fine (by decide +kernel)) (fun _ => List.Pairwise.nil)
      "10.0.20.162"
  have hrestarts : restarts "10.0.20.162" (twoTicks (paced 20000000)).2.1.db.events =
      [400000000, 880000000] := by
    decide +kernel
  rw [hrestarts] at hspaced
  revert hspaced
  decide

def counts : Eff → Bool
  | .sql (.countEvents ..) => true
  | .orm (.countEvents ..) => true
  | _ => false

/-- A minute for each operation, as long as counts find no restart of the cooldown. -/
def patient (w : World) (e : Eff) : Option (Ans e × World) :=
  if counts e && w.db.events.any (fun ev =>
      ev.eventType == serviceRestart && decide (w.now + 60000000 < ev.createdAt + cooldown)) then none
  else paced 60000000 w e

theorem answer_now {drv : Driver} {net : Net} {fault : Option PyExc} {now : Int} {w w' : World}
    {e : Eff} {a : Ans e}
    (he : counts e = true) (h : answer drv net fault now w e = (a, w')) : w'.now = now := by
  revert h
  unfold Fleet.answer
  cases e with
  | sql s =>
      cases w.txn with
      | closed => exact fun h => by cases h; rfl
      | aborted => exact fun h => by cases h; rfl
      | live pending =>
          cases fault with
          | some x => exact fun h => by cases h; rfl
          | none =>
              simp only
              cases exec drv now (pending w.db) s with
              | error x => exact fun h => by cases h; rfl
              | ok r => exact fun h => by cases h; rfl
  | orm s =>
      cases fault with
      | some x => exact fun h => by cases h; rfl
      | none =>
          simp only
          cases exec drv now w.db s with
          | error x => exact fun h => by cases h; rfl
          | ok r => exact fun h => by cases h; rfl
  | _ => cases he

theorem patient_cooled {w w' : World} {e : Eff} {a : Ans e} (h : patient w e = some (a, w')) :
    Cooled plainDriver w e a w' := by
  unfold patient at h
  split at h
  · cases h
  next hno =>
    refine ⟨paced_live h, fun ip he _ s hs => ?_⟩
    have hcounts : counts e = true := by
      rcases he with rfl | rfl
      · rfl
      · rfl
    rw [answer_now hcounts (Option.some.inj h)]
    unfold restarts attempts at hs
    obtain ⟨ev, hev, rfl⟩ := List.mem_map.mp hs
    obtain ⟨hmem, hk⟩ := List.mem_filter.mp hev
    by_contra hlt
    apply hno
    rw [hcounts, Bool.true_and]
    refine List.any_eq_true.mpr ⟨ev, hmem, ?_⟩
    simp only [Bool.and_eq_true] at hk ⊢
    exact ⟨hk.2, decide_eq_true (Int.not_le.mp hlt)⟩

/-- With a minute for each the second restart comes after the cooldown. -/
theorem restarts_spaced_patient :
    (∃ new, (twoTicks patient).2.1.db.events = GatewayConfig.emptyDb.events ++ new ∧ Spaced new) ∧
      (Spaced GatewayConfig.emptyDb.events → Spaced (twoTicks patient).2.1.db.events) :=
  restarts_spaced plainDriver false 2 { db := GatewayConfig.emptyDb } _ _ _ rfl
    (play_exec id patient (fun _ _ _ _ h => patient_cooled h) 74 _ _)

end ServerManager.ServiceCooldown
