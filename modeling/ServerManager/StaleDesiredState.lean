import ServerManager.Frames
import ServerManager.Interleaving
import ServerManager.PassCalls
import ServerManager.RecoveryBudget

namespace ServerManager.StaleDesiredState

open Interaction Interleaving PyJson Orm Effects Config Reconciliation Api Storage Calls Sessions
  Frames PassCalls
open OwnershipGate RecoveryBudget Replay

def chosen (past : PyTrace) : Prop :=
  ∃ n, ∃ rows : List AgentRuntime, ⟨.db (.selectRuntimes (.reconcilable n)), rows⟩ ∈ past

def selected (past : PyTrace) (rid : Uuid) : Prop :=
  ∃ n, ∃ rows : List AgentRuntime, ⟨.db (.selectRuntimes (.reconcilable n)), rows⟩ ∈ past ∧
    ∃ r ∈ rows, r.runtimeId = rid

/-- The round has begun its `reconcile_runtime` call for the runtime. -/
def begun (past : PyTrace) (rid : Uuid) : Prop :=
  ∃ a : Option AgentRuntime, ⟨.db (.getRuntime rid), a⟩ ∈ past

def closed (past : PyTrace) : Prop := ∃ a : Unit, ⟨.db .close, a⟩ ∈ past

/-- The runtime is selected, and its call is still to come. -/
def waiting (past : PyTrace) (rid : Uuid) : Prop :=
  selected past rid ∧ ¬ begun past rid ∧ ¬ closed past

def stale (past : PyTrace) (rid : Uuid) : Prop :=
  ∃ t, ∃ rows : List AgentRuntime, ⟨.db (.selectRuntimes (.staleSandboxes t)), rows⟩ ∈ past ∧
    ∃ r ∈ rows, r.runtimeId = rid

def expire (r : AgentRuntime) : AgentRuntime := { r with desiredState := .desiredDestroyed }

def swept (past : PyTrace) (rid : Uuid) : Prop :=
  ∃ a : Unit, ⟨.db (.modify rid false expire), a⟩ ∈ past

/-- The calls of a round, each with what the past says about it. -/
def Permit (past : PyTrace) : Eff → Prop
  | .db (.getRuntime rid) => waiting past rid
  | .db (.modify rid b f) =>
      begun past rid ∨ (¬ chosen past ∧ stale past rid ∧ b = false ∧ f = expire)
  | .db (.selectRuntimes (.staleSandboxes _)) =>
      ¬ chosen past ∧ (∀ rid, ¬ stale past rid) ∧ ∀ rid, ¬ swept past rid
  | .db (.selectRuntimes (.reconcilable _)) =>
      ¬ chosen past ∧ ∀ rid, stale past rid → swept past rid
  | .db (.addEvent _) | .db .flush | .db .commit | .db .close => True
  | .db _ => False
  | .pve (.start ..) => ∃ r, Loaded r past ∧ r.desiredState = .desiredRunning
  | .pve (.shutdown ..) | .pve (.stop ..) => ∃ r, Loaded r past ∧ r.desiredState = .desiredStopped
  | .pve (.destroy ..) => False
  | _ => True

def Fact : (e : Eff) → Ans e → Prop
  | .db (.getRuntime rid), a => ∀ r : AgentRuntime, a = some r → r.runtimeId = rid
  | .db (.selectRuntimes _), rows => (List.map AgentRuntime.runtimeId rows).Nodup
  | _, _ => True

def learn (past : PyTrace) (e : Eff) (a : Ans e) (past' : PyTrace) : Prop :=
  past' = past ++ [⟨e, a⟩] ∧ Fact e a

variable {past : PyTrace} {rid : Uuid}

/-- Calls that neither read a row, nor select rows, nor close the session. -/
def inside : Eff → Prop
  | .db (.getRuntime _) | .db (.selectRuntimes _) | .db .close => False
  | _ => True

theorem waiting_inside {ev : Event Eff Ans} (h : waiting past rid) (he : inside ev.1) :
    waiting (past ++ [ev]) rid := by
  obtain ⟨⟨n, rows, hm, hr⟩, hb, hc⟩ := h
  refine ⟨⟨n, rows, List.mem_append_left _ hm, hr⟩, ?_, ?_⟩
  · rintro ⟨a, ha⟩
    rcases List.mem_append.mp ha with ha | ha
    · exact hb ⟨a, ha⟩
    · rw [← List.mem_singleton.mp ha] at he
      exact he
  · rintro ⟨a, ha⟩
    rcases List.mem_append.mp ha with ha | ha
    · exact hc ⟨a, ha⟩
    · rw [← List.mem_singleton.mp ha] at he
      exact he

theorem begun_append {ev : Event Eff Ans} (h : begun past rid) : begun (past ++ [ev]) rid := by
  obtain ⟨a, ha⟩ := h
  exact ⟨a, List.mem_append_left _ ha⟩

theorem waiting_next {rid' : Uuid} {a : Option AgentRuntime} (h : waiting past rid)
    (hne : rid ≠ rid') :
    waiting (past ++ [⟨.db (.getRuntime rid'), a⟩]) rid := by
  obtain ⟨⟨n, rows, hm, hr⟩, hb, hc⟩ := h
  refine ⟨⟨n, rows, List.mem_append_left _ hm, hr⟩, ?_, ?_⟩
  · rintro ⟨x, hx⟩
    rcases List.mem_append.mp hx with hx | hx
    · exact hb ⟨x, hx⟩
    · have he := congrArg Sigma.fst (List.mem_singleton.mp hx)
      cases he
      exact hne rfl
  · rintro ⟨x, hx⟩
    rcases List.mem_append.mp hx with hx | hx
    · exact hc ⟨x, hx⟩
    · have he := congrArg Sigma.fst (List.mem_singleton.mp hx)
      cases he

/-- A round that is at work on the row `r`, with these rows still to come. -/
structure Amid (r : AgentRuntime) (rows : List AgentRuntime) (past : PyTrace) : Prop where
  loaded : Loaded r past
  begun : begun past r.runtimeId
  waiting : ∀ x ∈ rows, waiting past x.runtimeId

variable {r : AgentRuntime} {rows : List AgentRuntime}

theorem inside_pass {e : Eff} (h : PassCall r.runtimeId r e) : inside e ∧ ¬ loadsRow e := by
  cases h with
  | @observe e ho =>
      unfold observes at ho
      split at ho
      all_goals first | exact False.elim ho | exact ⟨trivial, id⟩
  | event | flush | modify | start | shutdown | stop => exact ⟨trivial, id⟩

theorem Amid.append {ev : Event Eff Ans} (h : Amid r rows past)
    (he : inside ev.1 ∧ ¬ loadsRow ev.1) :
    Amid r rows (past ++ [ev]) :=
  ⟨loaded_stable r past ev h.loaded he.2, begun_append h.begun,
    fun x hx => waiting_inside (h.waiting x hx) he.1⟩

theorem permit_pass {e : Eff} (h : PassCall r.runtimeId r e) (ha : Amid r rows past) :
    Permit past e := by
  cases h with
  | @observe e ho =>
      unfold observes at ho
      split at ho
      all_goals first | exact False.elim ho | exact trivial
  | event | flush => exact trivial
  | modify => exact .inl ha.begun
  | start n v hd => exact ⟨r, ha.loaded, hd⟩
  | shutdown n v t hd => exact ⟨r, ha.loaded, hd⟩
  | stop n v hd => exact ⟨r, ha.loaded, hd⟩

/-- A part of a pass over `r`. -/
theorem sat_amid {α : Type} {p : Py α} (h : Only (PassCall r.runtimeId r) p)
    (hs : Amid r rows past) :
    Sat learn Permit (fun s _ => Amid r rows s) (fun s _ => Amid r rows s) p past := by
  refine (h.keeps (T := learn) (I := Amid r rows) (fun s e a s' he hi hl => ?_) hs).weaken
    fun s e he => permit_pass he.1 he.2
  rw [hl.1]
  exact hi.append (inside_pass he)

def Rest (rows : List AgentRuntime) (past : PyTrace) : Prop := ∀ x ∈ rows, waiting past x.runtimeId

theorem sat_inside {α : Type} {p : Py α} (h : Only (fun e => inside e ∧ ∀ s, Permit s e) p)
    (hs : Rest rows past) :
    Sat learn Permit (fun s _ => Rest rows s) (fun _ _ => True) p past := by
  refine ((h.keeps (T := learn) (I := Rest rows) (fun s e a s' he hi hl => ?_) hs).weaken
    fun s e he => he.1.2 s).mono (fun _ _ h => h) fun _ _ _ => trivial
  rw [hl.1]
  exact fun x hx => waiting_inside (hi x hx) he.1

theorem inside_commit : Only (fun e => inside e ∧ ∀ s, Permit s e) commit :=
  only_commit ⟨trivial, fun _ => trivial⟩ ⟨trivial, fun _ => trivial⟩

theorem reconcileRuntime_sat (cfg : Settings) (rs : ReconcileSettings) (hw : waiting past rid)
    (hne : ∀ x ∈ rows, x.runtimeId ≠ rid) (hs : Rest rows past) :
    Sat learn Permit (fun s _ => Rest rows s) (fun _ _ => True) (reconcileRuntime cfg rs rid)
      past := by
  unfold reconcileRuntime
  refine (sat_bind _ _ _).mpr ((sat_getRuntime rid).mpr ⟨hw, fun a s hl => ?_⟩)
  obtain ⟨rfl, hf⟩ := hl
  have hrest : Rest rows (past ++ [⟨.db (.getRuntime rid), a⟩]) :=
    fun x hx => waiting_next (hs x hx) (hne x hx)
  cases a with
  | none => exact hrest
  | some r =>
      have hk : r.runtimeId = rid := hf r rfl
      subst hk
      have hload : Loaded r (past ++ [⟨.db (.getRuntime r.runtimeId), some r⟩]) :=
        ⟨r.runtimeId, past, [], rfl, fun ev he => absurd he List.not_mem_nil⟩
      have ha : Amid r rows (past ++ [⟨.db (.getRuntime r.runtimeId), some r⟩]) :=
        ⟨hload, ⟨some r, List.mem_append_right _ List.mem_cons_self⟩, hrest⟩
      exact (sat_amid (only_reconcileRow cfg rs r) ha).mono (fun s _ hs => hs.waiting) fun _ _ _ =>
        trivial

theorem reconcileRows_sat (cfg : Settings) (rs : ReconcileSettings)
    (hn : (rows.map (·.runtimeId)).Nodup)
    (hs : Rest rows past) :
    Sat learn Permit (fun _ _ => True) (fun _ _ => True) (reconcileRows cfg rs rows) past := by
  induction rows generalizing past with
  | nil => trivial
  | cons r rows ih =>
      obtain ⟨hr, hn'⟩ := List.nodup_cons.mp hn
      have hne : ∀ x ∈ rows, x.runtimeId ≠ r.runtimeId :=
        fun x hx he => hr (List.mem_map.mpr ⟨x, hx, he⟩)
      unfold reconcileRows
      refine Sat.seq (reconcileRuntime_sat cfg rs (hs r List.mem_cons_self) hne
        fun x hx => hs x (List.mem_cons_of_mem _ hx)) fun s res hs => ?_
      refine Sat.seq (sat_inside inside_commit hs) fun s _ hs => ?_
      exact Sat.seq (ih hn' hs) fun s _ _ => trivial

/-- The sweep: these rows have been selected for it, and those still to come are the rest. -/
structure Sweeping (rows : List AgentRuntime) (past : PyTrace) : Prop where
  open_ : ¬ closed past
  early : ¬ chosen past ∧ ∀ rid, ¬ begun past rid
  all : ∀ rid, stale past rid → swept past rid ∨ ∃ r ∈ rows, r.runtimeId = rid
  rest : ∀ r ∈ rows, stale past r.runtimeId

def aside : Eff → Prop
  | .db (.addEvent _) | .db .flush | .sys .now => True
  | _ => False

theorem Sweeping.append {rows' : List AgentRuntime} {ev : Event Eff Ans} (h : Sweeping rows past)
    (he : inside ev.1) (hs : ∀ r ∈ rows, swept (past ++ [ev]) r.runtimeId ∨ r ∈ rows')
    (hsub : ∀ r ∈ rows', r ∈ rows) : Sweeping rows' (past ++ [ev]) := by
  have hstale : ∀ rid, stale (past ++ [ev]) rid ↔ stale past rid := by
    intro rid
    constructor
    · rintro ⟨t, rows, hm, hr⟩
      rcases List.mem_append.mp hm with hm | hm
      · exact ⟨t, rows, hm, hr⟩
      · rw [← List.mem_singleton.mp hm] at he
        exact False.elim he
    · rintro ⟨t, rows, hm, hr⟩
      exact ⟨t, rows, List.mem_append_left _ hm, hr⟩
  refine ⟨?_, ⟨?_, ?_⟩, ?_, ?_⟩
  · rintro ⟨a, ha⟩
    rcases List.mem_append.mp ha with ha | ha
    · exact h.open_ ⟨a, ha⟩
    · rw [← List.mem_singleton.mp ha] at he
      exact he
  · rintro ⟨n, rows, hm⟩
    rcases List.mem_append.mp hm with hm | hm
    · exact h.early.1 ⟨n, rows, hm⟩
    · rw [← List.mem_singleton.mp hm] at he
      exact he
  · rintro rid ⟨a, ha⟩
    rcases List.mem_append.mp ha with ha | ha
    · exact h.early.2 rid ⟨a, ha⟩
    · rw [← List.mem_singleton.mp ha] at he
      exact he
  · intro rid hrid
    rcases h.all rid ((hstale rid).mp hrid) with ⟨a, ha⟩ | ⟨r, hr, hk⟩
    · exact .inl ⟨a, List.mem_append_left _ ha⟩
    · rcases hs r hr with h | h
      · exact .inl (hk ▸ h)
      · exact .inr ⟨r, h, hk⟩
  · exact fun r hr => (hstale _).mpr (h.rest r (hsub r hr))

theorem permit_aside {e : Eff} (h : aside e) (s : PyTrace) : Permit s e ∧ inside e := by
  unfold aside at h
  split at h
  all_goals first | exact False.elim h | exact ⟨trivial, trivial⟩

theorem sat_aside {α : Type} {p : Py α} (h : Only aside p) (hs : Sweeping rows past) :
    Sat learn Permit (fun s _ => Sweeping rows s) (fun _ _ => True) p past := by
  refine ((h.keeps (T := learn) (I := Sweeping rows) (fun s e a s' he hi hl => ?_) hs).weaken
    fun s e he => (permit_aside he.1 s).1).mono (fun _ _ h => h) fun _ _ _ => trivial
  rw [hl.1]
  exact hi.append (permit_aside he []).2 (fun r hr => .inr hr) fun _ hr => hr

theorem expireRows_sat (hs : Sweeping rows past) :
    Sat learn Permit (fun s _ => Sweeping [] s) (fun _ _ => True) (expireRows rows) past := by
  induction rows generalizing past with
  | nil => exact hs
  | cons r rows ih =>
      unfold expireRows
      refine (sat_bind _ _ _).mpr ⟨?_, fun a s hl => ?_⟩
      · exact .inr ⟨hs.early.1, hs.rest r List.mem_cons_self, rfl, rfl⟩
      · obtain ⟨rfl, -⟩ := hl
        have hnext : Sweeping rows (past ++ [⟨.db (.modify r.runtimeId false expire), a⟩]) := by
          refine hs.append trivial (fun x hx => ?_) fun x hx => List.mem_cons_of_mem _ hx
          rcases List.mem_cons.mp hx with rfl | hx
          · exact .inl ⟨a, List.mem_append_right _ List.mem_cons_self⟩
          · exact .inr hx
        refine Sat.seq (sat_aside (only_audit r _ _ _ trivial) hnext) fun s _ hs => ?_
        exact Sat.seq (ih hs) fun s _ hs => hs

theorem flush_sat (hs : Sweeping rows past) :
    Sat learn Permit (fun s _ => Sweeping rows s) (fun _ _ => True) flush past :=
  sat_aside (only_flush trivial) hs

def Fresh (past : PyTrace) : Prop := ∀ ev ∈ past, aside ev.1

theorem sat_fresh {α : Type} {p : Py α} (h : Only aside p) (hs : Fresh past) :
    Sat learn Permit (fun s _ => Fresh s) (fun _ _ => True) p past := by
  refine ((h.keeps (T := learn) (I := Fresh) (fun s e a s' he hi hl => ?_) hs).weaken
    fun s e he => (permit_aside he.1 s).1).mono (fun _ _ h => h) fun _ _ _ => trivial
  rw [hl.1]
  intro ev hev
  rcases List.mem_append.mp hev with hev | hev
  · exact hi ev hev
  · rw [List.mem_singleton.mp hev]
    exact he

theorem Fresh.sweeping (h : Fresh past) (t : Time) (rows : List AgentRuntime) :
    Sweeping rows (past ++ [⟨.db (.selectRuntimes (.staleSandboxes t)), rows⟩]) := by
  have hother : ∀ ev : Event Eff Ans, ev ∈ past ++
      [⟨.db (.selectRuntimes (.staleSandboxes t)), rows⟩] → ¬ aside ev.1 →
      ev = ⟨.db (.selectRuntimes (.staleSandboxes t)), rows⟩ := by
    intro ev hev hn
    rcases List.mem_append.mp hev with hev | hev
    · exact absurd (h ev hev) hn
    · exact List.mem_singleton.mp hev
  refine ⟨?_, ⟨?_, ?_⟩, ?_, ?_⟩
  · rintro ⟨a, ha⟩
    have he := congrArg Sigma.fst (hother _ ha id)
    cases he
  · rintro ⟨n, rows', ha⟩
    have he := congrArg Sigma.fst (hother _ ha id)
    cases he
  · rintro rid ⟨a, ha⟩
    have he := congrArg Sigma.fst (hother _ ha id)
    cases he
  · rintro rid ⟨t', rows', ha, r, hr, hk⟩
    have he := hother _ ha id
    cases he
    exact .inr ⟨r, hr, hk⟩
  · exact fun r hr => ⟨t, rows, List.mem_append_right _ List.mem_cons_self, r, hr, rfl⟩

theorem expireStaleSandboxes_sat :
    Sat learn Permit (fun s _ => Sweeping [] s) (fun _ _ => True) expireStaleSandboxes [] := by
  have hnil : Fresh [] := fun ev hev => absurd hev List.not_mem_nil
  unfold expireStaleSandboxes selectRuntimes
  refine Sat.seq (sat_fresh (only_call trivial fun _ => only_ret _) hnil) fun s t hs => ?_
  refine Sat.seq (Q := fun s rows => Sweeping rows s) ?_ fun s rows hs => expireRows_sat hs
  refine Sat.seq (sat_fresh (only_flush trivial) hs) fun s _ hs =>
    ⟨⟨?_, ?_, ?_⟩, fun rows s' hl => ?_⟩
  · rintro ⟨n, rows, ha⟩
    exact hs _ ha
  · rintro rid ⟨t, rows, ha, -⟩
    exact hs _ ha
  · rintro rid ⟨a, ha⟩
    exact hs _ ha
  · rw [hl.1]
    exact hs.sweeping t rows

theorem reconcileAll_sat (cfg : Settings) (rs : ReconcileSettings) (limit : Nat) :
    Sat learn Permit (fun _ _ => True) (fun _ _ => True) (reconcileAll cfg rs limit) [] := by
  unfold reconcileAll selectRuntimes
  refine Sat.seq expireStaleSandboxes_sat fun s _ hs => ?_
  · refine Sat.seq (Q := fun s rows => (rows.map (·.runtimeId)).Nodup ∧ Rest rows s) ?_
      fun s rows hs => ?_
    · refine Sat.seq (flush_sat hs) fun s _ hs =>
        ⟨⟨hs.early.1, fun rid hrid => ?_⟩, fun rows s' hl => ?_⟩
      · rcases hs.all rid hrid with h | ⟨r, hr, -⟩
        · exact h
        · cases hr
      · obtain ⟨rfl, hf⟩ := hl
        refine ⟨hf, fun x hx => ⟨⟨limit, rows, List.mem_append_right _ List.mem_cons_self, x, hx,
          rfl⟩, ?_, ?_⟩⟩
        · rintro ⟨a, ha⟩
          rcases List.mem_append.mp ha with ha | ha
          · exact hs.early.2 _ ⟨a, ha⟩
          · have he := congrArg Sigma.fst (List.mem_singleton.mp ha)
            cases he
        · rintro ⟨a, ha⟩
          rcases List.mem_append.mp ha with ha | ha
          · exact hs.open_ ⟨a, ha⟩
          · have he := congrArg Sigma.fst (List.mem_singleton.mp ha)
            cases he
    · exact reconcileRows_sat cfg rs hs.1 hs.2

theorem sat_free {α : Type} {p : Py α} (h : Only (fun e => ∀ s, Permit s e) p) :
    Sat learn Permit (fun _ _ => True) (fun _ _ => True) p past :=
  (h.keeps (T := learn) (I := fun _ => True) (fun _ _ _ _ _ _ _ => trivial) trivial).weaken
    fun s _ he => he.1 s

theorem reconcileEvery_sat (cfg : Settings) (rs : ReconcileSettings) :
    Sat learn Permit (fun _ _ => True) (fun _ _ => True) (reconcileEvery cfg rs) [] := by
  have hclose : ∀ s, Sat learn Permit (fun _ _ => True) (fun _ _ => True) close s := fun s =>
    sat_free (only_call (fun _ => trivial) fun _ => only_ret _)
  refine sat_withSession.mpr (Sat.mono (Q := fun _ _ => True) (X := fun _ _ => True) ?_
    (fun s _ _ => hclose s)
    fun s _ _ => hclose s)
  refine Sat.seq (reconcileAll_sat cfg rs 20) fun s _ _ => ?_
  exact Sat.seq (sat_free (only_commit (fun _ => trivial) fun _ => trivial)) fun s _ _ => trivial

variable {R : Type} {rem : Remote R} {w w' : World R}

/-- The session has the row as it was loaded, and the row is still on the same side. -/
def Current (w : World R) (rid : Uuid) : Prop :=
  ∃ r, (∀ o ∈ (w.sessions 0).objs, o.cur.runtimeId = rid → o = ⟨r, r, false⟩) ∧
    (∀ x ∈ (w.sessions 0).txn, Aside rid x) ∧
    ∀ r', w.db.runtime? rid = some r' → (r'.desiredState = .desiredRunning ↔
      r.desiredState = .desiredRunning)

def Expired (w : World R) (rid : Uuid) : Prop :=
  ∀ o ∈ (w.sessions 0).objs, o.cur.runtimeId = rid → o.cur.desiredState = .desiredDestroyed

def Minor : Write → Prop
  | .insertEvent _ => True
  | _ => False

structure Consistent (w : World R) (past : PyTrace) : Prop where
  order : ∀ rid, begun past rid → chosen past
  distinct : Distinct w.db
  inserts : ∀ j, SessionNoInsert (w.sessions j)
  minor : ∀ x ∈ (w.sessions 0).new, Minor x
  keys : ∀ o ∈ (w.sessions 0).objs, o.loaded.runtimeId = o.cur.runtimeId
  tracked : ∀ l c d, .updateRuntime l c d ∈ (w.sessions 0).txn →
    ∃ o ∈ (w.sessions 0).objs, o.cur.runtimeId = l.runtimeId
  sweep : ¬ chosen past → ∀ o ∈ (w.sessions 0).objs, o.cur.desiredState = .desiredDestroyed ∨
    (stale past o.cur.runtimeId ∧ ¬ swept past o.cur.runtimeId)
  held : ∀ rid, waiting past rid → ∃ o ∈ (w.sessions 0).objs, o.cur.runtimeId = rid
  judged : ∀ rid, waiting past rid → Expired w rid ∨ Current w rid

/-- A commit of another process leaves the waiting rows on their side. -/
def Sides (w : World R) (past : PyTrace) (i : Nat) (e : Eff) : Prop :=
  e = .db .commit → ∀ rid, waiting past rid → ∀ r r', w.db.runtime? rid = some r →
    (w.db.applyAll w.clock (w.sessions i).txn).runtime? rid = some r' →
      (r'.desiredState = .desiredRunning ↔ r.desiredState = .desiredRunning)

theorem distinct_step {i : Nat} {e : Eff} {a : Ans e} (hs : w.step rem i e a w')
    (hi : SessionNoInsert (w.sessions i))
    (h : Distinct w.db) : Distinct w'.db := by
  rcases step_db hs with hdb | ⟨-, t, hdb⟩
  · rw [hdb]
    exact h
  · unfold Distinct
    rw [hdb, applyAll_keys hi.2]
    exact h

theorem foldl_none {ws : List Write} (h : ∀ x ∈ ws, NoInsert x) :
    ws.foldl (onRow rid) none = none := by
  induction ws with
  | nil => rfl
  | cons x ws ih =>
      have hx : onRow rid none x = none := by
        cases x with
        | updateRuntime l c d => simp [onRow]
        | insertRuntime r => exact False.elim (h _ List.mem_cons_self)
        | updateJob | updateStep | insertJob | insertStep | insertEvent | insertBridge => rfl
      rw [List.foldl_cons, hx]
      exact ih fun y hy => h y (List.mem_cons_of_mem _ hy)

theorem current_other {i : Nat} {e : Eff} {a : Ans e} (hi : SessionNoInsert (w.sessions i))
    (h0 : w'.sessions 0 = w.sessions 0) (hs : w.step rem i e a w') (hp : Sides w past i e)
    (hw : waiting past rid)
    (h : Current w rid) : Current w' rid := by
  obtain ⟨r, ho, ha, hd⟩ := h
  refine ⟨r, h0 ▸ ho, h0 ▸ ha, fun r' hr' => ?_⟩
  rcases step_db hs with hdb | ⟨hc, t, hdb⟩
  · exact hd r' (hdb ▸ hr')
  · have hrow : (w.db.applyAll w.clock (w.sessions i).txn).runtime? rid = some r' := by
      rw [applyAll_row, ← applyAll_row t, ← hdb]
      exact hr'
    cases hr : w.db.runtime? rid with
    | some r₀ => exact (hp hc rid hw r₀ r' hr hrow).trans (hd r₀ hr)
    | none =>
        rw [applyAll_row, hr, foldl_none hi.2] at hrow
        cases hrow

theorem consistent_other {i : Nat} {e : Eff} {a : Ans e} (h : Consistent w past) (hi : i ≠ 0)
    (hs : w.step rem i e a w') (he : ¬ insertsRow e) (hp : Sides w past i e) :
    Consistent w' past := by
  have h0 : w'.sessions 0 = w.sessions 0 := step_other hs (Ne.symm hi)
  refine ⟨h.order, distinct_step hs (h.inserts i) h.distinct, ?_, h0 ▸ h.minor, h0 ▸ h.keys,
    h0 ▸ h.tracked,
    h0 ▸ h.sweep, h0 ▸ h.held, ?_⟩
  · intro j
    by_cases hj : j = i
    · subst hj
      exact step_noInsert hs he (h.inserts j)
    · rw [step_other hs hj]
      exact h.inserts j
  · intro rid hw
    rcases h.judged rid hw with hx | hx
    · exact .inl (by unfold Expired; rw [h0]; exact hx)
    · exact .inr (current_other (h.inserts i) h0 hs hp hw hx)

def selects : Eff → Prop
  | .db (.selectRuntimes _) => True
  | _ => False

def modifies : Eff → Prop
  | .db (.modify ..) => True
  | _ => False

variable {ev : Event Eff Ans}

theorem waiting_of_append (h : waiting (past ++ [ev]) rid) :
    waiting past rid ∨ ∃ n, ∃ rows : List AgentRuntime,
      ev = ⟨.db (.selectRuntimes (.reconcilable n)), rows⟩ ∧
      ∃ r ∈ rows, r.runtimeId = rid := by
  obtain ⟨⟨n, rows, hm, hr⟩, hb, hc⟩ := h
  rcases List.mem_append.mp hm with hm | hm
  · refine .inl ⟨⟨n, rows, hm, hr⟩, ?_, ?_⟩
    · rintro ⟨a, ha⟩
      exact hb ⟨a, List.mem_append_left _ ha⟩
    · rintro ⟨a, ha⟩
      exact hc ⟨a, List.mem_append_left _ ha⟩
  · exact .inr ⟨n, rows, (List.mem_singleton.mp hm).symm, hr⟩

theorem waiting_before (h : waiting (past ++ [ev]) rid) (he : ¬ selects ev.1) :
    waiting past rid := by
  rcases waiting_of_append h with h | ⟨n, rows, rfl, -⟩
  · exact h
  · exact absurd trivial he

theorem chosen_append (h : chosen past) : chosen (past ++ [ev]) := by
  obtain ⟨n, rows, hm⟩ := h
  exact ⟨n, rows, List.mem_append_left _ hm⟩

theorem stale_append (h : stale past rid) : stale (past ++ [ev]) rid := by
  obtain ⟨t, rows, hm, hr⟩ := h
  exact ⟨t, rows, List.mem_append_left _ hm, hr⟩

theorem swept_before (h : swept (past ++ [ev]) rid) (he : ∀ f, ev.1 ≠ .db (.modify rid false f)) :
    swept past rid := by
  obtain ⟨a, ha⟩ := h
  rcases List.mem_append.mp ha with ha | ha
  · exact ⟨a, ha⟩
  · exact absurd (congrArg Sigma.fst (List.mem_singleton.mp ha)).symm (he expire)

theorem db_of_ne_commit {i : Nat} {e : Eff} {a : Ans e} (hs : w.step rem i e a w')
    (he : e ≠ .db .commit) :
    w'.db = w.db := by
  rcases step_db hs with h | ⟨h, -⟩
  · exact h
  · exact absurd h he

theorem Consistent.frame {e : Eff} {a : Ans e} (h : Consistent w past) (hs : w.step rem 0 e a w')
    (hp : Permit past e) :
    (∀ rid, begun (past ++ [⟨e, a⟩]) rid → chosen (past ++ [⟨e, a⟩])) ∧ Distinct w'.db ∧
      ∀ j, SessionNoInsert (w'.sessions j) := by
  have hin : ¬ insertsRow e := by
    unfold insertsRow
    split
    · exact fun _ => hp
    · exact id
  refine ⟨fun rid hb => chosen_append ?_, distinct_step hs (h.inserts 0) h.distinct, fun j => ?_⟩
  · obtain ⟨x, hx⟩ := hb
    rcases List.mem_append.mp hx with hx | hx
    · exact h.order rid ⟨x, hx⟩
    · cases List.mem_singleton.mp hx
      obtain ⟨⟨n, rows, hm, -⟩, -⟩ := hp
      exact ⟨n, rows, hm⟩
  · by_cases hj : j = 0
    · subst hj
      exact step_noInsert hs hin (h.inserts 0)
    · rw [step_other hs hj]
      exact h.inserts j

theorem Consistent.still {e : Eff} {a : Ans e} (h : Consistent w past) (hs : w.step rem 0 e a w')
    (hp : Permit past e) (he : ¬ selects e ∧ ¬ modifies e) (hdb : w'.db = w.db)
    (ho : (w'.sessions 0).objs = (w.sessions 0).objs)
    (ht : (w'.sessions 0).txn = (w.sessions 0).txn)
    (hn : ∀ x ∈ (w'.sessions 0).new, Minor x) : Consistent w' (past ++ [⟨e, a⟩]) := by
  obtain ⟨horder, hdist, hins⟩ := h.frame hs hp
  refine ⟨horder, hdist, hins, hn, ho ▸ h.keys, ht ▸ ho ▸ h.tracked, ?_, ?_, ?_⟩
  · intro hc o hm
    rw [ho] at hm
    refine (h.sweep (fun hc' => hc (chosen_append hc')) o hm).imp_right fun hsw =>
      ⟨stale_append hsw.1, fun hn => ?_⟩
    refine hsw.2 (swept_before hn fun f hf => he.2 ?_)
    rw [show e = _ from hf]
    trivial
  · intro rid hw
    rw [ho]
    exact h.held rid (waiting_before hw he.1)
  · intro rid hw
    unfold Expired Current
    rw [ho, ht, hdb]
    exact h.judged rid (waiting_before hw he.1)

theorem view_distinct (h : Consistent w past) : Distinct (w.view 0) := by
  unfold Distinct World.view
  rw [applyAll_keys (h.inserts 0).2]
  exact h.distinct

theorem Consistent.untouched (h : Consistent w past)
    (hn : ∀ o ∈ (w.sessions 0).objs, o.cur.runtimeId ≠ rid) :
    ∀ x ∈ (w.sessions 0).txn, Aside rid x := by
  intro x hx
  cases x with
  | updateRuntime l c d =>
      intro hl
      obtain ⟨o, ho, hk⟩ := h.tracked l c d hx
      exact hn o ho (hk.trans hl)
  | insertRuntime r => exact False.elim ((h.inserts 0).2 _ hx)
  | updateJob | updateStep | insertJob | insertStep | insertEvent | insertBridge => trivial

theorem Consistent.chosen_judged {n : Nat} (h : Consistent w past)
    (hp : Permit past (.db (.selectRuntimes (.reconcilable n)))) (hdb : w'.db = w.db)
    (hw' : w'.sessions 0 = ((w.sessions 0).loadAll (Query.run (.reconcilable n) (w.view 0))).2)
    (rid : Uuid) :
    Expired w' rid ∨ Current w' rid := by
  obtain ⟨os, hos⟩ := loadAll_objs (Query.run (.reconcilable n) (w.view 0)) (w.sessions 0)
  have htxn : (w'.sessions 0).txn = (w.sessions 0).txn := by rw [hw', hos]
  by_cases hold : ∃ o ∈ (w.sessions 0).objs, o.cur.runtimeId = rid
  · obtain ⟨o₀, ho₀, hk₀⟩ := hold
    refine .inl fun o ho hk => ?_
    rw [hw'] at ho
    rcases mem_loadAll ho with ho | ⟨r, -, rfl, hn⟩
    · exact (h.sweep hp.1 o ho).resolve_right fun hsw => hsw.2 (hp.2 _ hsw.1)
    · exact absurd (hk₀.trans hk.symm) (hn o₀ ho₀)
  · have hn : ∀ o ∈ (w.sessions 0).objs, o.cur.runtimeId ≠ rid := fun o ho hk => hold ⟨o, ho, hk⟩
    have hside := h.untouched hn
    have hview : (w.view 0).runtime? rid = w.db.runtime? rid := by
      rw [view_row]
      exact foldl_aside hside _
    have hrow : ∀ o ∈ (w'.sessions 0).objs, o.cur.runtimeId = rid →
        ∃ r, w.db.runtime? rid = some r ∧ o = ⟨r, r, false⟩ := by
      intro o ho hk
      rw [hw'] at ho
      rcases mem_loadAll ho with ho | ⟨r, hr, rfl, -⟩
      · exact absurd hk (hn o ho)
      · obtain ⟨x, hx, rfl⟩ := query_mem hr
        refine ⟨x.row, ?_, rfl⟩
        rw [← hview, ← hk]
        exact runtime?_of_mem (view_distinct h) hx
    cases hr : w.db.runtime? rid with
    | none =>
        refine .inl fun o ho hk => ?_
        obtain ⟨r, hr', -⟩ := hrow o ho hk
        rw [hr] at hr'
        cases hr'
    | some r =>
        refine .inr ⟨r, fun o ho hk => ?_, htxn ▸ hside, fun r' hr' => ?_⟩
        · obtain ⟨r', hr', rfl⟩ := hrow o ho hk
          rw [hr] at hr'
          cases hr'
          rfl
        · rw [hdb, hr] at hr'
          cases hr'
          rfl

theorem Consistent.select {q : Query} {a : List AgentRuntime} (h : Consistent w past)
    (hs : w.step rem 0 (.db (.selectRuntimes q)) a w')
    (hp : Permit past (.db (.selectRuntimes q))) :
    Fact (.db (.selectRuntimes q)) a ∧ Consistent w' (past ++ [⟨.db (.selectRuntimes q), a⟩]) := by
  have ha : a = ((w.sessions 0).loadAll (Query.run q (w.view 0))).1 := hs.1
  have hw' : w'.sessions 0 = ((w.sessions 0).loadAll (Query.run q (w.view 0))).2 := by
    rw [hs.2, setSession_self]
  have hdb : w'.db = w.db := by
    rw [hs.2]
    rfl
  obtain ⟨os, hos⟩ := loadAll_objs (Query.run q (w.view 0)) (w.sessions 0)
  have hkeys : a.map (·.runtimeId) = (Query.run q (w.view 0)).map (·.runtimeId) := by
    rw [ha]
    exact loadAll_keys _ _
  have hanswer : ∀ r ∈ Query.run q (w.view 0), ∃ x ∈ a, x.runtimeId = r.runtimeId := by
    intro r hr
    have hm : r.runtimeId ∈ a.map (·.runtimeId) := by
      rw [hkeys]
      exact List.mem_map.mpr ⟨r, hr, rfl⟩
    obtain ⟨x, hx, hk⟩ := List.mem_map.mp hm
    exact ⟨x, hx, hk⟩
  have hnew : ¬ chosen past := by
    cases q with
    | staleSandboxes t => exact hp.1
    | reconcilable n => exact hp.1
    | others rid => exact False.elim hp
  have hnone : ∀ rid, ¬ waiting past rid := fun rid hw => by
    obtain ⟨⟨n, rows, hm, -⟩, -⟩ := hw
    exact hnew ⟨n, rows, hm⟩
  obtain ⟨horder, hdist, hins⟩ := h.frame hs hp
  refine ⟨?_, horder, hdist, hins, ?_, ?_, ?_, ?_, ?_, ?_⟩
  · change (List.map AgentRuntime.runtimeId a).Nodup
    rw [hkeys]
    exact query_nodup q (view_distinct h)
  · rw [hw', hos]
    exact h.minor
  · intro o ho
    rw [hw'] at ho
    rcases mem_loadAll ho with ho | ⟨r, -, rfl, -⟩
    · exact h.keys o ho
    · rfl
  · intro l c d hx
    rw [hw', hos] at hx
    obtain ⟨o, ho, hk⟩ := h.tracked l c d hx
    exact ⟨o, hw' ▸ loadAll_mem ho, hk⟩
  · intro hc o ho
    rw [hw'] at ho
    cases q with
    | reconcilable n => exact absurd ⟨n, a, List.mem_append_right _ List.mem_cons_self⟩ hc
    | others rid => exact False.elim hp
    | staleSandboxes t =>
        rcases mem_loadAll ho with ho | ⟨r, hr, rfl, -⟩
        · refine (h.sweep hnew o ho).imp_right fun hsw => ⟨stale_append hsw.1, fun hn => ?_⟩
          exact hsw.2 (swept_before hn fun f hf => nomatch hf)
        · refine .inr ⟨⟨t, a, List.mem_append_right _ List.mem_cons_self, hanswer r hr⟩,
            fun hn => ?_⟩
          exact hp.2.2 _ (swept_before hn fun f hf => nomatch hf)
  · intro rid hw
    rcases waiting_of_append hw with hw | ⟨n, rows, he, r, hr, rfl⟩
    · exact absurd hw (hnone rid)
    · cases he
      have hm : r.runtimeId ∈ (Query.run (.reconcilable n) (w.view 0)).map (·.runtimeId) := by
        rw [← hkeys]
        exact List.mem_map.mpr ⟨r, hr, rfl⟩
      obtain ⟨x, hx, hk⟩ := List.mem_map.mp hm
      rw [hw', ← hk]
      exact loadAll_has hx _
  · intro rid hw
    rcases waiting_of_append hw with hw | ⟨n, rows, he, -⟩
    · exact absurd hw (hnone rid)
    · cases he
      exact h.chosen_judged hp hdb hw' rid

theorem Consistent.modify {rid : Uuid} {b : Bool} {f : AgentRuntime → AgentRuntime} {a : Unit}
    (h : Consistent w past) (hs : w.step rem 0 (.db (.modify rid b f)) a w')
    (hp : Permit past (.db (.modify rid b f))) :
    Consistent w' (past ++ [⟨.db (.modify rid b f), a⟩]) := by
  have hw' : w'.sessions 0 = (w.sessions 0).modify rid b f := by
    rw [show w' = _ from hs, setSession_self]
  have hdb : w'.db = w.db := by
    rw [show w' = _ from hs]
    rfl
  have hmem : ∀ o ∈ (w'.sessions 0).objs, (o ∈ (w.sessions 0).objs ∧ o.cur.runtimeId ≠ rid) ∨
      ∃ o' ∈ (w.sessions 0).objs, o'.cur.runtimeId = rid ∧
        o = ⟨o'.loaded, { f o'.cur with runtimeId := o'.cur.runtimeId }, o'.dirty || b⟩ := by
    intro o ho
    rw [hw'] at ho
    obtain ⟨o', ho', rfl⟩ := List.mem_map.mp ho
    by_cases hk : o'.cur.runtimeId = rid
    · rw [if_pos hk]
      exact .inr ⟨o', ho', hk, rfl⟩
    · rw [if_neg hk]
      exact .inl ⟨ho', hk⟩
  have hkeep : ∀ o ∈ (w.sessions 0).objs, ∃ o' ∈ (w'.sessions 0).objs,
      o'.cur.runtimeId = o.cur.runtimeId := by
    intro o ho
    rw [hw']
    refine ⟨_, List.mem_map_of_mem ho, ?_⟩
    split
    · rfl
    · rfl
  obtain ⟨horder, hdist, hins⟩ := h.frame hs hp
  refine ⟨horder, hdist, hins, hw' ▸ h.minor, ?_, ?_, ?_, ?_, ?_⟩
  · intro o ho
    rcases hmem o ho with ⟨ho, -⟩ | ⟨o', ho', -, rfl⟩
    · exact h.keys o ho
    · exact h.keys o' ho'
  · intro l c d hx
    rw [hw'] at hx
    obtain ⟨o, ho, hk⟩ := h.tracked l c d hx
    obtain ⟨o', ho', hk'⟩ := hkeep o ho
    exact ⟨o', ho', hk'.trans hk⟩
  · intro hc o ho
    have hc' : ¬ chosen past := fun hc' => hc (chosen_append hc')
    rcases hmem o ho with ⟨ho, hne⟩ | ⟨o', ho', hk, rfl⟩
    · refine (h.sweep hc' o ho).imp_right fun hsw => ⟨stale_append hsw.1, fun hn => ?_⟩
      exact hsw.2 (swept_before hn fun f' hf => hne (by cases hf; rfl))
    · rcases hp with hb | ⟨-, -, rfl, rfl⟩
      · exact absurd (h.order rid hb) hc'
      · exact .inl rfl
  · intro rid' hw
    obtain ⟨o, ho, hk⟩ := h.held rid' (waiting_before hw id)
    obtain ⟨o', ho', hk'⟩ := hkeep o ho
    exact ⟨o', ho', hk'.trans hk⟩
  · intro rid' hw
    have hw₀ := waiting_before hw id
    have hne : rid' ≠ rid := by
      rintro rfl
      rcases hp with hb | ⟨hc, -⟩
      · exact hw₀.2.1 hb
      · obtain ⟨n, rows, hm, -⟩ := hw₀.1
        exact hc ⟨n, rows, hm⟩
    have hsame : ∀ o ∈ (w'.sessions 0).objs, o.cur.runtimeId = rid' → o ∈ (w.sessions 0).objs := by
      intro o ho hk
      rcases hmem o ho with ⟨ho, -⟩ | ⟨o', ho', hk', rfl⟩
      · exact ho
      · exact absurd (hk.symm.trans hk') hne
    rcases h.judged rid' hw₀ with hx | ⟨r, ho, ha, hd⟩
    · exact .inl fun o ho hk => hx o (hsame o ho hk) hk
    · exact .inr ⟨r, fun o hm hk => ho o (hsame o hm hk) hk, hw' ▸ ha, hdb ▸ hd⟩

theorem minor_plain {x : Write} (h : Minor x) : Plain x := by
  cases x with
  | insertEvent ev => trivial
  | updateRuntime | updateJob | updateStep | insertRuntime | insertJob | insertStep
  | insertBridge =>
      exact False.elim h

theorem inserted_minor {ws : List Write} (t : Time) (h : ∀ x ∈ ws, Minor x) :
    Session.inserted (ws.map (stamped t)) = [] := by
  induction ws with
  | nil => rfl
  | cons x ws ih =>
      have ih' := ih fun y hy => h y (List.mem_cons_of_mem _ hy)
      cases x with
      | insertEvent ev => exact ih'
      | updateRuntime | updateJob | updateStep | insertRuntime | insertJob | insertStep
      | insertBridge =>
          exact False.elim (h _ List.mem_cons_self)

theorem pending_update {s : Session} {t : Time} {l c : AgentRuntime} {d : Bool}
    (hn : ∀ x ∈ s.new, Minor x)
    (h : .updateRuntime l c d ∈ s.pending t) : ∃ o ∈ s.objs, .updateRuntime l c d ∈ o.write := by
  simp only [Session.pending, List.mem_append] at h
  rcases h with (h | h) | h
  · exact List.mem_flatMap.mp h
  · obtain ⟨o, -, h⟩ := List.mem_flatMap.mp h
    unfold JobObj.write at h
    split at h
    · cases List.mem_singleton.mp h
    · cases h
  · obtain ⟨x, hx, he⟩ := List.mem_map.mp h
    have hm := hn x hx
    cases x with
    | insertEvent ev => cases he
    | updateRuntime | updateJob | updateStep | insertRuntime | insertJob | insertStep
    | insertBridge =>
        exact False.elim hm

theorem write_update {o : Obj} {l c : AgentRuntime} {d : Bool}
    (h : .updateRuntime l c d ∈ o.write) : l = o.loaded := by
  unfold Obj.write at h
  split at h
  · cases List.mem_singleton.mp h
    rfl
  · cases h

theorem Consistent.flush {a : Except PyExc Unit} (h : Consistent w past)
    (hs : w.step rem 0 (.db .flush) a w')
    (hp : Permit past (.db .flush)) : Consistent w' (past ++ [⟨.db .flush, a⟩]) := by
  obtain ⟨horder, hdist, hins⟩ := h.frame hs hp
  have hdb : w'.db = w.db := db_of_ne_commit hs (by intro he; cases he)
  cases a with
  | error x =>
      exact absurd hs.2.1 (not_duplicate (fun y hy => minor_plain (h.minor y hy)) w.clock w.db)
  | ok u =>
      have hw' : w'.sessions 0 = (w.sessions 0).flush w.clock := by rw [hs.2.2, setSession_self]
      have hobjs : (w'.sessions 0).objs = (w.sessions 0).objs.map
          (fun o => ⟨o.cur, o.cur, false⟩) := by
        rw [hw']
        simp only [Session.flush, inserted_minor w.clock h.minor, List.append_nil]
      have hmem : ∀ o ∈ (w'.sessions 0).objs, ∃ o' ∈ (w.sessions 0).objs,
          o = ⟨o'.cur, o'.cur, false⟩ := by
        intro o ho
        rw [hobjs] at ho
        obtain ⟨o', ho', rfl⟩ := List.mem_map.mp ho
        exact ⟨o', ho', rfl⟩
      have hkeep : ∀ o ∈ (w.sessions 0).objs, ∃ o' ∈ (w'.sessions 0).objs,
          o'.cur.runtimeId = o.cur.runtimeId := by
        intro o ho
        rw [hobjs]
        exact ⟨_, List.mem_map.mpr ⟨o, ho, rfl⟩, rfl⟩
      refine ⟨horder, hdist, hins, ?_, ?_, ?_, ?_, ?_, ?_⟩
      · rw [hw']
        exact fun x hx => absurd hx List.not_mem_nil
      · intro o ho
        obtain ⟨o', -, rfl⟩ := hmem o ho
        rfl
      · intro l c d hx
        rw [hw'] at hx
        rcases List.mem_append.mp hx with hx | hx
        · obtain ⟨o, ho, hk⟩ := h.tracked l c d hx
          obtain ⟨o', ho', hk'⟩ := hkeep o ho
          exact ⟨o', ho', hk'.trans hk⟩
        · obtain ⟨o, ho, hu⟩ := pending_update h.minor hx
          obtain ⟨o', ho', hk'⟩ := hkeep o ho
          exact ⟨o', ho', by rw [hk', write_update hu, h.keys o ho]⟩
      · intro hc o ho
        obtain ⟨o', ho', rfl⟩ := hmem o ho
        refine (h.sweep (fun hc' => hc (chosen_append hc')) o' ho').imp_right fun hsw =>
          ⟨stale_append hsw.1, fun hn => hsw.2 (swept_before hn (by intro f hf; cases hf))⟩
      · intro rid hw
        obtain ⟨o, ho, hk⟩ := h.held rid (waiting_before hw id)
        obtain ⟨o', ho', hk'⟩ := hkeep o ho
        exact ⟨o', ho', hk'.trans hk⟩
      · intro rid hw
        rcases h.judged rid (waiting_before hw id) with hx | ⟨r, ho, ha, hd⟩
        · refine .inl fun o hm hk => ?_
          obtain ⟨o', ho', rfl⟩ := hmem o hm
          exact hx o' ho' hk
        · refine .inr ⟨r, fun o hm hk => ?_, fun x hx => ?_, hdb ▸ hd⟩
          · obtain ⟨o', ho', rfl⟩ := hmem o hm
            rw [ho o' ho' hk]
          · rw [hw'] at hx
            rcases List.mem_append.mp hx with hx | hx
            · exact ha x hx
            · cases x with
              | updateRuntime l c d =>
                  intro hl
                  obtain ⟨o, hm, hu⟩ := pending_update h.minor hx
                  have hk : o.cur.runtimeId = rid := by rw [← h.keys o hm, ← write_update hu, hl]
                  rw [ho o hm hk, Obj.write_self] at hu
                  cases hu
              | insertRuntime r => exact False.elim (noInsert_pending (h.inserts 0).1 w.clock _ hx)
              | updateJob | updateStep | insertJob | insertStep | insertEvent | insertBridge =>
                  trivial

theorem Consistent.commit {a : Unit} (h : Consistent w past) (hs : w.step rem 0 (.db .commit) a w')
    (hp : Permit past (.db .commit)) : Consistent w' (past ++ [⟨.db .commit, a⟩]) := by
  obtain ⟨horder, hdist, hins⟩ := h.frame hs hp
  obtain ⟨hw', t, hdb⟩ := step_commit hs
  refine ⟨horder, hdist, hins, hw' ▸ h.minor, hw' ▸ h.keys, ?_, ?_, ?_, ?_⟩
  · rw [hw']
    exact fun _ _ _ hx => absurd hx List.not_mem_nil
  · intro hc o ho
    rw [hw'] at ho
    exact (h.sweep (fun hc' => hc (chosen_append hc')) o ho).imp_right fun hsw =>
      ⟨stale_append hsw.1, fun hn => hsw.2 (swept_before hn fun f hf => nomatch hf)⟩
  · intro rid hw
    rw [hw']
    exact h.held rid (waiting_before hw id)
  · intro rid hw
    rcases h.judged rid (waiting_before hw id) with hx | ⟨r, ho, ha, hd⟩
    · exact .inl (by unfold Expired; rw [hw']; exact hx)
    · refine .inr ⟨r, hw' ▸ ho, ?_, fun r' hr' => hd r' ?_⟩
      · rw [hw']
        exact fun _ hx => absurd hx List.not_mem_nil
      · rw [hdb, applyAll_row, foldl_aside ha] at hr'
        exact hr'

theorem Consistent.close {a : Unit} (h : Consistent w past) (hs : w.step rem 0 (.db .close) a w')
    (hp : Permit past (.db .close)) : Consistent w' (past ++ [⟨.db .close, a⟩]) := by
  obtain ⟨horder, hdist, hins⟩ := h.frame hs hp
  have hw' : w'.sessions 0 = {} := by rw [show w' = _ from hs, setSession_self]
  have hdone : ∀ rid, ¬ waiting (past ++ [⟨.db .close, a⟩]) rid := fun rid hw =>
    hw.2.2 ⟨a, List.mem_append_right _ List.mem_cons_self⟩
  refine ⟨horder, hdist, hins, ?_, ?_, ?_, ?_, fun rid hw => absurd hw (hdone rid),
    fun rid hw => absurd hw (hdone rid)⟩
  all_goals rw [hw']
  · exact fun _ hx => absurd hx List.not_mem_nil
  · exact fun _ hx => absurd hx List.not_mem_nil
  · exact fun _ _ _ hx => absurd hx List.not_mem_nil
  · exact fun _ _ hx => absurd hx List.not_mem_nil

theorem Consistent.answer {a : Option AgentRuntime} (h : Consistent w past)
    (hs : w.step rem 0 (.db (.getRuntime rid)) a w') (hw : waiting past rid) :
    w' = w ∧ ∃ r, a = some r ∧ r.runtimeId = rid ∧ (r.desiredState = .desiredDestroyed ∨
      ∀ r', w.db.runtime? rid = some r' → (r'.desiredState = .desiredRunning ↔ r.desiredState = .desiredRunning)) := by
  obtain ⟨o₀, hm₀, hk₀⟩ := h.held rid hw
  cases ho : (w.sessions 0).obj? rid with
  | none => exact absurd (by simpa using hk₀) (List.find?_eq_none.mp ho o₀ hm₀)
  | some o =>
      simp only [World.step, World.dbStep, ho] at hs
      have hm := List.mem_of_find?_eq_some ho
      have hk : o.cur.runtimeId = rid := by simpa using List.find?_some ho
      refine ⟨hs.2, o.cur, hs.1, hk, ?_⟩
      rcases h.judged rid hw with hx | ⟨r, hobj, -, hd⟩
      · exact .inl (hx o hm hk)
      · rw [hobj o hm hk]
        exact .inr hd

theorem Consistent.own {e : Eff} {a : Ans e} (h : Consistent w past) (hs : w.step rem 0 e a w')
    (hp : Permit past e) : Fact e a ∧ Consistent w' (past ++ [⟨e, a⟩]) := by
  have hremote : (∀ c, e ≠ .db c) → Consistent w' (past ++ [⟨e, a⟩]) := by
    intro he
    obtain ⟨hdb, hse⟩ := step_remote hs he
    refine h.still hs hp ⟨fun hx => ?_, fun hx => ?_⟩ hdb (by rw [hse]) (by rw [hse])
      (by rw [hse]; exact h.minor)
    · unfold selects at hx
      split at hx
      · exact he _ rfl
      · exact hx
    · unfold modifies at hx
      split at hx
      · exact he _ rfl
      · exact hx
  cases e with
  | pve c => exact ⟨trivial, hremote fun _ he => nomatch he⟩
  | kea c => exact ⟨trivial, hremote fun _ he => nomatch he⟩
  | sys c => exact ⟨trivial, hremote fun _ he => nomatch he⟩
  | db c =>
      cases c with
      | getRuntime rid =>
          obtain ⟨hw, r, rfl, hk, -⟩ := h.answer hs hp
          refine ⟨fun x hx => ?_, h.still hs hp ⟨id, id⟩ (by rw [hw]) (by rw [hw]) (by rw [hw])
            (by rw [hw]; exact h.minor)⟩
          cases hx
          exact hk
      | selectRuntimes q => exact h.select hs hp
      | modify rid b f => exact ⟨trivial, h.modify hs hp⟩
      | addEvent ev =>
          have hw' : w'.sessions 0 = { w.sessions 0 with new := (w.sessions 0).new ++ [.insertEvent
              ev] } := by
            rw [show w' = _ from hs, setSession_self]
          refine ⟨trivial, h.still hs hp ⟨id, id⟩ (db_of_ne_commit hs fun he => nomatch he)
            (by rw [hw']) (by rw [hw'])
            fun x hx => ?_⟩
          rw [hw'] at hx
          rcases List.mem_append.mp hx with hx | hx
          · exact h.minor x hx
          · rw [List.mem_singleton.mp hx]
            trivial
      | flush => exact ⟨trivial, h.flush hs hp⟩
      | commit => exact ⟨trivial, h.commit hs hp⟩
      | close => exact ⟨trivial, h.close hs hp⟩
      | getJob | findJob | placedNodes | findStep | modifyJob | setStep | addRuntime | addJob
      | addStep | addBridge =>
          exact False.elim hp

abbrev Parties (R : Type) := Conf (World R) Eff Ans PyExc Unit

/-- A desired-state request does not commit a change from or to DESIRED_RUNNING
for a runtime that the round has selected and not yet begun with. -/
def Kept (c : Parties R) (i : Nat) (ev : Event Eff Ans) : Prop :=
  i ≠ 0 → Sides c.world (c.procs 0).trace i ev.1

def promise (g : Bool × PyTrace) (e : Eff) : Prop := if g.1 then Permit g.2 e else ¬ insertsRow e

def noted (g : Bool × PyTrace) (e : Eff) (a : Ans e) (g' : Bool × PyTrace) : Prop :=
  g'.1 = g.1 ∧ g'.2 = g.2 ++ [⟨e, a⟩] ∧ (g.1 = true → Fact e a)

def roles (rem : Remote R) : Protocol (ε := PyExc) (α := Unit) (fun i => World.step rem i) Kept
    (Bool × PyTrace) where
  inv c g := (∀ i, g i = (decide (i = 0), (c.procs i).trace)) ∧ Consistent c.world (c.procs 0).trace
  view := noted
  G := promise
  keeps := by
    intro c d g i e a hi hG hP hs
    obtain ⟨hg, hc⟩ := hi
    cases hs with
    | @call _ k _ w hp hw =>
        refine ⟨(decide (i = 0), (c.procs i).trace ++ [⟨e, a⟩]), ?_, ?_, ?_⟩
        · rw [hg i]
          refine ⟨rfl, rfl, fun h0 => ?_⟩
          have hi0 : i = 0 := by simpa using h0
          subst hi0
          rw [hg 0] at hG
          exact (hc.own hw hG).1
        · intro j
          by_cases hj : j = i
          · subst hj
            simp only [Function.update_self]
          · simp only [Function.update_of_ne hj]
            exact hg j
        · by_cases h0 : i = 0
          · subst h0
            rw [hg 0] at hG
            simp only [Function.update_self]
            exact (hc.own hw hG).2
          · rw [hg i] at hG
            simp only [promise, h0, decide_false, Bool.false_eq_true, if_false] at hG
            simp only [Function.update_of_ne (Ne.symm h0)]
            exact consistent_other hc h0 hw hG (hP h0)

theorem round_sat (cfg : Settings) (rs : ReconcileSettings) :
    Sat noted promise (fun _ _ => True) (fun _ _ => True) ((Request.reconcileEvery rs).prog cfg)
      (true, []) := by
  have hlift : ∀ {α : Type} (p : Py α) (past : PyTrace),
      Sat learn Permit (fun _ _ => True) (fun _ _ => True) p past →
        Sat noted promise (fun _ _ => True) (fun _ _ => True) p (true, past) := by
    intro α p
    induction p with
    | ret a => exact fun _ _ => trivial
    | raise x => exact fun _ _ => trivial
    | call e k ih =>
        intro past h
        refine ⟨h.1, fun a g' hn => ?_⟩
        obtain ⟨b, past'⟩ := g'
        obtain ⟨rfl, rfl, hf⟩ := hn
        exact ih a _ (h.2 a _ ⟨rfl, hf rfl⟩)
  exact hlift _ _ (Sat.seq (reconcileEvery_sat cfg rs) fun _ _ _ => trivial)

theorem request_only (rid : Uuid) (desired reason actor : String) :
    Only (fun e => ¬ insertsRow e) (setDesiredState rid desired reason actor) := by
  have hmod : ∀ f, Only (fun e => ¬ insertsRow e) (modify rid f) :=
    fun f => only_call id fun _ => only_ret _
  refine only_withSession id (Only.bind (only_call id fun _ => only_ret _) fun found => ?_)
  split
  · exact only_raised _ _
  · split
    · exact only_raised _ _
    · refine Only.bind (hmod _) fun _ => Only.bind (only_call id fun _ => only_ret _) fun _ => ?_
      exact only_commit id id

theorem request_sat (rid : Uuid) (desired reason actor : String) (past : PyTrace) :
    Sat noted promise (fun _ _ => True) (fun _ _ => True) (setDesiredState rid desired reason actor)
      (false, past) := by
  have h := (request_only rid desired reason actor).keeps (T := noted) (I := fun g => g.1 = false)
    (s := (false, past)) (fun g e a g' _ hi hn => hn.1.trans hi) rfl
  refine (h.weaken fun g e he => ?_).mono (fun _ _ _ => trivial) fun _ _ _ => trivial
  simp only [promise, he.2, Bool.false_eq_true, if_false]
  exact he.1

/-- A round of the reconciler beside desired-state requests, at the beginning. -/
structure Beginning (cfg : Settings) (rs : ReconcileSettings) (w : World R)
    (progs : Nat → Py Unit) : Prop where
  round : progs 0 = (Request.reconcileEvery rs).prog cfg
  requests : ∀ i, i ≠ 0 → ∃ rid desired reason actor,
    progs i = (Request.desiredState rid desired reason actor).prog cfg
  distinct : Distinct w.db
  sessions : ∀ j, w.sessions j = {}

theorem verified_start {cfg : Settings} {rs : ReconcileSettings} {progs : Nat → Py Unit}
    (h : Beginning cfg rs w progs) :
    (roles rem).Verified (Interleaving.start w progs) (fun i => (decide (i = 0), [])) := by
  refine ⟨⟨fun _ => rfl, ?_⟩, fun i => ?_⟩
  · have hnil : ∀ x : Event Eff Ans, x ∉ ((Interleaving.start w progs).procs 0).trace :=
      fun x => List.not_mem_nil
    have h0 : (Interleaving.start w progs).world.sessions 0 = {} := h.sessions 0
    refine ⟨fun _ ⟨_, hx⟩ => absurd hx (hnil _), h.distinct, fun j => ?_, ?_, ?_, ?_, ?_,
      fun _ ⟨⟨_, _, hx, _⟩, _⟩ => absurd hx (hnil _), fun _ ⟨⟨_, _, hx, _⟩, _⟩ => absurd hx (hnil _)⟩
    · rw [show (Interleaving.start w progs).world.sessions j = {} from h.sessions j]
      exact ⟨fun _ hx => absurd hx List.not_mem_nil, fun _ hx => absurd hx List.not_mem_nil⟩
    all_goals rw [h0]
    · exact fun _ hx => absurd hx List.not_mem_nil
    · exact fun _ hx => absurd hx List.not_mem_nil
    · exact fun _ _ _ hx => absurd hx List.not_mem_nil
    · exact fun _ _ hx => absurd hx List.not_mem_nil
  · by_cases hi : i = 0
    · subst hi
      have hp : ((Interleaving.start w progs).procs 0).prog = _ := h.round
      rw [hp]
      exact round_sat cfg rs
    · obtain ⟨rid, desired, reason, actor, hp⟩ := h.requests i hi
      have hp' : ((Interleaving.start w progs).procs i).prog = _ := hp
      rw [hp']
      simp only [hi, decide_false]
      exact request_sat rid desired reason actor []

/-- Steps in which the round begins no further `reconcile_runtime` call. -/
def Within (c : Parties R) (i : Nat) (ev : Event Eff Ans) : Prop :=
  Kept c i ev ∧ (i = 0 → ¬ loadsRow ev.1)

theorem trace_within {d e : Parties R} (h : Reach (fun i => World.step rem i) Within d e) :
    ∃ ext, (e.procs 0).trace = (d.procs 0).trace ++ ext ∧ ∀ ev ∈ ext, ¬ loadsRow ev.1 := by
  induction h with
  | refl => exact ⟨[], by simp, fun _ h => absurd h List.not_mem_nil⟩
  | @tail c e i ev _ hp hs ih =>
      obtain ⟨ext, he, hext⟩ := ih
      cases hs with
      | @call f k a w hc hw =>
          by_cases hi : i = 0
          · subst hi
            refine ⟨ext ++ [⟨f, a⟩], ?_, fun x hx => ?_⟩
            · simp only [Function.update_self, he, List.append_assoc]
            · rcases List.mem_append.mp hx with hx | hx
              · exact hext x hx
              · rw [List.mem_singleton.mp hx]
                exact hp.2 rfl
          · exact ⟨ext, by simpa only [Function.update_of_ne (Ne.symm hi)] using he, hext⟩

theorem loaded_last {before ext : PyTrace} {a : Option AgentRuntime}
    (h : Loaded r (before ++ [⟨.db (.getRuntime rid), a⟩] ++ ext))
    (he : ∀ ev ∈ ext, ¬ loadsRow ev.1) : a = some r := by
  obtain ⟨rid', before', after', heq, ha⟩ := h
  rw [List.append_assoc] at heq
  rcases List.append_eq_append_iff.mp heq with ⟨mid, -, hm⟩ | ⟨mid, -, hm⟩
  · cases mid with
    | nil =>
        cases hm
        rfl
    | cons x mid =>
        obtain ⟨-, hext⟩ := List.cons.inj hm
        refine absurd trivial (he ⟨.db (.getRuntime rid'), some r⟩ ?_)
        have hext' : ext = mid ++ ⟨.db (.getRuntime rid'), some r⟩ :: after' := hext
        rw [hext']
        exact List.mem_append_right _ List.mem_cons_self
  · cases mid with
    | nil =>
        cases hm
        rfl
    | cons x mid =>
        obtain ⟨-, haft⟩ := List.cons.inj hm
        refine absurd trivial (ha ⟨.db (.getRuntime rid), a⟩ ?_)
        rw [haft]
        exact List.mem_append_right _ List.mem_cons_self

def shutsDown : Eff → Prop
  | .pve (.shutdown ..) | .pve (.stop ..) => True
  | _ => False

/-- In a run in which no request changes a waiting runtime from or to
DESIRED_RUNNING, a `reconcile_runtime` call of the round sends a start only if
DESIRED_RUNNING was committed when it began, and a shutdown only if it was not. -/
theorem desired_state_honoured {cfg : Settings} {rs : ReconcileSettings} {progs : Nat → Py Unit}
    {c d e e' : Parties R} {a : Option AgentRuntime} (h : Beginning cfg rs w progs)
    (hr : Reach (fun i => World.step rem i) Kept (Interleaving.start w progs) c)
    (hb : Step (fun i => World.step rem i) c 0 ⟨.db (.getRuntime rid), a⟩ d)
    (hw : Reach (fun i => World.step rem i) Within d e)
    (hs : Step (fun i => World.step rem i) e 0 ev e') :
    ∀ r, c.world.db.runtime? rid = some r →
      (∀ n v, ev.1 = .pve (.start n v) → r.desiredState = .desiredRunning) ∧
        (shutsDown ev.1 → r.desiredState ≠ .desiredRunning) := by
  intro r hrow
  obtain ⟨g, hg⟩ := (roles rem).reach (verified_start h) hr
  obtain ⟨g', hg'⟩ := (roles rem).reach hg
    ((Reach.tail .refl (fun h0 => absurd rfl h0) hb).trans (hw.mono fun _ _ _ hx => hx.1))
  obtain ⟨ext, htr, hext⟩ := trace_within hw
  -- the permit of the call that began is about the committed row
  have hbegan : ∃ r₀, a = some r₀ ∧ (r₀.desiredState = .desiredDestroyed ∨
      (r.desiredState = .desiredRunning ↔ r₀.desiredState = .desiredRunning)) ∧
      (d.procs 0).trace = (c.procs 0).trace ++ [⟨.db (.getRuntime rid), a⟩] := by
    cases hb with
    | @call _ k _ w' hp hst =>
        have hsat := hg.2 0
        rw [hp, hg.1.1 0] at hsat
        obtain ⟨-, r₀, rfl, -, hd⟩ := hg.1.2.answer hst hsat.1
        exact ⟨r₀, rfl, hd.imp_right fun hd => hd r hrow, by simp only [Function.update_self]⟩
  obtain ⟨r₀, rfl, hd, hdt⟩ := hbegan
  have hperm : Permit (e.procs 0).trace ev.1 := by
    cases hs with
    | @call f k x w' hp hst =>
        have hsat := hg'.2 0
        rw [hp, hg'.1.1 0] at hsat
        exact hsat.1
  rw [htr, hdt] at hperm
  have hlast : ∀ {r₁ : AgentRuntime}, Loaded r₁
      ((c.procs 0).trace ++ [⟨.db (.getRuntime rid), some r₀⟩] ++ ext) →
      r₁ = r₀ := fun hl => (Option.some.inj (loaded_last hl hext)).symm
  refine ⟨fun n v he => ?_, fun he => ?_⟩
  · rw [he] at hperm
    obtain ⟨r₁, hl, hrun⟩ := hperm
    rw [hlast hl] at hrun
    rcases hd with hd | hd
    · rw [hrun] at hd
      cases hd
    · exact hd.mpr hrun
  · have hstop : ∃ r₁, Loaded r₁ ((c.procs 0).trace ++ [⟨.db (.getRuntime rid), some r₀⟩] ++ ext) ∧
        r₁.desiredState = .desiredStopped := by
      unfold shutsDown at he
      split at he
      next n v t hev =>
          rw [hev] at hperm
          exact hperm
      next n v hev =>
          rw [hev] at hperm
          exact hperm
      · exact False.elim he
    obtain ⟨r₁, hl, hrun⟩ := hstop
    rw [hlast hl] at hrun
    intro hr
    rcases hd with hd | hd
    · rw [hrun] at hd
      cases hd
    · rw [hd.mp hr] at hrun
      cases hrun

def roundAndStop (i : Nat) : Py Unit :=
  if i = 0 then (Request.reconcileEvery {}).prog {}
  else (Request.desiredState workerId "DESIRED_STOPPED" "" "acms").prog {}

def workerDb : Db := { runtimes := [⟨worker, 0⟩] }

abbrev Played := Board (Machine Unit) Eff Ans PyExc Unit

def opening : Played :=
  ⟨⟨workerDb, [{}, {}], 0, [], ()⟩, [⟨roundAndStop 0, []⟩, ⟨roundAndStop 1, []⟩]⟩

def answers (i : Nat) (m : Machine Unit) (e : Eff) : Option (Ans e × Machine Unit) :=
  Machine.answer starting i m e

def shown (b : Played) : Parties Unit := b.conf (Machine.world (fun _ => ())) ⟨roundAndStop 1, []⟩

theorem shown_opening : shown opening = Interleaving.start
    ((opening.state).world (fun _ => ())) roundAndStop := by
  refine congrArg (Conf.mk _) (funext fun i => ?_)
  match i with
  | 0 => rfl
  | 1 => rfl
  | i + 2 => rfl

theorem answers_step (i : Nat) (m : Machine Unit) (e : Eff) (a : Ans e) (m' : Machine Unit)
    (h : answers i m e = some (a, m')) : World.step Remote.any i (m.world (fun _ => ())) e a
    (m'.world (fun _ => ())) :=
  Machine.answer_step (starting.follows_any) i m e a m' h

theorem beginning_roundAndStop :
    Beginning {} {} ((opening.state).world (fun _ => ()) : World Unit) roundAndStop where
  round := rfl
  requests i hi := ⟨workerId, "DESIRED_STOPPED", "", "acms", if_neg hi⟩
  distinct := by
    change [workerId].Nodup
    exact List.nodup_cons.mpr ⟨List.not_mem_nil, List.nodup_nil⟩
  sessions j := by
    match j with
    | 0 => rfl
    | 1 => rfl
    | j + 2 => rfl

def readsWorker : Eff → Bool
  | .db (.getRuntime rid) => rid = workerId
  | _ => false

def startsVm : Eff → Bool
  | .pve (.start ..) => true
  | _ => false

def noRead : Eff → Bool
  | .db (.getRuntime _) => false
  | _ => true

/-- The request commits when the round has selected the worker. -/
def committed : Played := opening.play answers [0, 0, 0, 0, 0, 1, 1, 1, 1, 1]

def judging (b : Played) : Played := b.play answers [0]

def verified (b : Played) : Played := (judging b).play answers [0, 0, 0, 0]

/-- From here the round begins with the worker and starts it. -/
def startsFrom (b : Played) : Bool :=
  b.offers answers 0 readsWorker && (judging b).follows answers (fun i e => i == 0 && noRead e)
    [0, 0, 0, 0] &&
    (verified b).offers answers 0 startsVm

theorem readsWorker_eq {e : Eff} (h : readsWorker e = true) : e = .db (.getRuntime workerId) := by
  unfold readsWorker at h
  split at h
  · rw [of_decide_eq_true h]
  · cases h

theorem startsVm_eq {e : Eff} (h : startsVm e = true) : ∃ n v, e = .pve (.start n v) := by
  unfold startsVm at h
  split at h
  · exact ⟨_, _, rfl⟩
  · cases h

theorem noRead_within {i : Nat} {e : Eff} (h : (i == 0 && noRead e) = true) : i = 0 ∧
    ¬ loadsRow e := by
  obtain ⟨hi, hn⟩ := Bool.and_eq_true_iff.mp h
  refine ⟨by simpa using hi, fun hl => ?_⟩
  unfold loadsRow at hl
  split at hl
  · cases hn
  · exact hl

theorem startsFrom_steps {b : Played} (h : startsFrom b = true) :
    ∃ a d e n v x e', Step (fun i => World.step Remote.any i) (shown b) 0
      ⟨.db (.getRuntime workerId), a⟩ d ∧
      Reach (fun i => World.step Remote.any i) Within d e ∧
      Step (fun i => World.step Remote.any i) e 0 ⟨.pve (.start n v), x⟩ e' := by
  obtain ⟨hab, hs⟩ := Bool.and_eq_true_iff.mp h
  obtain ⟨hg, hf⟩ := Bool.and_eq_true_iff.mp hab
  obtain ⟨e₁, a, hk, hstep⟩ := Board.offers_step ⟨roundAndStop 1, []⟩ answers_step hg
  cases readsWorker_eq hk
  have hw : Reach (fun i => World.step Remote.any i) Within (shown (judging b))
      (shown (verified b)) := by
    refine Board.follows_reach ⟨roundAndStop 1, []⟩ answers_step (fun c i ev hk => ?_) hf
    obtain ⟨rfl, hl⟩ := noRead_within hk
    exact ⟨fun h0 => absurd rfl h0, fun _ => hl⟩
  obtain ⟨e₂, x, hk₂, hstep₂⟩ := Board.offers_step ⟨roundAndStop 1, []⟩ answers_step hs
  obtain ⟨n, v, rfl⟩ := startsVm_eq hk₂
  exact ⟨a, _, _, n, v, x, _, hstep, hw, hstep₂⟩

theorem committed_starts :
    (opening.follows answers (fun _ _ => true) [0, 0, 0, 0, 0, 1, 1, 1, 1, 1] &&
    startsFrom committed &&
      ((committed.state.db.runtime? workerId).map AgentRuntime.desiredState == some .desiredStopped)) = true := by
  decide +kernel

/-- The round starts a worker for which DESIRED_STOPPED is committed: it judges
the row by the object it has loaded with its selection. -/
theorem stale_desired_state :
    ¬ ∀ (cfg : Settings) (rs : ReconcileSettings) (w : World Unit) (progs : Nat → Py Unit) (rid :
      Uuid)
        (c d e e' : Parties Unit) (a : Option AgentRuntime) (n : String) (v : Int)
          (x : Except PyExc Json)
        (r : AgentRuntime),
      Beginning cfg rs w progs →
      Reach (fun i => World.step Remote.any i) (fun _ _ _ => True) (Interleaving.start w progs) c →
      Step (fun i => World.step Remote.any i) c 0 ⟨.db (.getRuntime rid), a⟩ d →
      Reach (fun i => World.step Remote.any i) (fun _ i ev => i = 0 → ¬ loadsRow ev.1) d e →
      Step (fun i => World.step Remote.any i) e 0 ⟨.pve (.start n v), x⟩ e' →
      c.world.db.runtime? rid = some r → r.desiredState = .desiredRunning := by
  intro h
  obtain ⟨hab, hd⟩ := Bool.and_eq_true_iff.mp committed_starts
  obtain ⟨hf, hs⟩ := Bool.and_eq_true_iff.mp hab
  obtain ⟨r, hr, hst⟩ := Option.map_eq_some_iff.mp (beq_iff_eq.mp hd)
  obtain ⟨a, d, e, n, v, x, e', h₁, h₂, h₃⟩ := startsFrom_steps hs
  have hreach : Reach (fun i => World.step Remote.any i) (fun _ _ _ => True)
      (Interleaving.start ((opening.state).world (fun _ => ())) roundAndStop)
        (shown committed) := by
    rw [← shown_opening]
    exact Board.follows_reach ⟨roundAndStop 1, []⟩ answers_step (fun _ _ _ _ => trivial) hf
  have hrun := h {} {} _ roundAndStop workerId _ d e e' a n v x r beginning_roundAndStop hreach h₁
    (h₂.mono fun _ _ _ hx => hx.2) h₃ hr
  rw [hst] at hrun
  cases hrun

def undisturbed : Played := opening.play answers [0, 0, 0, 0, 0]

theorem undisturbed_starts :
    (opening.follows answers (fun i _ => i == 0) [0, 0, 0, 0, 0] && startsFrom undisturbed &&
      (undisturbed.state.db.runtime? workerId).isSome) = true := by
  decide +kernel

theorem undisturbed_honoured :
    ∃ c r, Reach (fun i => World.step Remote.any i) Kept
        (Interleaving.start ((opening.state).world (fun _ => ()) : World Unit) roundAndStop) c ∧
      c.world.db.runtime? workerId = some r ∧ r.desiredState = .desiredRunning := by
  obtain ⟨hab, hd⟩ := Bool.and_eq_true_iff.mp undisturbed_starts
  obtain ⟨hf, hs⟩ := Bool.and_eq_true_iff.mp hab
  obtain ⟨r, hr⟩ := Option.isSome_iff_exists.mp hd
  obtain ⟨a, d, e, n, v, x, e', h₁, h₂, h₃⟩ := startsFrom_steps hs
  have hreach : Reach (fun i => World.step Remote.any i) Kept
      (Interleaving.start ((opening.state).world (fun _ => ()) : World Unit) roundAndStop)
        (shown undisturbed) := by
    rw [← shown_opening]
    refine Board.follows_reach ⟨roundAndStop 1, []⟩ answers_step (fun c i ev hk => ?_) hf
    exact fun h0 => absurd (by simpa using hk) h0
  exact ⟨_, r, hreach, hr, (desired_state_honoured beginning_roundAndStop hreach h₁ h₂ h₃ r hr).1 n
    v rfl⟩

end ServerManager.StaleDesiredState
