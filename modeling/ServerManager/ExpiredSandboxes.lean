import ServerManager.StaleDesiredState
import ServerManager.DestroyIntent

namespace ServerManager.ExpiredSandboxes

open Interaction PyJson Orm Effects Config Reconciliation Api Storage Calls Sessions Frames
  PassCalls OwnershipGate
open Versions (mem_modify)
open DestroyIntent (resting Settles startsVm startsVm_eq lastRead loaded_of_lastRead)
open ProxmoxVm (isoformat)
open StaleDesiredState (Minor minor_plain inserted_minor pending_update write_update distinct_step)

variable {R : Type} {rem : Remote R} {i : Nat} {w w' : World R} {e : Eff} {a : Ans e} {rid : Uuid}

/-- A session whose process adds events and changes rows only. -/
structure Tidy (w : World R) (i : Nat) : Prop where
  distinct : Distinct w.db
  inserts : SessionNoInsert (w.sessions i)
  minor : ∀ x ∈ (w.sessions i).new, Minor x
  keys : ∀ o ∈ (w.sessions i).objs, o.loaded.runtimeId = o.cur.runtimeId

def Has (rid : Uuid) (w : World R) (i : Nat) : Prop :=
  ∃ o ∈ (w.sessions i).objs, o.cur.runtimeId = rid

/-- Whatever the session reads of the row, it is not to run. -/
structure Calm (rid : Uuid) (w : World R) (i : Nat) : Prop extends Tidy w i where
  objs : ∀ o ∈ (w.sessions i).objs, o.cur.runtimeId = rid → resting o.cur
  row : Has rid w i ∨ ∀ r, (w.view i).runtime? rid = some r → resting r

structure InRound (e : Eff) : Prop where
  adds : ∀ x, Frames.adds e = some x → Minor x
  settles : ∀ k b f, e = .db (.modify k b f) → Settles f
  opened : e ≠ .db .close

theorem InRound.noInsert (h : InRound e) : ¬ insertsRow e := by
  intro hi
  unfold insertsRow at hi
  split at hi
  · exact h.adds _ rfl
  · exact hi

theorem Tidy.step (h : Tidy w i) (he : InRound e) (hs : w.step rem i e a w') : Tidy w' i := by
  refine ⟨distinct_step hs h.inserts h.distinct, step_noInsert hs he.noInsert h.inserts,
    step_new hs he.adds h.minor, ?_⟩
  have ht := step_turn hs
  generalize w'.sessions i = s' at ht
  cases ht with
  | keep | jobs | add | commit => exact h.keys
  | load =>
      intro o ho
      rcases mem_load ho with ho | ⟨rfl, -⟩
      · exact h.keys o ho
      · rfl
  | loadAll q =>
      intro o ho
      rcases mem_loadAll ho with ho | ⟨r, -, rfl, -⟩
      · exact h.keys o ho
      · rfl
  | modify k b f =>
      intro o ho
      rcases mem_modify ho with ⟨ho, -⟩ | ⟨o', ho', -, rfl⟩
      · exact h.keys o ho
      · exact h.keys o' ho'
  | flush =>
      intro o ho
      simp only [Session.flush, inserted_minor _ h.minor, List.append_nil] at ho
      obtain ⟨o', -, rfl⟩ := List.mem_map.mp ho
      rfl
  | rollback | close => exact fun _ ho => absurd ho List.not_mem_nil

theorem Has.step (h : Has rid w i) (ht : Tidy w i) (he : InRound e) (hs : w.step rem i e a w') :
    Has rid w' i := by
  obtain ⟨o, ho, hk⟩ := h
  have hturn := step_turn hs
  unfold Has
  generalize w'.sessions i = s' at hturn
  cases hturn with
  | keep | jobs | add | commit => exact ⟨o, ho, hk⟩
  | load => exact ⟨o, load_mem ho, hk⟩
  | loadAll q => exact ⟨o, loadAll_mem ho, hk⟩
  | modify k b f =>
      refine ⟨_, List.mem_map_of_mem ho, ?_⟩
      split
      · exact hk
      · exact hk
  | flush => exact ⟨⟨o.cur, o.cur, false⟩, List.mem_append_left _ (List.mem_map_of_mem ho), hk⟩
  | rollback hd => exact absurd hd (not_duplicate (fun x hx => minor_plain (ht.minor x hx)) _ _)
  | close => exact absurd rfl he.opened

theorem Tidy.view_distinct (h : Tidy w i) : Distinct (w.view i) := by
  unfold Distinct World.view
  rw [applyAll_keys h.inserts.2]
  exact h.distinct

theorem Calm.unheld (h : Calm rid w i) (hn : ∀ o ∈ (w.sessions i).objs, o.cur.runtimeId ≠ rid)
    {r : AgentRuntime}
    (hr : (w.view i).runtime? rid = some r) : resting r := by
  rcases h.row with ⟨o, ho, hk⟩ | h
  · exact absurd hk (hn o ho)
  · exact h r hr

theorem Calm.objs_step (h : Calm rid w i) (he : InRound e) (hs : w.step rem i e a w') :
    ∀ o ∈ (w'.sessions i).objs, o.cur.runtimeId = rid → resting o.cur := by
  have ht := step_turn hs
  generalize w'.sessions i = s' at ht
  cases ht with
  | keep | jobs | add | commit => exact h.objs
  | @load k r hr hobj =>
      intro o ho hk
      rcases mem_load ho with ho | ⟨rfl, hn⟩
      · exact h.objs o ho hk
      · have hkey : k = rid := (runtime?_key hr).symm.trans hk
        exact h.unheld (fun o ho he => hn o ho (he.trans hk.symm)) (hkey ▸ hr)
  | loadAll q =>
      intro o ho hk
      rcases mem_loadAll ho with ho | ⟨r, hr, rfl, hn⟩
      · exact h.objs o ho hk
      · obtain ⟨x, hx, rfl⟩ := query_mem hr
        have hrow := runtime?_of_mem h.toTidy.view_distinct hx
        exact h.unheld (fun o ho he => hn o ho (he.trans hk.symm)) (hk ▸ hrow)
  | modify k b f =>
      intro o ho hk
      rcases mem_modify ho with ⟨ho, -⟩ | ⟨o', ho', hk', rfl⟩
      · exact h.objs o ho hk
      · rcases he.settles k b f rfl o'.cur with hf | hf
        · intro hrun
          exact h.objs o' ho' hk (hf.symm.trans hrun)
        · exact hf
  | flush =>
      intro o ho hk
      simp only [Session.flush, inserted_minor _ h.minor, List.append_nil] at ho
      obtain ⟨o', ho', rfl⟩ := List.mem_map.mp ho
      exact h.objs o' ho' hk
  | rollback | close => exact fun _ ho => absurd ho List.not_mem_nil

theorem Tidy.pending_aside (h : Tidy w i) (hn : ∀ o ∈ (w.sessions i).objs, o.cur.runtimeId ≠ rid)
    (t : Time) :
    ∀ x ∈ (w.sessions i).pending t, Aside rid x := by
  intro x hx
  cases x with
  | updateRuntime l c d =>
      obtain ⟨o, ho, hw⟩ := pending_update h.minor hx
      intro hk
      exact hn o ho ((h.keys o ho).symm.trans ((write_update hw) ▸ hk))
  | insertRuntime r => exact False.elim (noInsert_pending h.inserts.1 t _ hx)
  | updateJob | updateStep | insertJob | insertStep | insertEvent | insertBridge => trivial

theorem Tidy.seen_step (h : Tidy w i) (hn : ∀ o ∈ (w.sessions i).objs, o.cur.runtimeId ≠ rid)
    (he : InRound e)
    (hs : w.step rem i e a w') : seenRow w'.db (w'.sessions i) rid =
    seenRow w.db (w.sessions i) rid := by
  rcases step_db hs with hdb | ⟨rfl, t, hdb⟩
  · rw [hdb]
    have ht := step_turn hs
    generalize w'.sessions i = s' at ht
    cases ht with
    | keep | jobs | modify | add => rfl
    | @load k r _ _ =>
        obtain ⟨os, hos⟩ := load_objs (w.sessions i) r
        rw [hos]
        rfl
    | loadAll q =>
        obtain ⟨os, hos⟩ := loadAll_objs (Query.run q (w.view i)) (w.sessions i)
        rw [hos]
        rfl
    | flush =>
        change ((w.sessions i).txn ++ (w.sessions i).pending w.clock).foldl (onRow rid) _ = _
        rw [List.foldl_append, foldl_aside (h.pending_aside hn w.clock)]
        rfl
    | commit =>
        obtain ⟨-, t, hdb'⟩ := step_commit hs
        have hsame : w.db.runtime? rid = (w.db.applyAll t (w.sessions i).txn).runtime? rid := by
          rw [← hdb', hdb]
        exact hsame.trans (applyAll_row t w.db (w.sessions i).txn rid)
    | rollback hd => exact absurd hd (not_duplicate (fun x hx => minor_plain (h.minor x hx)) _ _)
    | close => exact absurd rfl he.opened
  · rw [(step_commit hs).1, hdb]
    exact applyAll_row t w.db (w.sessions i).txn rid

theorem Calm.row_step (h : Calm rid w i) (he : InRound e) (hs : w.step rem i e a w') :
    Has rid w' i ∨ ∀ r, (w'.view i).runtime? rid = some r → resting r := by
  by_cases hhas : Has rid w i
  · exact .inl (hhas.step h.toTidy he hs)
  · have hn : ∀ o ∈ (w.sessions i).objs, o.cur.runtimeId ≠ rid := fun o ho hk => hhas ⟨o, ho, hk⟩
    refine .inr fun r hr => h.unheld hn ?_
    rw [view_row] at hr ⊢
    rw [← hr, h.toTidy.seen_step hn he hs]

theorem Calm.step (h : Calm rid w i) (he : InRound e) (hs : w.step rem i e a w') : Calm rid w' i :=
  ⟨h.toTidy.step he hs, h.objs_step he hs, h.row_step he hs⟩

def Unstarted (rid : Uuid) (s : World R × PyTrace) (e : Eff) : Prop :=
  ∀ n v, e = .pve (.start n v) → ∃ r, Loaded r s.2 ∧ r.runtimeId ≠ rid

theorem unstarted_aside {s : World R × PyTrace} (h : ∀ n v, e ≠ .pve (.start n v)) :
    Unstarted rid s e :=
  fun n v he => absurd he (h n v)

def Still (e : Eff) : Prop := InRound e ∧ ∀ n v, e ≠ .pve (.start n v)

theorem inRound_quiet (ha : adds e = none) (hm : ∀ k b f, e ≠ .db (.modify k b f))
    (hc : e ≠ .db .close) : InRound e := by
  refine ⟨fun x hx => ?_, fun k b f he => absurd he (hm k b f), hc⟩
  rw [ha] at hx
  cases hx

theorem inRound_event (ev : RuntimeEvent) : InRound (.db (.addEvent ev)) := by
  refine ⟨fun x hx => ?_, fun k b f he => Eff.noConfusion he fun he => DbCall.noConfusion he,
    fun he => ?_⟩
  · cases Option.some.inj hx
    trivial
  · cases he

theorem inRound_modify {k : Uuid} {b : Bool} {f : AgentRuntime → AgentRuntime} (h : Settles f) :
    InRound (.db (.modify k b f)) := by
  refine ⟨fun x hx => ?_, fun k b f he => ?_, fun he => ?_⟩
  · cases hx
  · cases he
    exact h
  · cases he

theorem inRound_of_observes (h : observes e) : InRound e := by
  apply inRound_quiet
  · unfold observes at h
    split at h
    all_goals first | rfl | exact False.elim h
  · rintro k b f rfl
    exact h
  · rintro rfl
    exact h

theorem inRound_pass {r : AgentRuntime} (h : PassCall r.runtimeId r e) : InRound e := by
  cases h with
  | observe ho => exact inRound_of_observes ho
  | event ev => exact inRound_event ev
  | modify hf => exact inRound_modify fun x => .inl (hf.desired x)
  | flush | start | shutdown | stop =>
      apply inRound_quiet rfl
      · intro k b f he
        cases he
      · intro he
        cases he

theorem still_db {c : DbCall} (h : InRound (.db c)) : Still (.db c) :=
  ⟨h, fun _ _ he => Eff.noConfusion he⟩

theorem still_flush : Still (.db .flush) :=
  still_db (inRound_quiet rfl (fun _ _ _ he => by cases he) fun he => by cases he)

theorem still_commit : Still (.db .commit) :=
  still_db (inRound_quiet rfl (fun _ _ _ he => by cases he) fun he => by cases he)

theorem still_select (q : Query) : Only Still (selectRuntimes q) :=
  Only.bind (only_flush still_flush) fun _ =>
    only_call (still_db (inRound_quiet rfl (fun _ _ _ he => by cases he) fun he => by cases he))
      fun _ => only_ret _

theorem still_audit (r : AgentRuntime) (action result : String) (detail : Dict) :
    Only Still (audit r action result detail) :=
  only_audit r action result detail (still_db (inRound_event _))

section Calm

variable {s : World R × PyTrace}

theorem calm_still {α : Type} {p : Py α} (h : Only Still p) (hs : Calm rid s.1 i) :
    Sat (traced (World.step rem i)) (Unstarted rid) (fun s _ => Calm rid s.1 i)
      (fun s _ => Calm rid s.1 i) p s := by
  have hkeeps : ∀ s e a s', Still e → Calm rid s.1 i → traced (World.step rem i) s e a s' →
      Calm rid s'.1 i :=
    fun _ _ _ _ he hc hst => hc.step he.1 hst.1
  exact (h.keeps hkeeps hs).weaken fun _ _ he => unstarted_aside he.1.2

theorem reconcileRuntime_calm (cfg : Settings) (rs : ReconcileSettings) (k : Uuid)
    (hs : Calm rid s.1 i) :
    Sat (traced (World.step rem i)) (Unstarted rid) (fun s _ => Calm rid s.1 i)
      (fun s _ => Calm rid s.1 i)
      (reconcileRuntime cfg rs k) s := by
  have hget : InRound (.db (.getRuntime k)) :=
    inRound_quiet rfl (fun _ _ _ he => by cases he) fun he => by cases he
  unfold reconcileRuntime
  rw [sat_bind, sat_getRuntime]
  refine ⟨unstarted_aside fun _ _ he => Eff.noConfusion he, ?_⟩
  rintro (_ | r) s' ⟨hst, hpast⟩
  · exact hs.step hget hst
  · have hcalm := hs.step hget hst
    obtain ⟨rfl, o, ho, hcur⟩ := step_local hst r rfl
    have hrest : r.runtimeId = rid → resting r :=
      fun hk => hcur ▸ hcalm.objs o ho ((congrArg _ hcur).trans hk)
    have hloaded : Loaded r s'.2 := hpast ▸ loaded_now s.2 r.runtimeId r
    have hpass := (only_reconcileRow cfg rs r).keeps (T := traced (World.step rem i))
      (I := fun s => Calm rid s.1 i ∧ Loaded r s.2) ?_ ⟨hcalm, hloaded⟩
    · refine (hpass.weaken ?_).mono (fun _ _ h => h.1) fun _ _ h => h.1
      rintro s e ⟨he, -, hl⟩ n v rfl
      cases he with
      | observe ho => exact False.elim ho
      | start _ _ hrun => exact ⟨r, hl, fun hk => hrest hk hrun⟩
    · rintro s e a s' he ⟨hc, hl⟩ ⟨hst, hpast⟩
      have hstays := loaded_stable r s.2 ⟨e, a⟩ hl (passCall_stays he)
      exact ⟨hc.step (inRound_pass he) hst, hpast ▸ hstays⟩

theorem reconcileRows_calm (cfg : Settings) (rs : ReconcileSettings) (rows : List AgentRuntime)
    (hs : Calm rid s.1 i) :
    Sat (traced (World.step rem i)) (Unstarted rid) (fun s _ => Calm rid s.1 i)
      (fun s _ => Calm rid s.1 i)
      (reconcileRows cfg rs rows) s := by
  induction rows generalizing s with
  | nil => exact hs
  | cons r rows ih =>
      refine Sat.seq (reconcileRuntime_calm cfg rs r.runtimeId hs) fun s _ hs => ?_
      refine Sat.seq (calm_still (only_commit still_flush still_commit) hs) fun s _ hs => ?_
      exact Sat.seq (ih hs) fun s _ hs => hs

theorem still_expire (k : Uuid) : Still (.db (.modify k false expire)) :=
  still_db (inRound_modify fun _ => .inr fun he => by cases he)

theorem still_expireRows (rows : List AgentRuntime) : Only Still (expireRows rows) := by
  induction rows with
  | nil => exact only_pure _
  | cons r rows ih =>
      apply Only.bind (only_call (still_expire r.runtimeId) fun _ => only_ret _)
      intro _
      exact Only.bind (still_audit r _ _ _) fun _ => Only.bind ih fun _ => only_pure _

theorem still_now : Only Still now := by
  have hnow : Still (.sys .now) := by
    refine ⟨inRound_quiet rfl ?_ ?_, ?_⟩
    · intro k b f he
      cases he
    · intro he
      cases he
    · intro n v he
      cases he
  exact only_call hnow fun _ => only_ret _

theorem still_sweep : Only Still expireStaleSandboxes :=
  Only.bind still_now fun t => Only.bind (still_select (.staleSandboxes t)) fun rows =>
    still_expireRows rows

theorem has_still {α : Type} {p : Py α} (h : Only Still p) (ht : Tidy s.1 i) (hh : Has rid s.1 i) :
    Sat (traced (World.step rem i)) (Unstarted rid) (fun s _ => Tidy s.1 i ∧ Has rid s.1 i)
      (fun s _ => Tidy s.1 i ∧ Has rid s.1 i) p s := by
  have hkeeps : ∀ s e a s', Still e → Tidy s.1 i ∧ Has rid s.1 i →
      traced (World.step rem i) s e a s' →
      Tidy s'.1 i ∧ Has rid s'.1 i :=
    fun _ _ _ _ he hc hst => ⟨hc.1.step he.1 hst.1, hc.2.step hc.1 he.1 hst.1⟩
  exact (h.keeps hkeeps ⟨ht, hh⟩).weaken fun _ _ he => unstarted_aside he.1.2

theorem expire_calms {a : Ans (.db (.modify rid false expire))} (ht : Tidy w i) (hh : Has rid w i)
    (hs : w.step rem i (.db (.modify rid false expire)) a w') : Calm rid w' i := by
  refine ⟨ht.step (still_expire rid).1 hs, ?_, .inl (hh.step ht (still_expire rid).1 hs)⟩
  have hsession : w'.sessions i = (w.sessions i).modify rid false expire := step_local hs
  rw [hsession]
  intro o ho hk
  rcases mem_modify ho with ⟨-, hne⟩ | ⟨o', -, -, rfl⟩
  · exact absurd hk hne
  · intro hrun
    cases hrun

theorem expireRows_calms {rows : List AgentRuntime} (hm : rid ∈ rows.map (·.runtimeId))
    (ht : Tidy s.1 i)
    (hh : Has rid s.1 i) :
    Sat (traced (World.step rem i)) (Unstarted rid) (fun s _ => Calm rid s.1 i) (fun _ _ => True)
      (expireRows rows) s := by
  induction rows generalizing s with
  | nil => exact absurd hm List.not_mem_nil
  | cons r rows ih =>
      unfold expireRows
      refine (sat_bind _ _ _).mpr ⟨unstarted_aside fun _ _ he => Eff.noConfusion he, ?_⟩
      rintro a s' ⟨hst, -⟩
      by_cases hk : r.runtimeId = rid
      · subst hk
        have hrest : Only Still (do
            audit r "sandbox_ttl_expired" "ok"
              [("expired_at", textOr (r.sandboxExpiresAt.map isoformat))]
            let rest ← expireRows rows
            pure (r :: rest)) :=
          Only.bind (still_audit r _ _ _) fun _ => Only.bind (still_expireRows rows) fun _ =>
            only_pure _
        exact (calm_still hrest (expire_calms ht hh hst)).mono (fun _ _ h => h) fun _ _ _ => trivial
      · have htidy := ht.step (still_expire r.runtimeId).1 hst
        have hhas := hh.step ht (still_expire r.runtimeId).1 hst
        have hrows : rid ∈ rows.map (·.runtimeId) :=
          (List.mem_cons.mp hm).resolve_left fun he => hk he.symm
        refine Sat.seq ((has_still (still_audit r _ _ _) htidy hhas).mono (fun _ _ h => h)
          fun _ _ _ => trivial) ?_
        rintro s'' _ ⟨ht, hh⟩
        exact Sat.seq (ih hrows ht hh) fun _ _ h => h

/-- The committed row is that of a sandbox whose time is over. -/
def Lapsed (rid : Uuid) (w : World R) : Prop :=
  ∃ r t, w.db.runtime? rid = some r ∧ r.runtimeClass = "sandbox" ∧ r.sandboxExpiresAt = some t ∧
    t < w.clock

theorem tidy_fresh (hs : w.sessions i = {}) (hd : Distinct w.db) : Tidy w i := by
  refine ⟨hd, ?_, ?_, ?_⟩
  all_goals rw [hs]
  · exact ⟨fun _ hx => absurd hx List.not_mem_nil, fun _ hx => absurd hx List.not_mem_nil⟩
  · exact fun _ hx => absurd hx List.not_mem_nil
  · exact fun _ ho => absurd ho List.not_mem_nil

theorem calm_fresh (hs : w.sessions i = {}) (hd : Distinct w.db)
    (hr : ∀ r, w.db.runtime? rid = some r → resting r) :
    Calm rid w i := by
  refine ⟨tidy_fresh hs hd, ?_, .inr fun r hrow => hr r ?_⟩
  · rw [hs]
    exact fun _ ho => absurd ho List.not_mem_nil
  · rw [view_row, seenRow, hs] at hrow
    exact hrow

theorem stale_found {r : AgentRuntime} {t t' : Time} (hs : w.sessions i = {})
    (hrow : w.db.runtime? rid = some r)
    (hc : r.runtimeClass = "sandbox") (ht : r.sandboxExpiresAt = some t) (hlt : t < t')
    (hrun : ¬ resting r) :
    r ∈ Query.run (.staleSandboxes t') (w.view i) := by
  obtain ⟨x, hx, rfl⟩ := Option.map_eq_some_iff.mp hrow
  have hview : (w.view i).runtimes = w.db.runtimes := by
    rw [World.view, hs]
    rfl
  have hmem : x.row ∈ (w.view i).runtimes.map (·.row) := by
    rw [hview]
    exact List.mem_map_of_mem (List.mem_of_find?_eq_some hx)
  have hne : x.row.desiredState ≠ .desiredDestroyed := fun he => hrun fun h => by
    rw [he] at h; cases h
  refine List.mem_filter.mpr ⟨hmem, ?_⟩
  simp [hc, ht, hlt, hne]

theorem sweep_calms (past : PyTrace) (hs : w.sessions i = {}) (hd : Distinct w.db)
    (hl : Lapsed rid w) :
    Sat (traced (World.step rem i)) (Unstarted rid) (fun s _ => Calm rid s.1 i) (fun _ _ => True)
      expireStaleSandboxes
      (w, past) := by
  obtain ⟨r, t, hrow, hc, ht, hlt⟩ := hl
  by_cases hrest : resting r
  · have hcalm : Calm rid w i := calm_fresh hs hd fun r' hr' => by
      rw [hrow] at hr'
      cases hr'
      exact hrest
    exact (calm_still still_sweep hcalm).mono (fun _ _ h => h) fun _ _ _ => trivial
  · unfold expireStaleSandboxes
    refine (sat_bind _ _ _).mpr ⟨unstarted_aside fun _ _ he => Eff.noConfusion he, ?_⟩
    rintro t' ⟨w₁, past₁⟩ ⟨⟨hle, rfl⟩, -⟩
    refine (sat_bind _ _ _).mpr ((sat_bind _ _ _).mpr
      ⟨unstarted_aside fun _ _ he => Eff.noConfusion he, ?_⟩)
    rintro a ⟨w₂, past₂⟩ ⟨hst, -⟩
    refine (sat_orRaise a).mpr ?_
    cases a with
    | error x => exact trivial
    | ok u =>
        have hw₂ : w₂ = World.setSession { w with clock := t' } i ((w.sessions i).flush t') :=
          hst.2.2
        have hfresh : w₂.sessions i = {} := by
          rw [hw₂, setSession_self, hs]
          rfl
        have hdb : w₂.db = w.db := by
          rw [hw₂]
          rfl
        refine ⟨unstarted_aside fun _ _ he => Eff.noConfusion he, ?_⟩
        rintro rows ⟨w₃, past₃⟩ ⟨hst₃, -⟩
        have hfound := stale_found hfresh (hdb ▸ hrow) hc ht (Int.lt_of_lt_of_le hlt hle) hrest
        have hkey : r.runtimeId = rid := runtime?_key hrow
        have hselect : InRound (.db (.selectRuntimes (.staleSandboxes t'))) :=
          inRound_quiet rfl (fun _ _ _ he => by cases he) fun he => by cases he
        refine expireRows_calms ?_ ((tidy_fresh hfresh (hdb ▸ hd)).step hselect hst₃) ?_
        · have hrows : rows = ((w₂.sessions i).loadAll
              (Query.run (.staleSandboxes t') (w₂.view i))).1 := hst₃.1
          rw [hrows, loadAll_keys, ← hkey]
          exact List.mem_map_of_mem hfound
        · have hw₃ : w₃ = w₂.setSession i ((w₂.sessions i).loadAll
              (Query.run (.staleSandboxes t') (w₂.view i))).2 := hst₃.2
          change Has rid w₃ i
          rw [Has, hw₃, setSession_self, ← hkey]
          exact loadAll_has hfound _

theorem session_unstarted {α : Type} {p : Py α}
    (h : Sat (traced (World.step rem i)) (Unstarted rid) (fun _ _ => True) (fun _ _ => True) p s) :
    Sat (traced (World.step rem i)) (Unstarted rid) (fun _ _ => True) (fun _ _ => True)
      (withSession p) s := by
  have hclose : ∀ s, Sat (traced (World.step rem i)) (Unstarted rid) (fun _ _ => True)
      (fun _ _ => True) close s :=
    fun s => ⟨unstarted_aside fun _ _ he => Eff.noConfusion he, fun _ _ _ => trivial⟩
  rw [sat_withSession]
  exact h.mono (fun s _ _ => hclose s) fun s _ _ => hclose s

theorem reconcileEvery_unstarted (cfg : Settings) (rs : ReconcileSettings) (past : PyTrace)
    (hs : w.sessions i = {})
    (hd : Distinct w.db) (hl : Lapsed rid w) :
    Sat (traced (World.step rem i)) (Unstarted rid) (fun _ _ => True) (fun _ _ => True)
      ((Request.reconcileEvery rs).prog cfg) (w, past) := by
  refine Sat.seq (session_unstarted ?_) fun _ _ _ => trivial
  refine Sat.seq (Q := fun s _ => Calm rid s.1 i) ?_ fun s _ hs =>
    Sat.seq ((calm_still (only_commit still_flush still_commit) hs).mono (fun _ _ h => h)
      fun _ _ _ => trivial)
      fun _ _ _ => trivial
  refine Sat.seq (sweep_calms past hs hd hl) fun s _ hs => ?_
  refine Sat.seq ((calm_still (still_select _) hs).mono (fun _ _ h => h) fun _ _ _ => trivial)
    fun s rows hs => ?_
  exact (reconcileRows_calm cfg rs rows hs).mono (fun _ _ h => h) fun _ _ _ => trivial

theorem reconcileRuntime_other (cfg : Settings) (rs : ReconcileSettings) {k : Uuid} (hk : k ≠ rid) :
    Sat (traced (World.step rem i)) (Unstarted rid) (fun _ _ => True) (fun _ _ => True)
      (reconcileRuntime cfg rs k) s := by
  unfold reconcileRuntime
  rw [sat_bind, sat_getRuntime]
  refine ⟨unstarted_aside fun _ _ he => Eff.noConfusion he, ?_⟩
  rintro (_ | r) s' ⟨hst, hpast⟩
  · exact trivial
  · obtain ⟨rfl, -⟩ := step_local hst r rfl
    have hloaded : Loaded r s'.2 := hpast ▸ loaded_now s.2 r.runtimeId r
    have hpass :=
      (only_reconcileRow cfg rs r).keeps (T := traced (World.step rem i))
        (I := fun s => Loaded r s.2) ?_ hloaded
    · refine (hpass.weaken ?_).mono (fun _ _ _ => trivial) fun _ _ _ => trivial
      rintro s e ⟨-, hl⟩ n v -
      exact ⟨r, hl, hk⟩
    · rintro s e a s' he hl ⟨-, hpast⟩
      exact hpast ▸ loaded_stable r s.2 ⟨e, a⟩ hl (passCall_stays he)

theorem reconcileOne_unstarted (cfg : Settings) (rs : ReconcileSettings) {k : Uuid} (past : PyTrace)
    (hs : w.sessions i = {})
    (hd : Distinct w.db) (hk : k = rid → ∀ r, w.db.runtime? rid = some r → resting r) :
    Sat (traced (World.step rem i)) (Unstarted rid) (fun _ _ => True) (fun _ _ => True)
      ((Request.reconcileOne rs k).prog cfg) (w, past) := by
  have hcommit : ∀ s, Sat (traced (World.step rem i)) (Unstarted rid) (fun _ _ => True)
      (fun _ _ => True) commit s := by
    intro s
    have honly : Only Still commit := only_commit still_flush still_commit
    refine (honly.keeps (I := fun _ => True) (fun _ _ _ _ _ _ _ => trivial) trivial).weaken ?_
    exact fun _ _ he => unstarted_aside he.1.2
  refine Sat.seq (session_unstarted ?_) fun _ _ _ => trivial
  refine Sat.seq (Q := fun _ _ => True) ?_ fun s _ _ => Sat.seq (hcommit s) fun _ _ _ => trivial
  by_cases he : k = rid
  · exact (reconcileRuntime_calm cfg rs k (calm_fresh hs hd (hk he))).mono (fun _ _ _ => trivial)
      fun _ _ _ => trivial
  · exact reconcileRuntime_other cfg rs he

end Calm

/-- The requests on runtimes, and the one that gives a sandbox more time. -/
inductive Operation
  | request (q : Request)
  | extendTtl (rid : Uuid) (hours : Int) (reason actor : String)

def Operation.prog (cfg : Settings) : Operation → Py Unit
  | .request q => q.prog cfg
  | .extendTtl rid hours reason actor => do
      let _ ← extendSandboxTtl cfg rid hours reason actor

def reconciles : Operation → Prop
  | .request (.reconcileOne ..) | .request (.reconcileEvery ..) => True
  | _ => False

/-- An operation that has been executed: where it began, and its calls. -/
structure Done (R : Type) where
  op : Operation
  world : World R
  trace : PyTrace

/-- One operation after the other, each in a session of its own. Between them
time passes and the other systems go on. -/
inductive History (cfg : Settings) (rem : Remote R) : World R → List (Done R) → Prop
  | nil (w : World R) : History cfg rem w []
  | pass {w : World R} {ds : List (Done R)} (t : Time) (x : R) : w.clock ≤ t →
      History cfg rem { w with clock := t, remote := x } ds → History cfg rem w ds
  | cons {w w' : World R} {ds : List (Done R)} {op : Operation} {i : Nat} {tr : PyTrace}
      {q : Py Unit} :
      w.sessions i = {} → Distinct w.db → Exec (World.step rem i) w (op.prog cfg) tr w' q →
        (∀ e k, q ≠ .call e k) →
        History cfg rem w' ds → History cfg rem w (⟨op, w, tr⟩ :: ds)

def StartsFor (tr : PyTrace) (rid : Uuid) : Prop :=
  ∃ before n v a after r, tr = before ++ ⟨.pve (.start n v), a⟩ :: after ∧ Loaded r before ∧
    r.runtimeId = rid

def Keeps (d : Done R) : Prop :=
  reconciles d.op → ∀ rid, Lapsed rid d.world → ¬ StartsFor d.trace rid

/-- No single row is reconciled that is to run although its time is over. -/
def Timely (d : Done R) : Prop :=
  ∀ rs rid, d.op = .request (.reconcileOne rs rid) → Lapsed rid d.world → ∀ r,
    d.world.db.runtime? rid = some r → resting r

theorem unstarted_trace {α : Type} {p q : Py α} {tr : PyTrace}
    (h : Sat (traced (World.step rem i)) (Unstarted rid) (fun _ _ => True) (fun _ _ => True) p
    (w, []))
    (hx : Exec (World.step rem i) w p tr w' q) : ¬ StartsFor tr rid := by
  rintro ⟨before, n, v, a, after, r, rfl, hl, hk⟩
  obtain ⟨u, u', k, hbefore, -⟩ := hx.split
  obtain ⟨r', hl', hne⟩ := (h.exec (hbefore.traced [])).1 n v rfl
  rw [List.nil_append] at hl'
  exact hne (loaded_unique hl' hl ▸ hk)

theorem Timely.keeps {cfg : Settings} {op : Operation} {tr : PyTrace} {q : Py Unit}
    (h : Timely ⟨op, w, tr⟩)
    (hs : w.sessions i = {}) (hd : Distinct w.db)
    (hx : Exec (World.step rem i) w (op.prog cfg) tr w' q) :
    Keeps ⟨op, w, tr⟩ := by
  intro hop rid hl
  cases op with
  | extendTtl => exact False.elim hop
  | request request =>
      cases request with
      | create | desiredState | supersede | destroy => exact False.elim hop
      | reconcileEvery rs => exact unstarted_trace (reconcileEvery_unstarted cfg rs [] hs hd hl) hx
      | reconcileOne rs k =>
          refine unstarted_trace (reconcileOne_unstarted cfg rs [] hs hd ?_) hx
          rintro rfl
          exact h rs k rfl hl

/-- In a history of timely operations no reconcile operation starts a VM for an expired sandbox. -/
theorem expired_not_started {cfg : Settings} {w : World R} {ds : List (Done R)}
    (h : History cfg rem w ds)
    (ht : ∀ d ∈ ds, Timely d) : ∀ d ∈ ds, Keeps d := by
  induction h with
  | nil => exact fun _ hd => absurd hd List.not_mem_nil
  | pass t x hle hrest ih => exact ih ht
  | cons hs hd hx hq hrest ih =>
      intro d hm
      rcases List.mem_cons.mp hm with rfl | hm
      · exact (ht _ List.mem_cons_self).keeps hs hd hx
      · exact ih (fun d hd => ht d (List.mem_cons_of_mem _ hd)) d hm

def expired : AgentRuntime := { worker with runtimeClass := "sandbox", sandboxExpiresAt := some 0 }

def atHundred : Replay.Machine Unit := ⟨{ runtimes := [⟨expired, 0⟩] }, [{}], 100, [], ()⟩

def hundred : World Unit := atHundred.world fun _ => ()

def played (q : Request) : PyTrace × Replay.Machine Unit × Py Unit :=
  play (Replay.Machine.answer RecoveryBudget.starting 0) 40 atHundred (q.prog {})

theorem played_history (q : Request) (h : (played q).2.2.ended = true) :
    History {} Remote.any hundred [⟨.request q, hundred, (played q).1⟩] := by
  have hx : Exec (World.step Remote.any 0) hundred (q.prog {}) (played q).1
      ((played q).2.1.world fun _ => ()) (played q).2.2 :=
    play_exec (Replay.Machine.world fun _ => ()) (Replay.Machine.answer RecoveryBudget.starting 0)
      (fun m e a m' => Replay.Machine.answer_step RecoveryBudget.starting.follows_any 0 m e a m') 40
        atHundred (q.prog {})
  have hd : Distinct hundred.db := List.nodup_cons.mpr ⟨List.not_mem_nil, List.nodup_nil⟩
  exact .cons rfl hd hx (Prog.ended_ne_call h) (.nil _)

theorem hundred_lapsed : Lapsed workerId hundred := ⟨expired, 0, rfl, rfl, rfl, by decide⟩

/-- The first start of a trace is made for the row read last before it. -/
def startsRow (tr : PyTrace) (rid : Uuid) : Bool :=
  (lastRead (tr.takeWhile fun ev => !startsVm ev.1)).any (fun r => r.runtimeId = rid) &&
    !(tr.dropWhile fun ev => !startsVm ev.1).isEmpty

theorem startsFor_of_row {tr : PyTrace} {rid : Uuid} (h : startsRow tr rid = true) :
    StartsFor tr rid := by
  obtain ⟨hl, hs⟩ := Bool.and_eq_true_iff.mp h
  obtain ⟨r, hr, hk⟩ := (Option.any_eq_true _ _).mp hl
  cases hd : tr.dropWhile fun ev => !startsVm ev.1 with
  | nil => rw [hd] at hs; cases hs
  | cons ev after =>
      obtain ⟨e, a⟩ := ev
      have hstart := List.head?_dropWhile_not (fun ev : Event Eff Ans => !startsVm ev.1) tr
      rw [hd] at hstart
      obtain ⟨n, v, rfl⟩ := startsVm_eq (by simpa using hstart)
      refine ⟨_, n, v, a, after, r, ?_, loaded_of_lastRead hr, of_decide_eq_true hk⟩
      rw [← hd, List.takeWhile_append_dropWhile]

/-- A single reconcile starts the expired sandbox. -/
theorem expired_started :
    ¬ ∀ (cfg : Settings) (R : Type) (rem : Remote R) (w : World R) (ds : List (Done R)),
      History cfg rem w ds →
      ∀ d ∈ ds, Keeps d := by
  intro h
  have hrun : ((played (.reconcileOne {} workerId)).2.2.ended &&
      startsRow (played (.reconcileOne {} workerId)).1 workerId) =
      true := by decide +kernel
  obtain ⟨hended, hstarts⟩ := Bool.and_eq_true_iff.mp hrun
  have hkeeps :=
    h {} Unit Remote.any hundred _ (played_history (.reconcileOne {} workerId) hended) _
      List.mem_cons_self
  exact hkeeps trivial workerId hundred_lapsed (startsFor_of_row hstarts)

/-- A round does not. -/
theorem expired_swept : Keeps ⟨.request (.reconcileEvery {}), hundred,
    (played (.reconcileEvery {})).1⟩ := by
  have hended : (played (.reconcileEvery {})).2.2.ended = true := by decide +kernel
  refine expired_not_started (played_history (.reconcileEvery {}) hended) ?_ _ List.mem_cons_self
  intro d hd rs rid hop
  rw [List.mem_singleton.mp hd] at hop
  cases hop

end ServerManager.ExpiredSandboxes
