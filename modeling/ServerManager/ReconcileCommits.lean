import ServerManager.PassCalls
import ServerManager.Versions
import Mathlib.Algebra.Order.Group.Int

namespace ServerManager.ReconcileCommits

open Interaction PyJson Orm Effects Storage Sessions Frames Versions Config Reconciliation Calls
  PassCalls

variable {R : Type} {rem : Remote R} {i : Nat} {cfg : Settings} {rs : ReconcileSettings}

/-- The others may do anything but write the rows of `agent_runtimes`. -/
structure Elsewhere (i : Nat) (w w' : World R) : Prop where
  own : w'.sessions i = w.sessions i
  rows : w'.db.runtimes = w.db.runtimes
  clock : w.clock ≤ w'.clock

def Unexpired : (e : Eff) → Ans e → Prop
  | .db (.selectRuntimes (.staleSandboxes _)), rows => rows = []
  | _, _ => True

/-- A call of the only process that writes the rows; the clock moves on with every transaction. -/
def Undisturbed (rem : Remote R) (i : Nat) (w : World R) (e : Eff) (a : Ans e) (w' : World R) :
    Prop :=
  ∃ v, Elsewhere i w v ∧ v.step rem i e a w' ∧ (e = .db .commit → w.clock < w'.clock) ∧
    Unexpired e a

theorem step_clock {w w' : World R} {e : Eff} {a : Ans e} (hs : w.step rem i e a w') :
    w.clock ≤ w'.clock := by
  cases e with
  | pve c => obtain ⟨x, -, rfl⟩ := hs; exact le_refl _
  | kea c => obtain ⟨x, -, rfl⟩ := hs; exact le_refl _
  | db c =>
      rcases dbStep_frame hs with ⟨s, rfl⟩ | rfl | ⟨-, t, ht, rfl⟩
      · exact le_refl _
      · exact le_refl _
      · exact ht
  | sys c =>
      cases c with
      | now => obtain ⟨ht, rfl⟩ := hs; exact ht
      | uuid4 | ipNeigh => obtain ⟨-, rfl⟩ := hs; exact le_refl _
      | sleep | polls | randbelow | tokenUrlsafe | guestExec | leaseInventory =>
          rw [show w' = w from hs]

/-- The column was set before `c`. -/
def Before (c : Time) (r : AgentRuntime) : Prop := ∀ t, r.lastReconcileAt = some t → t < c

theorem Before.mono {c c' : Time} {r : AgentRuntime} (h : Before c r) (hc : c ≤ c') :
    Before c' r := by
  intro t ht
  exact lt_of_lt_of_le (h t ht) hc

/-- An object in step with its row, which has been reconciled before `c` only. -/
structure AtRest (c : Time) (o : Obj) : Prop where
  same : o.cur = o.loaded
  clean : o.dirty = false
  seen : Before c o.loaded

theorem AtRest.write {c : Time} {o : Obj} (h : AtRest c o) : o.write = [] := by
  simp [Obj.write, h.same, h.clean, changed]

/-- The rows with the keys `ks` are in the identity map. -/
def Holding (ks : List Uuid) (s : Session) : Prop := ∀ k ∈ ks, ∃ o ∈ s.objs, o.cur.runtimeId = k

structure Between (i : Nat) (ks : List Uuid) (w : World R) : Prop where
  rows : ∀ x ∈ w.db.runtimes, Before w.clock x.row
  objs : ∀ o ∈ (w.sessions i).objs, AtRest w.clock o
  jobs : (w.sessions i).jobs = []
  new : (w.sessions i).new = []
  txn : (w.sessions i).txn = []
  has : Holding ks (w.sessions i)

/-- The row `rid` is being judged, since the time `c`, when the rows were `l`. -/
structure Judging (i : Nat) (ks : List Uuid) (rid : Uuid) (c : Time) (l : List Stored)
    (w : World R) : Prop where
  rows : w.db.runtimes = l
  clock : c ≤ w.clock
  keys : ∀ o ∈ (w.sessions i).objs, o.loaded.runtimeId = o.cur.runtimeId
  seen : ∀ o ∈ (w.sessions i).objs, Before c o.loaded
  desired : ∀ o ∈ (w.sessions i).objs, o.cur.desiredState = o.loaded.desiredState
  apart : ∀ o ∈ (w.sessions i).objs, o.cur.runtimeId ≠ rid → AtRest c o
  jobs : (w.sessions i).jobs = []
  new : ∀ x ∈ (w.sessions i).new, ∃ ev, x = .insertEvent ev
  txn : (w.sessions i).txn = []
  has : Holding ks (w.sessions i)

variable {ks : List Uuid} {rid : Uuid} {c : Time} {l : List Stored} {w w' : World R} {e : Eff}
  {a : Ans e}

theorem Elsewhere.between (h : Elsewhere i w w') (hb : Between i ks w) : Between i ks w' := by
  refine ⟨fun x hx => ?_, fun o ho => ?_, ?_, ?_, ?_, ?_⟩
  · rw [h.rows] at hx
    exact (hb.rows x hx).mono h.clock
  · rw [h.own] at ho
    have hrest := hb.objs o ho
    exact ⟨hrest.same, hrest.clean, hrest.seen.mono h.clock⟩
  all_goals rw [h.own]
  · exact hb.jobs
  · exact hb.new
  · exact hb.txn
  · exact hb.has

theorem Elsewhere.judging (h : Elsewhere i w w') (hj : Judging i ks rid c l w) :
    Judging i ks rid c l w' := by
  refine ⟨h.rows.trans hj.rows, hj.clock.trans h.clock, ?_, ?_, ?_, ?_, ?_, ?_, ?_, ?_⟩
  all_goals rw [h.own]
  · exact hj.keys
  · exact hj.seen
  · exact hj.desired
  · exact hj.apart
  · exact hj.jobs
  · exact hj.new
  · exact hj.txn
  · exact hj.has

theorem holding_modify {s : Session} {b : Bool} {f : AgentRuntime → AgentRuntime}
    (h : Holding ks s) :
    Holding ks (s.modify rid b f) := by
  intro k hk
  obtain ⟨o, ho, rfl⟩ := h k hk
  refine ⟨_, List.mem_map_of_mem ho, ?_⟩
  split
  · rfl
  · rfl

theorem Judging.modify {f : AgentRuntime → AgentRuntime} (hj : Judging i ks rid c l w)
    (hf : ∀ x, (f x).desiredState = x.desiredState) :
    Judging i ks rid c l (w.setSession i ((w.sessions i).modify rid false f)) := by
  have hobj : ∀ o ∈ ((w.sessions i).modify rid false f).objs,
      (o ∈ (w.sessions i).objs ∧ o.cur.runtimeId ≠ rid) ∨
        ∃ o' ∈ (w.sessions i).objs, o'.cur.runtimeId = rid ∧
          o = ⟨o'.loaded, { f o'.cur with runtimeId := o'.cur.runtimeId }, o'.dirty || false⟩ :=
    fun o ho => mem_modify ho
  refine ⟨hj.rows, hj.clock, ?_, ?_, ?_, ?_, ?_, ?_, ?_, ?_⟩
  all_goals rw [setSession_self]
  · intro o ho
    rcases hobj o ho with ⟨ho, -⟩ | ⟨o', ho', -, rfl⟩
    · exact hj.keys o ho
    · exact hj.keys o' ho'
  · intro o ho
    rcases hobj o ho with ⟨ho, -⟩ | ⟨o', ho', -, rfl⟩
    · exact hj.seen o ho
    · exact hj.seen o' ho'
  · intro o ho
    rcases hobj o ho with ⟨ho, -⟩ | ⟨o', ho', -, rfl⟩
    · exact hj.desired o ho
    · exact (hf o'.cur).trans (hj.desired o' ho')
  · intro o ho hk
    rcases hobj o ho with ⟨ho, -⟩ | ⟨o', ho', hk', rfl⟩
    · exact hj.apart o ho hk
    · exact absurd hk' hk
  · exact hj.jobs
  · exact hj.new
  · exact hj.txn
  · exact holding_modify hj.has

theorem Judging.event (hj : Judging i ks rid c l w) (ev : RuntimeEvent) :
    Judging i ks rid c l
      (w.setSession i { w.sessions i with new := (w.sessions i).new ++ [.insertEvent ev] }) := by
  refine ⟨hj.rows, hj.clock, ?_, ?_, ?_, ?_, ?_, ?_, ?_, ?_⟩
  all_goals rw [setSession_self]
  · exact hj.keys
  · exact hj.seen
  · exact hj.desired
  · exact hj.apart
  · exact hj.jobs
  · intro x hx
    rcases List.mem_append.mp hx with hx | hx
    · exact hj.new x hx
    · exact ⟨ev, List.mem_singleton.mp hx⟩
  · exact hj.txn
  · exact hj.has

theorem Judging.remote (hj : Judging i ks rid c l w) (hs : w.step rem i e a w')
    (he : ∀ c, e ≠ .db c) :
    Judging i ks rid c l w' := by
  obtain ⟨hdb, hses⟩ := step_remote hs he
  exact Elsewhere.judging ⟨congrFun hses i, congrArg Db.runtimes hdb, step_clock hs⟩ hj

theorem Judging.call {r : AgentRuntime} (hj : Judging i ks rid c l w) (he : JudgeCall rid r e)
    (hs : Undisturbed rem i w e a w') : Judging i ks rid c l w' := by
  obtain ⟨v, hv, hs, -, -⟩ := hs
  have hj := hv.judging hj
  cases he with
  | @observe e ho =>
      refine hj.remote hs fun c hc => ?_
      subst hc
      exact ho.elim
  | event ev => rw [show w' = _ from hs]; exact hj.event ev
  | modify hf _ => rw [show w' = _ from hs]; exact hj.modify hf.desired
  | start | shutdown | stop => exact hj.remote hs fun c hc => Eff.noConfusion hc

/-- A statement that stamps the row `rid` with the time `t`, or an event. -/
inductive Stamps (rid : Uuid) (t : Time) : Write → Prop
  | row {l c : AgentRuntime} {d : Bool} : l.runtimeId = rid → c.desiredState = l.desiredState →
      c.lastReconcileAt = some t → l.lastReconcileAt ≠ some t → Stamps rid t (.updateRuntime l c d)
  | event (ev : RuntimeEvent) : Stamps rid t (.insertEvent ev)

/-- The verdict on the row has been sent, with the time `t`. -/
structure Sent (i : Nat) (ks : List Uuid) (rid : Uuid) (t : Time) (l : List Stored) (w : World R) :
    Prop where
  rows : w.db.runtimes = l
  clock : t ≤ w.clock
  objs : ∀ o ∈ (w.sessions i).objs, AtRest (t + 1) o
  jobs : (w.sessions i).jobs = []
  new : (w.sessions i).new = []
  stamps : ∀ x ∈ (w.sessions i).txn, Stamps rid t x
  sent : ∃ l c d, .updateRuntime l c d ∈ (w.sessions i).txn
  has : Holding ks (w.sessions i)

theorem Elsewhere.sent {t : Time} (h : Elsewhere i w w') (hs : Sent i ks rid t l w) :
    Sent i ks rid t l w' := by
  refine ⟨h.rows.trans hs.rows, hs.clock.trans h.clock, ?_, ?_, ?_, ?_, ?_, ?_⟩
  all_goals rw [h.own]
  · exact hs.objs
  · exact hs.jobs
  · exact hs.new
  · exact hs.stamps
  · exact hs.sent
  · exact hs.has

theorem flush_at_rest {s : Session} (hobjs : ∀ o ∈ s.objs, AtRest c o) (hjobs : s.jobs = [])
    (hnew : s.new = [])
    (t : Time) : s.flush t = s := by
  have hsame : s.objs.map (fun o => ⟨o.cur, o.cur, false⟩) = s.objs := by
    refine (List.map_congr_left fun o ho => ?_).trans (List.map_id s.objs)
    obtain ⟨loaded, cur, dirty⟩ := o
    have hrest := hobjs _ ho
    obtain rfl : cur = loaded := hrest.same
    obtain rfl : dirty = false := hrest.clean
    rfl
  have hwrites : s.objs.flatMap Obj.write = [] := by
    apply List.flatMap_eq_nil_iff.mpr
    exact fun o ho => (hobjs o ho).write
  obtain ⟨objs, jobs, new, txn⟩ := s
  simp only at hjobs hnew hsame hwrites
  subst hjobs hnew
  simp [Session.flush, Session.pending, Session.inserted, Session.insertedJobs, hsame, hwrites]

theorem step_flush_at_rest {a : Except PyExc Unit} (hobjs : ∀ o ∈ (w.sessions i).objs, AtRest c o)
    (hjobs : (w.sessions i).jobs = []) (hnew : (w.sessions i).new = [])
    (hs : w.step rem i (.db .flush) a w') :
    a = .ok () ∧ w' = w := by
  cases a with
  | ok u =>
      refine ⟨rfl, ?_⟩
      rw [hs.2.2, flush_at_rest hobjs hjobs hnew w.clock]
      simp [World.setSession]
  | error x =>
      refine absurd hs.2.1 (not_duplicate (fun x hx => ?_) w.clock w.db)
      rw [hnew] at hx
      cases hx

theorem inserted_events {ws : List Write} (h : ∀ x ∈ ws, ∃ ev, x = .insertEvent ev) (t : Time) :
    Session.inserted (ws.map (stamped t)) = [] ∧ Session.insertedJobs ws = [] := by
  induction ws with
  | nil => exact ⟨rfl, rfl⟩
  | cons x ws ih =>
      obtain ⟨ev, rfl⟩ := h x List.mem_cons_self
      exact ih fun y hy => h y (List.mem_cons_of_mem _ hy)

theorem plain_events {ws : List Write} (h : ∀ x ∈ ws, ∃ ev, x = .insertEvent ev) : ∀ x ∈ ws,
    Plain x := by
  intro x hx
  obtain ⟨ev, rfl⟩ := h x hx
  trivial

/-- What a flush sends of a judged row that carries the time `t`. -/
theorem Judging.pending {t u : Time} {x : Write} (hj : Judging i ks rid c l w) (hc : c ≤ t)
    (ht : ∀ o ∈ (w.sessions i).objs, o.cur.runtimeId = rid → o.cur.lastReconcileAt = some t)
    (hx : x ∈ (w.sessions i).pending u) : Stamps rid t x := by
  simp only [Session.pending, hj.jobs, List.flatMap_nil, List.append_nil, List.mem_append] at hx
  rcases hx with hx | hx
  · obtain ⟨o, ho, hx⟩ := List.mem_flatMap.mp hx
    by_cases hk : o.cur.runtimeId = rid
    · unfold Obj.write at hx
      split at hx
      · rw [List.mem_singleton.mp hx]
        refine .row ((hj.keys o ho).trans hk) (hj.desired o ho) (ht o ho hk) fun hl => ?_
        have hlt := hj.seen o ho t hl
        exact absurd hc (not_le.mpr hlt)
      · cases hx
    · rw [(hj.apart o ho hk).write] at hx
      cases hx
  · obtain ⟨y, hy, rfl⟩ := List.mem_map.mp hx
    obtain ⟨ev, rfl⟩ := hj.new y hy
    exact .event ev

/-- The row that carries the time `t` is among what is sent. -/
theorem Judging.pending_row {t u : Time} (hj : Judging i ks rid c l w) (hrid : rid ∈ ks)
    (hc : c ≤ t)
    (ht : ∀ o ∈ (w.sessions i).objs, o.cur.runtimeId = rid → o.cur.lastReconcileAt = some t) :
    ∃ l c d, .updateRuntime l c d ∈ (w.sessions i).pending u := by
  obtain ⟨o, ho, hk⟩ := hj.has rid hrid
  have hne : o.cur.lastReconcileAt ≠ o.loaded.lastReconcileAt := by
    intro he
    have hlt := hj.seen o ho t (he.symm.trans (ht o ho hk))
    exact absurd hc (not_le.mpr hlt)
  have hw : o.write = [.updateRuntime o.loaded o.cur o.dirty] := by simp [Obj.write, changed, hne]
  refine ⟨o.loaded, o.cur, o.dirty, ?_⟩
  simp only [Session.pending, List.mem_append, List.mem_flatMap]
  exact .inl (.inl ⟨o, ho, by rw [hw]; exact List.mem_cons_self⟩)

theorem Judging.flush {t : Time} {a : Except PyExc Unit} (hj : Judging i ks rid c l w)
    (hrid : rid ∈ ks)
    (hc : c ≤ t) (htc : t ≤ w.clock)
    (ht : ∀ o ∈ (w.sessions i).objs, o.cur.runtimeId = rid → o.cur.lastReconcileAt = some t)
    (hs : w.step rem i (.db .flush) a w') : a = .ok () ∧ Sent i ks rid t l w' := by
  cases a with
  | error x => exact absurd hs.2.1 (not_duplicate (plain_events hj.new) w.clock w.db)
  | ok u =>
      refine ⟨rfl, ?_⟩
      obtain ⟨hins, hjobs⟩ := inserted_events hj.new w.clock
      have hobjs : ((w.sessions i).flush w.clock).objs =
          (w.sessions i).objs.map (fun o => ⟨o.cur, o.cur, false⟩) := by
        simp [Session.flush, hins]
      have htxn : ((w.sessions i).flush w.clock).txn = (w.sessions i).pending w.clock := by
        simp [Session.flush, hj.txn]
      rw [hs.2.2]
      refine ⟨hj.rows, htc, fun o ho => ?_, ?_, ?_, fun x hx => ?_, ?_, fun k hk => ?_⟩
      · rw [setSession_self, hobjs] at ho
        obtain ⟨o', ho', rfl⟩ := List.mem_map.mp ho
        refine ⟨rfl, rfl, ?_⟩
        by_cases hk : o'.cur.runtimeId = rid
        · intro v hv
          have hvt : v = t := Option.some.inj (hv.symm.trans (ht o' ho' hk))
          rw [hvt]
          exact Int.lt_add_one_iff.mpr (le_refl t)
        · have hrest := hj.apart o' ho' hk
          have hseen : Before c o'.cur := hrest.same ▸ hrest.seen
          exact hseen.mono (Int.le_add_one hc)
      · rw [setSession_self]
        simp [Session.flush, hj.jobs, hjobs]
      · rw [setSession_self]
        rfl
      · rw [setSession_self, htxn] at hx
        exact hj.pending hc ht hx
      · rw [setSession_self, htxn]
        exact hj.pending_row hrid hc ht
      · obtain ⟨o, ho, hok⟩ := hj.has k hk
        refine ⟨⟨o.cur, o.cur, false⟩, ?_, hok⟩
        rw [setSession_self, hobjs]
        exact List.mem_map_of_mem ho

theorem record_sat (res : ReconcileResult) (hj : Judging i ks rid c l w) (hrid : rid ∈ ks) :
    Sat (Undisturbed rem i) (fun _ _ => True) (fun w' _ => ∃ t, c ≤ t ∧ Sent i ks rid t l w')
      (fun _ _ => False)
      (record rid res) w := by
  refine ⟨trivial, fun (t : Time) w₁ hs₁ => ?_⟩
  obtain ⟨v₁, hv₁, ⟨ht, rfl⟩, -, -⟩ := hs₁
  have hc : c ≤ t := (hj.clock.trans hv₁.clock).trans ht
  have hnow : Elsewhere i v₁ { v₁ with clock := t } := ⟨rfl, rfl, ht⟩
  have hj₁ := hnow.judging (hv₁.judging hj)
  refine ⟨trivial, fun _ w₂ hs₂ => ?_⟩
  obtain ⟨v₂, hv₂, hs₂, -, -⟩ := hs₂
  have hj₂ := hv₂.judging hj₁
  have ht₂ : t ≤ v₂.clock := hv₂.clock
  obtain rfl : w₂ = _ := hs₂
  refine ⟨trivial, fun a w₃ hs₃ => ?_⟩
  obtain ⟨v₃, hv₃, hs₃, -, -⟩ := hs₃
  have hj₃ := hv₃.judging (hj₂.modify (f := bookkeeping res t) fun _ => rfl)
  have hmark : ∀ o ∈ (v₃.sessions i).objs, o.cur.runtimeId = rid →
      o.cur.lastReconcileAt = some t := by
    intro o ho hk
    rw [hv₃.own] at ho
    have hset : (v₂.setSession i ((v₂.sessions i).modify rid false (bookkeeping res t))).sessions
        i =
        (v₂.sessions i).modify rid false (bookkeeping res t) := setSession_self _ _ _
    have ho' : o ∈ ((v₂.sessions i).modify rid false (bookkeeping res t)).objs := hset ▸ ho
    rcases mem_modify ho' with ⟨-, hne⟩ | ⟨o', -, -, rfl⟩
    · exact absurd hk hne
    · rfl
  obtain ⟨rfl, hsent⟩ := hj₃.flush hrid hc (ht₂.trans hv₃.clock) hmark hs₃
  exact ⟨t, hc, hsent⟩

def eligible (x : Stored) : Bool :=
  x.row.desiredState ≠ .desiredDestroyed && x.row.createdByAgentRuntimeManager

def Marked (t u : Time) (x : Stored) : Prop := x.row.lastReconcileAt = some t ∧ x.updatedAt = u

structure Restamps (rid : Uuid) (t u : Time) (g : Stored → Stored) : Prop where
  apart : ∀ x, x.row.runtimeId ≠ rid → g x = x
  key : ∀ x, (g x).row.runtimeId = x.row.runtimeId
  stays : ∀ x, eligible (g x) = eligible x
  marked : ∀ x, Marked t u x → Marked t u (g x)

theorem Restamps.comp {t u : Time} {f g : Stored → Stored} (hf : Restamps rid t u f)
    (hg : Restamps rid t u g) :
    Restamps rid t u (g ∘ f) where
  apart x hx := by
    have hfx := hf.apart x hx
    simp only [Function.comp, hfx]
    exact hg.apart x hx
  key x := (hg.key (f x)).trans (hf.key x)
  stays x := (hg.stays (f x)).trans (hf.stays x)
  marked x hx := hg.marked (f x) (hf.marked x hx)

def updated (l c : AgentRuntime) (d : Bool) (u : Time) (x : Stored) : Stored :=
  if x.row.runtimeId = l.runtimeId then ⟨l.merge c d x.row, u⟩ else x

theorem updated_restamps {l c : AgentRuntime} {d : Bool} {t u : Time} (hl : l.runtimeId = rid)
    (hd : c.desiredState = l.desiredState) (ht : c.lastReconcileAt = some t)
    (hn : l.lastReconcileAt ≠ some t) :
    Restamps rid t u (updated l c d u) ∧ ∀ x, x.row.runtimeId = rid →
      Marked t u (updated l c d u x) := by
  subst hl
  have hmark : ∀ x, x.row.runtimeId = l.runtimeId → Marked t u (updated l c d u x) := by
    intro x hx
    have hne : ¬ some t = l.lastReconcileAt := fun he => hn he.symm
    rw [updated, if_pos hx]
    exact ⟨by simp [AgentRuntime.merge, hne, ht], rfl⟩
  refine ⟨⟨fun x hx => if_neg hx, fun x => ?_, fun x => ?_, fun x hx => ?_⟩, hmark⟩
  · unfold updated
    split
    · rfl
    · rfl
  · unfold updated
    split
    · simp [eligible, AgentRuntime.merge, hd]
    · rfl
  · by_cases hk : x.row.runtimeId = l.runtimeId
    · exact hmark x hk
    · rw [updated, if_neg hk]
      exact hx

theorem applyAll_stamps {ws : List Write} {t : Time} (u : Time) (h : ∀ x ∈ ws, Stamps rid t x) :
    ∃ g, (∀ db : Db, (db.applyAll u ws).runtimes = db.runtimes.map g) ∧ Restamps rid t u g ∧
      ((∃ l c d, .updateRuntime l c d ∈ ws) → ∀ x, x.row.runtimeId = rid → Marked t u (g x)) := by
  induction ws with
  | nil =>
      have hid : Restamps rid t u id := ⟨fun _ _ => rfl, fun _ => rfl, fun _ => rfl, fun _ hx => hx⟩
      refine ⟨id, fun db => (List.map_id _).symm, hid, ?_⟩
      rintro ⟨l, c, d, hm⟩
      cases hm
  | cons x ws ih =>
      obtain ⟨g, hg, hr, hm⟩ := ih fun y hy => h y (List.mem_cons_of_mem _ hy)
      cases h x List.mem_cons_self with
      | @row l c d hl hd ht hn =>
          obtain ⟨hf, hmark⟩ := updated_restamps (d := d) (u := u) hl hd ht hn
          refine ⟨g ∘ updated l c d u, fun db => ?_, hf.comp hr,
            fun _ y hy => hr.marked _ (hmark y hy)⟩
          have happ : (db.apply u (.updateRuntime l c d)).runtimes =
              db.runtimes.map (updated l c d u) := rfl
          exact (hg (db.apply u (.updateRuntime l c d))).trans (by rw [happ, List.map_map])
      | event ev =>
          refine ⟨g, fun db => hg (db.apply u (.insertEvent ev)), hr, ?_⟩
          rintro ⟨l, c, d, hmem⟩
          rcases List.mem_cons.mp hmem with he | hmem
          · cases he
          · exact hm ⟨l, c, d, hmem⟩

/-- What reconciles of the rows with the keys `ks` make of a row, since the time `c`. -/
structure Renewal (ks : List Uuid) (c : Time) (g : Stored → Stored) : Prop where
  apart : ∀ x, x.row.runtimeId ∉ ks → g x = x
  key : ∀ x, (g x).row.runtimeId = x.row.runtimeId
  stays : ∀ x, eligible (g x) = eligible x
  served : ∀ x, x.row.runtimeId ∈ ks →
    c < (g x).updatedAt ∧ ∃ t, c ≤ t ∧ (g x).row.lastReconcileAt = some t

theorem renewal_none (c : Time) : Renewal [] c id where
  apart _ _ := rfl
  key _ := rfl
  stays _ := rfl
  served _ hx := absurd hx List.not_mem_nil

theorem Renewal.cons {f g : Stored → Stored} {c c' : Time} (hf : Renewal [rid] c f)
    (hg : Renewal ks c' g)
    (hc : c ≤ c') : Renewal (rid :: ks) c (g ∘ f) where
  apart x hx := by
    have hfx : f x = x :=
      hf.apart x fun hm => hx (List.mem_cons.mpr (.inl (List.mem_singleton.mp hm)))
    simp only [Function.comp, hfx]
    exact hg.apart x fun hm => hx (List.mem_cons_of_mem _ hm)
  key x := (hg.key (f x)).trans (hf.key x)
  stays x := (hg.stays (f x)).trans (hf.stays x)
  served x hx := by
    by_cases hk : (f x).row.runtimeId ∈ ks
    · obtain ⟨hu, t, ht, hl⟩ := hg.served (f x) hk
      exact ⟨lt_of_le_of_lt hc hu, t, hc.trans ht, hl⟩
    · have hgx := hg.apart (f x) hk
      simp only [Function.comp, hgx]
      rw [hf.key] at hk
      rcases List.mem_cons.mp hx with hx | hx
      · exact hf.served x (List.mem_singleton.mpr hx)
      · exact absurd hx hk

theorem commit_sat {t : Time} (hs : Sent i ks rid t l w) (hc : c ≤ t)
    (hl : ∀ x ∈ l, Before c x.row) :
    Sat (Undisturbed rem i) (fun _ _ => True)
      (fun w' _ => Between i ks w' ∧ c ≤ w'.clock ∧ ∃ g, w'.db.runtimes = l.map g ∧
        Renewal [rid] c g)
      (fun _ _ => False) commit w := by
  refine ⟨trivial, fun a w₁ hs₁ => ?_⟩
  obtain ⟨v₁, hv₁, hs₁, -, -⟩ := hs₁
  have hsent := hv₁.sent hs
  obtain ⟨rfl, rfl⟩ := step_flush_at_rest hsent.objs hsent.jobs hsent.new hs₁
  refine ⟨trivial, fun _ w₂ hs₂ => ?_⟩
  obtain ⟨v₂, hv₂, ⟨u, hu, rfl⟩, htick, -⟩ := hs₂
  have hsent₂ := hv₂.sent hsent
  have htu : w₁.clock < u := htick rfl
  have hcu : c < u := lt_of_le_of_lt (hc.trans hsent.clock) htu
  obtain ⟨g, hg, hr, hm⟩ := applyAll_stamps u hsent₂.stamps
  have hrows : (v₂.db.applyAll u (v₂.sessions i).txn).runtimes = l.map g := by rw [hg, hsent₂.rows]
  have hmark := hm hsent₂.sent
  have hself : ∀ s, (v₂.setSession i s).sessions i = s := fun s => setSession_self v₂ i s
  refine ⟨⟨fun x hx => ?_, fun o ho => ?_, ?_, ?_, ?_, ?_⟩, hcu.le, g, hrows, ?_⟩
  · have hx' : x ∈ l.map g := hrows ▸ hx
    obtain ⟨y, hy, rfl⟩ := List.mem_map.mp hx'
    by_cases hk : y.row.runtimeId = rid
    · intro v hv
      have hvt : v = t := Option.some.inj (hv.symm.trans (hmark y hk).1)
      rw [hvt]
      exact lt_of_le_of_lt hsent.clock htu
    · rw [hr.apart y hk]
      exact (hl y hy).mono hcu.le
  · simp only [hself] at ho
    have hrest := hsent₂.objs o ho
    exact ⟨hrest.same, hrest.clean, hrest.seen.mono
      (Int.add_one_le_iff.mpr (lt_of_le_of_lt hsent.clock htu))⟩
  · simp only [hself]
    exact hsent₂.jobs
  · simp only [hself]
    exact hsent₂.new
  · simp only [hself]
  · simp only [hself]
    exact hsent₂.has
  · refine ⟨fun x hx => hr.apart x fun hk => hx (List.mem_singleton.mpr hk), hr.key, hr.stays,
      fun x hx => ?_⟩
    obtain ⟨hlast, hat⟩ := hmark x (List.mem_singleton.mp hx)
    exact ⟨hat ▸ hcu, t, hc, hlast⟩

section Verdicts

variable {S α β : Type} {step : S → (e : Eff) → Ans e → S → Prop}

theorem sat_trivially {Q : S → α → Prop} {X : S → PyExc → Prop} {p : Py α} {s : S}
    (hQ : ∀ s a, Q s a)
    (hX : ∀ s x, X s x) : Sat step (fun _ _ => True) Q X p s := by
  induction p generalizing s with
  | ret a => exact hQ s a
  | raise x => exact hX s x
  | call e k ih => exact ⟨trivial, fun a s' _ => ih a⟩

def Gives (step : S → (e : Eff) → Ans e → S → Prop) (φ : α → Prop) (p : Py α) : Prop :=
  ∀ s, Sat step (fun _ _ => True) (fun _ a => φ a) (fun _ _ => True) p s

variable {φ : α → Prop}

theorem gives_pure {a : α} (h : φ a) : Gives step φ (pure a) := fun _ => h

theorem gives_raised (cls : ExcClass) (msg : String) : Gives step φ (raised cls msg) :=
  fun _ => trivial

theorem gives_bind {p : Py β} {f : β → Py α} (h : ∀ b, Gives step φ (f b)) :
    Gives step φ (p >>= f) := by
  intro s
  rw [sat_bind]
  exact sat_trivially (fun s b => h b s) fun _ _ => trivial

theorem gives_ite {b : Prop} [Decidable b] {p q : Py α} (hp : Gives step φ p)
    (hq : Gives step φ q) :
    Gives step φ (if b then p else q) := by
  split
  · exact hp
  · exact hq

/-- The result is for the row `r`. -/
def ResultOf (r : AgentRuntime) (res : ReconcileResult) : Prop := res.runtimeId = r.runtimeId.str

variable {r : AgentRuntime}

theorem startAttempt_gives (before n : String) (v : Int) :
    Gives step (ResultOf r) (startAttempt r before n v) :=
  gives_bind fun _ => gives_bind fun _ => gives_bind fun _ => gives_pure rfl

theorem reconcileRunning_gives (before : String) (pve : Json) :
    Gives step (ResultOf r) (reconcileRunning cfg rs r before pve) := by
  unfold reconcileRunning
  apply gives_ite
  · exact gives_bind fun _ => gives_pure rfl
  apply gives_ite
  · exact gives_pure rfl
  refine gives_bind fun _ => gives_ite ?_ (gives_bind fun _ => ?_)
  · exact gives_bind fun _ => gives_bind fun _ => gives_pure rfl
  · split
    · exact startAttempt_gives _ _ _
    · exact gives_raised _ _

theorem reconcileStopped_gives (before : String) (pve : Json) :
    Gives step (ResultOf r) (reconcileStopped cfg rs r before pve) := by
  unfold reconcileStopped
  apply gives_ite
  · exact gives_bind fun _ => gives_pure rfl
  apply gives_ite
  · exact gives_pure rfl
  refine gives_bind fun _ => gives_bind fun _ => gives_bind fun _ => gives_bind fun after => ?_
  unfold shutdownOutcome
  apply gives_ite
  · exact gives_bind fun _ => gives_pure rfl
  · exact gives_bind fun _ => gives_bind fun _ => gives_pure rfl

theorem verdict_returns (cfg : Settings) (rs : ReconcileSettings) (rid : Uuid) (r : AgentRuntime)
    (s : S) :
    Sat step (fun _ _ => True) (fun _ res => ResultOf r res) (fun _ _ => False)
      (verdict cfg rs rid r) s := by
  have hpve : ∀ s, Sat step (fun _ _ => True) (fun _ _ => True) (fun _ _ => False)
      (pveVmState r.node r.vmid) s := by
    intro s
    unfold pveVmState
    split
    · split
      · trivial
      · rw [sat_tryCatch]
        exact sat_trivially (fun _ _ => trivial) fun _ _ => trivial
    · trivial
  have hconv : ∀ pve, Gives step (ResultOf r) (converge cfg rs r pve) := fun pve =>
    gives_ite (reconcileRunning_gives _ _) (reconcileStopped_gives _ _)
  have hrefuse : ∀ x s,
      Sat step (fun _ _ => True) (fun _ res => ResultOf r res) (fun _ _ => False) (refusal r x)
        s := by
    intro x s
    unfold refusal
    dsimp only
    split
    · exact ⟨trivial, fun _ _ _ => rfl⟩
    · exact ⟨trivial, fun _ _ _ => rfl⟩
  unfold verdict
  split
  · exact rfl
  · refine Sat.seq (hpve s) fun s pve _ => ?_
    split
    · exact rfl
    · split
      · exact ⟨trivial, fun _ _ _ => rfl⟩
      · rw [sat_tryCatch]
        exact (hconv pve s).mono (fun _ _ h => h) fun s x _ => hrefuse x s

end Verdicts

theorem Between.holding (hb : Between i ks w) (hrid : rid ∈ ks) : ∃ r, r.runtimeId = rid ∧
    (w.sessions i).obj? rid = some ⟨r, r, false⟩ := by
  obtain ⟨o, ho, hk⟩ := hb.has rid hrid
  cases hf : (w.sessions i).obj? rid with
  | none =>
      have hnone := List.find?_eq_none.mp hf o ho
      simp [hk] at hnone
  | some o' =>
      have hrest := hb.objs o' (List.mem_of_find?_eq_some hf)
      obtain ⟨loaded, cur, dirty⟩ := o'
      obtain rfl : cur = loaded := hrest.same
      obtain rfl : dirty = false := hrest.clean
      exact ⟨cur, obj_key hf, rfl⟩

theorem Between.judging (hb : Between i ks w) : Judging i ks rid w.clock w.db.runtimes w where
  rows := rfl
  clock := le_refl _
  keys o ho := by rw [(hb.objs o ho).same]
  seen o ho := (hb.objs o ho).seen
  desired o ho := by rw [(hb.objs o ho).same]
  apart o ho _ := hb.objs o ho
  jobs := hb.jobs
  new x hx := by
    rw [hb.new] at hx
    cases hx
  txn := hb.txn
  has := hb.has

theorem reconcile_sat (hb : Between i ks w) (hrid : rid ∈ ks) :
    Sat (Undisturbed rem i) (fun _ _ => True)
      (fun w' res => res.runtimeId = rid.str ∧ Between i ks w' ∧ w.clock ≤ w'.clock ∧
        ∃ g, w'.db.runtimes = w.db.runtimes.map g ∧ Renewal [rid] w.clock g)
      (fun _ _ => False) (reconcileRuntime cfg rs rid >>= fun res => commit >>= fun _ => pure res)
        w := by
  unfold reconcileRuntime
  rw [Prog.bind_assoc]
  refine ⟨trivial, fun a w₁ hs₁ => ?_⟩
  obtain ⟨v, hv, hs₁, -, -⟩ := hs₁
  have hbv := hv.between hb
  obtain ⟨r, hk, hobj⟩ := hbv.holding hrid
  have hget : a = some r ∧ w₁ = v := by
    simp only [World.step, World.dbStep, hobj] at hs₁
    exact hs₁
  obtain ⟨rfl, rfl⟩ := hget
  subst hk
  show Sat _ _ _ _ (reconcileRow cfg rs r.runtimeId r >>= _) w₁
  have hj : Judging i ks r.runtimeId w.clock w.db.runtimes w₁ := hv.judging hb.judging
  have hkeep :=
    (judge_verdict cfg rs r).keeps (T := Undisturbed rem i) (fun s e a s' he hi hs => hi.call he hs)
    hj
  have hverdict := (hkeep.and (verdict_returns cfg rs r.runtimeId r w₁)).weaken fun _ _ _ => trivial
  rw [reconcileRow_eq, Prog.bind_assoc]
  refine Sat.seq (hverdict.mono (fun _ _ h => h) fun _ _ h => h.2) ?_
  rintro w₂ res ⟨hj₂, hres⟩
  rw [Prog.bind_assoc]
  refine Sat.seq (record_sat res hj₂ hrid) ?_
  rintro w₃ _ ⟨t, ht, hsent⟩
  show Sat _ _ _ _ (commit >>= fun _ => pure res) w₃
  refine Sat.seq (commit_sat hsent ht hb.rows) ?_
  intro w₄ _ hend
  exact ⟨hres, hend⟩

end ServerManager.ReconcileCommits
