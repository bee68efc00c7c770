import ServerManager.ReconcileCommits
import ServerManager.Outcomes
import ServerManager.ServiceQueue
import ServerManager.RecencyList
import ServerManager.Replay
import Mathlib.Data.List.Sort

namespace ServerManager.ReconcileFairness

open Interaction PyJson Orm Effects Storage Sessions Frames Config Reconciliation Outcomes
  ReconcileCommits
open ServiceQueue Replay

variable {R : Type} {rem : Remote R} {i : Nat} {cfg : Settings} {rs : ReconcileSettings} {k : Nat}
variable {ks : List Uuid} {c : Time} {l : List Stored} {w w' : World R} {e : Eff} {a : Ans e}

/-- What reconciles of the rows with the keys `ks` have made of the world. -/
structure Renewed (ks : List Uuid) (w w' : World R) : Prop where
  clock : w.clock ≤ w'.clock
  rows : ∃ g, w'.db.runtimes = w.db.runtimes.map g ∧ Renewal ks w.clock g

theorem reconcileRows_cons (r : AgentRuntime) (rows : List AgentRuntime) :
    reconcileRows cfg rs (r :: rows) =
      (reconcileRuntime cfg rs r.runtimeId >>= fun res => commit >>= fun _ => pure res) >>=
        fun res =>
        reconcileRows cfg rs rows >>= fun rest => pure (res :: rest) := by
  rw [Prog.bind_assoc]
  apply congrArg (Bind.bind (reconcileRuntime cfg rs r.runtimeId))
  funext res
  rw [Prog.bind_assoc]
  rfl

theorem reconcileRows_sat {rows : List AgentRuntime} (hb : Between i ks w)
    (hks : ∀ r ∈ rows, r.runtimeId ∈ ks) :
    Sat (Undisturbed rem i) (fun _ _ => True)
      (fun w' results => results.map (·.runtimeId) = rows.map (·.runtimeId.str) ∧ Between i ks w' ∧
        Renewed (rows.map (·.runtimeId)) w w')
      (fun _ _ => False) (reconcileRows cfg rs rows) w := by
  induction rows generalizing w with
  | nil => exact ⟨rfl, hb, le_refl _, id, (List.map_id _).symm, renewal_none _⟩
  | cons r rows ih =>
      rw [reconcileRows_cons]
      have hr : r.runtimeId ∈ ks := hks r List.mem_cons_self
      refine Sat.seq (reconcile_sat hb hr) fun w₁ res ⟨hres, hb₁, hc₁, f, hf, hrf⟩ => ?_
      have hrest := ih hb₁ fun r hr => hks r (List.mem_cons_of_mem _ hr)
      refine Sat.seq hrest fun w₂ rest ⟨hids, hb₂, hc₂, g, hg, hrg⟩ => ?_
      refine ⟨?_, hb₂, hc₁.trans hc₂, g ∘ f, ?_, hrf.cons hrg hc₁⟩
      · simp only [List.map_cons, hres, hids]
      · rw [hg, hf, List.map_map]

/-- The eligible rows, those first whose row was written longest ago. -/
def queue (l : List Stored) : List Stored :=
  (l.filter eligible).mergeSort (fun x y => x.updatedAt ≤ y.updatedAt)

theorem refines_stamp : RecencyList.Refines Stored.updatedAt
    (fun x y => x.updatedAt ≤ y.updatedAt) where
  trans a b c hab hbc := by
    simp only [decide_eq_true_eq] at hab hbc ⊢
    exact hab.trans hbc
  total a b := by
    simp only [Bool.or_eq_true, decide_eq_true_eq]
    exact le_total _ _
  of_lt a b hab := by simpa using hab.le
  rank_le a b hab := by simpa using hab

theorem reconcilable_queue (k : Nat) (db : Db) :
    Query.run (.reconcilable k) db = ((queue db.runtimes).take k).map (·.row) := rfl

/-- A session that has not begun, over rows reconciled in the past. -/
structure AtStart (i : Nat) (w : World R) : Prop where
  session : w.sessions i = {}
  rows : ∀ x ∈ w.db.runtimes, Before w.clock x.row

theorem AtStart.between (h : AtStart i w) : Between i [] w := by
  refine ⟨h.rows, ?_, ?_, ?_, ?_, fun k hk => absurd hk List.not_mem_nil⟩
  all_goals rw [h.session]
  intro o ho
  cases ho

theorem AtStart.elsewhere (hs : AtStart i w) (h : Elsewhere i w w') : AtStart i w' := by
  refine ⟨h.own.trans hs.session, fun x hx => ?_⟩
  rw [h.rows] at hx
  exact (hs.rows x hx).mono h.clock

theorem AtStart.view (h : AtStart i w) : w.view i = w.db := by
  rw [World.view, h.session]
  rfl

theorem select_sat {q : Query} {Q : World R → List AgentRuntime → Prop} (h : AtStart i w)
    (hq : ∀ v rows w', Elsewhere i w v → AtStart i v →
    v.step rem i (.db (.selectRuntimes q)) rows w' →
      Unexpired (.db (.selectRuntimes q)) rows → Q w' rows) :
    Sat (Undisturbed rem i) (fun _ _ => True) Q (fun _ _ => False) (selectRuntimes q) w := by
  refine ⟨trivial, fun a w₁ hs₁ => ?_⟩
  obtain ⟨v₁, hv₁, hs₁, -, -⟩ := hs₁
  have h₁ := h.elsewhere hv₁
  obtain ⟨rfl, rfl⟩ := step_flush_at_rest h₁.between.objs h₁.between.jobs h₁.between.new hs₁
  refine ⟨trivial, fun rows w₂ hs₂ => ?_⟩
  obtain ⟨v₂, hv₂, hs₂, -, hun⟩ := hs₂
  refine hq v₂ rows w₂ ?_ (h₁.elsewhere hv₂) hs₂ hun
  exact ⟨hv₂.own.trans hv₁.own, hv₂.rows.trans hv₁.rows, hv₁.clock.trans hv₂.clock⟩

theorem sweep_sat (h : AtStart i w) :
    Sat (Undisturbed rem i) (fun _ _ => True) (fun w' _ => Elsewhere i w w' ∧ AtStart i w')
      (fun _ _ => False)
      expireStaleSandboxes w := by
  refine ⟨trivial, fun (t : Time) w₁ hs₁ => ?_⟩
  obtain ⟨v, hv, ⟨ht, rfl⟩, -, -⟩ := hs₁
  have hnow : Elsewhere i w { v with clock := t } := ⟨hv.own, hv.rows, hv.clock.trans ht⟩
  refine Sat.seq (Q := fun w' rows => rows = [] ∧ Elsewhere i w w' ∧ AtStart i w')
    (select_sat (h.elsewhere hnow) fun v₂ rows w₂ hv₂ h₂ hs₂ hun => ?_) fun w₂ rows hr => ?_
  · have hrows : rows = [] := hun
    obtain ⟨ha, hw⟩ := hs₂
    have hkeys := loadAll_keys (Query.run (.staleSandboxes t) (v₂.view i)) (v₂.sessions i)
    rw [← ha, hrows] at hkeys
    have hnone : Query.run (.staleSandboxes t) (v₂.view i) = [] := List.map_eq_nil_iff.mp hkeys.symm
    have hstay : w₂ = v₂ := by
      rw [hw, hnone]
      simp [Session.loadAll, World.setSession]
    rw [hstay]
    exact ⟨hrows, ⟨hv₂.own.trans hnow.own, hv₂.rows.trans hnow.rows, hnow.clock.trans hv₂.clock⟩,
      h₂⟩
  · obtain ⟨rfl, hr⟩ := hr
    exact hr

def front (k : Nat) (w : World R) : List Stored := (queue w.db.runtimes).take k

theorem front_elsewhere (h : Elsewhere i w w') : front k w' = front k w := by
  rw [front, h.rows]
  rfl

theorem AtStart.selected {rows : List AgentRuntime} (h : AtStart i w)
    (hs : w.step rem i (.db (.selectRuntimes (.reconcilable k))) rows w') :
    rows.map (·.runtimeId) = (front k w).map (·.row.runtimeId) ∧
      Between i ((front k w).map (·.row.runtimeId)) w' ∧ w'.db = w.db ∧ w'.clock = w.clock := by
  obtain ⟨ha, rfl⟩ := hs
  rw [h.view, reconcilable_queue, h.session] at ha
  rw [h.view, reconcilable_queue, h.session]
  obtain ⟨os, hos⟩ := loadAll_objs ((front k w).map (·.row)) {}
  have hself : (w.setSession i (Session.loadAll {} ((front k w).map (·.row))).2).sessions i = _ :=
    setSession_self w i _
  refine ⟨?_, ⟨h.rows, fun o ho => ?_, ?_, ?_, ?_, fun key hkey => ?_⟩, rfl, rfl⟩
  · have hkeys := loadAll_keys ((front k w).map (·.row)) {}
    rw [List.map_map] at hkeys
    exact (congrArg (List.map (·.runtimeId)) ha).trans hkeys
  · have ho' : o ∈ (Session.loadAll {} ((front k w).map (·.row))).2.objs := hself ▸ ho
    rcases mem_loadAll ho' with hnil | ⟨r, hr, rfl, -⟩
    · cases hnil
    · obtain ⟨x, hx, rfl⟩ := List.mem_map.mp hr
      have hm := List.mem_mergeSort.mp (List.mem_of_mem_take hx)
      exact ⟨rfl, rfl, h.rows x (List.mem_filter.mp hm).1⟩
  · exact (congrArg Session.jobs (hself.trans hos)).trans rfl
  · exact (congrArg Session.new (hself.trans hos)).trans rfl
  · exact (congrArg Session.txn (hself.trans hos)).trans rfl
  · obtain ⟨x, hx, rfl⟩ := List.mem_map.mp hkey
    obtain ⟨o, ho, hk⟩ := loadAll_has (List.mem_map_of_mem (f := (·.row)) hx) {}
    have ho' : o ∈ ((w.setSession i (Session.loadAll {} ((front k w).map (·.row))).2).sessions
        i).objs := by
      rw [hself]
      exact ho
    exact ⟨o, ho', hk⟩

theorem commit_between (hb : Between i ks w) :
    Sat (Undisturbed rem i) (fun _ _ => True)
      (fun w' _ => Between i ks w' ∧ w'.db.runtimes = w.db.runtimes ∧ w.clock ≤ w'.clock)
        (fun _ _ => False)
      commit w := by
  refine ⟨trivial, fun a w₁ hs₁ => ?_⟩
  obtain ⟨v₁, hv₁, hs₁, -, -⟩ := hs₁
  have hb₁ := hv₁.between hb
  obtain ⟨rfl, rfl⟩ := step_flush_at_rest hb₁.objs hb₁.jobs hb₁.new hs₁
  refine ⟨trivial, fun _ w₂ hs₂ => ?_⟩
  obtain ⟨v₂, hv₂, ⟨u, hu, rfl⟩, -, -⟩ := hs₂
  have hb₂ := hv₂.between hb₁
  have hsame : v₂.db.applyAll u (v₂.sessions i).txn = v₂.db := by
    rw [hb₂.txn]
    rfl
  have hses : (v₂.setSession i { v₂.sessions i with txn := [] }).sessions i = v₂.sessions i := by
    rw [setSession_self, ← hb₂.txn]
  have helse : Elsewhere i v₂ { v₂.setSession i { v₂.sessions i with txn := [] } with
      db := v₂.db.applyAll u (v₂.sessions i).txn, clock := u } :=
    ⟨hses, congrArg Db.runtimes hsame, hu⟩
  have hrows := helse.rows.trans (hv₂.rows.trans hv₁.rows)
  exact ⟨helse.between hb₂, hrows, (hv₁.clock.trans hv₂.clock).trans hu⟩

def pass (cfg : Settings) (rs : ReconcileSettings) (k : Nat) : Py (List ReconcileResult) :=
  withSession do
    let results ← reconcileAll cfg rs k
    commit
    pure results

theorem reconcileEvery_pass : Api.reconcileEvery cfg rs = pass cfg rs 20 := rfl

theorem reconcileAll_sat (h : AtStart i w) :
    Sat (Undisturbed rem i) (fun _ _ => True)
      (fun w' results => results.map (·.runtimeId) = (front k w).map (·.row.runtimeId.str) ∧
        (∃ ks, Between i ks w') ∧ Renewed ((front k w).map (·.row.runtimeId)) w w')
      (fun _ _ => False) (reconcileAll cfg rs k) w := by
  refine Sat.seq (sweep_sat h) fun w₁ _ ⟨he₁, h₁⟩ => ?_
  refine Sat.seq (Q := fun w' rows => rows.map (·.runtimeId) = (front k w).map (·.row.runtimeId) ∧
      Between i ((front k w).map (·.row.runtimeId)) w' ∧ w'.db.runtimes = w.db.runtimes ∧ w.clock ≤ w'.clock)
    (select_sat h₁ fun v rows w₂ hv hstart hs _ => ?_) fun w₂ rows ⟨hkeys, hb, hdb, hc⟩ => ?_
  · obtain ⟨hkeys, hb, hdb, hc⟩ := hstart.selected hs
    rw [front_elsewhere hv, front_elsewhere he₁] at hkeys hb
    refine ⟨hkeys, hb, ?_, ?_⟩
    · rw [hdb]
      exact hv.rows.trans he₁.rows
    · rw [hc]
      exact he₁.clock.trans hv.clock
  · have hmem : ∀ r ∈ rows, r.runtimeId ∈ (front k w).map (·.row.runtimeId) := fun r hr =>
      hkeys ▸ List.mem_map_of_mem hr
    refine (reconcileRows_sat hb hmem).mono
      (fun w₃ results ⟨hids, hb₃, hc₃, g, hg, hrenew⟩ => ?_) fun _ _ hx => hx
    rw [hkeys] at hrenew
    refine ⟨?_, ⟨_, hb₃⟩, hc.trans hc₃, g, ?_, ?_⟩
    · have hstr := congrArg (List.map Uuid.str) hkeys
      rw [List.map_map, List.map_map] at hstr
      exact hids.trans hstr
    · rw [hg, hdb]
    · refine ⟨hrenew.apart, hrenew.key, hrenew.stays, fun x hx => ?_⟩
      obtain ⟨hu, t, ht, hl⟩ := hrenew.served x hx
      exact ⟨lt_of_le_of_lt hc hu, t, hc.trans ht, hl⟩

theorem pass_sat (h : AtStart i w) :
    Sat (Undisturbed rem i) (fun _ _ => True)
      (fun w' results => results.map (·.runtimeId) = (front k w).map (·.row.runtimeId.str) ∧
        AtStart i w' ∧
        Renewed ((front k w).map (·.row.runtimeId)) w w')
      (fun _ _ => False) (pass cfg rs k) w := by
  unfold pass
  rw [sat_withSession]
  have hbody : Sat (Undisturbed rem i) (fun _ _ => True)
      (fun w' results => results.map (·.runtimeId) = (front k w).map (·.row.runtimeId.str) ∧
        (∃ ks, Between i ks w') ∧ Renewed ((front k w).map (·.row.runtimeId)) w w')
      (fun _ _ => False) (reconcileAll cfg rs k >>= fun results => commit >>= fun _ => pure results)
        w := by
    refine Sat.seq (reconcileAll_sat h) fun w₁ results ⟨hids, ⟨ks, hb⟩, hc, g, hg, hrenew⟩ => ?_
    refine Sat.seq (commit_between hb) fun w₂ _ ⟨hb₂, hdb, hc₂⟩ => ?_
    exact ⟨hids, ⟨ks, hb₂⟩, hc.trans hc₂, g, hdb.trans hg, hrenew⟩
  refine hbody.mono (fun w₁ results ⟨hids, ⟨ks, hb⟩, hc, hrows⟩ => ?_) fun _ _ hx => False.elim hx
  refine ⟨trivial, fun _ w₂ hs₂ => ?_⟩
  obtain ⟨v, hv, hs₂, -, -⟩ := hs₂
  have hbv := hv.between hb
  obtain rfl : w₂ = v.setSession i {} := hs₂
  refine ⟨hids, ⟨setSession_self v i {}, hbv.rows⟩, hc.trans hv.clock, ?_⟩
  obtain ⟨g, hg, hrenew⟩ := hrows
  exact ⟨g, hv.rows.trans hg, hrenew⟩

/-- Passes one after the other, and how each of them ended. -/
inductive Passes (rem : Remote R) (i : Nat) (cfg : Settings) (rs : ReconcileSettings) (k : Nat) :
    World R → List (Except PyExc (List ReconcileResult)) → World R → Prop
  | nil (w : World R) : Passes rem i cfg rs k w [] w
  | next {w v w' : World R} {tr : PyTrace} {o : Except PyExc (List ReconcileResult)}
      {os : List (Except PyExc (List ReconcileResult))} :
      Exec (Undisturbed rem i) w (pass cfg rs k) tr v (finished o) → Passes rem i cfg rs k v os w' →
        Passes rem i cfg rs k w (o :: os) w'

theorem pass_finished {tr : PyTrace} {o : Except PyExc (List ReconcileResult)} (h : AtStart i w)
    (hx : Exec (Undisturbed rem i) w (pass cfg rs k) tr w' (finished o)) :
    ∃ results, o = .ok results ∧ results.map (·.runtimeId) = (front k w).map (·.row.runtimeId.str) ∧
      AtStart i w' ∧ Renewed ((front k w).map (·.row.runtimeId)) w w' := by
  have hs := (pass_sat h).exec hx
  cases o with
  | ok results => exact ⟨results, rfl, hs⟩
  | error x => exact False.elim hs

theorem round_of_renewal {g : Stored → Stored} {T : Time} (hT : T ≤ c)
    (hg : Renewal (((queue l).take k).map (·.row.runtimeId)) c g) :
    Round (·.updatedAt) T k (l.filter eligible) (queue l)
      (fun x => x.row.runtimeId ∈ ((queue l).take k).map (·.row.runtimeId)) g where
  queue := List.mergeSort_perm _ _
  sorted := (List.pairwise_mergeSort refines_stamp.trans refines_stamp.total _).imp fun hab =>
    refines_stamp.rank_le _ _ hab
  front _ ha := List.mem_map_of_mem ha
  served a _ ha := lt_of_le_of_lt hT (hg.served a ha).1
  skipped a _ ha := hg.apart a ha

theorem filter_renewal {g : Stored → Stored} (hg : Renewal ks c g) :
    (l.map g).filter eligible = (l.filter eligible).map g := by
  rw [List.filter_map]
  congr 2
  funext x
  exact hg.stays x

variable {os : List (Except PyExc (List ReconcileResult))} {T : Time} {x : Stored}

theorem Passes.rounds (hp : Passes rem i cfg rs k w os w') (h : AtStart i w) (hT : T ≤ w.clock) :
    ∃ ss, ss.length = os.length ∧
      Rounds (·.updatedAt) T k (w.db.runtimes.filter eligible) ss (w'.db.runtimes.filter eligible) ∧
        ∀ S ∈ ss, ∃ results, .ok results ∈ os ∧
          ∀ x : Stored, S x → ∃ res ∈ results, res.runtimeId = x.row.runtimeId.str := by
  induction hp with
  | nil w => exact ⟨[], rfl, .nil _, fun S hS => absurd hS List.not_mem_nil⟩
  | @next w v w' tr o os hx _ ih =>
      obtain ⟨results, rfl, hids, hstart, hc, g, hg, hrenew⟩ := pass_finished h hx
      obtain ⟨ss, hlen, hr, hres⟩ := ih hstart (hT.trans hc)
      rw [hg, filter_renewal hrenew] at hr
      refine ⟨_ :: ss, by simp [hlen], .next (round_of_renewal hT hrenew) hr, fun S hS => ?_⟩
      rcases List.mem_cons.mp hS with rfl | hS
      · refine ⟨results, List.mem_cons_self, fun x hx => ?_⟩
        obtain ⟨y, hy, hk⟩ := List.mem_map.mp hx
        have hm : y.row.runtimeId.str ∈ results.map (·.runtimeId) := hids ▸ List.mem_map_of_mem hy
        obtain ⟨res, hres, he⟩ := List.mem_map.mp hm
        exact ⟨res, hres, he.trans (congrArg Uuid.str hk)⟩
      · obtain ⟨results', hmem, hall⟩ := hres S hS
        exact ⟨results', List.mem_cons_of_mem _ hmem, hall⟩

theorem Passes.returned (hp : Passes rem i cfg rs k w os w') (h : AtStart i w) :
    ∀ o ∈ os, ∃ results, o = .ok results := by
  induction hp with
  | nil w => exact fun o ho => absurd ho List.not_mem_nil
  | @next w v w' tr o os hx _ ih =>
      obtain ⟨results, rfl, -, hstart, -⟩ := pass_finished h hx
      intro o' ho'
      rcases List.mem_cons.mp ho' with rfl | ho'
      · exact ⟨results, rfl⟩
      · exact ih hstart o' ho'

/-- The last reconcile of the row is not from before `T`. -/
def ReconciledSince (T : Time) (x : Stored) : Prop := ∃ t, T ≤ t ∧ x.row.lastReconcileAt = some t

theorem Passes.row (hp : Passes rem i cfg rs k w os w') (h : AtStart i w) (hT : T ≤ w.clock)
    {y : Stored}
    (hy : y ∈ w.db.runtimes) (hxy : y = x ∨ ReconciledSince T y) :
    ∃ x' ∈ w'.db.runtimes, x'.row.runtimeId = y.row.runtimeId ∧ eligible x' = eligible y ∧
      (x' = x ∨ ReconciledSince T x') := by
  induction hp generalizing y with
  | nil w => exact ⟨y, hy, rfl, rfl, hxy⟩
  | @next w v w' tr o os hx _ ih =>
      obtain ⟨results, rfl, -, hstart, hc, g, hg, hrenew⟩ := pass_finished h hx
      have hgy : g y ∈ v.db.runtimes := by
        rw [hg]
        exact List.mem_map_of_mem hy
      have hor : g y = x ∨ ReconciledSince T (g y) := by
        by_cases hk : y.row.runtimeId ∈ (front k w).map (·.row.runtimeId)
        · obtain ⟨-, t, ht, hl⟩ := hrenew.served y hk
          exact .inr ⟨t, hT.trans ht, hl⟩
        · rwa [hrenew.apart y hk]
      obtain ⟨x', hx', hkey, hel, hor'⟩ := ih hstart (hT.trans hc) hgy hor
      exact ⟨x', hx', hkey.trans (hrenew.key y), hel.trans (hrenew.stays y), hor'⟩

/-- Enough passes reconcile every eligible row, and none of them raises. -/
theorem reconcile_all_serves (hk : 1 ≤ k) (h : AtStart i w)
    (hu : ∀ x ∈ w.db.runtimes, x.updatedAt ≤ w.clock)
    (hp : Passes rem i cfg rs k w os w') (hn :
    (w.db.runtimes.filter eligible).length ⌈/⌉ k ≤ os.length) :
    (∀ o ∈ os, ∃ results, o = .ok results) ∧
      ∀ x ∈ w.db.runtimes.filter eligible,
        (∃ results, .ok results ∈ os ∧ ∃ res ∈ results, res.runtimeId = x.row.runtimeId.str) ∧
          ∃ x' ∈ w'.db.runtimes, x'.row.runtimeId = x.row.runtimeId ∧
            ReconciledSince w.clock x' := by
  obtain ⟨ss, hlen, hr, hres⟩ := hp.rounds h (le_refl w.clock)
  rw [← hlen] at hn
  refine ⟨hp.returned h, fun x hx => ⟨?_, ?_⟩⟩
  · obtain ⟨hmem, -⟩ := List.mem_filter.mp hx
    obtain ⟨S, hS, hSx⟩ := hr.all_served hk hn hx (hu x hmem)
    obtain ⟨results, hok, hall⟩ := hres S hS
    exact ⟨results, hok, hall x hSx⟩
  · obtain ⟨hmem, hel⟩ := List.mem_filter.mp hx
    obtain ⟨x', hx', hkey, hel', rfl | hrec⟩ := hp.row (x := x) h (le_refl w.clock) hmem (.inl rfl)
    · have hlate := hr.none_waiting hk hn x' (List.mem_filter.mpr ⟨hx', hel⟩)
      exact absurd (hu x' hmem) (not_le.mpr hlate)
    · exact ⟨x', hx', hkey, hrec⟩

def unreachable : Oracle Unit where
  pve _ _ := some (.error ⟨.runtimeError, "connection refused"⟩, ())
  kea _ _ := none
  neigh _ _ := none

def lined (l : List Stored) : List Stored :=
  (l.filter eligible).insertionSort (fun x y => x.updatedAt ≤ y.updatedAt)

instance (l : List Stored) : Decidable (RecencyList.Ranked (·.updatedAt) l) :=
  inferInstanceAs (Decidable (l.Pairwise fun x y => x.updatedAt < y.updatedAt))

theorem queue_lined (h : RecencyList.Ranked (·.updatedAt) (lined l)) : queue l = lined l :=
  h.mergeSort_eq refines_stamp (List.perm_insertionSort _ _)

/-- The clock moves on with every commit, and no sandbox is stale. -/
def ticking (m : Machine Unit) : (e : Eff) → Option (Ans e × Machine Unit)
  | .db (.selectRuntimes (.reconcilable n)) =>
      if RecencyList.Ranked (·.updatedAt) (lined (m.view 0).runtimes) then
        (m.setSession 0 ((m.session 0).loadAll
          (((lined (m.view 0).runtimes).take n).map (·.row))).2).map
          (fun m' => (((m.session 0).loadAll (((lined (m.view 0).runtimes).take n).map (·.row))).1,
            m'))
      else none
  | .db .commit => Machine.answer unreachable 0 { m with clock := m.clock + 1 } (.db .commit)
  | .db (.selectRuntimes (.staleSandboxes t)) =>
      (Machine.answer unreachable 0 m (.db (.selectRuntimes (.staleSandboxes t)))).filter
        (fun x => x.1.isEmpty)
  | e => Machine.answer unreachable 0 m e

theorem undisturbed_of_step (hs : w.step rem i e a w') (he : e ≠ .db .commit) (hu : Unexpired e a) :
    Undisturbed rem i w e a w' :=
  ⟨w, ⟨rfl, rfl, le_refl _⟩, hs, fun hc => absurd hc he, hu⟩

theorem ticking_step (m : Machine Unit) (e : Eff) (a : Ans e) (m' : Machine Unit)
    (h : ticking m e = some (a, m')) :
    Undisturbed Remote.any 0 (m.world (fun _ => ())) e a (m'.world (fun _ => ())) := by
  have hfollow := unreachable.follows_any
  cases e with
  | db c =>
      cases c with
      | commit =>
          have hs :=
            Machine.answer_step hfollow 0 { m with clock := m.clock + 1 } (.db .commit) a m' h
          have hlt : m.clock < m.clock + 1 := Int.lt_add_one_iff.mpr (le_refl m.clock)
          have helse : Elsewhere 0 (m.world (fun _ => ()))
              (Machine.world (fun _ => ()) { m with clock := m.clock + 1 }) := ⟨rfl, rfl, hlt.le⟩
          exact ⟨_, helse, hs, fun _ => lt_of_lt_of_le hlt (step_clock hs), trivial⟩
      | selectRuntimes q =>
          cases q with
          | staleSandboxes t =>
              obtain ⟨hsome, hnil⟩ := Option.filter_eq_some_iff.mp h
              exact undisturbed_of_step (Machine.answer_step hfollow 0 m _ a m' hsome) (by simp)
                (List.isEmpty_iff.mp hnil)
          | reconcilable n =>
              obtain ⟨hr, hsome⟩ := Option.ite_none_right_eq_some.mp h
              rw [← queue_lined hr] at hsome
              have hs :=
                Machine.answer_step hfollow 0 m (.db (.selectRuntimes (.reconcilable n))) a m' hsome
              exact undisturbed_of_step hs (by simp) trivial
          | others rid =>
              exact undisturbed_of_step (Machine.answer_step hfollow 0 m _ a m' h) (by simp) trivial
      | getRuntime | getJob | findJob | placedNodes | findStep | modify | modifyJob | setStep
      | addRuntime | addJob
      | addStep | addEvent | addBridge | flush | close =>
          exact undisturbed_of_step (Machine.answer_step hfollow 0 m _ a m' h) (by simp) trivial
  | pve c | kea c | sys c =>
      exact undisturbed_of_step (Machine.answer_step hfollow 0 m _ a m' h) (by simp) trivial

def tickedPass (m : Machine Unit) : PyTrace × Machine Unit × Py (List ReconcileResult) :=
  play ticking 60 m (pass {} {} 1)

theorem Passes.play {m : Machine Unit} {os : List (Except PyExc (List ReconcileResult))}
    {w' : World Unit}
    (hend : (tickedPass m).2.2.ended = true)
    (h : Passes Remote.any 0 {} {} 1 ((tickedPass m).2.1.world (fun _ => ())) os w') :
    ∃ o, Passes Remote.any 0 {} {} 1 (m.world (fun _ => ())) (o :: os) w' := by
  have hx := play_exec (Machine.world (fun _ => ())) ticking ticking_step 60 m (pass {} {} 1)
  have hleft : ∃ o, (tickedPass m).2.2 = finished o := by
    cases hq : (tickedPass m).2.2 with
    | ret results => exact ⟨.ok results, rfl⟩
    | raise x => exact ⟨.error x, rfl⟩
    | call e k =>
        rw [hq] at hend
        cases hend
  obtain ⟨o, ho⟩ := hleft
  exact ⟨o, .next (ho ▸ hx) h⟩

def waitingRow (n : Nat) (node : Option String) (vmid : Option Int) : Stored :=
  ⟨{ runtimeId := ⟨BitVec.ofNat 128
    n⟩, acmsAgentId := "agent", provisioningRequestId := "req", name := "worker",
     node, vmid, createdByAgentRuntimeManager := true }, -n⟩

def twoRows : Machine Unit where
  db := { runtimes := [waitingRow 1 (some "miam00111") (some 700), waitingRow 2 none none] }
  sessions := [{}]
  clock := 0
  uuids := []
  remote := ()

theorem twoRows_ended : ((tickedPass twoRows).2.2.ended &&
    (tickedPass (tickedPass twoRows).2.1).2.2.ended) = true := by
  decide +kernel

/-- Two passes of one row each serve both. -/
theorem two_passes_serve :
    ∃ os w', Passes Remote.any 0 {} {} 1 (twoRows.world (fun _ => ())) os w' ∧ os.length = 2 ∧
      (∀ o ∈ os, ∃ results, o = .ok results) ∧
      ∀ x ∈ twoRows.db.runtimes.filter eligible,
        (∃ results, .ok results ∈ os ∧ ∃ res ∈ results, res.runtimeId = x.row.runtimeId.str) ∧
          ∃ x' ∈ w'.db.runtimes, x'.row.runtimeId = x.row.runtimeId ∧ ReconciledSince 0 x' := by
  obtain ⟨h₁, h₂⟩ := Bool.and_eq_true_iff.mp twoRows_ended
  obtain ⟨o₂, hlast⟩ := Passes.play h₂ (.nil _)
  obtain ⟨o₁, hboth⟩ := Passes.play h₁ hlast
  have hrows : ∀ x ∈ twoRows.db.runtimes, x.row.lastReconcileAt = none ∧ x.updatedAt ≤ 0 := by
    decide
  have hstart : AtStart 0 (twoRows.world (fun _ => ())) := by
    refine ⟨rfl, fun x hx t ht => ?_⟩
    rw [(hrows x hx).1] at ht
    cases ht
  have hcount : (twoRows.db.runtimes.filter eligible).length ⌈/⌉ 1 ≤ [o₁, o₂].length :=
    (ceilDiv_le_iff_le_mul Nat.zero_lt_one).mpr (List.length_filter_le _ _)
  exact ⟨[o₁, o₂], _, hboth, rfl,
    reconcile_all_serves (le_refl 1) hstart (fun x hx => (hrows x hx).2) hboth hcount⟩

end ServerManager.ReconcileFairness
