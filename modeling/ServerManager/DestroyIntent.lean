import ServerManager.Versions
import ServerManager.PassCalls
import ServerManager.Rehearsals

namespace ServerManager.DestroyIntent

open Interaction Interleaving PyJson Orm Effects Config ProxmoxVm Reconciliation Api Storage Calls
  Sessions Frames
open OwnershipGate PassCalls Versions Replay Rehearsals

def resting (r : AgentRuntime) : Prop := r.desiredState ≠ .desiredRunning

def Calmed (o : Obj) : Prop := o.cur.desiredState = o.loaded.desiredState ∨ resting o.cur

def AtRest (o : Obj) : Prop := resting o.loaded ∧ resting o.cur

def Settles (f : AgentRuntime → AgentRuntime) : Prop :=
  ∀ x, (f x).desiredState = x.desiredState ∨ resting (f x)

theorem merge_desired (l c x : AgentRuntime) (d : Bool) :
    (l.merge c d x).desiredState = if c.desiredState = l.desiredState then x.desiredState
    else c.desiredState := rfl

theorem calmed_any : Guards (fun _ => True) Calmed :=
  ⟨fun _ _ => .inl rfl, fun _ _ => .inl rfl, fun _ _ _ _ => trivial⟩

theorem calmed_resting : Guards resting Calmed := by
  refine ⟨fun _ _ => .inl rfl, fun _ _ => .inl rfl, fun o x ho hx => ?_⟩
  unfold resting
  rw [merge_desired]
  split
  · exact hx
  next hne => exact ho.resolve_left hne

theorem atRest_resting : Guards resting AtRest := by
  refine ⟨fun _ h => ⟨h, h⟩, fun _ h => ⟨h.2, h.2⟩, fun o x ho hx => ?_⟩
  unfold resting
  rw [merge_desired]
  split
  · exact hx
  · exact ho.2

variable {R : Type} {rem : Remote R} {rid : Uuid} {w w' : World R} {i j : Nat} {e : Eff} {a : Ans e}

theorem respects_calmed (h : ∀ k b f, e = .db (.modify k b f) → Settles f) :
    Respects Calmed rid e := by
  intro b f he o ho
  rcases h rid b f he o.cur with hf | hf
  · rcases ho with ho | ho
    · exact .inl (hf.trans ho)
    · refine .inr fun hr => ho ?_
      rw [← hf]
      exact hr
  · exact .inr hf

theorem respects_atRest (h : ∀ k b f, e = .db (.modify k b f) → Settles f) :
    Respects AtRest rid e := by
  intro b f he o ho
  refine ⟨ho.1, ?_⟩
  rcases h rid b f he o.cur with hf | hf
  · intro hr
    refine ho.2 ?_
    rw [← hf]
    exact hr
  · exact hf

/-- The statements give the row a desired state that is not DESIRED_RUNNING. -/
def Forced (rid : Uuid) (ws : List Write) : Prop :=
  ∃ l c d, .updateRuntime l c d ∈ ws ∧ l.runtimeId = rid ∧ c.desiredState ≠ l.desiredState ∧
    resting c

theorem rows_forced {db : Db} {ws : List Write} (t : Time) (hw : Writes Calmed rid ws)
    (h : Forced rid ws) :
    Rows resting rid (db.applyAll t ws) := by
  induction ws generalizing db with
  | nil =>
      obtain ⟨l, c, d, hm, -⟩ := h
      cases hm
  | cons x ws ih =>
      have hw' : Writes Calmed rid ws :=
        ⟨fun l c d hm => hw.update l c d (List.mem_cons_of_mem _ hm),
          fun r hm => hw.insert r (List.mem_cons_of_mem _ hm)⟩
      obtain ⟨l, c, d, hm, hk, hl, hc⟩ := h
      rcases List.mem_cons.mp hm with rfl | hm
      · have hhead : Rows resting rid (db.apply t (.updateRuntime l c d)) := by
          intro y hy hyk
          obtain ⟨z, hz, rfl⟩ := List.mem_map.mp hy
          by_cases hzl : z.row.runtimeId = l.runtimeId
          · rw [if_pos hzl]
            change (l.merge c d z.row).desiredState ≠ _
            rw [merge_desired, if_neg hl]
            exact hc
          · rw [if_neg hzl] at hyk
            exact absurd (hyk.trans hk.symm) hzl
        have hall : Rows resting rid ((db.apply t (.updateRuntime l c d)).applyAll t ws) :=
          rows_applyAll calmed_resting t hw' hhead
        exact hall
      · exact ih hw' ⟨l, c, d, hm, hk, hl, hc⟩

theorem seen_resting {db : Db} {ws : List Write} {t : Time} (hw : Writes Calmed rid ws) {x : Stored}
    (hx : x ∈ (db.applyAll t ws).runtimes) (hk : x.row.runtimeId = rid) (hr : resting x.row) :
    (∃ y ∈ db.runtimes, y.row.runtimeId = rid ∧ resting y.row) ∨ Forced rid ws := by
  induction ws generalizing db with
  | nil => exact .inl ⟨x, hx, hk, hr⟩
  | cons v ws ih =>
      have hw' : Writes Calmed rid ws :=
        ⟨fun l c d hm => hw.update l c d (List.mem_cons_of_mem _ hm),
          fun r hm => hw.insert r (List.mem_cons_of_mem _ hm)⟩
      have hx' : x ∈ ((db.apply t v).applyAll t ws).runtimes := hx
      rcases ih hw' hx' with ⟨y, hy, hyk, hyr⟩ | ⟨l, c, d, hm, h⟩
      · cases v with
        | updateRuntime l c d =>
            obtain ⟨z, hz, rfl⟩ := List.mem_map.mp hy
            by_cases hzl : z.row.runtimeId = l.runtimeId
            · rw [if_pos hzl] at hyr hyk
              have hzk : z.row.runtimeId = rid := hyk
              have hyr' : (l.merge c d z.row).desiredState ≠ .desiredRunning := hyr
              rw [merge_desired] at hyr'
              split at hyr'
              · exact .inl ⟨z, hz, hzk, hyr'⟩
              next hne => exact .inr ⟨l, c, d, List.mem_cons_self, hzl.symm.trans hzk, hne, hyr'⟩
            · rw [if_neg hzl] at hyr hyk
              exact .inl ⟨z, hz, hyk, hyr⟩
        | insertRuntime r =>
            rcases List.mem_append.mp hy with hy | hy
            · exact .inl ⟨y, hy, hyk, hyr⟩
            · rw [List.mem_singleton.mp hy] at hyk
              exact absurd hyk (hw.insert r List.mem_cons_self)
        | updateJob | updateStep | insertJob | insertStep | insertEvent | insertBridge =>
            exact .inl ⟨y, hy, hyk, hyr⟩
      · exact .inr ⟨l, c, d, List.mem_cons_of_mem _ hm, h⟩

/-- Whatever a session has loaded at rest is at rest, or will be with its commit. -/
def Settled (rid : Uuid) (w : World R) : Prop :=
  ∀ j, ∀ o ∈ (w.sessions j).objs, o.cur.runtimeId = rid → resting o.loaded →
    Rows resting rid w.db ∨ Forced rid (w.sessions j).txn

theorem rows_of_mem {db : Db} (hd : Distinct db) {x : Stored} (hx : x ∈ db.runtimes)
    (hk : x.row.runtimeId = rid)
    (hr : resting x.row) : Rows resting rid db := by
  intro y hy hyk
  have hxy := (runtime?_of_mem hd hx).symm.trans ((hk.trans hyk.symm) ▸ runtime?_of_mem hd hy)
  rw [← Option.some.inj hxy]
  exact hr

theorem rows_step (hh : Everywhere (fun _ => True) (fun _ => Calmed) rid w)
    (hs : w.step rem i e a w')
    (h : Rows resting rid w.db) : Rows resting rid w'.db := by
  rcases step_db hs with hdb | ⟨-, t, hdb⟩
  · rw [hdb]
    exact h
  · rw [hdb]
    exact rows_applyAll calmed_resting t (hh.sessions i).txn h

theorem Settled.step (hh : Everywhere (fun _ => True) (fun _ => Calmed) rid w) (hd : Distinct w.db)
    (hs : w.step rem i e a w') (h : Settled rid w) : Settled rid w' := by
  intro j o ho hk hr
  by_cases hj : j = i
  · subst hj
    have hview : ∀ x ∈ (w.view j).runtimes, x.row.runtimeId = rid → resting x.row →
        Rows resting rid w.db ∨ Forced rid (w.sessions j).txn := by
      intro x hx hxk hxr
      rcases seen_resting (hh.sessions j).txn hx hxk hxr with ⟨y, hy, hyk, hyr⟩ | hf
      · exact .inl (rows_of_mem hd hy hyk hyr)
      · exact .inr hf
    have hrows := rows_step hh hs
    have hcommit : e = .db .commit → ∃ t, w'.db = w.db.applyAll t (w.sessions j).txn := by
      rintro rfl
      exact (step_commit hs).2
    have ht := step_turn hs
    generalize w'.sessions j = s' at ht ho
    cases ht with
    | keep | jobs | add => exact (h j o ho hk hr).imp_left hrows
    | @load k r hv hn =>
        obtain ⟨os, hos⟩ := load_objs (w.sessions j) r
        rw [hos]
        rcases mem_load ho with ho | ⟨rfl, -⟩
        · exact (h j o ho hk hr).imp_left hrows
        · obtain ⟨x, hx, rfl⟩ := Option.map_eq_some_iff.mp hv
          exact (hview x (List.mem_of_find?_eq_some hx) hk hr).imp_left hrows
    | loadAll q =>
        obtain ⟨os, hos⟩ := loadAll_objs (Query.run q (w.view j)) (w.sessions j)
        rw [hos]
        rcases mem_loadAll ho with ho | ⟨r, hrq, rfl, -⟩
        · exact (h j o ho hk hr).imp_left hrows
        · obtain ⟨x, hx, rfl⟩ := query_mem hrq
          exact (hview x hx hk hr).imp_left hrows
    | modify k b f =>
        rcases mem_modify ho with ⟨ho, -⟩ | ⟨o', ho', hk', rfl⟩
        · exact (h j o ho hk hr).imp_left hrows
        · exact (h j o' ho' hk hr).imp_left hrows
    | flush =>
        have hold : ∀ o' ∈ (w.sessions j).objs, o'.cur.runtimeId = rid → resting o'.cur →
            Rows resting rid w.db ∨ Forced rid
              ((w.sessions j).txn ++ (w.sessions j).pending w.clock) := by
          intro o' ho' hk' hr'
          by_cases hc : o'.cur.desiredState = o'.loaded.desiredState
          · have hl : resting o'.loaded := fun hl => hr' (hc.trans hl)
            rcases h j o' ho' hk' hl with h | ⟨l, c, d, hm, hf⟩
            · exact .inl h
            · exact .inr ⟨l, c, d, List.mem_append_left _ hm, hf⟩
          · refine .inr ⟨o'.loaded, o'.cur, o'.dirty, List.mem_append_right _ ?_,
              ((hh.sessions j).keys o' ho').trans hk', hc, hr'⟩
            refine List.mem_append_left _ (List.mem_append_left _
              (List.mem_flatMap.mpr ⟨o', ho', ?_⟩))
            simp [Obj.write, changed, hc]
        rcases mem_flush ho with ⟨o', ho', rfl⟩ | ⟨r, hr', rfl⟩
        · exact (hold o' ho' hk hr).imp_left hrows
        · exact absurd hk ((hh.sessions j).new r hr')
    | commit =>
        refine .inl ?_
        obtain ⟨t, hdb⟩ := hcommit rfl
        rcases h j o ho hk hr with hr' | hf
        · exact hrows hr'
        · rw [hdb]
          exact rows_forced t (hh.sessions j).txn hf
    | rollback | close => cases ho
  · rw [step_other hs hj] at ho ⊢
    exact (h j o ho hk hr).imp_left (rows_step hh hs)

def audits (rid : Uuid) (ev : RuntimeEvent) : Prop :=
  ev.action = "destroy_audit" ∧ ev.runtimeId = rid

/-- The `destroy_audit` event of the runtime has been committed. -/
def accepted (rid : Uuid) (past : PyTrace) : Prop :=
  ∃ before after : PyTrace, past = before ++ ⟨.db .commit, ()⟩ :: after ∧
    ∃ ev, audits rid ev ∧ ⟨.db (.addEvent ev), ()⟩ ∈ before

def closed (past : PyTrace) : Prop := ∃ a : Unit, ⟨.db .close, a⟩ ∈ past

/-- The row was read as `r`. -/
def saw (rid : Uuid) (past : PyTrace) (r : AgentRuntime) : Prop :=
  ⟨.db (.getRuntime rid), some r⟩ ∈ past

/-- The forced stop that follows a failed shutdown raises, or the destroy call does. -/
def fails : Event Eff Ans → Prop
  | ⟨.pve (.stop ..), a⟩ => ∃ x : PyExc, a = .error x
  | ⟨.pve (.destroy ..), a⟩ => ∃ x : PyExc, a = .error x
  | _ => False

def failed (past : PyTrace) : Prop := ∃ ev ∈ past, fails ev

/-- The session has the row, not to run, and nothing of it is on its way. -/
def Delivered (rid : Uuid) (s : Session) : Prop :=
  (∃ o ∈ s.objs, o.cur.runtimeId = rid ∧ resting o.loaded) ∧ s.txn = []

/-- What the calls of a DELETE request for `rid` promise. -/
def Deleting (rid : Uuid) (s : Session × PyTrace) : Eff → Prop
  | .db (.getRuntime k) => k = rid ∧ s.2 = []
  | .db (.modify _ _ f) => ¬ closed s.2 ∧ Settles f
  | .db (.addRuntime _) | .db (.addJob _) => False
  | .db .close => ¬ closed s.2 ∧ (accepted rid s.2 → failed s.2 ∨ Delivered rid s.1)
  | .pve (.start ..) => False
  | _ => ¬ closed s.2 ∧ ∃ r, saw rid s.2 r

/-- What a session shows its process while no job is inserted. -/
def Shows (s : Session) : (e : Eff) → Ans e → Session → Prop
  | .db .flush, a, s' => a = .ok () ∧ ∃ t, s' = s.flush t
  | e, a, s' => Local s e a s'

def beside : Eff → Prop
  | .pve (.start ..) => False
  | .db (.addEvent _) | .pve _ | .kea _ | .sys _ => True
  | _ => False

def closes : Eff → Prop
  | .db .close => True
  | _ => False

section Delete

variable {cfg : Settings} {actor : String} {H : List Obj → Prop} {s s' : Session × PyTrace}

/-- The request is at work on its row, and of the objects of its session `H` holds. -/
structure AtWork (rid : Uuid) (H : List Obj → Prop) (s : Session × PyTrace) : Prop where
  objs : H s.1.objs
  opened : ¬ closed s.2
  read : ∃ r, saw rid s.2 r

def unaudited (rid : Uuid) (past : PyTrace) : Prop :=
  ∀ ev, audits rid ev → ⟨.db (.addEvent ev), ()⟩ ∉ past

def Leaving (rid : Uuid) (s : Session × PyTrace) : Prop :=
  ¬ closed s.2 ∧ (accepted rid s.2 → failed s.2 ∨ Delivered rid s.1)

theorem closed_append {past : PyTrace} {ev : Event Eff Ans} (h : ¬ closed past)
    (he : ¬ closes ev.1) :
    ¬ closed (past ++ [ev]) := by
  rintro ⟨b, hb⟩
  rcases List.mem_append.mp hb with hb | hb
  · exact h ⟨b, hb⟩
  · rw [← List.mem_singleton.mp hb] at he
    exact he trivial

theorem saw_append {past : PyTrace} {r : AgentRuntime} (ev : Event Eff Ans) (h : saw rid past r) :
    saw rid (past ++ [ev]) r :=
  List.mem_append_left _ h

theorem AtWork.next {H' : List Obj → Prop} (h : AtWork rid H s) (he : ¬ closes e)
    (hs : s'.2 = s.2 ++ [⟨e, a⟩]) (ho : H' s'.1.objs) : AtWork rid H' s' := by
  refine ⟨ho, ?_, ?_⟩
  · rw [hs]
    exact closed_append h.opened he
  · obtain ⟨r, hr⟩ := h.read
    rw [hs]
    exact ⟨r, saw_append _ hr⟩

theorem beside_of_observes (h : observes e) : beside e := by
  unfold observes at h
  split at h
  all_goals first | exact False.elim h | exact trivial

theorem beside_objs {s s' : Session} (he : beside e) (h : Shows s e a s') : s'.objs = s.objs := by
  cases e with
  | pve c => rw [show s' = s from h]
  | kea c => rw [show s' = s from h]
  | sys c => rw [show s' = s from h]
  | db c =>
      cases c with
      | addEvent ev => rw [show s' = _ from h]
      | _ => exact False.elim he

theorem beside_promise (he : beside e) (h : AtWork rid H s) : Deleting rid s e ∧ ¬ closes e := by
  unfold beside at he
  split at he
  · exact False.elim he
  · exact ⟨⟨h.opened, h.read⟩, id⟩
  next c hc =>
      cases c with
      | start n v => exact absurd rfl (hc n v)
      | _ => exact ⟨⟨h.opened, h.read⟩, id⟩
  · exact ⟨⟨h.opened, h.read⟩, id⟩
  · exact ⟨⟨h.opened, h.read⟩, id⟩
  · exact False.elim he

theorem sat_beside {α : Type} {p : Py α} (hp : Only beside p) (h : AtWork rid H s) :
    Sat (traced Shows) (Deleting rid) (fun s _ => AtWork rid H s) (fun s _ => AtWork rid H s) p
      s := by
  refine (hp.keeps (T := traced Shows) (I := AtWork rid H) ?_ h).weaken fun s e he =>
    (beside_promise he.1 he.2).1
  rintro s e a s' he hi ⟨hl, hs⟩
  refine hi.next (beside_promise he hi).2 hs ?_
  rw [beside_objs he hl]
  exact hi.objs

theorem sat_event {Q : Session × PyTrace → Unit → Prop} {X : Session × PyTrace → PyExc → Prop}
    {ev : RuntimeEvent}
    (h : AtWork rid H s) (hq : ∀ s', s'.2 = s.2 ++ [⟨.db (.addEvent ev), ()⟩] → AtWork rid H s' →
    Q s' ()) :
    Sat (traced Shows) (Deleting rid) Q X (addEvent ev) s := by
  refine ⟨⟨h.opened, h.read⟩, fun a s' hs => hq s' hs.2 ?_⟩
  refine h.next id hs.2 ?_
  rw [beside_objs (e := .db (.addEvent ev)) trivial hs.1]
  exact h.objs

theorem sat_commit {H' : List Obj → Prop} {Q : Session × PyTrace → Unit → Prop}
    {X : Session × PyTrace → PyExc → Prop}
    (h : AtWork rid H s) (hf : ∀ (s : Session) t, H s.objs → H' (s.flush t).objs)
    (hq : ∀ s', s'.2 = s.2 ++ [⟨.db .flush, .ok ()⟩] ++ [⟨.db .commit, ()⟩] → s'.1.txn = [] →
    AtWork rid H' s' → Q s' ()) :
    Sat (traced Shows) (Deleting rid) Q X commit s := by
  unfold commit flush
  refine (sat_bind _ _ _).mpr ⟨⟨h.opened, h.read⟩, fun fl s₁ hs₁ => ?_⟩
  obtain ⟨⟨rfl, t, ht⟩, hp⟩ := hs₁
  have h₁ : AtWork rid H' s₁ := by
    refine h.next id hp ?_
    rw [ht]
    exact hf s.1 t h.objs
  refine ⟨⟨h₁.opened, h₁.read⟩, fun u s₂ hs₂ => ?_⟩
  have hc : s₂.1 = { s₁.1 with txn := [] } := hs₂.1
  refine hq s₂ ?_ ?_ (h₁.next id hs₂.2 ?_)
  · rw [hs₂.2, hp]
    rfl
  · rw [hc]
  · rw [hc]
    exact h₁.objs

def Has (rid : Uuid) (os : List Obj) : Prop := ∃ o ∈ os, o.cur.runtimeId = rid

theorem has_flush (s : Session) (t : Time) (h : Has rid s.objs) : Has rid (s.flush t).objs := by
  obtain ⟨o, ho, hk⟩ := h
  exact ⟨⟨o.cur, o.cur, false⟩, List.mem_append_left _ (List.mem_map.mpr ⟨o, ho, rfl⟩), hk⟩

theorem not_accepted {past : PyTrace} (h : unaudited rid past) : ¬ accepted rid past := by
  rintro ⟨before, after, rfl, ev, ha, hm⟩
  exact h ev ha (List.mem_append_left _ hm)

theorem unaudited_append {past : PyTrace} {ev : Event Eff Ans} (h : unaudited rid past)
    (he : ∀ x, ev.1 = .db (.addEvent x) → ¬ audits rid x) : unaudited rid (past ++ [ev]) := by
  intro x hx hm
  rcases List.mem_append.mp hm with hm | hm
  · exact h x hx hm
  · exact he x (congrArg Sigma.fst (List.mem_singleton.mp hm)).symm hx

theorem Leaving.early (h : AtWork rid H s) (hu : unaudited rid s.2) : Leaving rid s :=
  ⟨h.opened, fun ha => absurd ha (not_accepted hu)⟩

theorem destroyRefused_sat {Q : Session × PyTrace → Unit → Prop} (x : PyExc)
    (h : AtWork rid (Has rid) s)
    (hu : unaudited rid s.2) :
    Sat (traced Shows) (Deleting rid) Q (fun s _ => Leaving rid s) (destroyRefused rid actor x)
      s := by
  unfold destroyRefused
  split
  · refine (sat_bind _ _ _).mpr (sat_event h fun s₁ hs₁ h₁ => ?_)
    have hu₁ : unaudited rid s₁.2 := by
      rw [hs₁]
      refine unaudited_append hu fun ev he ha => ?_
      cases he
      exact absurd ha.1 (by simp)
    refine (sat_bind _ _ _).mpr (sat_commit h₁ has_flush fun s₂ hs₂ _ h₂ => ?_)
    refine Leaving.early h₂ ?_
    rw [hs₂]
    refine unaudited_append (unaudited_append hu₁ fun ev he => ?_) fun ev he => ?_
    · cases he
    · cases he
  · exact Leaving.early h hu

theorem verifyOwnership_sat (protectedVmids : List Int) (n : String) (v : Int) (r : AgentRuntime)
    (h : AtWork rid (Has rid) s) (hu : unaudited rid s.2) :
    Sat (traced Shows) (Deleting rid) (fun s _ => AtWork rid (Has rid) s) (fun s _ => Leaving rid s)
      (tryCatch (verifyOwnership protectedVmids n v r) (destroyRefused rid actor)) s := by
  have hv := (only_verifyOwnership protectedVmids n v r).keeps (T := traced Shows)
    (I := fun s => AtWork rid (Has rid) s ∧ unaudited rid s.2) (s := s) ?_ ⟨h, hu⟩
  · refine (sat_tryCatch _ _ _).mpr ((hv.weaken ?_).mono (fun _ _ hs => hs.1) fun s x hs => ?_)
    · rintro s e ⟨he, hi, -⟩
      exact (beside_promise (beside_of_observes he) hi).1
    · exact destroyRefused_sat x hs.1 hs.2
  · rintro s e a s' he ⟨hi, hu⟩ ⟨hl, hs⟩
    have hb := beside_of_observes he
    refine ⟨hi.next (beside_promise hb hi).2 hs ?_, ?_⟩
    · rw [beside_objs hb hl]
      exact hi.objs
    · rw [hs]
      refine unaudited_append hu fun ev hev => ?_
      cases hev
      exact False.elim he

theorem sat_pveCall {Q : Session × PyTrace → Json → Prop} {X : Session × PyTrace → PyExc → Prop}
    {c : PveCall}
    (hb : beside (.pve c)) (h : AtWork rid H s) (hq : ∀ s' x, AtWork rid H s' → Q s' x)
    (hx : ∀ (s' : Session × PyTrace) (x : PyExc), s'.2 = s.2 ++ [⟨.pve c, .error x⟩] →
    AtWork rid H s' → X s' x) :
    Sat (traced Shows) (Deleting rid) Q X (pve c) s := by
  refine (sat_pve c).mpr ⟨(beside_promise hb h).1, fun a s' hs => ?_⟩
  have h' : AtWork rid H s' := by
    refine h.next (e := .pve c) id hs.2 ?_
    rw [beside_objs hb hs.1]
    exact h.objs
  cases a with
  | ok x => exact hq s' x h'
  | error x => exact hx s' x hs.2 h'

theorem Leaving.late (h : AtWork rid H s) (hf : failed s.2) : Leaving rid s :=
  ⟨h.opened, fun _ => .inl hf⟩

theorem failed_now {past : PyTrace} {ev : Event Eff Ans} (h : fails ev) : failed (past ++ [ev]) :=
  ⟨ev, List.mem_append_right _ List.mem_cons_self, h⟩

theorem shutdown_sat (n : String) (v : Int) (h : AtWork rid H s) :
    Sat (traced Shows) (Deleting rid) (fun s _ => AtWork rid H s) (fun s _ => Leaving rid s)
      (shutdown n v) s := by
  unfold shutdown stopForce
  rw [sat_tryCatch, sat_bind]
  refine sat_pveCall trivial h (fun s' _ h' => h') fun s' x _ h' => ?_
  rw [sat_bind]
  refine sat_pveCall trivial h' (fun s' _ h' => h') fun s₂ y hs₂ h₂ => ?_
  refine Leaving.late h₂ ?_
  rw [hs₂]
  exact failed_now ⟨y, rfl⟩

theorem destroy_sat (n : String) (v : Int) (h : AtWork rid H s) :
    Sat (traced Shows) (Deleting rid) (fun s _ => AtWork rid H s) (fun s _ => Leaving rid s)
      (destroy n v) s := by
  unfold destroy
  rw [sat_bind]
  refine sat_pveCall trivial h (fun s' _ h' => h') fun s' y hs' h' => ?_
  refine Leaving.late h' ?_
  rw [hs']
  exact failed_now ⟨y, rfl⟩

def Retired (rid : Uuid) (os : List Obj) : Prop := ∃ o ∈ os, o.cur.runtimeId = rid ∧ resting o.cur

def Sent (rid : Uuid) (os : List Obj) : Prop := ∃ o ∈ os, o.cur.runtimeId = rid ∧ resting o.loaded

theorem retired_flush (s : Session) (t : Time) (h : Retired rid s.objs) :
    Sent rid (s.flush t).objs := by
  obtain ⟨o, ho, hk, hr⟩ := h
  exact ⟨⟨o.cur, o.cur, false⟩, List.mem_append_left _ (List.mem_map.mpr ⟨o, ho, rfl⟩), hk, hr⟩

theorem releaseReservation_sat (om : Dict) (h : AtWork rid H s) :
    Sat (traced Shows) (Deleting rid) (fun s _ => AtWork rid H s) (fun _ _ => False)
      (releaseReservation cfg rid om actor) s := by
  have hevent : ∀ ev, Only beside (addEvent ev) := fun ev => only_call trivial fun _ => only_ret _
  unfold releaseReservation
  dsimp only
  split
  · refine (sat_tryCatch _ _ _).mpr ?_
    refine (sat_beside (H := H) ?_ h).mono (fun _ _ hs => hs) fun s x hs => ?_
    · refine Only.bind (only_newService cfg) fun _ => Only.bind ?_ fun _ => hevent _
      exact only_release _ trivial (fun _ => trivial) trivial
    · exact sat_event hs fun _ _ h' => h'
  · exact h

theorem destroyComplete_sat (r : AgentRuntime) (h : AtWork rid (Has rid) s) :
    Sat (traced Shows) (Deleting rid) (fun s _ => Leaving rid s) (fun s _ => Leaving rid s)
      (destroyComplete cfg rid r actor) s := by
  unfold destroyComplete Effects.modify
  refine (sat_bind _ _ _).mpr ⟨⟨h.opened, fun _ => .inr fun hd => RuntimeState.noConfusion hd⟩,
    fun _ s₁ hs₁ => ?_⟩
  have h₁ : AtWork rid (Retired rid) s₁ := by
    refine h.next id hs₁.2 ?_
    rw [show s₁.1 = _ from hs₁.1]
    obtain ⟨o, ho, hk⟩ := h.objs
    refine ⟨_, List.mem_map.mpr ⟨o, ho, rfl⟩, ?_⟩
    rw [if_pos hk]
    exact ⟨hk, fun hd => RuntimeState.noConfusion hd⟩
  refine (sat_bind _ _ _).mpr (sat_event h₁ fun s₂ _ h₂ => ?_)
  refine (sat_bind _ _ _).mpr ((releaseReservation_sat _ h₂).mono (fun s₃ _ h₃ => ?_) fun _ _ hf =>
    hf.elim)
  refine sat_commit h₃ retired_flush fun s₄ _ ht h₄ => ⟨h₄.opened, fun _ => .inr ⟨h₄.objs, ht⟩⟩

theorem destroyAgentRuntime_sat (past : Session) :
    Sat (traced Shows) (Deleting rid) (fun _ _ => True) (fun _ _ => True)
      (destroyAgentRuntime cfg rid actor)
      (past, []) := by
  have hclose : ∀ s : Session × PyTrace, Leaving rid s →
      Sat (traced Shows) (Deleting rid) (fun _ _ => True) (fun _ _ => True) close s := fun s hs =>
    ⟨hs, fun _ _ _ => trivial⟩
  have hnil : ¬ closed ([] : PyTrace) := fun ⟨_, h⟩ => absurd h List.not_mem_nil
  unfold destroyAgentRuntime
  rw [sat_withSession]
  refine Sat.mono (Q := fun s _ => Leaving rid s) (X := fun s _ => Leaving rid s) ?_
    (fun s _ hs => hclose s hs)
    fun s _ hs => hclose s hs
  rw [sat_bind, sat_getRuntime]
  refine ⟨⟨rfl, rfl⟩, fun found s₁ hs₁ => ?_⟩
  have hp : s₁.2 = [⟨.db (.getRuntime rid), found⟩] := hs₁.2
  have hopen : ¬ closed s₁.2 := hs₁.2 ▸ closed_append hnil id
  have hu : unaudited rid s₁.2 := by
    rw [hp]
    intro ev _ hm
    cases congrArg Sigma.fst (List.mem_singleton.mp hm)
  have hleave : Leaving rid s₁ := ⟨hopen, fun ha => absurd ha (not_accepted hu)⟩
  cases found with
  | none => exact hleave
  | some r =>
      obtain ⟨hk, o, ho, hr⟩ := hs₁.1 r rfl
      have h : AtWork rid (Has rid) s₁ := by
        refine ⟨⟨o, ho, hr ▸ hk⟩, hopen, r, ?_⟩
        rw [hp]
        exact List.mem_singleton_self _
      dsimp only
      split
      next n v hn hv =>
          refine Sat.seq (verifyOwnership_sat _ n v r h hu) fun s₂ _ h₂ => ?_
          refine (sat_bind _ _ _).mpr (sat_event h₂ fun s₃ _ h₃ => ?_)
          refine (sat_bind _ _ _).mpr (sat_commit h₃ has_flush fun s₄ _ _ h₄ => ?_)
          refine Sat.seq (shutdown_sat n v h₄) fun s₅ _ h₅ => ?_
          refine Sat.seq (destroy_sat n v h₅) fun s₆ _ h₆ => ?_
          exact destroyComplete_sat r h₆
      · exact hleave

end Delete

def Passing (s : Session × PyTrace) : Eff → Prop
  | .db (.modify _ _ f) => Settles f
  | .db (.addRuntime _) | .db (.addJob _) => False
  | .pve (.start ..) => ∃ r, Loaded r s.2 ∧ r.desiredState = .desiredRunning
  | _ => True

theorem covers_passing : Covers Passing := by
  refine ⟨fun s e he => ?_, fun s k => ?_, fun s r e hl he => ?_⟩
  · unfold housekeeping at he
    split at he
    all_goals first | exact False.elim he | exact trivial
  · exact fun x => .inr fun hd => RuntimeState.noConfusion hd
  · cases he with
    | @observe e ho =>
        unfold observes at ho
        split at ho
        all_goals first | exact False.elim ho | exact trivial
    | event | flush | shutdown | stop => exact trivial
    | modify hf => exact fun x => .inl (hf.desired x)
    | start n v hd => exact ⟨r, hl, hd⟩

def working : Request → Prop
  | .destroy .. | .reconcileOne .. | .reconcileEvery _ => True
  | _ => False

def promise : Request → Session × PyTrace → Eff → Prop
  | .destroy rid _ => Deleting rid
  | .reconcileOne _ rid => fun s e => Passing s e ∧ ∀ k, e = .db (.getRuntime k) → k = rid
  | _ => Passing

theorem keyed_shows : Keyed Shows := fun _ _ _ _ h r hr => (h r hr).1

theorem request_sat (cfg : Settings) {q : Request} (hq : working q) :
    Sat (traced Shows) (promise q) (fun _ _ => True) (fun _ _ => True) (q.prog cfg) ({}, []) := by
  cases q with
  | destroy rid actor => exact destroyAgentRuntime_sat {}
  | reconcileOne rs rid =>
      refine reconcileOne_sat (G := promise (.reconcileOne rs rid)) keyed_shows ?_ cfg rs fun s =>
        ⟨trivial, ?_⟩
      · refine ⟨fun s e he => ⟨covers_passing.aside s e he, ?_⟩,
          fun s k => ⟨covers_passing.sweep s k, ?_⟩,
          fun s r e hl he => ⟨covers_passing.pass s r e hl he, ?_⟩⟩
        · rintro k rfl
          exact False.elim he
        · intro k hk
          cases hk
        · rintro k rfl
          exact absurd trivial (passCall_stays he)
      · intro k hk
        cases hk
        rfl
  | reconcileEvery rs =>
      exact reconcileEvery_sat keyed_shows covers_passing cfg rs fun _ _ => trivial
  | create | desiredState | supersede => exact False.elim hq

/-- The operation is a reconcile that takes up the runtime. -/
def takesUp (rid : Uuid) : Request → Prop
  | .reconcileOne _ k => k = rid
  | .reconcileEvery _ => True
  | _ => False

/-- Steps in which no accepted DELETE of a runtime that is to run fails, and no
reconcile takes the runtime up while such a DELETE is under way. -/
structure Undisturbed (reqs : Nat → Request) (rid : Uuid) (c : Parties R) (i : Nat)
    (ev : Event Eff Ans) : Prop where
  returns : ∀ actor r, reqs i = .destroy rid actor → saw rid (c.procs i).trace r →
    r.desiredState = .desiredRunning →
    ¬ fails ev
  apart : takesUp rid (reqs i) → (c.procs i).trace = [] → ∀ j actor, reqs j = .destroy rid actor →
    accepted rid (c.procs j).trace → closed (c.procs j).trace ∨ ∃ r, saw rid (c.procs j).trace r ∧
      resting r

structure Beginning (cfg : Settings) (reqs : Nat → Request) (w : World R) : Prop where
  requests : ∀ i, working (reqs i)
  distinct : Distinct w.db
  sessions : ∀ j, w.sessions j = {}

structure Steady (reqs : Nat → Request) (rid : Uuid) (c : Parties R) : Prop where
  requests : ∀ i, working (reqs i)
  distinct : Distinct c.world.db
  noRow : ∀ j, SessionNoInsert (c.world.sessions j)
  noJob : ∀ j, ∀ x ∈ (c.world.sessions j).new, ∀ y, x ≠ .insertJob y
  held : Everywhere (fun _ => True) (fun _ => Calmed) rid c.world
  settled : Settled rid c.world
  fresh : ∀ j, (c.procs j).trace = [] → c.world.sessions j = {}
  read : ∀ j k r, ⟨.db (.getRuntime k), some r⟩ ∈ (c.procs j).trace →
    r.runtimeId = k ∧ ∀ rs k₀, reqs j = .reconcileOne rs k₀ → k = k₀
  excused : ∀ j actor, reqs j = .destroy rid actor → failed (c.procs j).trace →
    ∃ r, saw rid (c.procs j).trace r ∧ resting r
  spared : ∀ j actor r, reqs j = .destroy rid actor → saw rid (c.procs j).trace r → resting r →
    Rows resting rid c.world.db
  ended : ∀ j actor, reqs j = .destroy rid actor → accepted rid (c.procs j).trace →
    closed (c.procs j).trace →
    Rows resting rid c.world.db

section Keeps

variable {reqs : Nat → Request} {c d : Parties R} {s : Session × PyTrace}

theorem promise_calm {q : Request} (h : promise q s e) :
    (∀ k b f, e = .db (.modify k b f) → Settles f) ∧ (∀ r, e ≠ .db (.addRuntime r)) ∧ ∀ y,
    e ≠ .db (.addJob y) := by
  have hpass : Passing s e →
      (∀ k b f, e = .db (.modify k b f) → Settles f) ∧ (∀ r, e ≠ .db (.addRuntime r)) ∧ ∀ y,
        e ≠ .db (.addJob y) := by
    refine fun h => ⟨?_, ?_, ?_⟩
    · rintro k b f rfl
      exact h
    · rintro r rfl
      exact h
    · rintro y rfl
      exact h
  cases q with
  | destroy k actor =>
      refine ⟨?_, ?_, ?_⟩
      · rintro k b f rfl
        exact h.2
      · rintro r rfl
        exact h
      · rintro y rfl
        exact h
  | reconcileOne rs k => exact hpass h.1
  | create | desiredState | supersede | reconcileEvery => exact hpass h

theorem accepted_back {past : PyTrace} {ev : Event Eff Ans} (h : accepted rid (past ++ [ev]))
    (he : ev.1 ≠ .db .commit) : accepted rid past := by
  obtain ⟨before, after, heq, hev⟩ := h
  rcases List.eq_nil_or_concat after with rfl | ⟨after, x, rfl⟩
  · have hlast := (List.append_inj' heq rfl).2
    cases hlast
    exact absurd rfl he
  · rw [List.concat_eq_append, ← List.cons_append, ← List.append_assoc] at heq
    exact ⟨before, after, (List.append_inj' heq rfl).1, hev⟩

theorem Steady.rows (h : Steady reqs rid c) {actor : String} (hj : reqs j = .destroy rid actor)
    (ha : accepted rid (c.procs j).trace)
    (hc : closed (c.procs j).trace ∨ ∃ r, saw rid (c.procs j).trace r ∧ resting r) :
    Rows resting rid c.world.db := by
  rcases hc with hc | ⟨r, hr, hrest⟩
  · exact h.ended j actor hj ha hc
  · exact h.spared j actor r hj hr hrest

theorem read_first (h : Steady reqs rid c) {r : AgentRuntime} {w' : World R} {actor : String}
    (hi : reqs i = .destroy rid actor)
    (hp : promise (reqs i) (c.world.sessions i, (c.procs i).trace) (.db (.getRuntime rid)))
    (hs : c.world.step rem i (.db (.getRuntime rid)) (some r) w') (hr : resting r) :
    Rows resting rid c.world.db := by
  rw [hi] at hp
  have hnil : c.world.sessions i = {} := h.fresh i hp.2
  have hdb : c.world.db.runtime? rid = some r := by
    have hs' := hs
    simp only [World.step, World.dbStep, World.view, hnil, Session.obj?, List.find?_nil] at hs'
    split at hs'
    next r' hr' =>
        rw [Option.some.inj hs'.1]
        exact hr'
    · cases hs'.1
  obtain ⟨x, hx, hxr⟩ := Option.map_eq_some_iff.mp hdb
  have hmem := List.mem_of_find?_eq_some hx
  have hk : x.row.runtimeId = rid := by simpa using List.find?_some hx
  exact rows_of_mem h.distinct hmem hk (hxr ▸ hr)

theorem deleting_open (h : Deleting rid s e) : ¬ closed s.2 := by
  unfold Deleting at h
  split at h
  · rw [h.2]
    exact fun ⟨_, hb⟩ => absurd hb List.not_mem_nil
  · exact h.1
  · exact h.elim
  · exact h.elim
  · exact h.1
  · exact h.elim
  · exact h.1

theorem deleting_fails (h : Deleting rid s e) (hf : fails ⟨e, a⟩) : ∃ r, saw rid s.2 r := by
  unfold fails at hf
  split at hf
  next he =>
      cases he
      exact h.2
  next he =>
      cases he
      exact h.2
  · exact hf.elim

theorem shows_step (h : Steady reqs rid c) (hs : c.world.step rem i e a w') :
    Shows (c.world.sessions i) e a (w'.sessions i) := by
  have hl := step_local hs
  by_cases he : e = .db .flush
  · subst he
    have hok : ∀ b : Except PyExc Unit, Local (c.world.sessions i) (.db .flush) b (w'.sessions i) →
        Shows (c.world.sessions i) (.db .flush) b (w'.sessions i) := by
      rintro (x | u) hb
      · obtain ⟨y, hy⟩ := hb
        exact absurd rfl (h.noJob i _ hy y)
      · exact ⟨rfl, hb⟩
    exact hok a hl
  · unfold Shows
    split
    · exact absurd rfl he
    · exact hl

theorem Steady.world (h : Steady reqs rid c) (hp :
    promise (reqs i) (c.world.sessions i, (c.procs i).trace) e)
    (hs : c.world.step rem i e a w') :
    Distinct w'.db ∧ (∀ j, SessionNoInsert (w'.sessions j)) ∧
      (∀ j, ∀ x ∈ (w'.sessions j).new, ∀ y, x ≠ .insertJob y) ∧
      Everywhere (fun _ => True) (fun _ => Calmed) rid w' ∧ Settled rid w' := by
  obtain ⟨hm, hr, hy⟩ := promise_calm hp
  refine ⟨?_, fun j => ?_, fun j => ?_, ?_, h.settled.step h.held h.distinct hs⟩
  · rcases step_db hs with hdb | ⟨-, t, hdb⟩
    · rw [hdb]
      exact h.distinct
    · unfold Distinct
      rw [hdb, applyAll_keys (h.noRow i).2]
      exact h.distinct
  · by_cases hj : j = i
    · subst hj
      refine step_noInsert hs (fun hi => ?_) (h.noRow j)
      unfold insertsRow at hi
      split at hi
      · exact hr _ rfl
      · exact hi
    · rw [step_other hs hj]
      exact h.noRow j
  · by_cases hj : j = i
    · subst hj
      refine step_new hs (fun x hx y he => ?_) (h.noJob j)
      subst he
      unfold adds at hx
      split at hx
      all_goals first | exact hy _ rfl | cases hx
    · rw [step_other hs hj]
      exact h.noJob j
  · exact h.held.step (fun _ => calmed_any) hs (fun r he => absurd he (hr r)) (respects_calmed hm)

theorem ended_step (h : Steady reqs rid c) {actor : String} (hq : reqs i = .destroy rid actor)
    (hp : promise (reqs i) (c.world.sessions i, (c.procs i).trace) e)
    (ha : accepted rid ((c.procs i).trace ++ [⟨e, a⟩]))
    (hcl : closed ((c.procs i).trace ++ [⟨e, a⟩])) :
    Rows resting rid c.world.db := by
  rw [hq] at hp
  by_cases he : closes e
  · unfold closes at he
    split at he
    · rcases hp.2 (accepted_back ha fun hc => DbCall.noConfusion (Eff.db.inj hc)) with hf | ⟨⟨o, ho,
        hk, hr⟩, ht⟩
      · obtain ⟨r, hr, hrest⟩ := h.excused i actor hq hf
        exact h.spared i actor r hq hr hrest
      · rcases h.settled i o ho hk hr with hr' | ⟨l, c', d', hm, -⟩
        · exact hr'
        · have ht' : (c.world.sessions i).txn = [] := ht
          rw [ht'] at hm
          cases hm
    · exact he.elim
  · exact absurd hcl (closed_append (deleting_open hp) he)

theorem Steady.keeps (h : Steady reqs rid c) (hp :
    promise (reqs i) (c.world.sessions i, (c.procs i).trace) e)
    (hu : Undisturbed reqs rid c i ⟨e, a⟩) (hs : Step (fun i => World.step rem i) c i ⟨e, a⟩ d) :
    Steady reqs rid d := by
  have hw : c.world.step rem i e a d.world := hs.world
  have htr := hs.trace_self
  obtain ⟨hd, hn, hj, hh, hset⟩ := h.world hp hw
  have hrows := rows_step h.held hw
  refine ⟨h.requests, hd, hn, hj, hh, hset, fun j ht => ?_, fun j k r hm => ?_,
    fun j actor hq hf => ?_,
    fun j actor r hq hm hr => ?_, fun j actor hq ha hcl => ?_⟩
  · by_cases hji : j = i
    · subst hji
      rw [htr] at ht
      simp at ht
    · rw [hs.proc_other hji] at ht
      rw [step_other hw hji]
      exact h.fresh j ht
  · by_cases hji : j = i
    · subst hji
      rw [htr] at hm
      rcases List.mem_append.mp hm with hm | hm
      · exact h.read j k r hm
      · cases List.mem_singleton.mp hm
        refine ⟨(step_local hw r rfl).1, fun rs k₀ hq => ?_⟩
        rw [hq] at hp
        exact hp.2 k rfl
    · rw [hs.proc_other hji] at hm
      exact h.read j k r hm
  · by_cases hji : j = i
    · subst hji
      rw [htr] at hf ⊢
      obtain ⟨ev, hev, hf⟩ := hf
      rcases List.mem_append.mp hev with hev | hev
      · obtain ⟨r, hr, hrest⟩ := h.excused j actor hq ⟨ev, hev, hf⟩
        exact ⟨r, saw_append _ hr, hrest⟩
      · rw [List.mem_singleton.mp hev] at hf
        rw [hq] at hp
        obtain ⟨r, hr⟩ := deleting_fails (e := e) (a := a) hp hf
        exact ⟨r, saw_append _ hr, fun hrun => hu.returns actor r hq hr hrun hf⟩
    · rw [hs.proc_other hji] at hf ⊢
      exact h.excused j actor hq hf
  · by_cases hji : j = i
    · subst hji
      rw [htr] at hm
      rcases List.mem_append.mp hm with hm | hm
      · exact hrows (h.spared j actor r hq hm hr)
      · cases List.mem_singleton.mp hm
        exact hrows (read_first h hq hp hw hr)
    · rw [hs.proc_other hji] at hm
      exact hrows (h.spared j actor r hq hm hr)
  · by_cases hji : j = i
    · subst hji
      rw [htr] at ha hcl
      exact hrows (ended_step h hq hp ha hcl)
    · rw [hs.proc_other hji] at ha hcl
      exact hrows (h.ended j actor hq ha hcl)

def guarded (j k : Nat) : Obj → Prop := if k = j then AtRest else Calmed

theorem guards_guarded (j k : Nat) : Guards resting (guarded j k) := by
  unfold guarded
  split
  · exact atRest_resting
  · exact calmed_resting

/-- Process `j` has met the runtime only at rest. -/
structure Restful (j : Nat) (rid : Uuid) (c : Parties R) : Prop where
  everywhere : Everywhere resting (guarded j) rid c.world
  read : ∀ k r, ⟨.db (.getRuntime k), some r⟩ ∈ (c.procs j).trace → r.runtimeId = rid → resting r

theorem Steady.restful (h : Steady reqs rid c) (hr : Rows resting rid c.world.db)
    (ht : (c.procs j).trace = []) :
    Restful j rid c := by
  refine ⟨⟨hr, fun k => ?_⟩, fun k r hm => ?_⟩
  · unfold guarded
    split
    next hk =>
        subst hk
        rw [h.fresh k ht]
        exact held_empty
    · exact h.held.sessions k
  · rw [ht] at hm
    cases hm

theorem Restful.keeps (h : Restful j rid c) (hp :
    promise (reqs i) (c.world.sessions i, (c.procs i).trace) e)
    (hs : Step (fun i => World.step rem i) c i ⟨e, a⟩ d) : Restful j rid d := by
  have hw : c.world.step rem i e a d.world := hs.world
  obtain ⟨hm, hr, -⟩ := promise_calm hp
  have hresp : Respects (guarded j i) rid e := by
    unfold guarded
    split
    · exact respects_atRest hm
    · exact respects_calmed hm
  refine ⟨h.everywhere.step (guards_guarded j) hw (fun r he => absurd he (hr r)) hresp,
    fun k r hmem hk => ?_⟩
  by_cases hji : j = i
  · subst hji
    rw [hs.trace_self] at hmem
    rcases List.mem_append.mp hmem with hmem | hmem
    · exact h.read k r hmem hk
    · cases List.mem_singleton.mp hmem
      have hj : Held AtRest rid (c.world.sessions j) := by
        have hj := h.everywhere.sessions j
        rwa [guarded, if_pos rfl] at hj
      obtain ⟨rfl, -⟩ := step_local hw r rfl
      subst hk
      simp only [World.step, World.dbStep] at hw
      split at hw
      next o ho =>
          cases hw.1
          exact (hj.objs o (List.mem_of_find?_eq_some ho) (obj_key ho)).2
      · split at hw
        next r' hr' =>
            cases hw.1
            exact rows_runtime? (h.everywhere.view (guards_guarded j) j) hr'
        · cases hw.1
  · rw [hs.proc_other hji] at hmem
    exact h.read k r hmem hk

theorem steady_start {cfg : Settings} (h : Beginning cfg reqs w) :
    Lawful (fun i (w : World R) => w.sessions i) Shows (fun i => promise (reqs i)) (Steady reqs rid)
      (Interleaving.start w fun i => (reqs i).prog cfg) := by
  have hnil : ∀ (j : Nat) (x : Event Eff Ans),
      x ∉ ((Interleaving.start w fun i => (reqs i).prog cfg).procs j).trace :=
    fun _ _ => List.not_mem_nil
  refine ⟨⟨h.requests, h.distinct, fun j => ?_, fun j => ?_, ⟨fun _ _ _ => trivial, fun j => ?_⟩,
    fun j => ?_,
    fun j _ => h.sessions j, fun j k r hm => absurd hm (hnil j _),
      fun j _ _ ⟨ev, hm, _⟩ => absurd hm (hnil j ev),
    fun j _ _ _ hm => absurd hm (hnil j _), fun j _ _ _ ⟨_, hm⟩ => absurd hm (hnil j _)⟩, fun j => ?_⟩
  · rw [show (Interleaving.start w fun i => (reqs i).prog cfg).world.sessions j =
      {} from h.sessions j]
    exact ⟨fun _ hx => absurd hx List.not_mem_nil, fun _ hx => absurd hx List.not_mem_nil⟩
  · rw [show (Interleaving.start w fun i => (reqs i).prog cfg).world.sessions j =
      {} from h.sessions j]
    exact fun _ hx => absurd hx List.not_mem_nil
  · rw [show (Interleaving.start w fun i => (reqs i).prog cfg).world.sessions j =
      {} from h.sessions j]
    exact held_empty
  · rw [show (Interleaving.start w fun i => (reqs i).prog cfg).world.sessions j =
      {} from h.sessions j]
    exact fun _ hx => absurd hx List.not_mem_nil
  · have hsat := request_sat cfg (h.requests j)
    rw [← h.sessions j] at hsat
    exact hsat

theorem steady_keeps (h : Steady reqs rid c) (hp :
    promise (reqs i) (c.world.sessions i, (c.procs i).trace) e)
    (hu : Undisturbed reqs rid c i ⟨e, a⟩) (hs : Step (fun i => World.step rem i) c i ⟨e, a⟩ d) :
    Steady reqs rid d ∧ Shows (c.world.sessions i) e a (d.world.sessions i) ∧
      ∀ j, j ≠ i → d.world.sessions j = c.world.sessions j :=
  ⟨h.keeps hp hu hs, shows_step h hs.world, fun _ hj => step_other hs.world hj⟩

/-- In a run in which no accepted DELETE of a runtime that is to run fails and
none is under way when a reconcile takes the runtime up, an operation that
begins after the `destroy_audit` event was committed never sends a start while
it is at work on that runtime. -/
theorem accepted_destroy_not_started {cfg : Settings} {c d d' : Parties R} {actor n : String}
    {v : Int}
    {x : Except PyExc Json} (h : Beginning cfg reqs w)
    (hr : Reach (fun i => World.step rem i) (Undisturbed reqs rid)
    (Interleaving.start w fun i => (reqs i).prog cfg) c)
    (hi : reqs i = .destroy rid actor) (ha : accepted rid (c.procs i).trace)
    (hj : (c.procs j).trace = [])
    (hr' : Reach (fun i => World.step rem i) (Undisturbed reqs rid) c d)
    (hs : Step (fun i => World.step rem i) d j ⟨.pve (.start n v), x⟩ d') :
    ∀ r, Loaded r (d.procs j).trace → r.runtimeId ≠ rid := by
  have hc : Lawful (fun i (w : World R) => w.sessions i) Shows (fun i => promise (reqs i))
      (Steady reqs rid) c := by
    refine Lawful.reach ?_ (steady_start h) hr
    exact fun hc hp hu hs => steady_keeps hc hp hu hs
  -- until `j` begins the DELETE stays accepted; from then on the runtime is at rest
  have hlate : Lawful (fun i (w : World R) => w.sessions i) Shows (fun i => promise (reqs i))
      (fun c => Steady reqs rid c ∧ (takesUp rid (reqs j) →
        ((c.procs j).trace = [] ∧ accepted rid (c.procs i).trace) ∨ Restful j rid c)) d := by
    refine Lawful.reach ?_ ⟨⟨hc.inv, fun _ => .inl ⟨hj, ha⟩⟩, hc.progs⟩ hr'
    intro c d k e a hc hp hu hs
    obtain ⟨hd, hsh, ho⟩ := steady_keeps hc.1 hp hu hs
    refine ⟨⟨hd, fun ht => ?_⟩, hsh, ho⟩
    rcases hc.2 ht with ⟨hnil, hacc⟩ | hrest
    · by_cases hk : j = k
      · subst hk
        exact .inr ((hc.1.restful (hc.1.rows hi hacc (hu.apart ht hnil i actor hi hacc)) hnil).keeps
          hp hs)
      · refine .inl ⟨by rw [hs.proc_other hk]; exact hnil, ?_⟩
        by_cases hik : i = k
        · subst hik
          obtain ⟨before, after, heq, hev⟩ := hacc
          rw [hs.trace_self, heq, List.append_assoc, List.cons_append]
          exact ⟨before, after ++ [⟨e, a⟩], rfl, hev⟩
        · rw [hs.proc_other hik]
          exact hacc
    · exact .inr (hrest.keeps hp hs)
  have hp := hlate.promise hs
  have hpass : ∃ r, Loaded r (d.procs j).trace ∧ r.desiredState = .desiredRunning := by
    cases hq : reqs j with
    | destroy k act =>
        rw [hq] at hp
        exact False.elim hp
    | reconcileOne rs k =>
        rw [hq] at hp
        exact hp.1
    | create | desiredState | supersede | reconcileEvery =>
        rw [hq] at hp
        exact hp
  intro r hl hk
  obtain ⟨r', hl', hrun⟩ := hpass
  cases loaded_unique hl hl'
  obtain ⟨k, before, after, heq, -⟩ := hl
  have hmem : ⟨.db (.getRuntime k), some r⟩ ∈ (d.procs j).trace := by
    rw [heq]
    exact List.mem_append_right _ List.mem_cons_self
  have htake : takesUp rid (reqs j) := by
    cases hq : reqs j with
    | reconcileOne rs k₀ =>
        obtain ⟨hrk, hone⟩ := hlate.inv.1.read j k r hmem
        exact (hone rs k₀ hq).symm.trans (hrk.symm.trans hk)
    | reconcileEvery rs => trivial
    | destroy k act =>
        rw [hq] at hp
        exact False.elim hp
    | create | desiredState | supersede =>
        have hw := hlate.inv.1.requests j
        rw [hq] at hw
        exact hw
  rcases hlate.inv.2 htake with ⟨hnil, -⟩ | hrest
  · rw [hnil] at hmem
    cases hmem
  · exact hrest.read k r hmem hk hrun

end Keeps

def workerDb : Db := { runtimes := [⟨worker, 0⟩] }

/-- PVE finds the worker stopped and stops and starts it, but cannot destroy it. -/
def undestroyable : Oracle Unit where
  pve _ c :=
    match c with
    | .status .. => some (.ok (.obj [("status", .str "stopped")]), ())
    | .config .. => some (.ok (.obj [("description", .str workerMarker)]), ())
    | .destroy .. => some (.error ⟨.runtimeError, "storage is busy"⟩, ())
    | _ => some (.ok .null, ())
  kea _ _ := none
  neigh _ _ := none

def isAudit (rid : Uuid) : Event Eff Ans → Bool
  | ⟨.db (.addEvent ev), _⟩ => ev.action = "destroy_audit" && ev.runtimeId = rid
  | _ => false

def isCommit : Event Eff Ans → Bool
  | ⟨.db .commit, _⟩ => true
  | _ => false

def acceptedIn (rid : Uuid) (tr : PyTrace) : Bool :=
  (tr.dropWhile (fun ev => !isAudit rid ev)).any isCommit

theorem isAudit_eq {ev : Event Eff Ans} (h : isAudit rid ev = true) :
    ∃ x, audits rid x ∧ ev = ⟨.db (.addEvent x), ()⟩ := by
  unfold isAudit at h
  split at h
  next x a => exact ⟨x, by simpa [audits] using h, rfl⟩
  · cases h

theorem isCommit_eq {ev : Event Eff Ans} (h : isCommit ev = true) : ev = ⟨.db .commit, ()⟩ := by
  unfold isCommit at h
  split at h
  · rfl
  · cases h

theorem accepted_of_scan {tr : PyTrace} (h : acceptedIn rid tr = true) : accepted rid tr := by
  obtain ⟨ev, hev, hc⟩ := List.any_eq_true.mp h
  have hsplit := List.takeWhile_append_dropWhile (p := fun ev => !isAudit rid ev) (l := tr)
  cases hd : tr.dropWhile (fun ev => !isAudit rid ev) with
  | nil =>
      rw [hd] at hev
      cases hev
  | cons x rest =>
      have hx : isAudit rid x = true := by
        have hne : tr.dropWhile (fun ev => !isAudit rid ev) ≠ [] := by simp [hd]
        have hh := List.head_dropWhile_not (fun ev => !isAudit rid ev) hne
        simpa [hd] using hh
      obtain ⟨y, hy, rfl⟩ := isAudit_eq hx
      rw [hd] at hev hsplit
      rcases List.mem_cons.mp hev with rfl | hev
      · cases hc
      · cases isCommit_eq hc
        obtain ⟨mid, after, rfl⟩ := List.append_of_mem hev
        refine ⟨tr.takeWhile (fun ev => !isAudit rid ev) ++ ⟨.db (.addEvent y), ()⟩ :: mid, after,
          ?_, y, hy, ?_⟩
        · simpa using hsplit.symm
        · exact List.mem_append_right _ List.mem_cons_self

def readBy : Event Eff Ans → Option (Option AgentRuntime)
  | ⟨.db (.getRuntime _), a⟩ => some a
  | _ => none

def lastRead (tr : PyTrace) : Option AgentRuntime :=
  tr.foldl (fun found ev => (readBy ev).getD found) none

theorem readBy_none {ev : Event Eff Ans} (h : readBy ev = none) : ¬ loadsRow ev.1 := by
  unfold readBy at h
  split at h
  · cases h
  next hn =>
      intro hl
      obtain ⟨e, a⟩ := ev
      unfold loadsRow at hl
      split at hl
      next k he =>
          cases he
          exact hn k a rfl
      · exact hl

theorem readBy_some {ev : Event Eff Ans} {a : Option AgentRuntime} (h : readBy ev = some a) :
    ∃ k, ev = ⟨.db (.getRuntime k), a⟩ := by
  unfold readBy at h
  split at h
  next k b =>
      cases h
      exact ⟨k, rfl⟩
  · cases h

theorem loaded_of_foldl (tr : PyTrace) (past : PyTrace) {found : Option AgentRuntime}
    (h : ∀ r, found = some r → Loaded r past) {r : AgentRuntime}
    (hr : tr.foldl (fun found ev => (readBy ev).getD found) found = some r) :
    Loaded r (past ++ tr) := by
  induction tr generalizing past found with
  | nil =>
      rw [List.append_nil]
      exact h r hr
  | cons ev tr ih =>
      rw [List.append_cons]
      refine ih (past ++ [ev]) (fun r' hr' => ?_) hr
      have hget : (readBy ev).getD found = some r' := hr'
      cases hb : readBy ev with
      | none =>
          rw [hb] at hget
          exact loaded_stable r' past ev (h r' hget) (readBy_none hb)
      | some a =>
          rw [hb] at hget
          obtain ⟨k, rfl⟩ := readBy_some hb
          have ha : a = some r' := hget
          rw [ha]
          exact loaded_now past k r'

theorem loaded_of_lastRead {tr : PyTrace} {r : AgentRuntime} (h : lastRead tr = some r) :
    Loaded r tr := by
  have hl := loaded_of_foldl tr [] (fun r hr => ?_) h
  · exact hl
  · cases hr

def deleteAndReconcile : List Request := [.destroy workerId "acms", .reconcileOne {} workerId]

def answers (orc : Oracle Unit) (i : Nat) (m : Machine Unit) (e : Eff) :
    Option (Ans e × Machine Unit) :=
  Machine.answer orc i m e

theorem answers_step (orc : Oracle Unit) (i : Nat) (m : Machine Unit) (e : Eff) (a : Ans e)
    (m' : Machine Unit)
    (h : answers orc i m e = some (a, m')) :
    World.step Remote.any i (m.world (fun _ => ())) e a (m'.world (fun _ => ())) :=
  Machine.answer_step orc.follows_any i m e a m' h

def refusedDelete : Played Unit :=
  (opening {} workerDb () deleteAndReconcile).play (answers undestroyable)
    [0, 0, 0, 0, 0, 0, 0, 0, 0]

def verifiedAgain : Played Unit := refusedDelete.play (answers undestroyable) [1, 1, 1, 1, 1]

def startsVm : Eff → Bool
  | .pve (.start ..) => true
  | _ => false

theorem startsVm_eq {e : Eff} (h : startsVm e = true) : ∃ n v, e = .pve (.start n v) := by
  unfold startsVm at h
  split at h
  · exact ⟨_, _, rfl⟩
  · cases h

theorem refusedDelete_starts :
    ((opening {} workerDb () deleteAndReconcile).follows (answers undestroyable) (fun _ _ => true)
        [0, 0, 0, 0, 0, 0, 0, 0, 0] &&
      acceptedIn workerId (traceOf refusedDelete 0) && (traceOf refusedDelete 1).isEmpty &&
      refusedDelete.follows (answers undestroyable) (fun _ _ => true) [1, 1, 1, 1, 1] &&
      verifiedAgain.offers (answers undestroyable) 1 startsVm &&
      ((lastRead (traceOf verifiedAgain 1)).map AgentRuntime.runtimeId == some workerId)) = true := by
  decide +kernel

theorem beginning_opening (db : Db) (qs : List Request) (q : Request) (hd : Distinct db)
    (hq : ∀ i, working (cast qs q i)) :
    Beginning {} (cast qs q) ((opening {} db () qs).state.world (fun _ => ()) : World Unit) :=
  ⟨hq, hd, opening_sessions {} (fun _ => ()) db () qs⟩

theorem working_deleteAndReconcile (i : Nat) :
    working (cast deleteAndReconcile (.reconcileEvery {}) i) := by
  match i with
  | 0 => trivial
  | 1 => trivial
  | i + 2 => trivial

/-- After a DELETE whose destroy call raised, a reconcile starts the VM again. -/
theorem accepted_destroy_started :
    ¬ ∀ (cfg : Settings) (reqs : Nat → Request) (w : World Unit) (rid : Uuid) (i j : Nat) (c d d' :
      Parties Unit)
        (actor n : String) (v : Int) (x : Except PyExc Json) (r : AgentRuntime),
      Beginning cfg reqs w →
      Reach (fun i => World.step Remote.any i) (fun _ _ _ => True)
        (Interleaving.start w fun i => (reqs i).prog cfg) c →
      reqs i = .destroy rid actor → accepted rid (c.procs i).trace → (c.procs j).trace = [] →
      Reach (fun i => World.step Remote.any i) (fun _ _ _ => True) c d →
      Step (fun i => World.step Remote.any i) d j ⟨.pve (.start n v), x⟩ d' →
      Loaded r (d.procs j).trace → r.runtimeId ≠ rid := by
  intro h
  have hb := refusedDelete_starts
  simp only [Bool.and_eq_true] at hb
  obtain ⟨⟨⟨⟨⟨hf, ha⟩, he⟩, hg⟩, ho⟩, hl⟩ := hb
  obtain ⟨e, x, hk, hs⟩ :=
    Board.offers_step ⟨(Request.reconcileEvery {}).prog {}, []⟩ (answers_step undestroyable) ho
  obtain ⟨n, v, rfl⟩ := startsVm_eq hk
  obtain ⟨r, hr, hrid⟩ := Option.map_eq_some_iff.mp (beq_iff_eq.mp hl)
  have h₁ : Reach (fun i => World.step Remote.any i) (fun _ _ _ => True)
      (Interleaving.start ((opening {} workerDb () deleteAndReconcile).state.world (fun _ => ()))
        fun i => (cast deleteAndReconcile (.reconcileEvery {}) i).prog {})
      (shown {} (fun _ => ()) (.reconcileEvery {}) refusedDelete) := by
    rw [← shown_opening]
    exact Board.follows_reach _ (answers_step undestroyable) (fun _ _ _ _ => trivial) hf
  have h₂ : Reach (fun i => World.step Remote.any i) (fun _ _ _ => True)
      (shown {} (fun _ => ()) (.reconcileEvery {}) refusedDelete)
      (shown {} (fun _ => ()) (.reconcileEvery {}) verifiedAgain) :=
    Board.follows_reach _ (answers_step undestroyable) (fun _ _ _ _ => trivial) hg
  have hd : Distinct workerDb := by
    change [workerId].Nodup
    exact List.nodup_cons.mpr ⟨List.not_mem_nil, List.nodup_nil⟩
  refine h {} (cast deleteAndReconcile (.reconcileEvery {})) _ workerId 0 1 _ _ _ "acms" n v x r
    (beginning_opening workerDb _ _ hd working_deleteAndReconcile) h₁ rfl ?_ ?_ h₂ hs ?_ hrid
  · rw [shown_trace]
    exact accepted_of_scan ha
  · rw [shown_trace]
    simpa using he
  · rw [shown_trace]
    exact loaded_of_lastRead hr

def spareId : Uuid := ⟨3#128⟩

def spare : AgentRuntime :=
  { worker with runtimeId := spareId, name := "worker-8", vmid := some 701 }

def spareMarker : String :=
  "\x7b\"server_runtime_id\":\"00000000-0000-0000-0000-000000000003\",\"acms_agent_id\":1,\"provisioning_request_id\":1,\"provider\":1,\"node\":1,\"vmid\":1,\"created_by_agent_runtime_manager\":1,\"created_at\":1,\"template_source\":1\x7d"

/-- PVE shows each of the two stopped workers with its own marker. -/
def twoWorkers : Oracle Unit where
  pve _ c :=
    match c with
    | .status .. => some (.ok (.obj [("status", .str "stopped")]), ())
    | .config _ v =>
        some (.ok (.obj [("description", .str (if v = 701 then spareMarker else workerMarker))]),
          ())
    | _ => some (.ok .null, ())
  kea _ _ := none
  neigh _ _ := none

def twoWorkersDb : Db := { runtimes := [⟨worker, 0⟩, ⟨spare, 0⟩] }

def deleteBesideReconcile : List Request := [.destroy workerId "acms", .reconcileOne {} spareId]

def underWay : Played Unit :=
  (opening {} twoWorkersDb () deleteBesideReconcile).play (answers twoWorkers) [0, 0, 0, 0, 0, 0]

def spareVerified : Played Unit := underWay.play (answers twoWorkers) [1, 1, 1, 1, 1]

def harmless : Eff → Bool
  | .pve (.stop ..) | .pve (.destroy ..) => false
  | _ => true

theorem harmless_returns {ev : Event Eff Ans} (h : harmless ev.1 = true) : ¬ fails ev := by
  intro hf
  unfold fails at hf
  split at hf
  · cases h
  · cases h
  · exact hf

theorem spareVerified_starts :
    ((opening {} twoWorkersDb () deleteBesideReconcile).follows (answers twoWorkers)
    (fun i e => i < 2 && harmless e)
        [0, 0, 0, 0, 0, 0] &&
      acceptedIn workerId (traceOf underWay 0) && (traceOf underWay 1).isEmpty &&
      underWay.follows (answers twoWorkers) (fun i e => i < 2 && harmless e) [1, 1, 1, 1, 1] &&
      spareVerified.offers (answers twoWorkers) 1 startsVm &&
      (lastRead (traceOf spareVerified 1)).isSome) = true := by
  decide +kernel

theorem spareVerified_not_destroyed :
    ∃ r, lastRead (traceOf spareVerified 1) = some r ∧ r.runtimeId ≠ workerId := by
  have hb := spareVerified_starts
  simp only [Bool.and_eq_true] at hb
  obtain ⟨⟨⟨⟨⟨hf, ha⟩, he⟩, hg⟩, ho⟩, hl⟩ := hb
  obtain ⟨e, x, hk, hs⟩ :=
    Board.offers_step ⟨(Request.destroy spareId "acms").prog {}, []⟩ (answers_step twoWorkers) ho
  obtain ⟨n, v, rfl⟩ := startsVm_eq hk
  obtain ⟨r, hr⟩ := Option.isSome_iff_exists.mp hl
  have hcast : ∀ i, i < 2 → ¬ takesUp workerId
      (cast deleteBesideReconcile (.destroy spareId "acms") i) := by
    intro i hi
    match i, hi with
    | 0, _ => exact id
    | 1, _ =>
        intro hu
        exact absurd (congrArg Uuid.bits hu) (by decide)
  have hstep : ∀ (c : Parties Unit) i ev, (decide (i < 2) && harmless ev.1) = true →
      Undisturbed (cast deleteBesideReconcile (.destroy spareId "acms")) workerId c i ev := by
    intro c i ev hev
    obtain ⟨hi, hh⟩ := Bool.and_eq_true_iff.mp hev
    exact ⟨fun _ _ _ _ _ => harmless_returns hh, fun ht => absurd ht (hcast i (by simpa using hi))⟩
  have h₁ : Reach (fun i => World.step Remote.any i)
      (Undisturbed (cast deleteBesideReconcile (.destroy spareId "acms")) workerId)
      (Interleaving.start ((opening {} twoWorkersDb () deleteBesideReconcile).state.world
        (fun _ => ()))
        fun i => (cast deleteBesideReconcile (.destroy spareId "acms") i).prog {})
      (shown {} (fun _ => ()) (.destroy spareId "acms") underWay) := by
    rw [← shown_opening]
    exact Board.follows_reach _ (answers_step twoWorkers) hstep hf
  have h₂ : Reach (fun i => World.step Remote.any i)
      (Undisturbed (cast deleteBesideReconcile (.destroy spareId "acms")) workerId)
      (shown {} (fun _ => ()) (.destroy spareId "acms") underWay)
      (shown {} (fun _ => ()) (.destroy spareId "acms") spareVerified) :=
    Board.follows_reach _ (answers_step twoWorkers) hstep hg
  have hd : Distinct twoWorkersDb := by
    change [workerId, spareId].Nodup
    decide
  have hq : ∀ i, working (cast deleteBesideReconcile (.destroy spareId "acms") i) := by
    intro i
    match i with
    | 0 => trivial
    | 1 => trivial
    | i + 2 => trivial
  have hdel : cast deleteBesideReconcile (.destroy spareId "acms") 0 = .destroy workerId "acms" :=
    rfl
  refine ⟨r, hr, accepted_destroy_not_started (beginning_opening twoWorkersDb _ _ hd hq) h₁ hdel ?_
    ?_ h₂ hs r ?_⟩
  · rw [shown_trace]
    exact accepted_of_scan ha
  · rw [shown_trace]
    simpa using he
  · rw [shown_trace]
    exact loaded_of_lastRead hr

end ServerManager.DestroyIntent
