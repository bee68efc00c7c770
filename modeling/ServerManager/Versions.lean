import ServerManager.Frames

namespace ServerManager.Versions

open Interaction PyJson Orm Effects Storage Sessions Frames

/-- `Φ` on objects keeps `K` on rows. -/
structure Guards (K : AgentRuntime → Prop) (Φ : Obj → Prop) : Prop where
  fresh : ∀ r, K r → Φ ⟨r, r, false⟩
  sent : ∀ o, Φ o → Φ ⟨o.cur, o.cur, false⟩
  write : ∀ o x, Φ o → K x → K (o.loaded.merge o.cur o.dirty x)

variable {R : Type} {K : AgentRuntime → Prop} {Φ : Obj → Prop} {rid : Uuid}

/-- What a list of statements on its way may do to the row. -/
structure Writes (Φ : Obj → Prop) (rid : Uuid) (ws : List Write) : Prop where
  update : ∀ l c d, .updateRuntime l c d ∈ ws → l.runtimeId = rid → Φ ⟨l, c, d⟩
  insert : ∀ r, .insertRuntime r ∈ ws → r.runtimeId ≠ rid

structure Held (Φ : Obj → Prop) (rid : Uuid) (s : Session) : Prop where
  objs : ∀ o ∈ s.objs, o.cur.runtimeId = rid → Φ o
  keys : ∀ o ∈ s.objs, o.loaded.runtimeId = o.cur.runtimeId
  txn : Writes Φ rid s.txn
  new : ∀ r, .insertRuntime r ∈ s.new → r.runtimeId ≠ rid
  added : ∀ l c d, .updateRuntime l c d ∉ s.new

def Rows (K : AgentRuntime → Prop) (rid : Uuid) (db : Db) : Prop :=
  ∀ x ∈ db.runtimes, x.row.runtimeId = rid → K x.row

/-- All versions of the row; each process keeps a condition of its own. -/
structure Everywhere (K : AgentRuntime → Prop) (Ψ : Nat → Obj → Prop) (rid : Uuid) (w : World R) :
    Prop where
  rows : Rows K rid w.db
  sessions : ∀ j, Held (Ψ j) rid (w.sessions j)

theorem held_empty : Held Φ rid {} where
  objs _ h := absurd h List.not_mem_nil
  keys _ h := absurd h List.not_mem_nil
  txn := ⟨fun _ _ _ h => absurd h List.not_mem_nil, fun _ h => absurd h List.not_mem_nil⟩
  new _ h := absurd h List.not_mem_nil
  added _ _ _ h := absurd h List.not_mem_nil

section Rows

variable (hG : Guards K Φ)
include hG

theorem rows_apply {db : Db} {x : Write} (t : Time)
    (hu : ∀ l c d, x = .updateRuntime l c d → l.runtimeId = rid → Φ ⟨l, c, d⟩)
    (hi : ∀ r, x = .insertRuntime r → r.runtimeId ≠ rid) (h : Rows K rid db) :
    Rows K rid (db.apply t x) := by
  cases x with
  | updateRuntime l c d =>
      intro y hy hk
      obtain ⟨z, hz, rfl⟩ := List.mem_map.mp hy
      by_cases hl : z.row.runtimeId = l.runtimeId
      · rw [if_pos hl] at hk ⊢
        have hzk : z.row.runtimeId = rid := hk
        exact hG.write ⟨l, c, d⟩ z.row (hu l c d rfl (hl.symm.trans hzk)) (h z hz hzk)
      · rw [if_neg hl] at hk ⊢
        exact h z hz hk
  | insertRuntime r =>
      intro y hy hk
      rcases List.mem_append.mp hy with hy | hy
      · exact h y hy hk
      · rw [List.mem_singleton.mp hy] at hk
        exact absurd hk (hi r rfl)
  | updateJob | updateStep | insertJob | insertStep | insertEvent | insertBridge => exact h

theorem rows_applyAll {db : Db} {ws : List Write} (t : Time) (hw : Writes Φ rid ws)
    (h : Rows K rid db) :
    Rows K rid (db.applyAll t ws) := by
  induction ws generalizing db with
  | nil => exact h
  | cons x ws ih =>
      refine ih ⟨fun l c d hm => hw.update l c d (List.mem_cons_of_mem _ hm),
        fun r hm => hw.insert r (List.mem_cons_of_mem _ hm)⟩ (rows_apply hG t ?_ ?_ h)
      · rintro l c d rfl
        exact hw.update l c d List.mem_cons_self
      · rintro r rfl
        exact hw.insert r List.mem_cons_self

omit hG in
theorem Everywhere.view {Ψ : Nat → Obj → Prop} (hG : ∀ j, Guards K (Ψ j)) {w : World R}
    (h : Everywhere K Ψ rid w)
    (i : Nat) : Rows K rid (w.view i) :=
  rows_applyAll (hG i) w.clock (h.sessions i).txn h.rows

omit hG in
theorem rows_runtime? {db : Db} {r : AgentRuntime} (h : Rows K rid db)
    (hr : db.runtime? rid = some r) : K r := by
  obtain ⟨x, hx, rfl⟩ := Option.map_eq_some_iff.mp hr
  exact h x (List.mem_of_find?_eq_some hx) (by simpa using List.find?_some hx)

end Rows

theorem write_mem {o : Obj} {l c : AgentRuntime} {d : Bool} (h : .updateRuntime l c d ∈ o.write) :
    o = ⟨l, c, d⟩ := by
  unfold Obj.write at h
  split at h
  · cases List.mem_singleton.mp h
    rfl
  · cases h

theorem update_pending {s : Session} {t : Time} {l c : AgentRuntime} {d : Bool}
    (ha : ∀ l c d, .updateRuntime l c d ∉ s.new)
    (h : .updateRuntime l c d ∈ s.pending t) : ⟨l, c, d⟩ ∈ s.objs := by
  simp only [Session.pending, List.mem_append] at h
  rcases h with (h | h) | h
  · obtain ⟨o, ho, h⟩ := List.mem_flatMap.mp h
    exact write_mem h ▸ ho
  · obtain ⟨o, -, h⟩ := List.mem_flatMap.mp h
    unfold JobObj.write at h
    split at h
    · cases List.mem_singleton.mp h
    · cases h
  · obtain ⟨x, hx, he⟩ := List.mem_map.mp h
    cases x with
    | updateRuntime l' c' d' => exact absurd hx (ha l' c' d')
    | insertRuntime | updateJob | updateStep | insertJob | insertStep | insertEvent
    | insertBridge => cases he

theorem insert_pending {s : Session} {t : Time} {r : AgentRuntime}
    (h : .insertRuntime r ∈ s.pending t) :
    ∃ r', .insertRuntime r' ∈ s.new ∧ r = { r' with createdAt := some t } := by
  simp only [Session.pending, List.mem_append] at h
  rcases h with (h | h) | h
  · obtain ⟨o, -, h⟩ := List.mem_flatMap.mp h
    unfold Obj.write at h
    split at h
    · cases List.mem_singleton.mp h
    · cases h
  · obtain ⟨o, -, h⟩ := List.mem_flatMap.mp h
    unfold JobObj.write at h
    split at h
    · cases List.mem_singleton.mp h
    · cases h
  · obtain ⟨x, hx, he⟩ := List.mem_map.mp h
    cases x with
    | insertRuntime r' =>
        cases he
        exact ⟨r', hx, rfl⟩
    | updateRuntime | updateJob | updateStep | insertJob | insertStep | insertEvent
    | insertBridge => cases he

theorem mem_inserted {ws : List Write} {o : Obj} (h : o ∈ Session.inserted ws) :
    ∃ r, .insertRuntime r ∈ ws ∧ o = ⟨r, r, false⟩ := by
  induction ws with
  | nil => cases h
  | cons x ws ih =>
      cases x with
      | insertRuntime r =>
          rcases List.mem_cons.mp h with h | h
          · exact ⟨r, List.mem_cons_self, h⟩
          · obtain ⟨r', hr', ho⟩ := ih h
            exact ⟨r', List.mem_cons_of_mem _ hr', ho⟩
      | updateRuntime | updateJob | updateStep | insertJob | insertStep | insertEvent
      | insertBridge =>
          obtain ⟨r', hr', ho⟩ := ih h
          exact ⟨r', List.mem_cons_of_mem _ hr', ho⟩

theorem mem_flush {s : Session} {t : Time} {o : Obj} (h : o ∈ (s.flush t).objs) :
    (∃ o' ∈ s.objs, o = ⟨o'.cur, o'.cur, false⟩) ∨
      ∃ r, .insertRuntime r ∈ s.new ∧ o = ⟨{ r with createdAt := some t },
        { r with createdAt := some t }, false⟩ := by
  rcases List.mem_append.mp h with h | h
  · obtain ⟨o', ho', rfl⟩ := List.mem_map.mp h
    exact .inl ⟨o', ho', rfl⟩
  · obtain ⟨r, hr, rfl⟩ := mem_inserted h
    obtain ⟨x, hx, he⟩ := List.mem_map.mp hr
    cases x with
    | insertRuntime r' =>
        cases he
        exact .inr ⟨r', hx, rfl⟩
    | updateRuntime | updateJob | updateStep | insertJob | insertStep | insertEvent
    | insertBridge => cases he

theorem mem_modify {s : Session} {rid' : Uuid} {b : Bool} {f : AgentRuntime → AgentRuntime}
    {o : Obj}
    (h : o ∈ (s.modify rid' b f).objs) :
    (o ∈ s.objs ∧ o.cur.runtimeId ≠ rid') ∨
      ∃ o' ∈ s.objs, o'.cur.runtimeId = rid' ∧
        o = ⟨o'.loaded, { f o'.cur with runtimeId := o'.cur.runtimeId }, o'.dirty || b⟩ := by
  obtain ⟨o', ho', rfl⟩ := List.mem_map.mp h
  by_cases hk : o'.cur.runtimeId = rid'
  · rw [if_pos hk]
    exact .inr ⟨o', ho', hk, rfl⟩
  · rw [if_neg hk]
    exact .inl ⟨ho', hk⟩

section Step

variable (hG : Guards K Φ) {rem : Remote R} {i : Nat} {w w' : World R} {e : Eff} {a : Ans e}

/-- The assignments of the call keep `Φ`. -/
def Respects (Φ : Obj → Prop) (rid : Uuid) (e : Eff) : Prop :=
  ∀ b f, e = .db (.modify rid b f) → ∀ o, Φ o →
    Φ ⟨o.loaded, { f o.cur with runtimeId := o.cur.runtimeId }, o.dirty || b⟩

include hG

theorem held_load {s : Session} {r : AgentRuntime} (h : Held Φ rid s)
    (hr : r.runtimeId = rid → K r) :
    Held Φ rid (s.load r).2 := by
  obtain ⟨os, hos⟩ := load_objs s r
  refine ⟨fun o ho hk => ?_, fun o ho => ?_, ?_, ?_, ?_⟩
  · rcases mem_load ho with ho | ⟨rfl, -⟩
    · exact h.objs o ho hk
    · exact hG.fresh r (hr hk)
  · rcases mem_load ho with ho | ⟨rfl, -⟩
    · exact h.keys o ho
    · rfl
  all_goals rw [hos]
  · exact h.txn
  · exact h.new
  · exact h.added

theorem held_loadAll {rs : List AgentRuntime} {s : Session} (h : Held Φ rid s)
    (hr : ∀ r ∈ rs, r.runtimeId = rid → K r) : Held Φ rid (s.loadAll rs).2 := by
  induction rs generalizing s with
  | nil => exact h
  | cons r rs ih =>
      exact ih (held_load hG h (hr r List.mem_cons_self)) fun x hx =>
        hr x (List.mem_cons_of_mem _ hx)

omit hG in
theorem held_modify {s : Session} {rid' : Uuid} {b : Bool} {f : AgentRuntime → AgentRuntime}
    (h : Held Φ rid s)
    (hm : Respects Φ rid (.db (.modify rid' b f))) : Held Φ rid (s.modify rid' b f) := by
  refine ⟨fun o ho hk => ?_, fun o ho => ?_, h.txn, h.new, h.added⟩
  · rcases mem_modify ho with ⟨ho, -⟩ | ⟨o', ho', hk', rfl⟩
    · exact h.objs o ho hk
    · have he : rid' = rid := hk'.symm.trans hk
      subst he
      exact hm b f rfl o' (h.objs o' ho' hk')
  · rcases mem_modify ho with ⟨ho, -⟩ | ⟨o', ho', -, rfl⟩
    · exact h.keys o ho
    · exact h.keys o' ho'

theorem held_flush {s : Session} (t : Time) (h : Held Φ rid s) : Held Φ rid (s.flush t) := by
  refine ⟨fun o ho hk => ?_, fun o ho => ?_, ⟨fun l c d hx hl => ?_, fun r hx => ?_⟩,
    fun _ hx => absurd hx List.not_mem_nil, fun _ _ _ hx => absurd hx List.not_mem_nil⟩
  · rcases mem_flush ho with ⟨o', ho', rfl⟩ | ⟨r, hr, rfl⟩
    · exact hG.sent o' (h.objs o' ho' hk)
    · exact absurd hk (h.new r hr)
  · rcases mem_flush ho with ⟨o', ho', rfl⟩ | ⟨r, hr, rfl⟩
    · rfl
    · rfl
  · rcases List.mem_append.mp hx with hx | hx
    · exact h.txn.update l c d hx hl
    · have ho := update_pending h.added hx
      exact h.objs _ ho ((h.keys _ ho).symm.trans hl)
  · rcases List.mem_append.mp hx with hx | hx
    · exact h.txn.insert r hx
    · obtain ⟨r', hr', rfl⟩ := insert_pending hx
      exact h.new r' hr'

omit hG in
theorem Everywhere.step {Ψ : Nat → Obj → Prop} (hG : ∀ j, Guards K (Ψ j)) (hs : w.step rem i e a w')
    (hin : ∀ r, e = .db (.addRuntime r) → r.runtimeId ≠ rid) (hm : Respects (Ψ i) rid e)
    (h : Everywhere K Ψ rid w) : Everywhere K Ψ rid w' := by
  refine ⟨?_, fun j => ?_⟩
  · rcases step_db hs with hdb | ⟨-, t, hdb⟩
    · rw [hdb]
      exact h.rows
    · rw [hdb]
      exact rows_applyAll (hG i) t (h.sessions i).txn h.rows
  · by_cases hj : j = i
    · subst hj
      have hh := h.sessions j
      have ht := step_turn hs
      generalize w'.sessions j = s' at ht
      cases ht with
      | keep => exact hh
      | @load rid' r hr _ =>
          refine held_load (hG j) hh fun hk => ?_
          obtain ⟨x, hx, rfl⟩ := Option.map_eq_some_iff.mp hr
          exact h.view hG j x (List.mem_of_find?_eq_some hx) hk
      | loadAll q =>
          refine held_loadAll (hG j) hh fun r hr hk => ?_
          obtain ⟨x, hx, rfl⟩ := query_mem hr
          exact h.view hG j x hx hk
      | jobs js => exact ⟨hh.objs, hh.keys, hh.txn, hh.new, hh.added⟩
      | modify rid' b f => exact held_modify hh hm
      | @add _ x hx =>
          refine ⟨hh.objs, hh.keys, hh.txn, fun r hr => ?_, fun l c d hr => ?_⟩
          · rcases List.mem_append.mp hr with hr | hr
            · exact hh.new r hr
            · cases List.mem_singleton.mp hr
              unfold adds at hx
              split at hx
              all_goals cases hx
              exact hin _ rfl
          · rcases List.mem_append.mp hr with hr | hr
            · exact hh.added l c d hr
            · cases List.mem_singleton.mp hr
              unfold adds at hx
              split at hx
              all_goals cases hx
      | flush => exact held_flush (hG j) w.clock hh
      | commit =>
          exact ⟨hh.objs, hh.keys, ⟨fun _ _ _ hx => absurd hx List.not_mem_nil,
            fun _ hx => absurd hx List.not_mem_nil⟩,
            hh.new, hh.added⟩
      | rollback | close => exact held_empty
    · rw [step_other hs hj]
      exact h.sessions j

end Step

end ServerManager.Versions
