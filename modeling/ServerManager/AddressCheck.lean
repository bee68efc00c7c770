import ServerManager.CreateCalls
import ServerManager.Versions

namespace ServerManager.AddressCheck

open Interaction PyJson Orm Effects Config Provisioning Api Storage Calls Sessions Frames JobCalls
  Versions CreateCalls

def addressOf (r : AgentRuntime) : Option String :=
  let ip := (Dict.get? r.ownershipMeta "ip").getD .null
  if ip.truthy then some ip.pyStr else none

def othersRead (rid : Uuid) : Eff := .db (.selectRuntimes (.others rid))

def Taken (db : Db) (rid : Uuid) (x : String) : Prop :=
  ∃ k r, k ≠ rid ∧ db.runtime? k = some r ∧ addressOf r = some x

/-- The session has no other row than `rid` in hand. -/
structure Owns (rid : Uuid) (s : Session) : Prop where
  objs : ∀ o ∈ s.objs, o.cur.runtimeId = rid ∧ o.loaded.runtimeId = rid
  txn : ∀ k, k ≠ rid → ∀ x ∈ s.txn, Aside k x
  new : ∀ k, k ≠ rid → ∀ x ∈ s.new, Aside k x

def alone (rid : Uuid) : Eff → Prop
  | .db (.getRuntime k) => k = rid
  | .db (.selectRuntimes _) => False
  | .db (.addRuntime r) => r.runtimeId = rid
  | _ => True

section Owns

variable {R : Type} {rem : Remote R} {rid : Uuid} {s s' : Session} {e : Eff} {a : Ans e}

theorem owns_empty : Owns rid {} :=
  ⟨fun _ h => absurd h List.not_mem_nil, fun _ _ _ h => absurd h List.not_mem_nil,
    fun _ _ _ h => absurd h List.not_mem_nil⟩

theorem Owns.pending (h : Owns rid s) {k : Uuid} (hk : k ≠ rid) (t : Time) : ∀ x ∈ s.pending t,
    Aside k x := by
  intro x hx
  simp only [Session.pending, List.mem_append] at hx
  rcases hx with (hx | hx) | hx
  · obtain ⟨o, ho, hx⟩ := List.mem_flatMap.mp hx
    refine write_aside (fun hl => hk ?_) x hx
    rw [← hl]
    exact (h.objs o ho).2
  · exact jobs_aside _ x hx
  · obtain ⟨y, hy, rfl⟩ := List.mem_map.mp hx
    exact aside_stamped (h.new k hk y hy) t

theorem Owns.flush (h : Owns rid s) (t : Time) : Owns rid (s.flush t) := by
  refine ⟨fun o ho => ?_, fun k hk x hx => ?_, fun _ _ _ hx => absurd hx List.not_mem_nil⟩
  · rcases mem_flush ho with ⟨o', ho', rfl⟩ | ⟨r, hr, rfl⟩
    · exact ⟨(h.objs o' ho').1, (h.objs o' ho').1⟩
    · have hk : r.runtimeId = rid := by
        by_contra hne
        exact h.new _ hne _ hr rfl
      exact ⟨hk, hk⟩
  · rcases List.mem_append.mp hx with hx | hx
    · exact h.txn k hk x hx
    · exact h.pending hk t x hx

theorem Owns.next (h : Owns rid s) (hs : sessionStep rem s e a s') (he : alone rid e) :
    Owns rid s' := by
  obtain ⟨i, w, w', rfl, hst, rfl⟩ := hs
  have ht := step_turn hst
  generalize w'.sessions i = s' at ht
  cases ht with
  | keep => exact h
  | jobs js => exact ⟨h.objs, h.txn, h.new⟩
  | @load k r hr ho =>
      have hk : r.runtimeId = k := runtime?_key hr
      rw [load_new (hk.symm ▸ ho)]
      refine ⟨fun o ho => ?_, h.txn, h.new⟩
      rcases List.mem_append.mp ho with ho | ho
      · exact h.objs o ho
      · rw [List.mem_singleton.mp ho]
        exact ⟨hk.trans he, hk.trans he⟩
  | loadAll q => exact False.elim he
  | modify k b f =>
      refine ⟨fun o ho => ?_, h.txn, h.new⟩
      obtain ⟨o', ho', rfl⟩ := List.mem_map.mp ho
      split
      · exact h.objs o' ho'
      · exact h.objs o' ho'
  | @add _ x hx =>
      refine ⟨h.objs, h.txn, fun k hk y hy => ?_⟩
      rcases List.mem_append.mp hy with hy | hy
      · exact h.new k hk y hy
      · rw [List.mem_singleton.mp hy]
        cases x with
        | insertRuntime r =>
            unfold adds at hx
            split at hx
            all_goals cases hx
            exact fun hr => hk (hr.symm.trans he)
        | updateRuntime =>
            unfold adds at hx
            split at hx
            all_goals cases hx
        | updateJob | updateStep | insertJob | insertStep | insertEvent | insertBridge => trivial
  | flush => exact h.flush w.clock
  | commit => exact ⟨h.objs, fun _ _ _ hx => absurd hx List.not_mem_nil, h.new⟩
  | rollback | close => exact owns_empty

theorem obj?_append (s : Session) (o : Obj) (k : Uuid) :
    ({ s with objs := s.objs ++ [o] } : Session).obj? k =
    (s.obj? k).or (if o.cur.runtimeId = k then some o else none) := by
  unfold Session.obj?
  rw [List.find?_append]
  congr 1
  by_cases hk : o.cur.runtimeId = k
  · simp [hk]
  · simp [hk]

/-- A query delivers the first row of each key; `pre` are the rows it has delivered. -/
theorem loadAll_first {rs : List AgentRuntime} (pre : List AgentRuntime) {s : Session}
    (h : ∀ r ∈ rs, s.obj? r.runtimeId = (pre.find? (fun x => x.runtimeId = r.runtimeId)).map
    fun x => ⟨x, x, false⟩) :
    (s.loadAll rs).1 = rs.map fun r => ((pre ++ rs).find? (fun x => x.runtimeId = r.runtimeId)).getD
    r := by
  induction rs generalizing pre s with
  | nil => rfl
  | cons r rs ih =>
      have hr := h r List.mem_cons_self
      have hassoc : pre ++ r :: rs = (pre ++ [r]) ++ rs := by simp
      have hfind : ∀ x : AgentRuntime, (pre ++ [r]).find? (fun y => y.runtimeId = x.runtimeId) =
          (pre.find? (fun y => y.runtimeId = x.runtimeId)).or
            (if r.runtimeId = x.runtimeId then some r else none) := by
        intro x
        rw [List.find?_append]
        congr 1
        by_cases hk : r.runtimeId = x.runtimeId
        · simp [hk]
        · simp [hk]
      have hhead : (s.load r).1 = ((pre ++ r :: rs).find? (fun x => x.runtimeId = r.runtimeId)).getD
          r := by
        unfold Session.load
        cases hp : pre.find? (fun x => x.runtimeId = r.runtimeId) with
        | some r₀ => simp [hr, hp]
        | none => simp [hr, hp]
      have hnext : ∀ x ∈ rs, (s.load r).2.obj? x.runtimeId =
          ((pre ++ [r]).find? (fun y => y.runtimeId = x.runtimeId)).map fun x => ⟨x, x, false⟩ := by
        intro x hx
        have hx' := h x (List.mem_cons_of_mem _ hx)
        rw [hfind]
        unfold Session.load
        cases hp : pre.find? (fun y => y.runtimeId = r.runtimeId) with
        | some r₀ =>
            rw [hp] at hr
            rw [hr]
            dsimp only [Option.map_some]
            rw [hx']
            by_cases hk : r.runtimeId = x.runtimeId
            · rw [← hk, hp]
              rfl
            · rw [if_neg hk, Option.or_none]
        | none =>
            rw [hp] at hr
            rw [hr]
            dsimp only [Option.map_none]
            rw [obj?_append, hx']
            cases pre.find? (fun y => y.runtimeId = x.runtimeId) with
            | some r₁ => rfl
            | none =>
                by_cases hk : r.runtimeId = x.runtimeId
                · simp [hk]
                · simp [hk]
      rw [Session.loadAll]
      dsimp only
      rw [ih (pre ++ [r]) hnext, ← hassoc, List.map_cons, hhead]

theorem others_find {db : Db} {k : Uuid} (hk : k ≠ rid) :
    (Query.run (.others rid) db).find? (fun x => x.runtimeId = k) = db.runtime? k := by
  unfold Query.run Db.runtime?
  dsimp only
  induction db.runtimes with
  | nil => rfl
  | cons x xs ih =>
      by_cases hx : x.row.runtimeId = k
      · have hne : x.row.runtimeId ≠ rid := fun h => hk (hx.symm.trans h)
        simp [hx, hk]
      · by_cases hr : x.row.runtimeId = rid
        · have hne : rid ≠ k := fun h => hx (hr.trans h)
          simpa [hr, hne] using ih
        · simpa [hr, hx] using ih

theorem read_rows {w w' : World R} {i : Nat} {rows : List AgentRuntime}
    (h : Owns rid (w.sessions i))
    (hs : w.step rem i (othersRead rid) rows w') (x : String) :
    some x ∈ rows.map addressOf ↔ Taken w.db rid x := by
  have hview : ∀ k, k ≠ rid → (w.view i).runtime? k = w.db.runtime? k := by
    intro k hk
    rw [view_row, seenRow, foldl_aside (h.txn k hk)]
  have hkey : ∀ r ∈ Query.run (.others rid) (w.view i), r.runtimeId ≠ rid := by
    intro r hr
    have hr' := (List.mem_filter.mp hr).2
    simpa using hr'
  have hrows : rows = (Query.run (.others rid) (w.view i)).map fun r =>
      ((Query.run (.others rid) (w.view i)).find? (fun x => x.runtimeId = r.runtimeId)).getD r := by
    rw [show rows = _ from hs.1]
    refine loadAll_first [] fun r hr => ?_
    have hno : (w.sessions i).obj? r.runtimeId = none := by
      refine List.find?_eq_none.mpr fun o ho => ?_
      have hne : o.cur.runtimeId ≠ r.runtimeId :=
        fun hk => hkey r hr (hk.symm.trans (h.objs o ho).1)
      simpa using hne
    exact hno
  constructor
  · intro hx
    obtain ⟨r, hr, hrx⟩ := List.mem_map.mp hx
    rw [hrows] at hr
    obtain ⟨r₀, hr₀, rfl⟩ := List.mem_map.mp hr
    have hne := hkey r₀ hr₀
    rw [others_find hne, hview _ hne] at hrx
    cases hd : w.db.runtime? r₀.runtimeId with
    | some r =>
        rw [hd] at hrx
        exact ⟨_, r, hne, hd, hrx⟩
    | none =>
        have hsome : ((w.view i).runtime? r₀.runtimeId).isSome := by
          rw [← others_find hne, List.find?_isSome]
          exact ⟨r₀, hr₀, by simp⟩
        rw [hview _ hne, hd] at hsome
        cases hsome
  · rintro ⟨k, r, hk, hr, hx⟩
    rw [← hview k hk, ← others_find hk] at hr
    have hrk : r.runtimeId = k := by simpa using List.find?_some hr
    refine List.mem_map.mpr ⟨r, ?_, hx⟩
    rw [hrows]
    refine List.mem_map.mpr ⟨r, List.mem_of_find?_eq_some hr, ?_⟩
    rw [hrk, hr]
    rfl

end Owns

end ServerManager.AddressCheck
