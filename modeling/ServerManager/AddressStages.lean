import ServerManager.AddressCheck

namespace ServerManager.AddressStages

open Interaction PyJson Orm Effects Config ProxmoxVm CloneHygiene Provisioning Api Storage Calls
  Sessions Frames
open JobCalls JobRuns Versions CreateCalls AddressCheck

def ipOf (r : AgentRuntime) : Option Json := Dict.get? r.ownershipMeta "ip"

/-- The entry neither inserts a row or a job nor updates a row. -/
def Bare : Write → Prop
  | .insertRuntime _ | .insertJob _ | .updateRuntime .. => False
  | _ => True

/-- Nothing under way concerns another row, and the objects of the own row satisfy `P`. -/
structure Desk (rid : Uuid) (P : Obj → Prop) (s : Session) : Prop where
  objs : ∀ o ∈ s.objs, o.cur.runtimeId = rid → P o
  rest : ∀ o ∈ s.objs, o.cur.runtimeId ≠ rid → o.loaded = o.cur ∧ o.dirty = false
  keys : ∀ o ∈ s.objs, o.loaded.runtimeId = o.cur.runtimeId
  has : ∃ o ∈ s.objs, o.cur.runtimeId = rid
  txn : ∀ x ∈ s.txn, ∀ k, k ≠ rid → Aside k x
  new : ∀ x ∈ s.new, Bare x

/-- The call takes objects with `P` to objects with `P'`. -/
def Leads (P P' : Obj → Prop) : Eff → Prop
  | .db (.modify _ b f) =>
      ∀ o, P o → P' ⟨o.loaded, { f o.cur with runtimeId := o.cur.runtimeId }, o.dirty || b⟩
  | .db .flush => ∀ o, P o → P' ⟨o.cur, o.cur, false⟩
  | _ => ∀ o, P o → P' o

section Desk

variable {R : Type} {rem : Remote R} {rid jid : Uuid} {P P' : Obj → Prop} {s s' : Session} {e : Eff}
  {a : Ans e}

theorem Leads.same (h : Leads P P' e) (hm : ∀ k b f, e ≠ .db (.modify k b f))
    (hf : e ≠ .db .flush) :
    ∀ o, P o → P' o := by
  unfold Leads at h
  split at h
  · exact absurd rfl (hm _ _ _)
  · exact absurd rfl hf
  · exact h

theorem bare_aside {x : Write} (h : Bare x) (k : Uuid) : Aside k x := by
  cases x with
  | insertRuntime | insertJob | updateRuntime => exact False.elim h
  | updateJob | updateStep | insertStep | insertEvent | insertBridge => trivial

theorem Desk.same (h : Desk rid P s) (hP : ∀ o, P o → P' o) : Desk rid P' s :=
  ⟨fun o ho hk => hP o (h.objs o ho hk), h.rest, h.keys, h.has, h.txn, h.new⟩

theorem Desk.pending (h : Desk rid P s) (t : Time) {k : Uuid} (hk : k ≠ rid) : ∀ x ∈ s.pending t,
    Aside k x := by
  intro x hx
  simp only [Session.pending, List.mem_append] at hx
  rcases hx with (hx | hx) | hx
  · obtain ⟨o, ho, hx⟩ := List.mem_flatMap.mp hx
    by_cases hr : o.cur.runtimeId = rid
    · refine write_aside (fun hl => hk ?_) x hx
      rw [← hl, h.keys o ho, hr]
    · obtain ⟨hl, hd⟩ := h.rest o ho hr
      obtain ⟨l, c, d⟩ := o
      obtain rfl : l = c := hl
      obtain rfl : d = false := hd
      rw [Obj.write_self] at hx
      cases hx
  · exact jobs_aside _ x hx
  · obtain ⟨y, hy, rfl⟩ := List.mem_map.mp hx
    exact aside_stamped (bare_aside (h.new y hy) k) t

theorem Desk.flush (h : Desk rid P s) (t : Time) (hP : ∀ o, P o → P' ⟨o.cur, o.cur, false⟩) :
    Desk rid P' (s.flush t) := by
  have hobjs : ∀ o ∈ (s.flush t).objs, ∃ o' ∈ s.objs, o = ⟨o'.cur, o'.cur, false⟩ := by
    intro o ho
    rcases mem_flush ho with ho | ⟨r, hr, -⟩
    · exact ho
    · exact False.elim (h.new _ hr)
  refine ⟨fun o ho hk => ?_, fun o ho _ => ?_, fun o ho => ?_, ?_, fun x hx k hk => ?_,
    fun _ hx => absurd hx List.not_mem_nil⟩
  · obtain ⟨o', ho', rfl⟩ := hobjs o ho
    exact hP o' (h.objs o' ho' hk)
  · obtain ⟨o', -, rfl⟩ := hobjs o ho
    exact ⟨rfl, rfl⟩
  · obtain ⟨o', -, rfl⟩ := hobjs o ho
    rfl
  · obtain ⟨o, ho, hk⟩ := h.has
    exact ⟨⟨o.cur, o.cur, false⟩, List.mem_append_left _ (List.mem_map_of_mem ho), hk⟩
  · rcases List.mem_append.mp hx with hx | hx
    · exact h.txn x hx k hk
    · exact h.pending t hk x hx

theorem Desk.modify (h : Desk rid P s) {b : Bool} {f : AgentRuntime → AgentRuntime}
    (hP : ∀ o, P o → P' ⟨o.loaded, { f o.cur with runtimeId := o.cur.runtimeId }, o.dirty || b⟩) :
    Desk rid P' (s.modify rid b f) := by
  refine ⟨fun o ho hk => ?_, fun o ho hk => ?_, fun o ho => ?_, ?_, h.txn, h.new⟩
  · rcases mem_modify ho with ⟨ho, hn⟩ | ⟨o', ho', hk', rfl⟩
    · exact absurd hk hn
    · exact hP o' (h.objs o' ho' hk')
  · rcases mem_modify ho with ⟨ho, -⟩ | ⟨o', -, hk', rfl⟩
    · exact h.rest o ho hk
    · exact absurd hk' hk
  · rcases mem_modify ho with ⟨ho, -⟩ | ⟨o', ho', -, rfl⟩
    · exact h.keys o ho
    · exact h.keys o' ho'
  · obtain ⟨o, ho, hk⟩ := h.has
    refine ⟨_, List.mem_map_of_mem ho, ?_⟩
    rw [if_pos hk]
    exact hk

theorem Desk.loadAll (h : Desk rid P s) {rs : List AgentRuntime}
    (hrs : ∀ r ∈ rs, r.runtimeId ≠ rid) :
    Desk rid P (s.loadAll rs).2 := by
  obtain ⟨os, hos⟩ := loadAll_objs rs s
  refine ⟨fun o ho hk => ?_, fun o ho hk => ?_, fun o ho => ?_, ?_, ?_, ?_⟩
  · rcases mem_loadAll ho with ho | ⟨r, hr, rfl, -⟩
    · exact h.objs o ho hk
    · exact absurd hk (hrs r hr)
  · rcases mem_loadAll ho with ho | ⟨r, -, rfl, -⟩
    · exact h.rest o ho hk
    · exact ⟨rfl, rfl⟩
  · rcases mem_loadAll ho with ho | ⟨r, -, rfl, -⟩
    · exact h.keys o ho
    · rfl
  · obtain ⟨o, ho, hk⟩ := h.has
    exact ⟨o, loadAll_mem ho, hk⟩
  · rw [hos]
    exact h.txn
  · rw [hos]
    exact h.new

theorem job_adds {x : Write} (he : JobCall jid rid e) (hx : adds e = some x) : Bare x := by
  unfold adds at hx
  split at hx
  all_goals cases hx
  all_goals first | trivial | skip
  all_goals
    cases he with
    | routine hr => rcases hr with hr | hr <;> exact False.elim hr

theorem Desk.next (h : Desk rid P s) (he : JobCall jid rid e) (hl : Leads P P' e)
    (hs : sessionStep rem s e a s') :
    Desk rid P' s' := by
  obtain ⟨i, w, w', rfl, hs, rfl⟩ := hs
  have ht := step_turn hs
  generalize w'.sessions i = s' at ht
  cases ht with
  | keep hr =>
      refine h.same (hl.same ?_ ?_)
      · rintro k b f rfl
        exact hr
      · rintro rfl
        exact hr
  | load hr ho =>
      cases he with
      | routine hr => rcases hr with hr | hr <;> exact False.elim hr
  | loadAll q =>
      cases he with
      | routine hr => rcases hr with hr | hr <;> exact False.elim hr
      | others =>
          refine (h.loadAll fun r hr => ?_).same hl
          have hr' := (List.mem_filter.mp hr).2
          simpa using hr'
  | jobs js hj =>
      have hd := h.same (hl.same ?_ ?_)
      · exact ⟨hd.objs, hd.rest, hd.keys, hd.has, hd.txn, hd.new⟩
      · rintro k b f rfl
        exact hj
      · rintro rfl
        exact hj
  | modify k b f =>
      have hk : k = rid := by
        cases he with
        | routine hr => rcases hr with hr | hr <;> exact False.elim hr
        | note | reserved | state | placed | error => rfl
      subst hk
      exact h.modify hl
  | @add _ x hx =>
      have hd := h.same (hl.same ?_ ?_)
      · refine ⟨hd.objs, hd.rest, hd.keys, hd.has, hd.txn, fun y hy => ?_⟩
        rcases List.mem_append.mp hy with hy | hy
        · exact h.new y hy
        · rw [List.mem_singleton.mp hy]
          exact job_adds he hx
      · rintro k b f rfl
        cases hx
      · rintro rfl
        cases hx
  | flush => exact h.flush w.clock hl
  | rollback hd =>
      obtain ⟨j, hj, -⟩ := hd
      exact False.elim (h.new _ (job_pending hj))
  | commit =>
      have hd := h.same hl
      exact ⟨hd.objs, hd.rest, hd.keys, hd.has, fun _ hx => absurd hx List.not_mem_nil, hd.new⟩
  | close =>
      cases he with
      | routine hr => rcases hr with hr | hr <;> exact False.elim hr

end Desk

def Heard (rid : Uuid) (rows : List AgentRuntime) (past : PyTrace) : Prop :=
  (⟨othersRead rid, rows⟩ : Event Eff Ans) ∈ past

/-- A row that is RUNNING has an address that its job has not heard of. -/
def Fits (rid : Uuid) (past : PyTrace) (r : AgentRuntime) : Prop :=
  (r.actualState = .running → ∃ rows, Heard rid rows past) ∧
    ∀ rows, Heard rid rows past → ∃ x, x ≠ "" ∧ ipOf r = some (.str x) ∧
      (r.actualState = .running → some x ∉ rows.map addressOf)

def View (rid : Uuid) (past : PyTrace) (o : Obj) : Prop :=
  Fits rid past o.loaded ∧ Fits rid past o.cur ∧ ∀ rows, Heard rid rows past →
    ipOf o.loaded = ipOf o.cur

def Calm (rid : Uuid) (s : Session) : Prop := ∀ x ∈ s.txn, Aside rid x

/-- The job has committed an address, and has no other row in hand. -/
structure Published (rid : Uuid) (s : Session × PyTrace) : Prop where
  owns : Owns rid s.1
  calm : Calm rid s.1
  unheard : ∀ rows, ¬ Heard rid rows s.2
  address : ∃ x, x ≠ "" ∧ ∀ o ∈ s.1.objs, o.cur.runtimeId = rid → ipOf o.loaded = some (.str x)

/-- A call of a job that reads the other rows only when its own address is there for them. -/
structure AtWork (rid jid : Uuid) (s : Session × PyTrace) (e : Eff) : Prop where
  call : JobCall jid rid e
  desk : Desk rid (View rid s.2) s.1
  keys : keysOf s.2 = [rid, jid]
  filed : Committed s.2
  read : e = othersRead rid → Published rid s

def Idle (o : Obj) : Prop := o.loaded.actualState ≠ .running ∧ o.cur.actualState ≠ .running

/-- The object has the address `x`, which stands for RUNNING only if none of the rows has it. -/
def Claimed (x : String) (rows : List AgentRuntime) (o : Obj) : Prop :=
  (ipOf o.loaded = some (.str x) ∧ ipOf o.cur = some (.str x)) ∧
    (Idle o ∨ some x ∉ rows.map addressOf)

/-- What a job that has heard `h` may have in hand. -/
def Told (h : Option (List AgentRuntime)) (o : Obj) : Prop :=
  match h with
  | none => Idle o
  | some rows => ∃ x, x ≠ "" ∧ Claimed x rows o

structure Stage (rid jid : Uuid) (h : Option (List AgentRuntime)) (P : Obj → Prop)
    (s : Session × PyTrace) : Prop where
  desk : Desk rid P s.1
  keys : keysOf s.2 = [rid, jid]
  filed : Committed s.2
  heard : ∀ rows, Heard rid rows s.2 ↔ h = some rows
  owns : h = none → Owns rid s.1

section Stage

variable {R : Type} {rem : Remote R} {rid jid : Uuid} {h : Option (List AgentRuntime)}
  {P P' : Obj → Prop}
  {s s' : Session × PyTrace} {e : Eff} {a : Ans e}

theorem Told.view {o : Obj} {past : PyTrace} (ho : Told h o)
    (hh : ∀ rows, Heard rid rows past ↔ h = some rows) :
    View rid past o := by
  cases h with
  | none =>
      obtain ⟨hl, hc⟩ : Idle o := ho
      have hno : ∀ rows, ¬ Heard rid rows past :=
        fun rows hr => Option.noConfusion rfl (heq_of_eq ((hh rows).mp hr))
      exact ⟨⟨fun hr => absurd hr hl, fun rows hr => absurd hr (hno rows)⟩,
        ⟨fun hr => absurd hr hc, fun rows hr => absurd hr (hno rows)⟩, fun rows hr => absurd hr (hno rows)⟩
  | some rows =>
      obtain ⟨x, hx, ⟨hl, hc⟩, hi⟩ := ho
      have hrows : ∀ rows', Heard rid rows' past → rows' = rows :=
        fun rows' hr => (Option.some.inj ((hh rows').mp hr)).symm
      refine ⟨⟨fun _ => ⟨rows, (hh rows).mpr rfl⟩, fun rows' hr => ⟨x, hx, hl, fun hrun => ?_⟩⟩,
        ⟨fun _ => ⟨rows, (hh rows).mpr rfl⟩, fun rows' hr => ⟨x, hx, hc, fun hrun => ?_⟩⟩, fun _ _ => hl.trans hc.symm⟩
      · rw [hrows rows' hr]
        exact hi.resolve_left fun hi => hi.1 hrun
      · rw [hrows rows' hr]
        exact hi.resolve_left fun hi => hi.2 hrun

theorem Stage.atWork (hs : Stage rid jid h P s) (hP : ∀ o, P o → Told h o) (hc : JobCall jid rid e)
    (ho : e = othersRead rid → Published rid s) : AtWork rid jid s e :=
  ⟨hc, hs.desk.same fun o hp => (hP o hp).view hs.heard, hs.keys, hs.filed, ho⟩

theorem job_draws (hc : JobCall jid rid e) : e ≠ .sys .uuid4 := by
  rintro rfl
  cases hc with
  | routine hr => rcases hr with hr | hr <;> exact hr

theorem job_alone (hc : JobCall jid rid e) (ho : e ≠ othersRead rid) : alone rid e := by
  unfold alone
  split
  · cases hc with
    | routine hr => rcases hr with hr | hr <;> exact False.elim hr
  · cases hc with
    | routine hr => rcases hr with hr | hr <;> exact False.elim hr
    | others => exact ho rfl
  · cases hc with
    | routine hr => rcases hr with hr | hr <;> exact False.elim hr
  · trivial

theorem heard_snoc {rows : List AgentRuntime} {past : PyTrace} (ho : e ≠ othersRead rid) :
    Heard rid rows (past ++ [⟨e, a⟩]) ↔ Heard rid rows past := by
  refine ⟨fun hr => ?_, fun hr => List.mem_append_left _ hr⟩
  rcases List.mem_append.mp hr with hr | hr
  · exact hr
  · exact absurd (congrArg Sigma.fst (List.mem_singleton.mp hr)).symm ho

theorem Stage.next (hs : Stage rid jid h P s) (hc : JobCall jid rid e) (ho : e ≠ othersRead rid)
    (hl : Leads P P' e)
    (ht : traced (sessionStep rem) s e a s') : Stage rid jid h P' s' := by
  obtain ⟨ht, hp⟩ := ht
  refine ⟨hs.desk.next hc hl ht, ?_, ?_, fun rows => ?_,
    fun hn => (hs.owns hn).next ht (job_alone hc ho)⟩
  · rw [hp, keysOf_snoc (job_draws hc)]
    exact hs.keys
  · rw [hp]
    exact hs.filed.append _
  · rw [hp, heard_snoc ho]
    exact hs.heard rows

/-- The calls of a part of the job that keeps `P`. -/
def Keeping (jid rid : Uuid) (P : Obj → Prop) (e : Eff) : Prop :=
  JobCall jid rid e ∧ e ≠ othersRead rid ∧ Leads P P e

theorem sat_stage {α : Type} {p : Py α} (ho : Only (Keeping jid rid P) p) (hP : ∀ o, P o → Told h o)
    (hs : Stage rid jid h P s) :
    Sat (traced (sessionStep rem)) (AtWork rid jid) (fun s _ => Stage rid jid h P s)
      (fun s _ => Stage rid jid h P s)
      p s := by
  refine (ho.keeps (fun s e a s' he hs ht => hs.next he.1 he.2.1 he.2.2 ht) hs).weaken fun s e he =>
    ?_
  exact he.2.atWork hP he.1.1 fun hx => absurd hx he.1.2.1

end Stage

/-- The other rows are not read, and the own one is changed as `F` allows. -/
def tame (F : (AgentRuntime → AgentRuntime) → Prop) : Eff → Prop
  | .db (.selectRuntimes _) => False
  | .db (.modify _ _ f) => F f
  | _ => True

def Tame (jid rid : Uuid) (F : (AgentRuntime → AgentRuntime) → Prop) (e : Eff) : Prop :=
  JobCall jid rid e ∧ tame F e

def Rests (f : AgentRuntime → AgentRuntime) : Prop :=
  ∀ r, (f r).actualState = .running → r.actualState = .running

def Spares (f : AgentRuntime → AgentRuntime) : Prop := ∀ r, ipOf (f r) = ipOf r

theorem spares_set {key : String} (hk : "ip" ≠ key) (v : Json) :
    Spares fun r => { r with ownershipMeta := Dict.set r.ownershipMeta key v } :=
  fun r => Dict.get?_set_of_ne r.ownershipMeta v hk

def Noted (x : String) (o : Obj) : Prop := Idle o ∧ ipOf o.cur = some (.str x)

def Clean (x : String) (o : Obj) : Prop := Noted x o ∧ o.loaded = o.cur ∧ o.dirty = false

section Parts

variable {R : Type} {rem : Remote R} {jid rid : Uuid} {P : Obj → Prop}
  {F : (AgentRuntime → AgentRuntime) → Prop}
  {s : Session × PyTrace} {x : String} {rows : List AgentRuntime}

theorem tame_keeping (hF : ∀ f, F f → ∀ l c d b, P ⟨l, c, d⟩ →
    P ⟨l, { f c with runtimeId := c.runtimeId }, d || b⟩)
    (hs : ∀ o, P o → P ⟨o.cur, o.cur, false⟩) {e : Eff} (he : Tame jid rid F e) :
    Keeping jid rid P e := by
  obtain ⟨hc, ht⟩ := he
  refine ⟨hc, ?_, ?_⟩
  · rintro rfl
    exact ht
  · unfold Leads
    split
    · exact fun o ho => hF _ ht _ _ _ _ ho
    · exact hs
    · exact fun _ ho => ho

theorem tame_observes {e : Eff} (he : observes e) : Tame jid rid F e := by
  refine ⟨.routine (.inl he), ?_⟩
  unfold observes at he
  split at he
  all_goals first | exact trivial | exact False.elim he

theorem tame_allows (jid : Uuid) (runtime : AgentRuntime) (F : (AgentRuntime → AgentRuntime) → Prop)
    (ns as : List String) :
    Allows (Tame jid runtime.runtimeId F) (fun _ _ => True) ns as := by
  have hA := job_allows jid runtime ns as
  refine ⟨fun e he _ => tame_observes he, fun e he _ _ _ _ => tame_observes he,
    fun e he => ⟨hA.book e he, ?_⟩,
    fun st hs => ⟨⟨(hA.step st hs).1, trivial⟩, (hA.step st hs).2, trivial⟩,
    fun ev he => ⟨hA.event ev he, trivial⟩⟩
  unfold books at he
  split at he
  all_goals first | exact trivial | exact False.elim he

theorem idle_keeping {e : Eff} (he : Tame jid rid Rests e) : Keeping jid rid Idle e :=
  tame_keeping (fun _ hf _ _ _ _ ho => ⟨ho.1, fun hr => ho.2 (hf _ hr)⟩) (fun _ ho => ⟨ho.2, ho.2⟩)
    he

theorem clean_keeping {e : Eff} (he : Tame jid rid (fun _ => False) e) :
    Keeping jid rid (Clean x) e :=
  tame_keeping (fun _ hf => False.elim hf) (fun _ ho => ⟨⟨⟨ho.1.1.2, ho.1.1.2⟩, ho.1.2⟩, rfl, rfl⟩)
    he

theorem claimed_keeping {e : Eff} (he : Tame jid rid (fun f => Rests f ∧ Spares f) e) :
    Keeping jid rid (Claimed x rows) e := by
  refine tame_keeping (fun f hf l c d b ho =>
    ⟨⟨ho.1.1, (hf.2 c).trans ho.1.2⟩, ho.2.imp_left fun hi => ?_⟩)
    (fun o ho => ⟨⟨ho.1.2, ho.1.2⟩, ho.2.imp_left fun hi => ⟨hi.2, hi.2⟩⟩) he
  exact ⟨hi.1, fun hr => hi.2 (hf.1 _ hr)⟩

theorem cleared_keeping (hx : some x ∉ rows.map addressOf) {e : Eff} (he : Tame jid rid Spares e) :
    Keeping jid rid (Claimed x rows) e :=
  tame_keeping (fun _ hf _ c _ _ ho => ⟨⟨ho.1.1, (hf c).trans ho.1.2⟩, .inr hx⟩)
    (fun _ ho => ⟨⟨ho.1.2, ho.1.2⟩, .inr hx⟩) he

theorem told_idle : ∀ o, Idle o → Told none o := fun _ h => h

theorem told_claimed (hx : x ≠ "") : ∀ o, Claimed x rows o → Told (some rows) o :=
  fun _ h => ⟨x, hx, h⟩

theorem clean_idle : ∀ o, Clean x o → Told none o := fun _ h => h.1.1

def Left (rid jid : Uuid) (s : Session × PyTrace) : Prop :=
  Stage rid jid none Idle s ∨ ∃ rows x, x ≠ "" ∧ Stage rid jid (some rows) (Claimed x rows) s

theorem Stage.same {h : Option (List AgentRuntime)} {P' : Obj → Prop} (hs : Stage rid jid h P s)
    (hP : ∀ o, P o → P' o) :
    Stage rid jid h P' s :=
  ⟨hs.desk.same hP, hs.keys, hs.filed, hs.heard, hs.owns⟩

theorem sat_idle {α : Type} {p : Py α} (ho : Only (Tame jid rid Rests) p)
    (hs : Stage rid jid none Idle s) :
    Sat (traced (sessionStep rem)) (AtWork rid jid) (fun s _ => Stage rid jid none Idle s)
      (fun s _ => Left rid jid s) p s :=
  (sat_stage (ho.mono fun _ he => idle_keeping he) told_idle hs).mono (fun _ _ h => h) fun _ _ h =>
    .inl h

theorem sat_claimed {α : Type} {p : Py α} (hx : x ≠ "")
    (ho : Only (Keeping jid rid (Claimed x rows)) p)
    (hs : Stage rid jid (some rows) (Claimed x rows) s) :
    Sat (traced (sessionStep rem)) (AtWork rid jid)
      (fun s _ => Stage rid jid (some rows) (Claimed x rows) s)
      (fun s _ => Left rid jid s) p s :=
  (sat_stage ho (told_claimed hx) hs).mono (fun _ _ h => h) fun _ _ h => .inr ⟨rows, x, hx, h⟩

theorem ledger_reads {e : Eff} (he : ledger e) : e ≠ othersRead rid := by
  rintro rfl
  exact he

theorem session_calm {s' : Session} {a : Unit} (h : sessionStep rem s.1 (.db .commit) a s') :
    Calm rid s' := by
  rw [session_commit h]
  exact fun _ hx => absurd hx List.not_mem_nil

theorem recordStep_publishes (seq : Nat) (step : String) (state : StepState)
    (detail : Option String)
    (hs : Stage rid jid none (Noted x) s) :
    Sat (traced (sessionStep rem)) (AtWork rid jid)
      (fun s _ => Stage rid jid none (Clean x) s ∧ Calm rid s.1)
      (fun s _ => Left rid jid s) (recordStep jid seq step state detail) s := by
  have hleads : Leads (Noted x) (Clean x) (.db .flush) :=
    fun o ho => ⟨⟨⟨ho.1.2, ho.1.2⟩, ho.2⟩, rfl, rfl⟩
  have hnoted : ∀ o, Noted x o → Told none o := fun _ h => h.1
  have hcall : ∀ {e : Eff}, ledger e → JobCall jid rid e := fun he => .routine (.inr he)
  have hleft : ∀ s, Stage rid jid none (Clean x) s → Left rid jid s :=
    fun s hs => .inl (hs.same fun _ ho => ho.1.1)
  have hkeep : ∀ {e : Eff}, ledger e → Leads (Clean x) (Clean x) e → ∀ s,
      Stage rid jid none (Clean x) s →
      AtWork rid jid s e ∧ ∀ a s', traced (sessionStep rem) s e a s' →
        Stage rid jid none (Clean x) s' := fun he hl s hs =>
    ⟨hs.atWork clean_idle (hcall he) fun hx => absurd hx (ledger_reads he), fun a s' ht =>
      hs.next (hcall he) (ledger_reads he) hl ht⟩
  have hend : ∀ s, Stage rid jid none (Clean x) s → Sat (traced (sessionStep rem)) (AtWork rid jid)
      (fun s _ => Stage rid jid none (Clean x) s ∧ Calm rid s.1) (fun s _ => Left rid jid s) commit
        s := by
    intro s hs
    obtain ⟨hg, hn⟩ := hkeep (e := .db .flush) trivial (fun o ho => hleads o ho.1) s hs
    refine (sat_bind _ _ _).mpr ⟨hg, fun a s' ht => (sat_orRaise a).mpr ?_⟩
    have hs' := hn a s' ht
    cases a with
    | error x => exact hleft s' hs'
    | ok u =>
        obtain ⟨hg, hn⟩ := hkeep (e := .db .commit) trivial (fun _ ho => ho) s' hs'
        exact ⟨hg, fun b s'' ht' => ⟨hn b s'' ht', session_calm ht'.1⟩⟩
  have hbegin : AtWork rid jid s (.db .flush) :=
    hs.atWork hnoted (hcall trivial) fun hx => absurd hx (ledger_reads (e := .db .flush) trivial)
  refine (sat_bind _ _ _).mpr ⟨hbegin, fun a s₁ ht => (sat_orRaise a).mpr ?_⟩
  have hs₁ :=
    hs.next (hcall (e := .db .flush) trivial) (ledger_reads (e := .db .flush) trivial) hleads ht
  cases a with
  | error x => exact hleft s₁ hs₁
  | ok u =>
      obtain ⟨hg, hn⟩ := hkeep (e := .db (.findStep jid seq)) trivial (fun _ ho => ho) s₁ hs₁
      refine (sat_bind _ _ _).mpr ⟨hg, fun found s₂ ht => ?_⟩
      have hs₂ := hn found s₂ ht
      cases found with
      | some st =>
          obtain ⟨hg, hn⟩ := hkeep (e := .db (.setStep ⟨jid, seq, step, state, detail⟩)) trivial
            (fun _ ho => ho) s₂ hs₂
          exact (sat_bind _ _ _).mpr ⟨hg, fun b s₃ ht => hend s₃ (hn b s₃ ht)⟩
      | none =>
          obtain ⟨hg, hn⟩ := hkeep (e := .db (.addStep ⟨jid, seq, step, state, detail⟩)) trivial
            (fun _ ho => ho) s₂ hs₂
          exact (sat_bind _ _ _).mpr ⟨hg, fun b s₃ ht => hend s₃ (hn b s₃ ht)⟩

theorem sat_otherRuntimeIps (hx : x ≠ "") (hs : Stage rid jid none (Clean x) s ∧ Calm rid s.1) :
    Sat (traced (sessionStep rem)) (AtWork rid jid)
      (fun s others => ∃ rows, Stage rid jid (some rows) (Claimed x rows) s ∧
        others = rows.filterMap addressOf)
      (fun s _ => Left rid jid s) (otherRuntimeIps rid) s := by
  obtain ⟨hs, hc⟩ := hs
  have hflush : JobCall jid rid (.db .flush) := .routine (.inr trivial)
  have hread : Eff.db .flush ≠ othersRead rid := ledger_reads (e := .db .flush) trivial
  refine (sat_bind _ _ _).mpr ((sat_bind _ _ _).mpr
    ⟨hs.atWork clean_idle hflush fun hx => absurd hx hread,
    fun a s₁ ht => (sat_orRaise a).mpr ?_⟩)
  have hs₁ : Stage rid jid none (Clean x) s₁ :=
    hs.next hflush hread (fun o ho => ⟨⟨⟨ho.1.1.2, ho.1.1.2⟩, ho.1.2⟩, rfl, rfl⟩) ht
  cases a with
  | error y => exact .inl (hs₁.same fun _ ho => ho.1.1)
  | ok u =>
      -- nothing was left to send, so the row stands in the database as in the session
      have hcalm : Calm rid s₁.1 := by
        obtain ⟨-, t, hses⟩ := session_sent ht.1 fun j hj => hs.desk.new _ hj
        rw [hses]
        intro y hy
        rcases List.mem_append.mp hy with hy | hy
        · exact hc y hy
        · simp only [Session.pending, List.mem_append] at hy
          rcases hy with (hy | hy) | hy
          · obtain ⟨o, ho, hy⟩ := List.mem_flatMap.mp hy
            by_cases hk : o.cur.runtimeId = rid
            · obtain ⟨-, hl, hd⟩ := hs.desk.objs o ho hk
              obtain ⟨l, c, d⟩ := o
              obtain rfl : l = c := hl
              obtain rfl : d = false := hd
              rw [Obj.write_self] at hy
              cases hy
            · refine write_aside (fun hl => hk ?_) y hy
              rw [← hs.desk.keys o ho, hl]
          · exact jobs_aside _ y hy
          · obtain ⟨z, hz, rfl⟩ := List.mem_map.mp hy
            exact aside_stamped (bare_aside (hs.desk.new z hz) rid) t
      have hpub : Published rid s₁ := by
        refine ⟨hs₁.owns rfl, hcalm, fun rows hr => ?_, x, hx, fun o ho hk => ?_⟩
        · cases (hs₁.heard rows).mp hr
        · obtain ⟨hn, hl, -⟩ := hs₁.desk.objs o ho hk
          exact hl ▸ hn.2
      refine ⟨hs₁.atWork clean_idle .others fun _ => hpub, fun rows s₂ ht => ?_⟩
      obtain ⟨ht, hp⟩ := ht
      have hothers : JobCall jid rid (othersRead rid) := .others
      have hd : Desk rid (Clean x) s₂.1 := hs₁.desk.next hothers (fun _ ho => ho) ht
      refine ⟨rows, ⟨hd.same fun o ho => ?_, ?_, ?_, fun rows' => ?_, fun h => by cases h⟩, rfl⟩
      · obtain ⟨⟨hi, hip⟩, hl, -⟩ := ho
        exact ⟨⟨hl ▸ hip, hip⟩, .inl hi⟩
      · rw [hp, keysOf_snoc Eff.noConfusion]
        exact hs₁.keys
      · rw [hp]
        exact hs₁.filed.append _
      · rw [hp]
        constructor
        · intro hr
          rcases List.mem_append.mp hr with hr | hr
          · exact absurd hr (hpub.unheard rows')
          · exact congrArg some (eq_of_heq (Sigma.mk.inj (List.mem_singleton.mp hr)).2).symm
        · rintro ⟨⟩
          exact List.mem_append_right _ List.mem_cons_self

section Verify

variable {S : Type} {T : S → (e : Eff) → Ans e → S → Prop} {σ : S}

theorem sat_require {checks : List Check} {name detail : String} {passed : Bool}
    {Q : S → List Check → Prop}
    (h : passed = true → ∀ cs, Q σ cs) :
    Sat T (fun _ _ => True) Q (fun _ _ => True) (CloneHygiene.require checks name passed detail)
      σ := by
  unfold CloneHygiene.require
  split
  next hp => exact h hp _
  · exact trivial

theorem sat_verifyCloneIdentity {vmid : Int} {hostname mac ip expected : String} {guest : Json}
    {others : List String}
    (hip : ip ≠ "") :
    Sat T (fun _ _ => True) (fun _ _ => ip ∉ others) (fun _ _ => True)
      (verifyCloneIdentity vmid hostname mac ip expected guest others) σ := by
  unfold verifyCloneIdentity
  refine Sat.seq (Q := fun _ _ => True) (sat_require fun _ _ => trivial) fun σ checks _ => ?_
  refine Sat.seq (Q := fun _ _ => True) (sat_require fun _ _ => trivial) fun σ checks _ => ?_
  refine Sat.seq (Q := fun _ _ => True) (sat_require fun _ _ => trivial) fun σ checks _ => ?_
  dsimp only
  rw [if_pos hip]
  refine Sat.seq (Q := fun _ _ => ip ∉ others) ?_ fun σ checks ho => sat_require fun _ _ => ho
  refine (sat_bind _ _ _).mpr ⟨trivial, fun leases σ _ => (sat_orRaise leases).mpr ?_⟩
  cases leases with
  | error y => trivial
  | ok leases =>
      refine Sat.seq (Q := fun _ _ => ip ∉ others) (sat_require fun hp _ => ?_) fun σ checks ho =>
        ?_
      · simpa using hp
      · refine (sat_bind _ _ _).mpr ((sat_bind _ _ _).mpr ⟨trivial, fun out σ _ => ?_⟩)
        exact sat_require fun _ _ => ho

end Verify

theorem tame_claimed {e : Eff} (he : Tame jid rid (fun _ => False) e) :
    Keeping jid rid (Claimed x rows) e := by
  refine claimed_keeping ⟨he.1, ?_⟩
  have ht := he.2
  unfold tame at ht ⊢
  split at ht
  · exact ht
  · exact False.elim ht
  · trivial

theorem mem_others : x ∈ rows.filterMap addressOf ↔ some x ∈ rows.map addressOf := by
  rw [List.mem_filterMap, List.mem_map]

/-- A row with an address is read by its job after it was committed, and passes
only if no row that was read has the address. -/
theorem runCloneHygiene_stages {runtime : AgentRuntime} (node : String) (vmid : Int) (hx : x ≠ "")
    (hk : runtime.runtimeId = rid) (hs : Stage rid jid none (Clean x) s ∧ Calm rid s.1) :
    Sat (traced (sessionStep rem)) (AtWork rid jid)
      (fun s _ => ∃ rows, Stage rid jid (some rows) (Claimed x rows) s ∧
        some x ∉ rows.map addressOf)
      (fun s _ => Left rid jid s) (runCloneHygiene runtime node vmid x) s := by
  subst hk
  have hA := fun F => tame_allows jid runtime F [] ["clone_hygiene_failed"]
  have hstop : ∀ s, Stage runtime.runtimeId jid none (Clean x) s ∧ Calm runtime.runtimeId s.1 →
      Left runtime.runtimeId jid s := fun s hs => .inl (hs.1.same fun _ ho => ho.1.1)
  -- calls outside the database leave the session
  have hout : ∀ {α : Type} {p : Py α} {s : Session × PyTrace}, Only observes p →
      Stage runtime.runtimeId jid none (Clean x) s ∧ Calm runtime.runtimeId s.1 →
      Sat (traced (sessionStep rem)) (AtWork runtime.runtimeId jid)
        (fun s _ => Stage runtime.runtimeId jid none (Clean x) s ∧ Calm runtime.runtimeId s.1)
        (fun s _ => Left runtime.runtimeId jid s) p s := by
    intro α p s ho hs
    refine ((ho.keeps (T := traced (sessionStep rem))
      (I := fun s => Stage runtime.runtimeId jid none (Clean x) s ∧ Calm runtime.runtimeId s.1) ?_ hs).weaken ?_).mono
        (fun _ _ h => h) fun _ _ h => hstop _ h
    · intro s e a s' he hs ht
      have hdb : ∀ c, e ≠ .db c := by
        rintro c rfl
        exact he
      have hkeep : Keeping jid runtime.runtimeId (Clean x) e := clean_keeping (tame_observes he)
      refine ⟨hs.1.next hkeep.1 hkeep.2.1 hkeep.2.2 ht, ?_⟩
      rw [session_remote ht.1 hdb]
      exact hs.2
    · intro s e he
      refine he.2.1.atWork clean_idle (.routine (.inl he.1)) fun hr => ?_
      subst hr
      exact False.elim he.1
  unfold runCloneHygiene
  refine Sat.seq (hout (only_vmConfig node vmid) hs) fun s cfg hs => ?_
  refine Sat.seq (hout (only_net0Mac cfg) hs) fun s mac hs => ?_
  refine Sat.seq (hout (only_guestMarker cfg) hs) fun s marker hs => ?_
  refine Sat.seq (sat_otherRuntimeIps hx hs) fun s others hs => ?_
  obtain ⟨rows, hs, rfl⟩ := hs
  refine Sat.seq (sat_claimed hx (only_dictGet _ _) hs) fun s guestId hs => ?_
  have hkeeps : Only (Keeping jid runtime.runtimeId (Claimed x rows)) (tryCatch (do
      let checks ← verifyCloneIdentity vmid runtime.name mac x runtime.acmsAgentId guestId
          (rows.filterMap addressOf)
      pure (Except.ok checks : Except PyExc (List Check)))
      (fun e => if e.cls = .hygieneError then pure (Except.error e) else throw e)) := by
    refine Only.tryCatch (Only.bind ?_ fun _ => only_pure _) fun e =>
      Only.ite (only_pure _) (only_throw _)
    exact (only_verifyCloneIdentity _ _ _ _ _ _ _ (hA fun _ => False) trivial).mono fun _ he =>
      tame_claimed he
  have hgate : Sat (traced (sessionStep rem)) (fun _ _ => True)
      (fun _ (report : Except PyExc (List Check)) => ∀ checks, report = .ok checks →
        x ∉ rows.filterMap addressOf)
      (fun _ _ => True)
      (tryCatch (do
          let checks ← verifyCloneIdentity vmid runtime.name mac x runtime.acmsAgentId guestId
              (rows.filterMap addressOf)
          pure (Except.ok checks))
        (fun e => if e.cls = .hygieneError then pure (Except.error e) else throw e)) s := by
    refine (sat_tryCatch _ _ _).mpr (Sat.seq ((sat_verifyCloneIdentity hx).mono (fun _ _ h => h)
      fun σ e _ => ?_)
      fun σ checks ho => fun _ _ => ho)
    split
    · exact fun checks h => by cases h
    · trivial
  refine Sat.seq ((((sat_claimed hx hkeeps hs).and hgate).weaken fun _ _ h => h.1).mono
    (fun _ _ h => h) fun _ _ h => h.1) fun s report hs => ?_
  obtain ⟨hs, hclear⟩ := hs
  cases report with
  | ok checks =>
      have hfree : some x ∉ rows.map addressOf := fun hm => hclear checks rfl (mem_others.mpr hm)
      refine Sat.seq (sat_claimed hx (only_call (tame_claimed ⟨.routine (.inl trivial), trivial⟩)
        fun _ => only_ret _) hs)
        fun s t hs => ?_
      refine (sat_claimed hx (only_call (claimed_keeping
        ⟨.note "clone_hygiene" _ (by simp [noteKeys]),
        fun _ h => h, spares_set (by decide) _⟩) fun _ => only_ret _) hs).mono (fun _ _ h => ⟨rows, h, hfree⟩) fun _ _ h => h
  | error e =>
      refine Sat.seq (sat_claimed hx (only_call
        (claimed_keeping ⟨.note "clone_hygiene" _ (by simp [noteKeys]),
        fun _ h => h, spares_set (by decide) _⟩) fun _ => only_ret _) hs) fun s _ hs => ?_
      refine Sat.seq (sat_claimed hx ((only_event _ _ _ _ (hA fun _ => False)).mono fun _ he =>
        tame_claimed he) hs)
        fun s _ hs => ?_
      exact .inr ⟨rows, x, hx, hs⟩

/-- The row has an address that no row had when its job looked. -/
def Cleared (rid jid : Uuid) (s : Session × PyTrace) : Prop :=
  ∃ rows x, x ≠ "" ∧ Stage rid jid (some rows) (Claimed x rows) s ∧ some x ∉ rows.map addressOf

theorem sat_cleared {α : Type} {p : Py α} (ho : Only (Tame jid rid Spares) p)
    (hs : Cleared rid jid s) :
    Sat (traced (sessionStep rem)) (AtWork rid jid) (fun s _ => Cleared rid jid s)
      (fun s _ => Left rid jid s) p s := by
  obtain ⟨rows, x, hx, hs, hc⟩ := hs
  exact (sat_claimed hx (ho.mono fun _ he => cleared_keeping hc he) hs).mono
    (fun _ _ h => ⟨rows, x, hx, h, hc⟩) fun _ _ h => h

theorem bootVm_stages {runtime : AgentRuntime} (node : String) (vmid : Int)
    (hk : runtime.runtimeId = rid)
    (hs : Stage rid jid none Idle s) :
    Sat (traced (sessionStep rem)) (AtWork rid jid) (fun s _ => Cleared rid jid s)
      (fun s _ => Left rid jid s)
      (bootVm jid runtime node vmid) s := by
  subst hk
  have hA := fun F ns => tame_allows jid runtime F ns []
  unfold bootVm
  refine Sat.seq (sat_idle (only_recordStep _ _ _ _ _ (hA _ _)) hs) fun s _ hs => ?_
  refine Sat.seq (sat_idle (Only.bind (only_pve ⟨.start node vmid, trivial⟩) fun _ => only_pure _)
    hs) fun s _ hs => ?_
  refine Sat.seq (sat_idle (only_waitForIp _ _ _ (hA _ []) trivial) hs) fun s ip hs => ?_
  cases hf : ip.filter (· != "") with
  | none => exact .inl hs
  | some x =>
      have hx : x ≠ "" := by simpa using (Option.filter_eq_some_iff.mp hf).2
      have hnote : JobCall jid runtime.runtimeId (noteCall runtime.runtimeId "ip" (.str x)) :=
        .note "ip" _ (by simp [noteKeys])
      have hread : noteCall runtime.runtimeId "ip" (.str x) ≠ othersRead runtime.runtimeId :=
        fun h => by cases h
      refine (sat_bind _ _ _).mpr ⟨hs.atWork told_idle hnote fun h => absurd h hread,
        fun _ s₁ ht => ?_⟩
      have hs₁ : Stage runtime.runtimeId jid none (Noted x) s₁ := by
        refine hs.next hnote hread (fun o ho => ⟨ho, ?_⟩) ht
        exact Dict.get?_set_self o.cur.ownershipMeta "ip" (.str x)
      refine Sat.seq (recordStep_publishes _ _ _ _ hs₁) fun s _ hs => ?_
      refine Sat.seq (recordStep_publishes _ _ _ _ (hs.1.same fun _ ho => ho.1)) fun s _ hs => ?_
      refine Sat.seq (runCloneHygiene_stages node vmid hx rfl hs) fun s _ hs => ?_
      obtain ⟨rows, hs, hc⟩ := hs
      exact sat_cleared (only_recordStep _ _ _ _ _ (hA _ _)) ⟨rows, x, hx, hs, hc⟩

theorem provisionVm_stages (cfg : Settings) (runtime : AgentRuntime) (hk : runtime.runtimeId = rid)
    (hs : Stage rid jid none Idle s) :
    Sat (traced (sessionStep rem)) (AtWork rid jid) (fun s _ => Cleared rid jid s)
      (fun s _ => Left rid jid s)
      (provisionVm cfg jid runtime) s := by
  subst hk
  have hA := fun ns as => tame_allows jid runtime Rests ns as
  rw [provisionVm_eq]
  refine Sat.seq (sat_idle (only_validate _ _ (hA _ [])) hs) fun s _ hs => ?_
  refine Sat.seq (sat_idle (only_placeVm _ _ _ (hA _ _)) hs) fun s node hs => ?_
  refine Sat.seq (sat_idle (only_cloneVm _ _ _ _ _ (hA _ _) trivial (fun _ => trivial) fun _ _ =>
    ⟨.clone .., trivial⟩) hs)
    fun s x hs => ?_
  obtain ⟨vmid, spec⟩ := x
  refine Sat.seq (sat_idle (only_configureVm _ _ _ _ (hA _ []) trivial
    (fun _ => ⟨.setConfig .., trivial⟩)
    fun _ => ⟨.note _ _ List.mem_cons_self, fun _ h => h⟩) hs) fun s om hs => ?_
  have hboot : ∀ s, Stage runtime.runtimeId jid none Idle s →
      Sat (traced (sessionStep rem)) (AtWork runtime.runtimeId jid)
      (fun s _ => Cleared runtime.runtimeId jid s) (fun s _ => Left runtime.runtimeId jid s) (do
        bootVm jid runtime node vmid
        pure (vmid, node)) s := fun s hs => Sat.seq (bootVm_stages node vmid rfl hs) fun s _ hs => hs
  unfold bringUp
  split
  · refine Sat.seq (sat_idle (only_reserveSandbox _ _ _ _ _ _ (hA _ _) trivial
      (fun c => ⟨.kea c, trivial⟩)
      fun x => ⟨.reserved x, fun _ h => h⟩) hs) fun s _ hs => hboot s hs
  · exact hboot s hs

theorem completeJob_stages (cfg : Settings) (runtime : AgentRuntime) (hk : runtime.runtimeId = rid)
    (hs : Stage rid jid none Idle s) :
    Sat (traced (sessionStep rem)) (AtWork rid jid) (fun _ _ => True) (fun s _ => Left rid jid s)
      (completeJob cfg jid runtime) s := by
  have hprovision : Sat (traced (sessionStep rem)) (AtWork rid jid) (fun s _ => Cleared rid jid s)
      (fun s _ => Left rid jid s) (provisionVm cfg jid runtime) s :=
        provisionVm_stages cfg runtime hk hs
  subst hk
  have hA := fun ns as => tame_allows jid runtime Spares ns as
  refine Sat.seq hprovision fun s x hs => ?_
  refine Sat.seq (sat_cleared (only_bootstrapHermes _ _ (hA _ []) (fun key hkey v => ?_)
    (fun _ _ => ⟨.routine (.inr trivial), trivial⟩) ⟨.state _, fun _ => rfl⟩) hs) fun s _ hs => ?_
  · refine ⟨job_notes jid runtime (List.mem_cons_of_mem _ (List.mem_cons_of_mem _ hkey)) v,
      spares_set ?_ v⟩
    rintro rfl
    simp [bridgeKeys] at hkey
  have hend : Only (Tame jid runtime.runtimeId Spares) (do
      modify runtime.runtimeId (placed x.1 x.2)
      modifyJob jid jobDone
      event runtime.runtimeId "provision_complete" "ok" [("vmid", .int x.1), ("node", .str x.2)]
      commit) := by
    refine Only.bind (only_call ⟨.placed _ _, fun _ => rfl⟩ fun _ => only_ret _) fun _ => ?_
    refine Only.bind (only_call ⟨.done, trivial⟩ fun _ => only_ret _) fun _ => ?_
    refine Only.bind (only_event _ _ _ _ (hA [] _)) fun _ => ?_
    exact only_commit ((hA [] []).book _ trivial) ((hA [] []).book _ trivial)
  exact (sat_cleared hend hs).mono (fun _ _ _ => trivial) fun _ _ h => h

theorem failJob_stages (runtime : AgentRuntime) (y : PyExc) (hk : runtime.runtimeId = rid)
    (hs : Left rid jid s) :
    Sat (traced (sessionStep rem)) (AtWork rid jid) (fun _ _ => True) (fun _ _ => True)
      (failJob jid rid y) s := by
  subst hk
  have ho : Only (Tame jid runtime.runtimeId fun f => Rests f ∧ Spares f)
      (failJob jid runtime.runtimeId y) := by
    have hA := fun ns as => tame_allows jid runtime (fun f => Rests f ∧ Spares f) ns as
    refine Only.bind (only_call ⟨.failed _, trivial⟩ fun _ => only_ret _) fun _ => ?_
    refine Only.bind (only_call ⟨.error, fun _ h => ActualState.noConfusion h, fun _ => rfl⟩
      fun _ => only_ret _) fun _ => ?_
    refine Only.bind (only_event _ _ _ _ (hA [] _)) fun _ => ?_
    exact only_commit ((hA [] []).book _ trivial) ((hA [] []).book _ trivial)
  rcases hs with hs | ⟨rows, x, hx, hs⟩
  · refine (sat_idle (ho.mono fun e he => ⟨he.1, ?_⟩) hs).mono (fun _ _ _ => trivial) fun _ _ _ =>
      trivial
    have ht := he.2
    unfold tame at ht ⊢
    split at ht
    · exact ht
    · exact ht.1
    · trivial
  · exact (sat_claimed hx (ho.mono fun _ he => claimed_keeping he) hs).mono (fun _ _ _ => trivial)
      fun _ _ _ => trivial

end Parts

end ServerManager.AddressStages
