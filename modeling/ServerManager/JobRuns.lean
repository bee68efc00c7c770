import ServerManager.JobLedger
import ServerManager.Replay

namespace ServerManager.JobRuns

open Interaction PyJson Orm Effects Config Storage Provisioning Calls Sessions Frames JobCalls
  JobRows JobLedger Replay

def entries (u : Uuid) (db : Db) : Option AgentRuntime × Option ProvisioningJob × Tables :=
  (db.runtime? u, db.job? u, tablesOf u u db)

variable {R : Type} {rem : Remote R} {i : Nat}

def Known (w : World R) : Prop := ∀ u, u ∉ w.uuids → entries u w.db = (none, none, {})

/-- What the other processes may do while process `i` works on the rows with
these keys: anything but touch them. -/
structure Elsewhere (i : Nat) (ids : List Uuid) (w w' : World R) : Prop where
  session : w'.sessions i = w.sessions i
  entries : ∀ u ∈ ids, entries u w'.db = entries u w.db
  known : Known w → Known w'

theorem Elsewhere.refl (i : Nat) (ids : List Uuid) (w : World R) : Elsewhere i ids w w :=
  ⟨rfl, fun _ _ => rfl, id⟩

def draws : (e : Eff) → Ans e → List Uuid
  | .sys .uuid4, u => [u]
  | _, _ => []

/-- A call of process `i`, which has drawn the keys `s.2`, after moves of the others. -/
def shared (rem : Remote R) (i : Nat) (s : World R × List Uuid) (e : Eff) (a : Ans e)
    (s' : World R × List Uuid) :
    Prop :=
  ∃ w, Elsewhere i s.2 s.1 w ∧ w.step rem i e a s'.1 ∧ s'.2 = s.2 ++ draws e a

variable {jid rid : Uuid} {w w' : World R} {ids : List Uuid} {L : Ledger}

theorem tables_entries {db db' : Db} (hj : entries jid db' = entries jid db)
    (hr : entries rid db' = entries rid db) :
    tablesOf jid rid db' = tablesOf jid rid db := by
  have h₁ : (tablesOf jid jid db').steps = (tablesOf jid jid db).steps :=
    congrArg (fun x => x.2.2.steps) hj
  have h₂ : (tablesOf rid rid db').events = (tablesOf rid rid db).events :=
    congrArg (fun x => x.2.2.events) hr
  have h₃ : (tablesOf rid rid db').bridges = (tablesOf rid rid db).bridges :=
    congrArg (fun x => x.2.2.bridges) hr
  simp only [tablesOf] at h₁ h₂ h₃ ⊢
  rw [h₁, h₂, h₃]

theorem reflects_elsewhere (h : Reflects i jid rid w L) (he : Elsewhere i ids w w') (hj : jid ∈ ids)
    (hr : rid ∈ ids) :
    Reflects i jid rid w' L := by
  have hrow : w'.db.runtime? rid = w.db.runtime? rid := congrArg Prod.fst (he.entries rid hr)
  have hjob : w'.db.job? jid = w.db.job? jid := congrArg (fun x => x.2.1) (he.entries jid hj)
  obtain ⟨dirty, hh⟩ := h.holds
  have hj' := h.jobHolds
  refine ⟨hrow ▸ h.row, hjob ▸ h.job, ?_, ⟨dirty, ?_⟩, ?_, ?_, ?_⟩
  · rw [tables_entries (he.entries jid hj) (he.entries rid hr)]
    exact h.tables
  · rw [he.session]
    refine ⟨?_, hh.key, hh.has, hh.obj, hh.keys, hh.new, hh.tracks⟩
    rw [seenRow, hrow]
    exact hh.row
  · rw [he.session]
    refine ⟨?_, hj'.key, hj'.has, hj'.obj, hj'.keys, hj'.new, hj'.tracks⟩
    rw [seenJob, hjob]
    exact hj'.row
  · rw [he.session]
    exact h.sent
  · rw [he.session]
    exact h.now

theorem shared_reflects {s s' : World R × List Uuid} {e : Eff} {a : Ans e}
    (h : Reflects i jid rid s.1 L ∧ jid ∈ s.2 ∧ rid ∈ s.2) (he : RunCall jid rid e)
    (hs : shared rem i s e a s') :
    booked jid rid L e a (L.step jid rid e) ∧ Reflects i jid rid s'.1 (L.step jid rid e) ∧
      jid ∈ s'.2 ∧ rid ∈ s'.2 := by
  obtain ⟨hr, hj, hk⟩ := h
  obtain ⟨w₁, hw, hst, hids⟩ := hs
  obtain ⟨hb, hs'⟩ := reflects_run (reflects_elsewhere hr hw hj hk) he hst
  refine ⟨hb, hs', ?_, ?_⟩
  · rw [hids]
    exact List.mem_append_left _ hj
  · rw [hids]
    exact List.mem_append_left _ hk

theorem sat_reflected {S α : Type} {T : S → (e : Eff) → Ans e → S → Prop} {M : S → Ledger → Prop}
    (hM : ∀ s L e a s', M s L → RunCall jid rid e → T s e a s' →
      booked jid rid L e a (L.step jid rid e) ∧ M s' (L.step jid rid e))
    {Q : Ledger × PyTrace → α → Prop} {X : Ledger × PyTrace → PyExc → Prop} {p : Py α}
    {past : PyTrace} {s : S}
    (h : Sat (traced (booked jid rid)) (fun _ e => RunCall jid rid e) Q X p (L, past))
    (hs : M s L) :
    Sat (traced T) (fun _ _ => True) (fun s a => ∃ L, M s.1 L ∧ Q (L, s.2) a)
      (fun s x => ∃ L, M s.1 L ∧ X (L, s.2) x)
      p (s, past) := by
  have hsim :=
    Sat.simulate (T := traced T) (M := fun s u => M s.1 u.1 ∧ s.2 = u.2) ?_ h (s := (s, past))
      ⟨hs, rfl⟩
  · refine (hsim.mono ?_ ?_).weaken fun _ _ _ => trivial
    · rintro s a ⟨u, ⟨hm, htr⟩, hq⟩
      rw [htr]
      exact ⟨u.1, hm, hq⟩
    · rintro s x ⟨u, ⟨hm, htr⟩, hq⟩
      rw [htr]
      exact ⟨u.1, hm, hq⟩
  · rintro s u e a s' ⟨hm, htr⟩ hc ⟨ht, htr'⟩
    obtain ⟨hb, hm'⟩ := hM s.1 u.1 e a s'.1 hm hc ht
    exact ⟨(u.1.step jid rid e, u.2 ++ [⟨e, a⟩]), ⟨hb, rfl⟩, hm', by rw [htr', htr]⟩

/-- The row as it is inserted at time `t'`. -/
def submittedRow (cfg : Settings) (req : ProvisionRequest) (rid : Uuid) (t t' : Time) :
    AgentRuntime :=
  { (if req.runtimeClass = "sandbox" then stampTtl cfg req t (newRuntime req rid)
    else newRuntime req rid) with
    createdAt := some t' }

def submittedJob (req : ProvisionRequest) (jid rid : Uuid) (requestedBy authority : String) :
    ProvisioningJob :=
  { jobId := jid, requestId := req.requestId, runtimeId := rid, requestedBy, authority, state := .queued }

def submittedEvent (req : ProvisionRequest) (rid : Uuid) (requestedBy authority : String) :
    RuntimeEvent :=
  { runtimeId := rid, actor := requestedBy, action := "provision_submitted"
    detail := [("request_id", .str req.requestId), ("authority", .str authority)] }

def submittedRecord (cfg : Settings) (req : ProvisionRequest) (requestedBy authority : String)
    (jid rid : Uuid)
    (t t' : Time) : Record where
  row := submittedRow cfg req rid t t'
  job := submittedJob req jid rid requestedBy authority
  tables := { events := [submittedEvent req rid requestedBy authority] }

/-- The process has this session, and drawn keys of its own that no row has yet. -/
structure Fresh (i : Nat) (x : Session) (own : List Uuid) (s : World R × List Uuid) : Prop where
  session : s.1.sessions i = x
  known : Known s.1
  keys : ∀ u ∈ own, u ∈ s.2 ∧ entries u s.1.db = (none, none, {})

section Fresh

variable {x : Session} {own : List Uuid} {s s' : World R × List Uuid}

theorem step_uuids {e : Eff} {a : Ans e} (hs : w.step rem i e a w') : ∀ u ∈ w.uuids,
    u ∈ w'.uuids := by
  intro u hu
  cases e with
  | pve | kea =>
      obtain ⟨r, -, rfl⟩ := hs
      exact hu
  | db c =>
      rcases dbStep_frame hs with ⟨s, rfl⟩ | rfl | ⟨-, t, -, rfl⟩
      · exact hu
      · exact hu
      · exact hu
  | sys c =>
      cases c with
      | now | ipNeigh =>
          obtain ⟨-, rfl⟩ := hs
          exact hu
      | uuid4 =>
          obtain ⟨-, rfl⟩ := hs
          exact List.mem_cons_of_mem _ hu
      | sleep | polls | randbelow | tokenUrlsafe | guestExec | leaseInventory =>
          rw [show w' = w from hs]
          exact hu

theorem Fresh.step {e : Eff} {a : Ans e} (h : Fresh i x own s) (hs : shared rem i s e a s')
    (he : e ≠ .db .commit) :
    ∃ w, w.sessions i = x ∧ w.step rem i e a s'.1 ∧ Known w ∧ Fresh i (s'.1.sessions i) own s' := by
  obtain ⟨w, hw, hst, hids⟩ := hs
  have hk := hw.known h.known
  have hdb : s'.1.db = w.db := (step_db hst).resolve_right fun hc => he hc.1
  refine ⟨w, hw.session.trans h.session, hst, hk, rfl, fun u hu => ?_, fun u hu => ?_⟩
  · rw [hdb]
    exact hk u fun hm => hu (step_uuids hst u hm)
  · obtain ⟨hm, hn⟩ := h.keys u hu
    rw [hids, hdb]
    exact ⟨List.mem_append_left _ hm, (hw.entries u hm).trans hn⟩

theorem Fresh.add {e : Eff} {a : Ans e} {y : Write} (h : Fresh i x own s)
    (hs : shared rem i s e a s')
    (he : e ≠ .db .commit) (hy : ∀ w w' : World R, w.step rem i e a w' →
      w' = w.setSession i { w.sessions i with new := (w.sessions i).new ++ [y] }) :
    Fresh i { x with new := x.new ++ [y] } own s' := by
  obtain ⟨w, hx, hst, -, hf⟩ := h.step hs he
  have hz : s'.1.sessions i = { x with new := x.new ++ [y] } := by
    rw [hy w s'.1 hst, setSession_self, hx]
  exact hz ▸ hf

theorem Fresh.flush {u : Unit} (h : Fresh i x own s)
    (hs : shared rem i s (.db .flush) (.ok u : Except PyExc Unit) s') :
    ∃ t, Fresh i (x.flush t) own s' := by
  obtain ⟨w, hx, ⟨-, -, hw⟩, -, hf⟩ :=
    h.step hs fun he => Eff.noConfusion he fun h => DbCall.noConfusion h
  have hz : s'.1.sessions i = x.flush w.clock := by
    rw [hw, setSession_self, hx]
  exact ⟨w.clock, hz ▸ hf⟩

theorem Fresh.draw {u : Uuid} (h : Fresh i x own s) (hs : shared rem i s (.sys .uuid4) u s') :
    Fresh i x (u :: own) s' := by
  obtain ⟨w, hx, ⟨hu, hw⟩, hk, hf⟩ := h.step hs fun he => Eff.noConfusion he
  have hz : s'.1.sessions i = x := by
    rw [hw]
    exact hx
  refine ⟨hz, hf.known, fun v hv => ?_⟩
  rcases List.mem_cons.mp hv with rfl | hv
  · obtain ⟨-, -, -, hids⟩ := hs
    rw [hids, hw]
    exact ⟨List.mem_append_right _ (List.mem_singleton.mpr rfl), hk v hu⟩
  · exact hf.keys v hv

end Fresh

theorem submit_reflects {w : World R} {r : AgentRuntime} {job : ProvisioningJob} {ev : RuntimeEvent}
    (hr : r.runtimeId = rid) (hj : job.jobId = jid) (hev : ev.runtimeId = rid) (t : Time) (db : Db)
    (hs : w.sessions i = { objs := [⟨r, r, false⟩], jobs := [⟨job, job⟩] })
    (hdb : w.db = db.applyAll t [.insertRuntime r, .insertJob job, .insertEvent ev])
    (hrid : entries rid db = (none, none, {})) (hjid : entries jid db = (none, none, {})) :
    Reflects i jid rid w (.settled ⟨r, job, { events := [ev] }⟩) := by
  have hrow : w.db.runtime? rid = some r := by
    have h₀ : db.runtime? rid = none := congrArg Prod.fst hrid
    rw [hdb, applyAll_row, h₀]
    simp [onRow, hr]
  have hjob : w.db.job? jid = some job := by
    have h₀ : db.job? jid = none := congrArg (fun x => x.2.1) hjid
    rw [hdb, applyAll_job, h₀]
    simp [onJob, hj]
  have htab : tablesOf jid rid w.db = { events := [ev] } := by
    have h₀ : tablesOf jid rid db = {} := by
      have h₁ : (tablesOf jid jid db).steps = [] := congrArg (fun x => x.2.2.steps) hjid
      have h₂ : (tablesOf rid rid db).events = [] := congrArg (fun x => x.2.2.events) hrid
      have h₃ : (tablesOf rid rid db).bridges = [] := congrArg (fun x => x.2.2.bridges) hrid
      simp only [tablesOf] at h₁ h₂ h₃ ⊢
      rw [h₁, h₂, h₃]
    rw [hdb, applyAll_tables, h₀]
    simp [Tables.put, hev]
  rw [← htab]
  refine reflects_committed ⟨?_, ⟨hr, hr⟩, ?_, ?_, ?_, ?_, merge_self r⟩
    ⟨?_, ⟨hj, hj⟩, ?_, ?_, ?_, ?_, rfl⟩ ?_ ?_
  · rw [hs]
    exact hrow
  · rw [hs]
    exact ⟨_, List.mem_singleton.mpr rfl, hr⟩
  · rw [hs]
    exact fun o ho _ => List.mem_singleton.mp ho
  · rw [hs]
    exact fun o ho => by rw [List.mem_singleton.mp ho]
  · rw [hs]
    exact fun x hx => absurd hx List.not_mem_nil
  · rw [hs]
    exact hjob
  · rw [hs]
    exact ⟨_, List.mem_singleton.mpr rfl, hj⟩
  · rw [hs]
    exact fun o ho _ => List.mem_singleton.mp ho
  · rw [hs]
    exact fun o ho => by rw [List.mem_singleton.mp ho]
  · rw [hs]
    exact fun x hx => absurd hx List.not_mem_nil
  · rw [hs]
  · rw [hs]

/-- A request that is new leaves the rows of its job, and nothing under way. -/
def Submitted (cfg : Settings) (req : ProvisionRequest) (requestedBy authority : String) (i : Nat)
    (s : World R × List Uuid) (job : ProvisioningJob) : Prop :=
  ∃ jid rid t t', job = submittedJob req jid rid requestedBy authority ∧ jid ∈ s.2 ∧ rid ∈ s.2 ∧
    Reflects i jid rid s.1 (.settled (submittedRecord cfg req requestedBy authority jid rid t t'))

theorem insert_sat {s : World R × List Uuid} {r : AgentRuntime}
    {requestId requestedBy authority : String} (ev : RuntimeEvent)
    (hf : Fresh i {} [rid] s) (hr : r.runtimeId = rid) (hev : ev.runtimeId = rid) :
    Sat (shared rem i) (fun _ _ => True)
      (fun s x => ∃ jid t, x = (⟨jid, requestId, rid, requestedBy, authority, .queued, none⟩,
        true) ∧ jid ∈ s.2 ∧
        rid ∈ s.2 ∧ Reflects i jid rid s.1 (.settled ⟨{ r with createdAt := some t }, x.1, { events := [ev] }⟩))
      (fun _ _ => True)
      (do
        addRuntime r
        flush
        let jid ← uuid4
        let job : ProvisioningJob := ⟨jid, requestId, rid, requestedBy, authority, .queued, none⟩
        addJob job
        addEvent ev
        commit
        pure (job, true)) s := by
  refine (sat_bind _ _ _).mpr ⟨trivial, fun _ s₁ hs₁ => ?_⟩
  have hf₁ := hf.add hs₁ (fun he => Eff.noConfusion he fun h => DbCall.noConfusion h) fun _ _ h => h
  refine (sat_bind _ _ _).mpr ⟨trivial, fun a s₂ hs₂ => (sat_orRaise a).mpr ?_⟩
  cases a with
  | error x => exact trivial
  | ok u =>
      obtain ⟨t, hf₂⟩ := hf₁.flush hs₂
      refine (sat_bind _ _ _).mpr ⟨trivial, fun jid s₃ hs₃ => ?_⟩
      have hf₃ := hf₂.draw hs₃
      refine (sat_bind _ _ _).mpr ⟨trivial, fun _ s₄ hs₄ => ?_⟩
      have hf₄ :=
        hf₃.add hs₄ (fun he => Eff.noConfusion he fun h => DbCall.noConfusion h) fun _ _ h => h
      refine (sat_bind _ _ _).mpr ⟨trivial, fun _ s₅ hs₅ => ?_⟩
      have hf₅ :=
        hf₄.add hs₅ (fun he => Eff.noConfusion he fun h => DbCall.noConfusion h) fun _ _ h => h
      refine Sat.seq (Q := fun s _ => jid ∈ s.2 ∧ rid ∈ s.2 ∧ Reflects i jid rid s.1
        (.settled ⟨{ r with createdAt := some t },
          ⟨jid, requestId, rid, requestedBy, authority, .queued, none⟩,
          { events := [ev] }⟩)) ?_ fun s _ hs => ⟨jid, t, rfl, hs⟩
      refine (sat_bind _ _ _).mpr ⟨trivial, fun b s₆ hs₆ => (sat_orRaise b).mpr ?_⟩
      cases b with
      | error x => exact trivial
      | ok u' =>
          obtain ⟨t', hf₆⟩ := hf₅.flush hs₆
          refine ⟨trivial, fun _ s₇ hs₇ => ?_⟩
          obtain ⟨w, hw, hst, hids⟩ := hs₇
          obtain ⟨hses, t'', hdb⟩ := step_commit hst
          have hx := hw.session.trans hf₆.session
          obtain ⟨hjm, hju⟩ := hf₆.keys jid List.mem_cons_self
          obtain ⟨hrm, hru⟩ := hf₆.keys rid (List.mem_cons_of_mem _ List.mem_cons_self)
          rw [hx] at hses hdb
          refine ⟨by rw [hids]; exact List.mem_append_left _ hjm, by rw [hids]; exact List.mem_append_left _ hrm, ?_⟩
          refine submit_reflects hr rfl hev t'' w.db ?_ ?_ ?_ ?_
          · rw [hses]
            simp [Session.flush, Session.inserted, Session.insertedJobs, stamped]
          · rw [hdb]
            simp [Session.flush, Session.pending, Session.inserted, Session.insertedJobs, stamped,
              Obj.write,
              changed_self]
          · exact (hw.entries rid hrm).trans hru
          · exact (hw.entries jid hjm).trans hju

theorem submit_sat (cfg : Settings) (req : ProvisionRequest) (requestedBy authority : String)
    (hs : w.sessions i = {}) (hk : Known w) :
    Sat (shared rem i) (fun _ _ => True)
      (fun s x => x.2 = true → Submitted cfg req requestedBy authority i s x.1) (fun _ _ => True)
      (submit cfg req requestedBy authority) (w, []) := by
  unfold submit
  have hf : Fresh i {} [] (w, ([] : List Uuid)) := ⟨hs, hk, fun u hu => absurd hu List.not_mem_nil⟩
  refine (sat_bind _ _ _).mpr ⟨trivial, fun found s hst => ?_⟩
  cases found with
  | some existing => exact fun h => absurd h (by simp)
  | none =>
      obtain ⟨w₁, hx₁, hst₁, -, hf₁⟩ :=
        hf.step hst fun he => Eff.noConfusion he fun h => DbCall.noConfusion h
      have hw₁ : s.1 = w₁ := by
        simp only [World.step, World.dbStep] at hst₁
        split at hst₁
        · exact absurd hst₁.1 (by simp)
        · exact hst₁.2
      rw [hw₁, hx₁] at hf₁
      refine (sat_bind _ _ _).mpr ⟨trivial, fun rid s₂ hst₂ => ?_⟩
      have hf₂ := hf₁.draw hst₂
      refine Sat.seq (Q := fun s r => Fresh i {} [rid] s ∧ ∃ t,
          r = if req.runtimeClass = "sandbox" then stampTtl cfg req t (newRuntime req rid) else newRuntime req rid)
        ?_ fun s₃ r hs₃ => ?_
      · unfold buildRuntime
        split
        · refine (sat_bind _ _ _).mpr ⟨trivial, fun t s₃ hst₃ => ⟨?_, t, rfl⟩⟩
          obtain ⟨w₃, hx₃, ⟨-, hw₃⟩, -, hf₃⟩ := hf₂.step hst₃ fun he => Eff.noConfusion he
          have hz : s₃.1.sessions i = {} := by
            rw [hw₃]
            exact hx₃
          exact hz ▸ hf₃
        · exact ⟨hf₂, 0, rfl⟩
      · obtain ⟨hf₃, t, rfl⟩ := hs₃
        have hid : (if req.runtimeClass = "sandbox" then stampTtl cfg req t (newRuntime req rid)
            else newRuntime req rid).runtimeId = rid := by
          split
          · rfl
          · rfl
        refine (insert_sat (submittedEvent req rid requestedBy authority) hf₃ hid rfl).mono ?_
          fun _ _ h => h
        rintro s ⟨job, b⟩ ⟨jid, t', hx, hj, hm, href⟩ -
        cases hx
        exact ⟨jid, rid, t, t', rfl, hj, hm, href⟩

section Books

variable {α : Type} {G : Ledger × PyTrace → Eff → Prop} {X : Ledger × PyTrace → PyExc → Prop}
  {past : PyTrace}

theorem sat_booked {Q : Ledger × PyTrace → α → Prop} (e : Eff) (k : Ans e → Py α) :
    Sat (traced (booked jid rid)) G Q X (.call e k) (L, past) ↔
      G (L, past) e ∧ ∀ a, L.Knows jid rid e a →
        Sat (traced (booked jid rid)) G Q X (k a) (L.step jid rid e, past ++ [⟨e, a⟩]) := by
  refine and_congr Iff.rfl ⟨fun h a hk => h a _ ⟨⟨hk, rfl⟩, rfl⟩, ?_⟩
  rintro h a ⟨L', tr⟩ ⟨⟨hk, hL⟩, htr⟩
  cases hL
  cases htr
  exact h a hk

/-- A stage of which every call keeps `I`. -/
theorem sat_kept (jid rid : Uuid) {φ : Eff → Prop} {I : Ledger × PyTrace → Prop} {p : Py α}
    {s : Ledger × PyTrace} (ho : Only φ p)
    (hI : ∀ L past e (a : Ans e), φ e → I (L, past) → I (L.step jid rid e, past ++ [⟨e, a⟩]))
    (hs : I s) :
    Sat (traced (booked jid rid)) (fun _ _ => True) (fun s _ => I s) (fun s _ => I s) p s := by
  refine (ho.keeps (T := traced (booked jid rid)) (I := I) ?_ hs).weaken fun _ _ _ => trivial
  rintro ⟨L, past⟩ e a ⟨L', past'⟩ he hi ⟨⟨-, hL⟩, htr⟩
  cases hL
  cases htr
  exact hI L past e a he hi

def commitCalls : PyTrace := [⟨.db .flush, Except.ok ()⟩, ⟨.db .commit, ()⟩]

theorem commit_exact {Q : Ledger × PyTrace → Unit → Prop}
    (h : Q (.settled L.now, past ++ commitCalls) ()) :
    Sat (traced (booked jid rid)) (fun _ _ => True) Q X commit (L, past) := by
  unfold commit flush
  refine (sat_bind _ _ _).mpr ((sat_booked _ _).mpr ⟨trivial, fun a ha => ?_⟩)
  have ha' : a = Except.ok () := ha
  subst ha'
  rw [sat_orRaise, ends_ok]
  refine (sat_booked _ _).mpr ⟨trivial, fun u _ => ?_⟩
  rw [List.append_assoc]
  exact h

theorem commitCalls_books : ∀ ev ∈ commitCalls, books ev.1 := by
  intro ev hev
  rcases List.mem_cons.mp hev with rfl | hev
  · trivial
  · rw [List.mem_singleton.mp hev]
    trivial

theorem commit_books {Q : Ledger × PyTrace → Unit → Prop}
    (h : ∀ seg : PyTrace, (∀ ev ∈ seg, books ev.1) → Q (.settled L.now, past ++ seg) ()) :
    Sat (traced (booked jid rid)) (fun _ _ => True) Q X commit (L, past) :=
  commit_exact (h _ commitCalls_books)

def Recorded (st : ProvisioningStep) (seg : PyTrace) : Prop :=
  ∃ found e a, seg = ⟨.db .flush, Except.ok ()⟩ :: ⟨.db (.findStep st.jobId st.seq), found⟩ ::
    ⟨e, a⟩ :: commitCalls ∧
    (e = .db (.setStep st) ∨ e = .db (.addStep st))

theorem recordStep_books (seq : Nat) (step : String) (state : StepState) (detail : Option String)
    {Q : Ledger × PyTrace → Unit → Prop}
    (h : ∀ seg : PyTrace, Recorded ⟨jid, seq, step, state, detail⟩ seg →
      Q (.settled (L.now.stepped ⟨jid, seq, step, state, detail⟩), past ++ seg) ()) :
    Sat (traced (booked jid rid)) (fun _ _ => True) Q X (recordStep jid seq step state detail)
      (L, past) := by
  have hend : ∀ (e : Eff) (a : Ans e) (found : Option ProvisioningStep) (L' : Ledger),
      e = .db (.setStep ⟨jid, seq, step, state, detail⟩) ∨
        e = .db (.addStep ⟨jid, seq, step, state, detail⟩) →
      L'.now = L.now.stepped ⟨jid, seq, step, state, detail⟩ →
      Sat (traced (booked jid rid)) (fun _ _ => True) Q X commit
        (L', past ++ [⟨.db .flush, Except.ok ()⟩, ⟨.db (.findStep jid seq), found⟩] ++
          [⟨e, a⟩]) := by
    intro e a found L' he hL
    refine commit_exact ?_
    rw [hL, List.append_assoc, List.append_assoc]
    exact h _ ⟨found, e, a, rfl, he⟩
  unfold recordStep flush
  refine (sat_bind _ _ _).mpr ((sat_booked _ _).mpr ⟨trivial, fun a ha => ?_⟩)
  have ha' : a = Except.ok () := ha
  subst ha'
  refine (sat_bind _ _ _).mpr ((sat_booked _ _).mpr ⟨trivial, fun found hf => ?_⟩)
  have hfound : found = L.now.tables.steps.find? (fun st => st.seq = seq) := hf rfl
  rw [List.append_assoc]
  cases hc : found with
  | some x =>
      have hany : L.now.tables.steps.any (fun x => x.seq = seq) = true := by
        rw [hc] at hfound
        have hm := List.mem_of_find?_eq_some hfound.symm
        have hx := List.find?_some hfound.symm
        exact List.any_eq_true.mpr ⟨x, hm, hx⟩
      refine (sat_bind _ _ _).mpr ((sat_booked _ _).mpr ⟨trivial, fun u _ => ?_⟩)
      refine hend _ u (some x) _ (.inl rfl) ?_
      simp [Ledger.step, adds, Tables.put, Record.stepped, upsert, hany]
  | none =>
      have hany : L.now.tables.steps.any (fun x => x.seq = seq) = false := by
        rw [hc] at hfound
        have hn := List.find?_eq_none.mp hfound.symm
        rw [List.any_eq_false]
        exact hn
      refine (sat_bind _ _ _).mpr ((sat_booked _ _).mpr ⟨trivial, fun u _ => ?_⟩)
      refine hend _ u none _ (.inr rfl) ?_
      simp [Ledger.step, adds, Tables.put, Record.stepped, upsert, hany]

def filing : Eff → Prop
  | .db (.setStep _) | .db (.addStep _) => False
  | .db _ => True
  | _ => False

theorem filing_of_books {e : Eff} (h : books e) : filing e := by
  unfold books at h
  split at h
  · trivial
  · trivial
  · trivial
  · trivial
  · exact False.elim h

theorem failJob_books (x : PyExc) {Q : Ledger × PyTrace → Unit → Prop}
    (h : ∀ seg : PyTrace, (∀ ev ∈ seg, filing ev.1) →
    Q (.settled (L.now.failed rid x), past ++ seg) ()) :
    Sat (traced (booked jid rid)) (fun _ _ => True) Q X (failJob jid rid x) (L, past) := by
  unfold failJob
  dsimp only
  refine (sat_bind _ _ _).mpr ((sat_booked _ _).mpr ⟨trivial, fun _ _ => ?_⟩)
  refine (sat_bind _ _ _).mpr ((sat_booked _ _).mpr ⟨trivial, fun _ _ => ?_⟩)
  refine (sat_bind _ _ _).mpr ((sat_booked _ _).mpr ⟨trivial, fun _ _ => ?_⟩)
  refine commit_books fun seg hseg => ?_
  rw [List.append_assoc, List.append_assoc, List.append_assoc]
  have hnow : (((L.step jid rid (.db (.modifyJob jid (jobFailed (failureText x))))).step jid rid
      (.db (.modify rid false markFailed))).step jid rid (.db (.addEvent (failedEvent rid x)))).now =
      L.now.failed rid x := by
    simp [Ledger.step, adds, Tables.put, Record.failed, failedEvent]
  rw [← hnow] at h
  refine h _ fun ev hev => ?_
  rcases List.mem_cons.mp hev with rfl | hev
  · trivial
  rcases List.mem_cons.mp hev with rfl | hev
  · trivial
  rcases List.mem_cons.mp hev with rfl | hev
  · trivial
  · exact filing_of_books (hseg ev hev)

/-- The job has gone through, or what it was left with has been recorded as its failure. -/
def Ended (rid : Uuid) (Q : Ledger × PyTrace → Prop) (X : Ledger × PyTrace → PyExc → Prop)
    (s : Ledger × PyTrace) : Prop :=
  Q s ∨ ∃ L past x seg, X (L, past) x ∧ (∀ ev ∈ seg, filing ev.1) ∧
    s = (.settled (L.now.failed rid x), past ++ seg)

theorem sat_calls {Q : Ledger × PyTrace → α → Prop} {p : Py α} {s : Ledger × PyTrace}
    (h : Sat (traced (booked jid rid)) (fun _ _ => True) Q X p s) (ho : Only (JobCall jid rid) p) :
    Sat (traced (booked jid rid)) (fun _ e => RunCall jid rid e) Q X p s := by
  have hk := ho.keeps (T := traced (booked jid rid)) (I := fun _ => True) (s := s)
    (fun _ _ _ _ _ _ _ => trivial) trivial
  exact ((h.and hk).weaken fun _ _ hg => .job hg.2.1).mono (fun _ _ h => h.1) fun _ _ h => h.1

theorem runJob_books (cfg : Settings) (jid : Uuid) {x : Record} {Q : Ledger × PyTrace → Prop}
    (hq : x.job.state = .queued)
    (hj : x.job.runtimeId = rid) (hk : x.row.runtimeId = rid)
    (h : ∀ pre : PyTrace, (∀ ev ∈ pre, filing ev.1) →
      Sat (traced (booked jid rid)) (fun _ _ => True) (fun s _ => Q s) X (completeJob cfg jid x.row)
        (.settled x.begun, pre)) :
    Sat (traced (booked jid rid)) (fun _ e => RunCall jid rid e) (fun s _ => Ended rid Q X s)
      (fun _ _ => False)
      (runJob cfg jid) (.settled x, []) := by
  unfold runJob
  refine (sat_bind _ _ _).mpr ((sat_booked _ _).mpr ⟨.getJob, fun a ha => ?_⟩)
  have ha' : a = some x.job := ha rfl
  subst ha'
  change Sat _ _ _ _ (ite _ _ _) _
  rw [if_neg (not_not.mpr hq)]
  refine (sat_bind _ _ _).mpr ((sat_booked _ _).mpr ⟨.begin, fun _ _ => ?_⟩)
  rw [hj]
  refine (sat_bind _ _ _).mpr ((sat_booked _ _).mpr ⟨.getRuntime, fun b hb => ?_⟩)
  have hb' : b = some x.row := hb rfl
  subst hb'
  have hcommit : Only (JobCall jid rid) commit :=
    only_commit (.routine (.inr trivial)) (.routine (.inr trivial))
  have hguarded : ∀ pre : PyTrace, (∀ ev ∈ pre, filing ev.1) →
      Sat (traced (booked jid rid)) (fun _ e => RunCall jid rid e) (fun s _ => Ended rid Q X s)
        (fun _ _ => False)
        (tryCatch (completeJob cfg jid x.row) (failJob jid x.row.runtimeId))
          (.settled x.begun, pre) := by
    intro pre hpre
    refine (sat_tryCatch _ _ _).mpr ((sat_calls (h pre hpre)
      (hk ▸ only_completeJob jid x.row cfg)).mono
      (fun _ _ hs => .inl hs) ?_)
    rintro ⟨L, past⟩ y hy
    rw [hk]
    refine sat_calls (failJob_books y fun seg hseg => ?_) (hk ▸ only_failJob jid x.row y)
    exact .inr ⟨L, past, y, seg, hy, hseg, rfl⟩
  refine (sat_bind _ _ _).mpr (sat_calls (commit_books fun seg hseg => ?_) hcommit)
  rw [List.append_assoc, List.append_assoc, List.append_assoc]
  refine hguarded _ fun ev hev => ?_
  rw [List.nil_append] at hev
  rcases List.mem_cons.mp hev with rfl | hev
  · trivial
  rcases List.mem_cons.mp hev with rfl | hev
  · trivial
  rcases List.mem_cons.mp hev with rfl | hev
  · trivial
  · exact filing_of_books (hseg ev hev)

end Books

/-- A request is submitted as a new one and its job is run, in a session of
their own: `tr` is what the run has done, `q` what is left of it. -/
def JobRun (rem : Remote R) (i : Nat) (cfg : Settings) (req : ProvisionRequest)
    (requestedBy authority : String)
    (job : ProvisioningJob) (tr : PyTrace) (w' : World R) (q : Py Unit) : Prop :=
  ∃ w₀ tr₀ w ids ids', w₀.sessions i = {} ∧ Known w₀ ∧
    Exec (shared rem i) (w₀, []) (submit cfg req requestedBy authority) tr₀ (w, ids)
      (.ret (job, true)) ∧
    Exec (shared rem i) (w, ids) (runJob cfg job.jobId) tr (w', ids') q

theorem jobRun_ended {cfg : Settings} {req : ProvisionRequest} {requestedBy authority : String}
    {job : ProvisioningJob}
    {tr : PyTrace} {q : Py Unit} (hx : JobRun rem i cfg req requestedBy authority job tr w' q)
    (hq : ∀ e k, q ≠ .call e k)
    {Q : Uuid → Ledger × PyTrace → Prop} {X : Uuid → Ledger × PyTrace → PyExc → Prop}
    (h : ∀ jid rid t t' pre, (∀ ev ∈ pre, filing ev.1) →
      Sat (traced (booked jid rid)) (fun _ _ => True) (fun s _ => Q rid s) (X rid)
        (completeJob cfg jid (submittedRow cfg req rid t t'))
        (.settled (submittedRecord cfg req requestedBy authority jid rid t t').begun, pre)) :
    q = .ret () ∧ ∃ rid L, job = submittedJob req job.jobId rid requestedBy authority ∧
      Reflects i job.jobId rid w' L ∧ Ended rid (Q rid) (X rid) (L, tr) := by
  obtain ⟨w₀, tr₀, w, ids, ids', hs, hk, hx₁, hx₂⟩ := hx
  obtain ⟨jid, rid, t, t', rfl, hj, hr, href⟩ :=
    (submit_sat cfg req requestedBy authority hs hk).exec hx₁ rfl
  have hrow : (submittedRow cfg req rid t t').runtimeId = rid := by
    obtain ⟨dirty, hh⟩ := href.holds
    exact hh.key.1
  have hbooks := runJob_books cfg jid
    (x := submittedRecord cfg req requestedBy authority jid rid t t') rfl rfl hrow (h jid rid t t')
  have hsat :=
    sat_reflected (T := shared rem i) (s := (w, ids))
      (fun _ _ _ _ _ hm he hs => shared_reflects hm he hs)
    hbooks ⟨href, hj, hr⟩
  have hfin := hsat.exec (hx₂.traced [])
  cases q with
  | ret a =>
      obtain ⟨L, hL, he⟩ := hfin
      exact ⟨rfl, rid, L, rfl, hL.1, he⟩
  | raise x => exact False.elim hfin.choose_spec.2
  | call e k => exact absurd rfl (hq e k)

theorem exec_shared {α : Type} {p q : Py α} {tr : PyTrace}
    (hx : Exec (World.step rem i) w p tr w' q) (ids : List Uuid) :
    ∃ ids', Exec (shared rem i) (w, ids) p tr (w', ids') q := by
  induction hx generalizing ids with
  | refl w p => exact ⟨ids, .refl _ _⟩
  | @call w w₁ w' e k a tr q hs _ ih =>
      obtain ⟨ids', hx'⟩ := ih (ids ++ draws e a)
      have hst : shared rem i (w, ids) e a (w₁, ids ++ draws e a) := ⟨w, .refl i ids w, hs, rfl⟩
      exact ⟨ids', .call hst hx'⟩

/-- A request and its job, in the first process of a machine. -/
def rehearse {O : Type} (orc : Oracle O) (cfg : Settings) (req : ProvisionRequest) (m : Machine O) :
    Option (ProvisioningJob × PyTrace × Machine O × Py Unit) :=
  match play (Machine.answer orc 0) 20 m (submit cfg req "acms" "sprint_execution_context") with
  | (_, m₁, .ret (job, true)) =>
      some (job, play (Machine.answer orc 0) 300 m₁ (runJob cfg job.jobId))
  | _ => none

theorem rehearse_exec {O : Type} {orc : Oracle O} {π : O → R} (ho : orc.Follows π rem)
    {cfg : Settings}
    {req : ProvisionRequest} {m m' : Machine O} {job : ProvisioningJob} {tr : PyTrace} {q : Py Unit}
    (h : rehearse orc cfg req m = some (job, tr, m', q)) :
    ∃ tr₀ w, Exec (World.step rem 0) (m.world π) (submit cfg req "acms" "sprint_execution_context")
      tr₀ w (.ret (job, true)) ∧
      Exec (World.step rem 0) w (runJob cfg job.jobId) tr (m'.world π) q := by
  have hsub := play_exec (Machine.world π) (Machine.answer orc 0) (Machine.answer_step ho 0) 20 m
    (submit cfg req "acms" "sprint_execution_context")
  unfold rehearse at h
  split at h
  next tr₀ m₁ job₁ hp =>
      have hrun :=
        play_exec (Machine.world π) (Machine.answer orc 0) (Machine.answer_step ho 0) 300 m₁
        (runJob cfg job₁.jobId)
      obtain ⟨rfl, hr⟩ := Prod.mk.inj (Option.some.inj h)
      rw [hr] at hrun
      rw [hp] at hsub
      exact ⟨_, _, hsub, hrun⟩
  · cases h

theorem rehearse_run {O : Type} {orc : Oracle O} {π : O → R} (ho : orc.Follows π rem)
    {cfg : Settings}
    {req : ProvisionRequest} {m m' : Machine O} {job : ProvisioningJob} {tr : PyTrace} {q : Py Unit}
    (h : rehearse orc cfg req m = some (job, tr, m', q)) (hs : m.session 0 = {})
    (hk : Known (m.world π)) :
    JobRun rem 0 cfg req "acms" "sprint_execution_context" job tr (m'.world π) q := by
  obtain ⟨tr₀, w, hsub, hrun⟩ := rehearse_exec ho h
  obtain ⟨ids, hx⟩ := exec_shared hsub []
  obtain ⟨ids', hx'⟩ := exec_shared hrun ids
  exact ⟨_, _, _, ids, ids', hs, hk, hx, hx'⟩

/-- The rehearsal has come to its end, and passes the test there. -/
def settles {O : Type} (x : Option (ProvisioningJob × PyTrace × Machine O × Py Unit))
    (test : ProvisioningJob → PyTrace → Machine O → Bool) : Bool :=
  match x with
  | some (job, tr, m, .ret _) => test job tr m
  | _ => false

theorem settles_run {O : Type} {x : Option (ProvisioningJob × PyTrace × Machine O × Py Unit)}
    {test : ProvisioningJob → PyTrace → Machine O → Bool} (h : settles x test = true) :
    ∃ job tr m, x = some (job, tr, m, .ret ()) ∧ test job tr m = true := by
  unfold settles at h
  split at h
  · exact ⟨_, _, _, rfl, h⟩
  · cases h

def leaves {O : Type} (st : JobState) (job : ProvisioningJob) (m : Machine O) : Bool :=
  (m.db.job? job.jobId).map (·.state) = some st

theorem leaves_state {O : Type} {st : JobState} {job : ProvisioningJob} {m : Machine O}
    (h : leaves st job m = true) :
    ∃ j, m.db.job? job.jobId = some j ∧ j.state = st :=
  Option.map_eq_some_iff.mp (of_decide_eq_true h)

end ServerManager.JobRuns
