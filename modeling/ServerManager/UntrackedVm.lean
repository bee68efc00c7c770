import ServerManager.JobOutcome

namespace ServerManager.UntrackedVm

open Interaction PyJson Orm Effects Config ProxmoxVm Provisioning Storage Calls
open Frames JobCalls JobLedger JobRuns JobOutcome Replay

/-- The text has the VM in it, as `node/vmid`. -/
def Shows (n : String) (v : Int) (text : String) : Prop := (s!"{n}/{v}").toList <:+: text.toList

/-- The details of an event say which VM it is about, in fields or in an error text. -/
def Names (n : String) (v : Int) (d : Dict) : Prop :=
  (Dict.get? d "vmid" = some (.int v) ∧ Dict.get? d "node" = some (.str n)) ∨
    ∃ text, Dict.get? d "error" = some (.str text) ∧ Shows n v text

/-- Some committed row of the runtime records the VM. -/
def Recorded (db : Db) (rid : Uuid) (n : String) (v : Int) : Prop :=
  (∃ ev ∈ db.events, ev.runtimeId = rid ∧ Names n v ev.detail) ∨
    ∃ r, db.runtime? rid = some r ∧ r.node = some n ∧ r.vmid = some v

/-- The clone was accepted and its lock released, or what was raised names the VM. -/
def CloneEnds (n : String) (v : Int) : Except PyExc Json → PyTrace → Prop
  | .error x, _ => Shows n v (failureText x)
  | .ok _, after => ∃ seg rest, after = seg ++ rest ∧
      (Exec anything () (waitCloneLockRelease n v) seg () (.ret ()) ∨
        ∃ x, Exec anything () (waitCloneLockRelease n v) seg () (.raise x) ∧ Shows n v (failureText x))

instance (n : String) (v : Int) (text : String) : Decidable (Shows n v text) :=
  inferInstanceAs (Decidable ((s!"{n}/{v}").toList <:+: text.toList))

def tells (n : String) (v : Int) (d : Dict) : Bool :=
  (match Dict.get? d "vmid", Dict.get? d "node" with
    | some (.int v'), some (.str n') => v' = v ∧ n' = n
    | _, _ => false) ||
  (match Dict.get? d "error" with
    | some (.str text) => Shows n v text
    | _ => false)

theorem tells_iff (n : String) (v : Int) (d : Dict) : tells n v d = true ↔ Names n v d := by
  rw [tells, Bool.or_eq_true]
  refine or_congr ?_ ?_
  · split
    next v' n' hv hn => simp [hv, hn]
    next hno =>
        refine iff_of_false Bool.false_ne_true ?_
        rintro ⟨hv, hn⟩
        exact hno v n hv hn
  · split
    next text ht => simp [ht]
    next hno =>
        refine iff_of_false Bool.false_ne_true ?_
        rintro ⟨text, ht, -⟩
        exact hno text ht

instance (n : String) (v : Int) (d : Dict) : Decidable (Names n v d) :=
  decidable_of_iff _ (tells_iff n v d)

instance (db : Db) (rid : Uuid) (n : String) (v : Int) : Decidable (Recorded db rid n v) :=
  decidable_of_iff ((∃ ev ∈ db.events, ev.runtimeId = rid ∧ Names n v ev.detail) ∨
    ∃ r ∈ db.runtime? rid, r.node = some n ∧ r.vmid = some v) Iff.rfl

def Silent (evs : List RuntimeEvent) : Prop :=
  ∀ ev ∈ evs, Dict.get? ev.detail "vmid" = none ∧ Dict.get? ev.detail "error" = none

theorem not_names_of_silent {evs : List RuntimeEvent} (h : Silent evs) {ev : RuntimeEvent}
    (hev : ev ∈ evs) (n : String)
    (v : Int) : ¬ Names n v ev.detail := by
  obtain ⟨hv, he⟩ := h ev hev
  rintro (⟨h₁, -⟩ | ⟨text, h₁, -⟩)
  · rw [hv] at h₁
    cases h₁
  · rw [he] at h₁
    cases h₁

variable {jid rid : Uuid} {L : Ledger}

theorem events_grow (jid rid : Uuid) (L : Ledger) (e : Eff) :
    ∃ more, (L.step jid rid e).now.tables.events = L.now.tables.events ++ more := by
  have hput : ∀ x, ∃ more, (L.now.tables.put jid rid x).events = L.now.tables.events ++ more := by
    intro x
    cases x with
    | insertEvent ev =>
        simp only [Tables.put]
        split
        · exact ⟨[ev], rfl⟩
        · exact ⟨[], by simp⟩
    | updateStep | insertStep | insertBridge =>
        simp only [Tables.put]
        split
        · exact ⟨[], by simp⟩
        · exact ⟨[], by simp⟩
    | updateRuntime | updateJob | insertRuntime | insertJob => exact ⟨[], by simp [Tables.put]⟩
  cases e with
  | pve | kea | sys => exact ⟨[], by simp [Ledger.step, adds]⟩
  | db c =>
      cases c with
      | setStep st => exact hput (.updateStep st)
      | addRuntime r => exact hput (.insertRuntime r)
      | addJob j => exact hput (.insertJob j)
      | addStep st => exact hput (.insertStep st)
      | addEvent ev => exact hput (.insertEvent ev)
      | addBridge b => exact hput (.insertBridge b)
      | getRuntime | getJob | findJob | selectRuntimes | placedNodes | findStep | modify | modifyJob
      | flush | commit
      | close => exact ⟨[], by simp [Ledger.step, adds]⟩

theorem events_same {e : Eff} (he : ∀ ev, e ≠ .db (.addEvent ev)) :
    (L.step jid rid e).now.tables.events = L.now.tables.events := by
  have hput : ∀ x, (∀ ev, x ≠ .insertEvent ev) →
      (L.now.tables.put jid rid x).events = L.now.tables.events := by
    intro x hx
    cases x with
    | insertEvent ev => exact absurd rfl (hx ev)
    | updateStep | insertStep | insertBridge =>
        simp only [Tables.put]
        split
        · rfl
        · rfl
    | updateRuntime | updateJob | insertRuntime | insertJob => rfl
  cases e with
  | pve | kea | sys => rfl
  | db c =>
      cases c with
      | addEvent ev => exact absurd rfl (he ev)
      | setStep | addRuntime | addJob | addStep | addBridge =>
          refine hput _ ?_
          intro ev h
          cases h
      | getRuntime | getJob | findJob | selectRuntimes | placedNodes | findStep | modify | modifyJob
      | flush | commit
      | close => rfl

def Mute (s : Ledger × PyTrace) : Prop := Silent s.1.now.tables.events ∧ Uncloned s.2

/-- The clone was asked for, and its lock wait has come to an end. -/
structure Tracked (n : String) (v : Int) (s : Ledger × PyTrace) : Prop where
  once : ∃ before tn tv name y seg rest, s.2 = before ++ ⟨.pve (.clone tn tv v name n), .ok y⟩ ::
    (seg ++ rest) ∧
    Uncloned before ∧ Uncloned (seg ++ rest) ∧
      Exec anything () (waitCloneLockRelease n v) seg () (.ret ())
  named : ∃ ev ∈ s.1.now.tables.events, Names n v ev.detail

inductive Left (s : Ledger × PyTrace) (x : PyExc) : Prop
  | uncloned : Mute s → Left s x
  | refused {before : PyTrace} {tn name n : String} {tv v : Int} : Silent s.1.now.tables.events →
      s.2 = before ++ [⟨.pve (.clone tn tv v name n), .error x⟩] → Uncloned before → Left s x
  | locked {before seg : PyTrace} {tn name n : String} {tv v : Int} {y : Json} :
      Silent s.1.now.tables.events →
      s.2 = before ++ ⟨.pve (.clone tn tv v name n), .ok y⟩ :: seg → Uncloned before →
        Uncloned seg →
      Exec anything () (waitCloneLockRelease n v) seg () (.raise x) → Left s x
  | tracked {n : String} {v : Int} : Tracked n v s → Left s x

def mute (e : Eff) : Prop := cloned e = none ∧ ∀ ev, e ≠ .db (.addEvent ev)

theorem mute_allows (ns : List String) : Allows mute (fun _ _ => True) ns [] where
  aside _ he _ := ⟨cloned_observes he, fun ev h => by subst h; exact he⟩
  read _ he _ _ _ _ := ⟨cloned_observes he, fun ev h => by subst h; exact he⟩
  book _ he := ⟨cloned_books he, fun ev h => by subst h; exact he⟩
  step st _ := ⟨⟨rfl, fun ev h => Eff.noConfusion h fun h => DbCall.noConfusion h⟩,
    ⟨rfl, fun ev h => Eff.noConfusion h fun h => DbCall.noConfusion h⟩⟩
  event _ he := absurd he List.not_mem_nil

theorem mute_sat {α : Type} {p : Py α} {s : Ledger × PyTrace} (ho : Only mute p) (hs : Mute s) :
    Sat (traced (booked jid rid)) (fun _ _ => True) (fun s _ => Mute s) (fun s x => Left s x) p
      s := by
  refine (sat_kept jid rid ho (I := Mute) ?_ hs).mono (fun _ _ h => h) fun _ _ h => .uncloned h
  intro L past e a he hi
  refine ⟨?_, uncloned_snoc hi.2 he.1⟩
  dsimp only
  rw [events_same he.2]
  exact hi.1

theorem tracked_step {n : String} {v : Int} {L : Ledger} {past : PyTrace} {e : Eff} (a : Ans e)
    (h : Tracked n v (L, past)) (he : cloned e = none) :
    Tracked n v (L.step jid rid e, past ++ [⟨e, a⟩]) := by
  obtain ⟨before, tn, tv, name, y, seg, rest, htr, hb, hu, hx⟩ := h.once
  obtain ⟨ev, hev, hn⟩ := h.named
  obtain ⟨more, hmore⟩ := events_grow jid rid L e
  refine ⟨⟨before, tn, tv, name, y, seg, rest ++ [⟨e, a⟩], ?_, hb, ?_, hx⟩, ev, ?_, hn⟩
  · simp only at htr ⊢
    rw [htr]
    simp
  · rw [← List.append_assoc]
    exact uncloned_snoc hu he
  · dsimp only
    rw [hmore]
    exact List.mem_append_left _ hev

theorem tracked_sat {α : Type} {p : Py α} {s : Ledger × PyTrace} {n : String} {v : Int}
    (ho : Only (fun e => cloned e = none) p)
    (hs : Tracked n v s) :
    Sat (traced (booked jid rid)) (fun _ _ => True) (fun s _ => Tracked n v s) (fun s x => Left s x)
      p s :=
  (sat_kept jid rid ho (fun _ _ _ a he hi => tracked_step a hi he) hs).mono (fun _ _ h => h)
    fun _ _ h => .tracked h

section Stages

variable {s : Ledger × PyTrace}

theorem placeVm_sat (runtime : AgentRuntime) (tn : String) (hs : Mute s) :
    Sat (traced (booked jid rid)) (fun _ _ => True) (fun s _ => Mute s) (fun s x => Left s x)
      (placeVm jid runtime tn) s := by
  have hA := fun ns => mute_allows ns
  unfold placeVm
  refine Sat.seq (mute_sat (only_recordStep _ _ _ _ _ (hA _)) hs) fun s _ hs => ?_
  refine Sat.seq (mute_sat (only_selectNode _ _ (hA [])) hs) fun s decision hs => ?_
  split
  · exact Sat.seq (mute_sat (only_recordStep _ _ _ _ _ (hA _)) hs) fun s _ hs => .uncloned hs
  · refine Sat.seq (Q := fun s _ => Mute s) ?_ fun s _ hs => ?_
    · obtain ⟨L, past⟩ := s
      refine (sat_booked _ _).mpr ⟨trivial, fun a _ => ⟨?_, uncloned_snoc hs.2 rfl⟩⟩
      have hold := hs.1
      simp only [Ledger.step, adds, Tables.put]
      split
      · intro ev hev
        rcases List.mem_append.mp hev with hev | hev
        · exact hold ev hev
        · rw [List.mem_singleton.mp hev]
          exact ⟨rfl, rfl⟩
      · exact hold
    · exact Sat.seq (mute_sat (only_recordStep _ _ _ _ _ (hA _)) hs) fun s _ hs => hs

theorem takeClone_tracked (runtime : AgentRuntime) (spec : VMSpec) (v : Int)
    (hk : runtime.runtimeId = rid) (hs : Mute s) :
    Sat (traced (booked jid rid)) (fun _ _ => True) (fun s _ => Tracked spec.node v s)
      (fun s x => Left s x)
      (takeClone jid runtime spec v) s := by
  obtain ⟨L, past⟩ := s
  obtain ⟨hsil, hun⟩ := hs
  unfold takeClone cloneTemplate
  refine (sat_bind _ _ _).mpr ((sat_bind _ _ _).mpr
    ((sat_booked _ _).mpr ⟨trivial, fun a _ => (sat_orRaise a).mpr ?_⟩))
  cases a with
  | error x => exact .refused hsil rfl hun
  | ok y =>
      refine (ends_ok _ _).mpr ((sat_pure _ _).mpr ?_)
      have hwait : Only mute (waitCloneLockRelease spec.node v) :=
        only_waitCloneLockRelease _ _ _ (mute_allows []) trivial
      have hseg := (sat_segment (waitCloneLockRelease spec.node v)
        (past ++ [⟨.pve (.clone spec.templateNode spec.templateVmid v
          (String.ofList (spec.name.toList.take 63)) spec.node),
          Except.ok y⟩])).traced (T := booked jid rid) L
      have hkept := sat_kept jid rid (I := fun s => Silent s.1.now.tables.events) hwait
        (fun L past e a he hi => by dsimp only; rw [events_same he.2]; exact hi)
        (s := (L, past ++ [⟨.pve (.clone spec.templateNode spec.templateVmid v
          (String.ofList (spec.name.toList.take 63)) spec.node), Except.ok y⟩])) hsil
      refine Sat.seq (((hkept.and hseg).weaken fun _ _ _ => trivial).mono (fun _ _ h => h) ?_) ?_
      · rintro s x ⟨hsil, seg, htr, hx⟩
        rw [List.append_assoc] at htr
        exact .locked hsil htr hun (fun ev hev => (hwait.of_mem hx ev hev).1) hx
      · rintro ⟨L, past'⟩ _ ⟨hsil, seg, htr, hx⟩
        have hu : Uncloned seg := fun ev hev => (hwait.of_mem hx ev hev).1
        refine (sat_bind _ _ _).mpr ((sat_booked _ _).mpr ⟨trivial, fun b _ => ?_⟩)
        refine Sat.seq (tracked_sat (only_recordStep _ _ _ _ _ (uncloned_allows _ []))
          (n := spec.node) (v := v) ?_) fun s _ hs => hs
        refine ⟨⟨past, spec.templateNode, spec.templateVmid,
          String.ofList (spec.name.toList.take 63), y, seg, [⟨_, b⟩], ?_,
          hun, uncloned_snoc hu rfl, hx⟩, ?_⟩
        · simp only at htr ⊢
          rw [htr]
          simp
        · refine ⟨⟨rid, "arm", "vm_cloned", "ok", [("vmid", .int v), ("node", .str spec.node),
            ("template", .int spec.templateVmid)]⟩, ?_, .inl ⟨rfl, rfl⟩⟩
          simp [Ledger.step, adds, Tables.put, hk]

theorem completeJob_tracked (jid : Uuid) (cfg : Settings) (runtime : AgentRuntime)
    (hk : runtime.runtimeId = rid) (hs : Mute s) :
    Sat (traced (booked jid rid)) (fun _ _ => True) (fun _ _ => True) (fun s x => Left s x)
      (completeJob cfg jid runtime) s := by
  have hA := fun ns as => uncloned_allows ns as
  have hD : ∀ spec node vmid, Deploys (fun e => cloned e = none) runtime.runtimeId spec node vmid :=
    fun _ _ _ =>
    ⟨fun _ => rfl, rfl, fun _ => rfl, fun _ => rfl, fun _ => rfl, fun _ _ _ => rfl, rfl⟩
  unfold completeJob
  rw [provisionVm_eq]
  refine Sat.seq (Q := fun s _ => ∃ n v, Tracked n v s) ?_ fun s x hs => ?_
  · refine Sat.seq (mute_sat (only_validate _ _ (mute_allows _)) hs) fun s _ hs => ?_
    refine Sat.seq (placeVm_sat runtime _ hs) fun s node hs => ?_
    rw [cloneVm_eq, Prog.bind_assoc]
    refine Sat.seq (mute_sat (only_prepareClone _ _ _ _ _ (mute_allows _) trivial) hs) fun s v hs =>
      ?_
    refine Sat.seq (takeClone_tracked runtime _ v hk hs) fun s x hs => ?_
    refine (tracked_sat ?_ hs).mono (fun _ _ h => ⟨_, _, h⟩) fun _ _ h => h
    exact only_deploy _ _ _ _ _ (hA _ _) trivial trivial trivial (hD _ _ _)
  · obtain ⟨n, v, hs⟩ := hs
    refine Sat.seq (tracked_sat (only_bootstrapHermes _ _ (hA _ []) (fun _ _ _ => rfl)
      (fun _ _ => rfl) rfl) hs) fun s _ hs => ?_
    refine (tracked_sat ?_ hs).mono (fun _ _ _ => trivial) fun _ _ h => h
    refine Only.bind (only_call rfl fun _ => only_ret _) fun _ => ?_
    refine Only.bind (only_call rfl fun _ => only_ret _) fun _ => ?_
    refine Only.bind (only_event _ _ _ _ (hA [] _)) fun _ => ?_
    exact only_commit rfl rfl

end Stages

variable {R : Type} {rem : Remote R} {i : Nat} {cfg : Settings} {req : ProvisionRequest}
  {requestedBy authority : String}
  {job : ProvisioningJob} {tr : PyTrace} {w' : World R} {q : Py Unit} {n : String} {v : Int}

/-- The answers of the provider from the clone of the VM on. -/
def CloneTracked (n : String) (v : Int) (tr : PyTrace) : Prop :=
  ∃ before after tn tv name a, tr = before ++ ⟨.pve (.clone tn tv v name n), a⟩ :: after ∧
    CloneEnds n v a after

theorem cloneTracked_iff {before after : PyTrace} {tn name : String} {tv : Int}
    {a : Except PyExc Json}
    (htr : tr = before ++ ⟨.pve (.clone tn tv v name n), a⟩ :: after) (hb : Uncloned before)
    (ha : Uncloned after) :
    CloneTracked n v tr ↔ CloneEnds n v a after := by
  refine ⟨?_, fun h => ⟨before, after, tn, tv, name, a, htr, h⟩⟩
  rintro ⟨before', after', tn', tv', name', a', htr', h⟩
  obtain ⟨-, hev, rfl⟩ := clone_unique (htr.symm.trans htr') hb ha (by simp [cloned])
  cases hev
  exact h

theorem recorded_silent {evs : List RuntimeEvent} {x : PyExc} (h : Silent evs) :
    (∃ ev ∈ evs ++ [failedEvent rid x], Names n v ev.detail) ↔ Shows n v (failureText x) := by
  constructor
  · rintro ⟨ev, hev, hn⟩
    rcases List.mem_append.mp hev with hev | hev
    · exact absurd hn (not_names_of_silent h hev n v)
    · rw [List.mem_singleton.mp hev] at hn
      rcases hn with ⟨hv, -⟩ | ⟨text, htext, hs⟩
      · cases hv
      · cases htext
        exact hs
  · intro hs
    exact ⟨_, List.mem_append_right _ (List.mem_singleton.mpr rfl), .inr ⟨_, rfl, hs⟩⟩

theorem left_recorded (rid : Uuid) {L : Ledger} {past seg : PyTrace} {x : PyExc}
    (h : Left (L, past) x) (hseg : ∀ ev ∈ seg, filing ev.1)
    (hc : ∃ ev ∈ past ++ seg, cloned ev.1 = some (n, v)) :
    (∃ ev ∈ L.now.tables.events ++ [failedEvent rid x], Names n v ev.detail) ↔
    CloneTracked n v (past ++ seg) := by
  have hf := uncloned_filing hseg
  obtain ⟨ev, hev, hcl⟩ := hc
  have hpast : ev ∈ past := by
    rcases List.mem_append.mp hev with hev | hev
    · exact hev
    · rw [hf ev hev] at hcl
      cases hcl
  cases h with
  | uncloned hm =>
      rw [hm.2 ev hpast] at hcl
      cases hcl
  | @refused before tn name n' tv v' hsil htr hb =>
      simp only at htr
      subst htr
      rcases List.mem_append.mp hpast with hev | hev
      · rw [hb ev hev] at hcl
        cases hcl
      · rw [List.mem_singleton.mp hev] at hcl
        cases hcl
        rw [recorded_silent hsil, cloneTracked_iff (List.append_assoc _ _ _) hb (by simpa using hf)]
        exact Iff.rfl
  | @locked before seg' tn name n' tv v' y hsil htr hb hu hx =>
      simp only at htr
      subst htr
      rcases List.mem_append.mp hpast with hev | hev
      · rw [hb ev hev] at hcl
        cases hcl
      rcases List.mem_cons.mp hev with rfl | hev
      · cases hcl
        rw [recorded_silent hsil, cloneTracked_iff (List.append_assoc _ _ _) hb
          (by simpa using uncloned_append hu hf)]
        constructor
        · exact fun hs => ⟨seg', seg, rfl, .inr ⟨x, hx, hs⟩⟩
        · rintro ⟨seg₁, rest, he, hret | ⟨x₁, hx₁, hs⟩⟩
          · cases (hx.unique hret (Prog.raise_ne_call x) (Prog.ret_ne_call ()) he).2
          · cases (hx.unique hx₁ (Prog.raise_ne_call x) (Prog.raise_ne_call x₁) he).2
            exact hs
      · rw [hu ev hev] at hcl
        cases hcl
  | @tracked n' v' ht =>
      obtain ⟨before, tn, tv, name, y, seg', rest, htr, hb, hu, hx⟩ := ht.once
      simp only at htr
      subst htr
      rcases List.mem_append.mp hpast with hev | hev
      · rw [hb ev hev] at hcl
        cases hcl
      rcases List.mem_cons.mp hev with rfl | hev
      · cases hcl
        obtain ⟨nv, hnv, hnames⟩ := ht.named
        refine iff_of_true ⟨nv, List.mem_append_left _ hnv, hnames⟩ ?_
        refine ⟨before, seg' ++ rest ++ seg, tn, tv, name,
          .ok y, by simp, seg', rest ++ seg, by simp, .inl hx⟩
      · rw [hu ev hev] at hcl
        cases hcl

/-- A failed job leaves its VM on record exactly when the clone was accepted
and its lock seen released, or what was raised names the VM. -/
theorem left_over_vm_recorded_iff (hx : JobRun rem i cfg req requestedBy authority job tr w' q)
    (hq : ∀ e k, q ≠ .call e k) {j : ProvisioningJob} (hj : w'.db.job? job.jobId = some j)
    (hfail : j.state = .failed)
    (hc : ∃ ev ∈ tr, cloned ev.1 = some (n, v)) :
    Recorded w'.db job.runtimeId n v ↔ CloneTracked n v tr := by
  obtain ⟨L, hL, he⟩ := jobRun_settled hx hq (Q := fun _ _ => True) (X := fun _ s x => Left s x)
    fun jid rid t t' pre hpre => by
      refine completeJob_tracked jid cfg _ (submittedRow_blank cfg req rid t t').1
        ⟨fun ev hev => ?_, uncloned_filing hpre⟩
      rw [List.mem_singleton.mp hev]
      exact ⟨rfl, rfl⟩
  generalize job.runtimeId = rid at hL he ⊢
  have hjL : L.kept.job = j := Option.some.inj (hL.job.symm.trans hj)
  rcases he with ⟨⟨n', v', ip, x, hset, hdone, -⟩, -⟩ | ⟨L₀, past, x, seg, ⟨hun, hleft⟩, hseg, hset⟩
  · have hst : L.kept.job.state = .done := by
      rw [show L = .settled x from hset]
      exact hdone.job
    rw [hjL, hfail] at hst
    cases hst
  · obtain ⟨rfl, rfl⟩ := Prod.mk.inj hset
    rw [← left_recorded rid hleft hseg hc]
    have hev : w'.db.events.filter (fun ev => ev.runtimeId = rid) = L₀.now.tables.events ++
        [failedEvent rid x] :=
      congrArg Tables.events hL.tables
    constructor
    · rintro (⟨ev, hm, hr, hn⟩ | ⟨r, hr, hnode, -⟩)
      · refine ⟨ev, ?_, hn⟩
        rw [← hev]
        exact List.mem_filter.mpr ⟨hm, decide_eq_true hr⟩
      · have hrow : (L₀.now.failed rid x).row = r := Option.some.inj (hL.row.symm.trans hr)
        have hno : (L₀.now.failed rid x).row.node = none := hun.vm.1
        rw [hrow, hnode] at hno
        cases hno
    · rintro ⟨ev, hm, hn⟩
      rw [← hev] at hm
      obtain ⟨hm, hr⟩ := List.mem_filter.mp hm
      exact .inl ⟨ev, hm, of_decide_eq_true hr, hn⟩

/-- The clone request times out: nobody knows how far it got. -/
def lostClone : Oracle Unit :=
  oneNodeBut fun
    | .clone .. => some (.error ⟨.other "TimeoutError", "The read operation timed out"⟩)
    | _ => none

theorem lostClone_unrecorded :
    ∃ (job : ProvisioningJob) (tr : PyTrace) (m : Machine Unit) (j : ProvisioningJob),
      JobRun Remote.any 0 {} workerRequest "acms" "sprint_execution_context" job tr
        (m.world fun _ => ()) (.ret ()) ∧
      m.db.job? job.jobId = some j ∧ j.state = .failed ∧
        (∃ ev ∈ tr, cloned ev.1 = some ("miam00111", 700)) ∧
      ¬ Recorded m.db job.runtimeId "miam00111" 700 := by
  have hrun : settles (rehearse lostClone {} workerRequest blank)
      (fun job tr m => leaves .failed job m &&
      tr.any (fun ev => cloned ev.1 = some ("miam00111", 700)) &&
      !decide (Recorded m.db job.runtimeId "miam00111" 700)) = true := by
    decide +kernel
  obtain ⟨job, tr, m, hx, htest⟩ := settles_run hrun
  simp only [Bool.and_eq_true, Bool.not_eq_true', decide_eq_false_iff_not, List.any_eq_true,
    decide_eq_true_eq] at htest
  obtain ⟨⟨hst, hc⟩, hn⟩ := htest
  obtain ⟨j, hj, hst⟩ := leaves_state hst
  exact ⟨job, tr, m, j, rehearse_run lostClone.follows_any hx rfl known_blank, hj, hst, hc, hn⟩

def deadStart : Oracle Unit :=
  oneNodeBut fun
    | .start .. => some (.error ⟨.other "HTTPError", "HTTP Error 500: Internal Server Error"⟩)
    | _ => none

theorem deadStart_recorded :
    ∃ job tr m, rehearse deadStart {} workerRequest blank = some (job, tr, m, .ret ()) ∧
      Recorded m.db job.runtimeId "miam00111" 700 ∧ CloneTracked "miam00111" 700 tr := by
  have hrun : settles (rehearse deadStart {} workerRequest blank)
      (fun job tr m => leaves .failed job m &&
      tr.any (fun ev => cloned ev.1 = some ("miam00111", 700)) &&
      decide (Recorded m.db job.runtimeId "miam00111" 700)) = true := by
    decide +kernel
  obtain ⟨job, tr, m, hx, htest⟩ := settles_run hrun
  simp only [Bool.and_eq_true, List.any_eq_true, decide_eq_true_eq] at htest
  obtain ⟨⟨hst, hc⟩, hr⟩ := htest
  obtain ⟨j, hj, hst⟩ := leaves_state hst
  have hx' := rehearse_run deadStart.follows_any hx rfl known_blank
  exact ⟨job, tr, m, hx, hr, (left_over_vm_recorded_iff hx' (Prog.ret_ne_call ()) hj hst hc).mp hr⟩

end ServerManager.UntrackedVm
