import ServerManager.OwnershipGate
import ServerManager.Frames
import ServerManager.Replay

namespace ServerManager.OwnershipVerdict

open Interaction PyJson Orm Effects Config ProxmoxVm Api Storage Sessions Calls OwnershipGate

/-- What PVE shows of a VM: whether it is there, and its description. -/
structure Shown where
  present : Bool
  description : Option String

/-- The remote system answers for the VM as it is. -/
structure Shows {R : Type} (rem : Remote R) (n : String) (v : Int) (d : Shown) : Prop where
  status : ∀ s a s', rem.pve s (.status n v) a s' →
    if d.present = true then ∃ x, a = .ok x ∧ x.truthy = true else ∀ x, a = .ok x → x.truthy = false
  config : d.present = true → ∀ s a s', rem.pve s (.config n v) a s' →
    ∃ fs, a = .ok (.obj fs) ∧ Dict.get? fs "description" = d.description.map .str

def Accepts (protectedVmids : List Int) (v : Int) (r : AgentRuntime) (d : Shown) : Prop :=
  v ∉ protectedVmids ∧ d.present = true ∧ r.createdByAgentRuntimeManager = true ∧
    ∃ text m, d.description = some text ∧ loads text = some (.obj m) ∧ Marks r m

/-- Nothing is wrong but the description, which is the text of a JSON value other than an object. -/
def Stray (protectedVmids : List Int) (v : Int) (r : AgentRuntime) (d : Shown) : Prop :=
  v ∉ protectedVmids ∧ d.present = true ∧ r.createdByAgentRuntimeManager = true ∧
    ∃ text x, d.description = some text ∧ loads text = some x ∧ ∀ m, x ≠ .obj m

theorem checkMarker_marks {r : AgentRuntime} {m : Dict} (h : Marks r m) (n : String) (v : Int) :
    checkMarker n v r (.obj m) = pure () := by
  have hflag : ((Dict.get? m "created_by_agent_runtime_manager").getD .null).truthy = true := by
    obtain ⟨y, hy, ht⟩ := (Option.any_eq_true _ _).mp h.flag
    rw [hy]
    exact ht
  have hid : ((Dict.get? m "server_runtime_id").getD (.str "")).pyStr = r.runtimeId.str := by
    obtain ⟨y, hy, ht⟩ := Option.map_eq_some_iff.mp h.runtimeId
    rw [hy]
    exact ht
  have hkeys : missingKeys m = [] := by
    refine List.filter_eq_nil_iff.mpr fun k hk => ?_
    simp [h.complete k hk]
  simp [checkMarker, hflag, hid, hkeys]

theorem checkMarker_unmarked {r : AgentRuntime} {m : Dict} (h : ¬ Marks r m) (n : String)
    (v : Int) :
    ∃ msg, checkMarker n v r (.obj m) = raised .ownershipError msg := by
  unfold checkMarker
  dsimp only
  split
  · exact ⟨_, rfl⟩
  next hf =>
      split
      · exact ⟨_, rfl⟩
      next hr =>
          split
          · exact ⟨_, rfl⟩
          next hm => exact absurd (marks_of_tests hf hr hm) h

theorem checkMarker_stray {r : AgentRuntime} {x : Json} (h : ∀ m, x ≠ .obj m) (n : String)
    (v : Int) :
    ∃ msg, checkMarker n v r x = raised .attributeError msg := by
  cases x with
  | obj m => exact absurd rfl (h m)
  | null | bool | int | float | str | arr => exact ⟨_, rfl⟩

variable {R : Type} {rem : Remote R} {i : Nat} {w w' : World R} {n : String} {v : Int}
  {r : AgentRuntime} {d : Shown}
  {protectedVmids : List Int}

def Frame (w w' : World R) : Prop := w'.db = w.db ∧ w'.sessions = w.sessions

theorem step_frame {c : PveCall} {a : Except PyExc Json} (hs : w.step rem i (.pve c) a w') :
    Frame w w' :=
  Frames.step_remote hs fun _ h => by cases h

theorem Frame.trans {w'' : World R} (h : Frame w w') (h' : Frame w' w'') : Frame w w'' :=
  ⟨h'.1.trans h.1, h'.2.trans h.2⟩

theorem vmExists_sat (hd : Shows rem n v d) {X : World R → PyExc → Prop} :
    Sat (World.step rem i) (fun _ _ => True) (fun w' found => Frame w w' ∧ found = d.present) X
      (vmExists n v) w := by
  refine (sat_tryCatch _ _ _).mpr ?_
  rw [sat_bind]
  refine (sat_pve _).mpr ⟨trivial, fun a w' hst => ?_⟩
  have hf := step_frame hst
  obtain ⟨s, hans, -⟩ := hst
  have hstat := hd.status _ _ _ hans
  cases a with
  | ok x =>
      refine ⟨hf, ?_⟩
      split at hstat
      next hp =>
          obtain ⟨y, hy, ht⟩ := hstat
          rw [Except.ok.inj hy, ht, hp]
      next hp =>
          rw [hstat x rfl]
          simpa using hp
  | error x =>
      refine ⟨hf, ?_⟩
      split at hstat
      · obtain ⟨y, hy, -⟩ := hstat
        cases hy
      next hp => simpa using hp

theorem description_read {fs : Dict} (h : Dict.get? fs "description" = d.description.map .str) :
    ((Dict.get? fs "description").getD .null).orElse (.str "") = .str (d.description.getD "") := by
  rw [h]
  cases d.description with
  | none => rfl
  | some text =>
      simp only [Option.map_some, Option.getD_some, Json.orElse]
      split
      · rfl
      next hne =>
          have he : text = "" := by simpa [Json.truthy] using hne
          rw [he]

theorem vmConfig_sat (hd : Shows rem n v d) (hp : d.present = true) {X : World R → PyExc → Prop} :
    Sat (World.step rem i) (fun _ _ => True)
      (fun w' y => Frame w w' ∧ ∃ fs, y = .obj fs ∧
        Dict.get? fs "description" = d.description.map .str) X
      (vmConfig n v) w := by
  refine (sat_tryCatch _ _ _).mpr ?_
  rw [sat_bind]
  refine (sat_pve _).mpr ⟨trivial, fun a w' hst => ?_⟩
  have hf := step_frame hst
  obtain ⟨s, hans, -⟩ := hst
  obtain ⟨fs, rfl, hget⟩ := hd.config hp _ _ _ hans
  refine ⟨hf, ?_⟩
  unfold Json.orElse
  split
  · exact ⟨fs, rfl, hget⟩
  next hne =>
      have he : fs = [] := by
        cases fs with
        | nil => rfl
        | cons f fs => exact absurd rfl hne
      subst he
      exact ⟨[], rfl, hget⟩

/-- How the verification ends, for every VM and every row. -/
structure Outcome (protectedVmids : List Int) (v : Int) (r : AgentRuntime) (d : Shown) (x : PyExc) :
    Prop where
  rejected : ¬ Accepts protectedVmids v r d
  refused : ¬ Stray protectedVmids v r d → x.cls = .ownershipError
  stray : Stray protectedVmids v r d → x.cls = .attributeError

theorem early_refusal (msg : String)
    (h : ¬ (v ∉ protectedVmids ∧ d.present = true ∧ r.createdByAgentRuntimeManager = true)) :
    Outcome protectedVmids v r d ⟨.ownershipError, msg⟩ :=
  ⟨fun ha => h ⟨ha.1, ha.2.1, ha.2.2.1⟩, fun _ => rfl, fun hs => absurd ⟨hs.1, hs.2.1, hs.2.2.1⟩ h⟩

theorem checkMarker_sat {text : String} {x : Json} (hp : v ∉ protectedVmids) (he : d.present = true)
    (hc : r.createdByAgentRuntimeManager = true) (ht : d.description.getD "" = text)
    (hl : loads text = some x) :
    Sat (World.step rem i) (fun _ _ => True) (fun w' _ => w' = w ∧ Accepts protectedVmids v r d)
      (fun w' y => w' = w ∧ Outcome protectedVmids v r d y) (checkMarker n v r x) w := by
  have hsome : d.description = some text := by
    cases hdesc : d.description with
    | none =>
        rw [hdesc] at ht
        subst ht
        cases hl
    | some t =>
        rw [hdesc] at ht
        rw [← ht]
        rfl
  by_cases hobj : ∃ m, x = .obj m
  · obtain ⟨m, rfl⟩ := hobj
    have hnot : ¬ Stray protectedVmids v r d := by
      rintro ⟨-, -, -, t, y, hty, hly, hy⟩
      obtain rfl := Option.some.inj (hsome.symm.trans hty)
      rw [hl] at hly
      exact hy m (Option.some.inj hly).symm
    by_cases hm : Marks r m
    · rw [checkMarker_marks hm]
      exact ⟨rfl, hp, he, hc, text, m, hsome, hl, hm⟩
    · obtain ⟨msg, hraise⟩ := checkMarker_unmarked hm n v
      rw [hraise]
      refine ⟨rfl, ?_, fun _ => rfl, fun hs => absurd hs hnot⟩
      rintro ⟨-, -, -, t, m', ht', hl', hm'⟩
      obtain rfl := Option.some.inj (hsome.symm.trans ht')
      rw [hl] at hl'
      obtain rfl := Json.obj.inj (Option.some.inj hl')
      exact hm hm'
  · have hx : ∀ m, x ≠ .obj m := fun m hm => hobj ⟨m, hm⟩
    have hstray : Stray protectedVmids v r d := ⟨hp, he, hc, text, x, hsome, hl, hx⟩
    obtain ⟨msg, hraise⟩ := checkMarker_stray (r := r) hx n v
    rw [hraise]
    refine ⟨rfl, ?_, fun hns => absurd hstray hns, fun _ => rfl⟩
    rintro ⟨-, -, -, t, m', ht', hl', -⟩
    obtain rfl := Option.some.inj (hsome.symm.trans ht')
    rw [hl] at hl'
    exact hx m' (Option.some.inj hl')

variable (protectedVmids r) in
theorem verifyOwnership_sat (hd : Shows rem n v d) :
    Sat (World.step rem i) (fun _ _ => True) (fun w' _ => Frame w w' ∧ Accepts protectedVmids v r d)
      (fun w' x => Frame w w' ∧ Outcome protectedVmids v r d x)
        (verifyOwnership protectedVmids n v r) w := by
  unfold verifyOwnership
  split
  next hp => exact ⟨⟨rfl, rfl⟩, early_refusal _ fun h => h.1 (by simpa using hp)⟩
  next hp =>
      have hfree : v ∉ protectedVmids := by simpa using hp
      refine Sat.seq (vmExists_sat hd) ?_
      rintro w₁ found ⟨hf₁, rfl⟩
      split
      next habs => exact ⟨hf₁, early_refusal _ fun h => by simp [h.2.1] at habs⟩
      next habs =>
          have hpres : d.present = true := by simpa using habs
          split
          next hc => exact ⟨hf₁, early_refusal _ fun h => by simp [h.2.2] at hc⟩
          next hc =>
              have hown : r.createdByAgentRuntimeManager = true := by simpa using hc
              refine Sat.seq (vmConfig_sat hd hpres) ?_
              rintro w₂ y ⟨hf₂, fs, rfl, hget⟩
              simp only [dictGet, sat_bind, sat_pure, description_read hget]
              cases hl : loads (d.description.getD "") with
              | none =>
                  refine ⟨hf₁.trans hf₂, ?_, fun _ => rfl, ?_⟩
                  · rintro ⟨-, -, -, t, m, ht, hlt, -⟩
                    rw [ht, Option.getD_some, hlt] at hl
                    cases hl
                  · rintro ⟨-, -, -, t, x, ht, hlt, -⟩
                    rw [ht, Option.getD_some, hlt] at hl
                    cases hl
              | some x =>
                  refine (checkMarker_sat hfree hpres hown rfl hl).mono ?_ ?_
                  · rintro w₃ - ⟨rfl, ha⟩
                    exact ⟨hf₁.trans hf₂, ha⟩
                  · rintro w₃ z ⟨rfl, ho⟩
                    exact ⟨hf₁.trans hf₂, ho⟩

structure Clean (s : Session) : Prop where
  objs : ∀ o ∈ s.objs, o.cur = o.loaded ∧ o.dirty = false
  jobs : s.jobs = []
  new : s.new = []
  txn : s.txn = []

theorem Clean.pending {s : Session} (h : Clean s) (ev : RuntimeEvent) (t : Time) :
    Session.pending t { s with new := s.new ++ [.insertEvent ev] } = [.insertEvent ev] := by
  have hobjs : s.objs.flatMap Obj.write = [] := by
    rw [List.flatMap_eq_nil_iff]
    intro o ho
    obtain ⟨hcur, hdirty⟩ := h.objs o ho
    unfold Obj.write
    rw [hcur, hdirty, changed_self]
    rfl
  simp only [Session.pending, hobjs, h.jobs, h.new]
  rfl

theorem load_clean {s : Session} (h : Clean s) (r : AgentRuntime) : Clean (s.load r).2 := by
  unfold Session.load
  split
  · exact h
  · refine ⟨fun o ho => ?_, h.jobs, h.new, h.txn⟩
    rcases List.mem_append.mp ho with ho | ho
    · exact h.objs o ho
    · rw [List.mem_singleton.mp ho]
      exact ⟨rfl, rfl⟩

theorem commitEvent_sat (ev : RuntimeEvent) (hs : Clean (w.sessions i))
    {X : World R → PyExc → Prop} :
    Sat (World.step rem i) (fun _ _ => True) (fun w' _ => ∃ t,
      w'.db = w.db.apply t (.insertEvent ev)) X
      (do
        addEvent ev
        commit) w := by
  refine Sat.seq (Q := fun w₁ _ => (∀ t, (w₁.sessions i).pending t = [.insertEvent ev]) ∧
    (w₁.sessions i).txn = [] ∧ w₁.db = w.db) ⟨trivial, fun a w₁ hst => ?_⟩ ?_
  · have hw₁ : w₁ = w.setSession i { w.sessions i with new := (w.sessions i).new ++ [.insertEvent
        ev] } := hst
    have hself : w₁.sessions i = { w.sessions i with new := (w.sessions i).new ++ [.insertEvent
        ev] } := by
      rw [hw₁, setSession_self]
    refine ⟨fun t => ?_, ?_, ?_⟩
    · rw [hself]
      exact hs.pending ev t
    · rw [hself]
      exact hs.txn
    · rw [hw₁]
      rfl
  · rintro w₁ - ⟨hp, htxn, hdb⟩
    refine Sat.seq (Q := fun w₂ _ => (w₂.sessions i).txn = [.insertEvent ev] ∧ w₂.db = w.db)
      ⟨trivial, fun a w₂ hst => ?_⟩ ?_
    · cases a with
      | ok u =>
          have hw₂ : w₂ = w₁.setSession i ((w₁.sessions i).flush w₁.clock) := hst.2.2
          refine ⟨?_, ?_⟩
          · rw [hw₂, setSession_self]
            simp only [Session.flush, hp, htxn, List.nil_append]
          · rw [hw₂]
            exact hdb
      | error x =>
          obtain ⟨j, hj, -⟩ := hst.2.1
          rw [hp] at hj
          cases List.mem_singleton.mp hj
    · rintro w₂ - ⟨htxn, hdb⟩
      refine ⟨trivial, fun a w₃ hst => ?_⟩
      obtain ⟨t, -, rfl⟩ := hst
      refine ⟨t, ?_⟩
      change w₂.db.applyAll t (w₂.sessions i).txn = _
      rw [htxn, hdb]
      rfl

/-- A rejected DELETE: 403, and one committed event that says so. -/
structure Refused (rid : Uuid) (db db' : Db) (q : Py Unit) : Prop where
  status : ∃ msg, q = .raise ⟨.httpException 403, msg⟩
  event : ∃ ev, ev.action = "destroy_refused" ∧ ev.runtimeId = rid ∧ db'.events = db.events ++ [ev]

def Ending (protectedVmids : List Int) (v : Int) (r : AgentRuntime) (d : Shown) (rid : Uuid)
    (db : Db)
    (w' : World R) (x : PyExc) : Prop :=
  (¬ Stray protectedVmids v r d → x.cls = .httpException 403 ∧
    ∃ ev, ev.action = "destroy_refused" ∧ ev.runtimeId = rid ∧ w'.db.events = db.events ++ [ev]) ∧
  (Stray protectedVmids v r d → x.cls = .attributeError)

theorem close_ending {rid : Uuid} {db : Db} {x : PyExc}
    (h : Ending protectedVmids v r d rid db w x) :
    Sat (World.step rem i) (fun _ _ => True) (fun w' _ => Ending protectedVmids v r d rid db w' x)
      (fun _ _ => False) close w := by
  refine ⟨trivial, fun a w' hst => ?_⟩
  obtain rfl : w' = w.setSession i {} := hst
  exact h

theorem getRuntime_clean {rid : Uuid} {a : Option AgentRuntime} (hs : w.sessions i = {})
    (hr : w.db.runtime? rid = some r)
    (hst : w.step rem i (.db (.getRuntime rid)) a w') : a = some r ∧ Clean (w'.sessions i) ∧
    w'.db = w.db := by
  have hst' : World.dbStep w i (.getRuntime rid) a w' := hst
  have hobj : (w.sessions i).obj? rid = none := by rw [hs]; rfl
  have hview : (w.view i).runtime? rid = some r := by
    rw [World.view, hs]
    exact hr
  simp only [World.dbStep, hobj, hview] at hst'
  obtain ⟨ha, rfl⟩ := hst'
  refine ⟨ha, ?_, rfl⟩
  rw [setSession_self]
  refine load_clean ?_ r
  rw [hs]
  exact ⟨fun o ho => absurd ho List.not_mem_nil, rfl, rfl, rfl⟩

variable {cfg : Settings} {rid : Uuid} {actor : String}

theorem destroyRefused_sat {x : PyExc} {db : Db} (hs : Clean (w.sessions i)) (hdb : w.db = db)
    (ho : Outcome protectedVmids v r d x) :
    Sat (World.step rem i) (fun _ _ => True) (fun _ _ => False)
      (fun w' y => Ending protectedVmids v r d rid db w' y) (destroyRefused rid actor x) w := by
  unfold destroyRefused
  by_cases hstray : Stray protectedVmids v r d
  · have hcls := ho.stray hstray
    rw [if_neg (by simp [hcls])]
    exact ⟨fun hn => absurd hstray hn, fun _ => hcls⟩
  · rw [if_pos (ho.refused hstray)]
    dsimp only
    rw [← Prog.bind_assoc]
    refine Sat.seq (commitEvent_sat _ hs) ?_
    rintro w₁ - ⟨t, hw₁⟩
    have hev := congrArg Db.events hw₁
    rw [hdb] at hev
    refine ⟨fun _ => ⟨rfl, _, ?_, ?_, hev⟩, fun h => absurd h hstray⟩
    · rfl
    · rfl

theorem destroyAgentRuntime_sat (hd : Shows rem n v d) (hs : w.sessions i = {})
    (hr : w.db.runtime? rid = some r)
    (hn : r.node = some n) (hv : r.vmid = some v) (ha : ¬ Accepts cfg.protectedVmids v r d) :
    Sat (World.step rem i) (fun _ _ => True) (fun _ _ => False)
      (fun w' x => Ending cfg.protectedVmids v r d rid w.db w' x)
        (destroyAgentRuntime cfg rid actor) w := by
  unfold destroyAgentRuntime
  rw [sat_withSession]
  refine Sat.mono (Q := fun _ _ => False) (X :=
    fun w' x => Ending cfg.protectedVmids v r d rid w.db w' x) ?_
    (fun _ _ h => False.elim h) fun w' x h => (close_ending h).mono (fun _ _ h => h) fun _ _ h =>
    False.elim h
  rw [sat_bind, sat_getRuntime]
  refine ⟨trivial, fun a w₁ hst => ?_⟩
  obtain ⟨rfl, hclean, hdb⟩ := getRuntime_clean hs hr hst
  simp only [hn, hv]
  refine Sat.seq (Q := fun _ _ => False) ?_ fun _ _ h => False.elim h
  refine (sat_tryCatch _ _ _).mpr ((verifyOwnership_sat _ _ hd).mono (fun _ _ h => ha h.2) ?_)
  rintro w₂ x ⟨hf, ho⟩
  refine destroyRefused_sat ?_ (hf.1.trans hdb) ho
  rw [hf.2]
  exact hclean

/-- The verification tells the accepted VMs from the others, and a DELETE refuses the others. -/
structure Decides (protectedVmids : List Int) (v : Int) (r : AgentRuntime) (d : Shown) (rid : Uuid)
    (q : Py Unit)
    (db db' : Db) (q' : Py Unit) : Prop where
  accepted : Accepts protectedVmids v r d → q = .ret ()
  rejected : ¬ Accepts protectedVmids v r d → ∃ msg, q = .raise ⟨.ownershipError, msg⟩
  deletion : ¬ Accepts protectedVmids v r d → Refused rid db db' q'

theorem Stray.rejected (h : Stray protectedVmids v r d) : ¬ Accepts protectedVmids v r d := by
  rintro ⟨-, -, -, t, m, ht, hl, -⟩
  obtain ⟨-, -, -, t', x, ht', hl', hx⟩ := h
  obtain rfl := Option.some.inj (ht.symm.trans ht')
  rw [hl] at hl'
  exact hx m (Option.some.inj hl').symm

/-- The verification and the DELETE decide every case exactly when the
description is not the text of a JSON value other than an object. -/
theorem decides_iff {w₁ w₁' : World R} {j : Nat} {tr tr' : PyTrace} {q q' : Py Unit}
    (hd : Shows rem n v d)
    (hn : r.node = some n) (hv : r.vmid = some v)
    (hx : Exec (World.step rem i) w (verifyOwnership cfg.protectedVmids n v r) tr w' q)
    (hq : ∀ e k, q ≠ .call e k)
    (hs : w₁.sessions j = {}) (hr : w₁.db.runtime? rid = some r)
    (hx' : Exec (World.step rem j) w₁ (destroyAgentRuntime cfg rid actor) tr' w₁' q')
    (hq' : ∀ e k, q' ≠ .call e k) :
    Decides cfg.protectedVmids v r d rid q w₁.db w₁'.db q' ↔ ¬ Stray cfg.protectedVmids v r d := by
  have hver := (verifyOwnership_sat r cfg.protectedVmids hd).exec hx
  constructor
  · intro h hstray
    obtain ⟨msg, rfl⟩ := h.rejected hstray.rejected
    cases hver.2.stray hstray
  · intro hstray
    refine ⟨fun ha => ?_, fun ha => ?_, fun ha => ?_⟩
    · cases q with
      | ret u => rfl
      | raise x => exact absurd ha hver.2.rejected
      | call e k => exact absurd rfl (hq e k)
    · cases q with
      | ret u => exact absurd hver.2 ha
      | raise x =>
          obtain ⟨cls, msg⟩ := x
          obtain rfl : cls = .ownershipError := hver.2.refused hstray
          exact ⟨msg, rfl⟩
      | call e k => exact absurd rfl (hq e k)
    · have hdel := (destroyAgentRuntime_sat hd hs hr hn hv ha).exec hx'
      cases q' with
      | ret u => exact False.elim hdel
      | raise x =>
          obtain ⟨cls, msg⟩ := x
          obtain ⟨hcls, hev⟩ := hdel.1 hstray
          obtain rfl : cls = .httpException 403 := hcls
          exact ⟨⟨msg, rfl⟩, hev⟩
      | call e k => exact absurd rfl (hq' e k)

def asShown (d : Shown) : Replay.Oracle Unit where
  pve _ c :=
    match c with
    | .status .. =>
        some (if d.present then .ok (.obj [("status", .str "stopped")])
          else .error ⟨.other "HTTPError", "HTTP Error 500: Configuration file does not exist"⟩, ())
    | .config .. =>
        some (.ok (.obj ((d.description.map fun t => ("description", Json.str t)).toList)), ())
    | _ => none
  kea _ _ := none
  neigh _ _ := none

def answering (d : Shown) : Remote Unit where
  pve _ c a _ := (asShown d).pve () c = some (a, ())
  kea _ _ _ _ := True
  neigh _ _ _ := True

theorem asShown_follows (d : Shown) : (asShown d).Follows (fun _ => ()) (answering d) :=
  ⟨fun _ _ _ _ h => h, fun _ _ _ _ _ => trivial, fun _ _ => trivial⟩

theorem answering_shows (d : Shown) (n : String) (v : Int) : Shows (answering d) n v d where
  status s a s' h := by
    have ha := congrArg Prod.fst (Option.some.inj h)
    split
    next hp =>
        rw [hp] at ha
        exact ⟨_, ha.symm, rfl⟩
    next hp =>
        rw [show d.present = false by simpa using hp] at ha
        intro x hx
        rw [hx] at ha
        cases ha
  config _ s a s' h := by
    have ha := congrArg Prod.fst (Option.some.inj h)
    refine ⟨_, ha.symm, ?_⟩
    cases d.description with
    | none => rfl
    | some t => rfl

def atStart : Replay.Machine Unit := ⟨{ runtimes := [⟨worker, 0⟩] }, [{}], 0, [], ()⟩

def verified (d : Shown) : PyTrace × Replay.Machine Unit × Py Unit :=
  play (Replay.Machine.answer (asShown d) 0) 10 atStart
    (verifyOwnership [906] "miam00111" 700 worker)

def deleted (d : Shown) : PyTrace × Replay.Machine Unit × Py Unit :=
  play (Replay.Machine.answer (asShown d) 0) 20 atStart (destroyAgentRuntime {} workerId "operator")

def startWorld : World Unit := atStart.world fun _ => ()

theorem verified_exec (d : Shown) : Exec (World.step (answering d) 0) startWorld
    (verifyOwnership [906] "miam00111" 700 worker) (verified d).1
    ((verified d).2.1.world fun _ => ()) (verified d).2.2 :=
  play_exec (Replay.Machine.world fun _ => ()) (Replay.Machine.answer (asShown d) 0)
    (fun m e a m' => Replay.Machine.answer_step (asShown_follows d) 0 m e a m') 10 atStart
    (verifyOwnership [906] "miam00111" 700 worker)

theorem deleted_exec (d : Shown) : Exec (World.step (answering d) 0) startWorld
    (destroyAgentRuntime {} workerId "operator") (deleted d).1 ((deleted d).2.1.world fun _ => ())
    (deleted d).2.2 :=
  play_exec (Replay.Machine.world fun _ => ()) (Replay.Machine.answer (asShown d) 0)
    (fun m e a m' => Replay.Machine.answer_step (asShown_follows d) 0 m e a m') 20 atStart
    (destroyAgentRuntime {} workerId "operator")

def isObj : Json → Bool
  | .obj _ => true
  | _ => false

/-- The description of the worker's VM is the text `[]`. -/
def listed : Shown := ⟨true, some "[]"⟩

theorem listed_stray : Stray [906] 700 worker listed := by
  have hl : (loads "[]").any (fun x => !isObj x) = true := by decide +kernel
  obtain ⟨x, hx, hnot⟩ := (Option.any_eq_true _ _).mp hl
  refine ⟨by decide, rfl, rfl, "[]", x, rfl, hx, ?_⟩
  rintro m rfl
  cases hnot

theorem listed_ended : ((verified listed).2.2.ended && (deleted listed).2.2.ended) = true := by
  decide +kernel

/-- A JSON list is no ownership marker, and is not refused as one. -/
theorem list_not_refused :
    ¬ ∀ (d : Shown) (R : Type) (rem : Remote R) (cfg : Settings) (i j : Nat) (n : String) (v :
      Int) (r : AgentRuntime)
      (rid : Uuid) (actor : String) (w w' w₁ w₁' : World R) (tr tr' : PyTrace) (q q' : Py Unit),
        Shows rem n v d →
        r.node = some n → r.vmid = some v →
          Exec (World.step rem i) w (verifyOwnership cfg.protectedVmids n v r) tr w' q →
            (∀ e k, q ≠ .call e k) →
            w₁.sessions j = {} → w₁.db.runtime? rid = some r →
              Exec (World.step rem j) w₁ (destroyAgentRuntime cfg rid actor) tr' w₁' q' →
                (∀ e k, q' ≠ .call e k) →
                Decides cfg.protectedVmids v r d rid q w₁.db w₁'.db q' := by
  intro h
  obtain ⟨hv, hd⟩ := Bool.and_eq_true_iff.mp listed_ended
  have hdec :=
    h listed Unit (answering listed) {} 0 0 "miam00111" 700 worker workerId "operator" startWorld _
      startWorld _
    _ _ _ _ (answering_shows listed _ _) rfl rfl (verified_exec listed) (Prog.ended_ne_call hv) rfl
      rfl (deleted_exec listed)
    (Prog.ended_ne_call hd)
  obtain ⟨msg, hraise⟩ := hdec.rejected listed_stray.rejected
  have hver := (verifyOwnership_sat _ _ (answering_shows listed _ _)).exec (verified_exec listed)
  rw [hraise] at hver
  cases hver.2.stray listed_stray

def unmarked : Shown := ⟨true, none⟩

theorem unmarked_ended : ((verified unmarked).2.2.ended && (deleted unmarked).2.2.ended) =
    true := by
  decide +kernel

theorem unmarked_decides :
    Decides [906] 700 worker unmarked workerId (verified unmarked).2.2 startWorld.db
      (deleted unmarked).2.1.db
      (deleted unmarked).2.2 := by
  obtain ⟨hv, hd⟩ := Bool.and_eq_true_iff.mp unmarked_ended
  have hx : Exec (World.step (answering unmarked) 0) startWorld
      (verifyOwnership ({} : Settings).protectedVmids "miam00111" 700 worker) (verified unmarked).1
      ((verified unmarked).2.1.world fun _ => ()) (verified unmarked).2.2 := verified_exec unmarked
  refine (decides_iff (answering_shows unmarked _ _) rfl rfl hx (Prog.ended_ne_call hv) rfl rfl
    (deleted_exec unmarked)
    (Prog.ended_ne_call hd)).mpr ?_
  rintro ⟨-, -, -, t, x, ht, -⟩
  cases ht

end ServerManager.OwnershipVerdict
