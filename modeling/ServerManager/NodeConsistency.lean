import ServerManager.JobOutcome

namespace ServerManager.NodeConsistency

open Interaction PyJson Orm Effects Config ProxmoxVm Provisioning Storage Calls
open Frames JobCalls JobLedger JobRuns JobOutcome Replay

def about : Eff → Option (String × Int)
  | .pve (.config n v) | .pve (.status n v) | .pve (.interfaces n v) | .pve (.setConfig n v _)
  | .pve (.start n v)
  | .pve (.shutdown n v _) | .pve (.stop n v) | .pve (.destroy n v _) => some (n, v)
  | _ => none

def Marked (n : String) (body : List (String × String)) : Prop :=
  ∃ marker, ("description", String.ofList ((dumps (.obj marker)).toList.take 8190)) ∈ body ∧
    Dict.get? marker "node" = some (.str n)

/-- From the clone on, the node of the clone is the one that is asked about the VM and marked in
it. -/
def Consistent (n : String) (v : Int) (after : PyTrace) : Prop :=
  ∀ ev ∈ after, (∀ m, about ev.1 = some (m, v) → m = n) ∧ ∀ m body,
    ev.1 = .pve (.setConfig m v body) → Marked n body

/-- What `cfg.get("lock")` gives; a configuration that is no dictionary has no `get`. -/
def lockOf (x : Json) : Option Json :=
  match x.orElse (.obj []) with
  | .obj fs => some ((Dict.get? fs "lock").getD .null)
  | _ => none

def unlocked (n : String) (v : Int) : Event Eff Ans → Bool
  | ⟨.pve (.config n' v'), x⟩ => n' = n && v' = v &&
      match (x : Except PyExc Json) with
      | .ok x => (lockOf x).any (fun lock => !lock.truthy)
      | .error _ => false
  | _ => false

def unlocks (n : String) (v : Int) (tr : PyTrace) : Nat := tr.countP (unlocked n v)

variable {tn n : String} {v : Int}

theorem unlocks_append (a b : PyTrace) : unlocks n v (a ++ b) = unlocks n v a + unlocks n v b :=
  List.countP_append

theorem unlocks_snoc {past : PyTrace} {ev : Event Eff Ans} (h : unlocked n v ev = false) :
    unlocks n v (past ++ [ev]) = unlocks n v past := by
  rw [unlocks_append]
  simp [unlocks, h]

theorem unlocks_seen {past : PyTrace} {ev : Event Eff Ans} (h : unlocked n v ev = true) :
    unlocks n v (past ++ [ev]) = unlocks n v past + 1 := by
  rw [unlocks_append]
  simp [unlocks, h]

/-- A wait that returns has seen the lock released, one that raises has not. -/
def WaitEnds (n : String) (v : Int) (past : PyTrace) (k : Nat) (p : Py Unit) : Prop :=
  Sat log (fun _ _ => True) (fun s _ => unlocks n v s = k + 1) (fun s _ => unlocks n v s = k) p past

theorem sleep_ends {past : PyTrace} {k t : Nat} {p : Py Unit}
    (h : ∀ past, unlocks n v past = k → WaitEnds n v past k p) (hk : unlocks n v past = k) :
    WaitEnds n v past k (do
      sleep t
      p) := by
  refine (sat_bind _ _ _).mpr ⟨trivial, fun u s hs => ?_⟩
  have hs' : s = past ++ [⟨.sys (.sleep t), u⟩] := hs
  exact h s (by rw [hs', unlocks_snoc rfl, hk])

/-- The test of the lock in a configuration that was read as `x`. -/
theorem lock_ends {past : PyTrace} {k : Nat} {x : Json} {again : Py Unit}
    (hk : unlocks n v past = k)
    (h : ∀ past, unlocks n v past = k → WaitEnds n v past k again) :
    WaitEnds n v (past ++ [⟨.pve (.config n v), Except.ok x⟩]) k (do
      let lock ← dictGet (x.orElse (.obj [])) "lock"
      if lock.truthy then again else pure ()) := by
  have hseen : ∀ b, (lockOf x).any (fun lock => !lock.truthy) = b →
      unlocked n v ⟨.pve (.config n v), Except.ok x⟩ = b := by
    intro b hb
    simp [unlocked, hb]
  unfold lockOf at hseen
  unfold dictGet
  split
  next fs hfs =>
      simp only [hfs, Option.any_some] at hseen
      cases hl : ((Dict.get? fs "lock").getD .null).truthy with
      | true =>
          simp only [hl] at hseen
          refine (sat_bind _ _ _).mpr ((sat_pure _ _).mpr ?_)
          rw [if_pos hl]
          exact h _ ((unlocks_snoc (hseen _ rfl)).trans hk)
      | false =>
          simp only [hl] at hseen
          refine (sat_bind _ _ _).mpr ((sat_pure _ _).mpr ?_)
          rw [if_neg (by simp [hl])]
          exact (unlocks_seen (hseen _ rfl)).trans (by rw [hk])
  next hno =>
      have hnone : unlocked n v ⟨.pve (.config n v), Except.ok x⟩ = false := by
        refine hseen _ ?_
        split
        next fs hfs => exact absurd hfs (hno fs)
        · rfl
      exact (unlocks_snoc hnone).trans hk

theorem waitCloneLoop_ends (maxS m : Nat) {past : PyTrace} {k : Nat} (hk : unlocks n v past = k) :
    WaitEnds n v past k (waitCloneLoop n v maxS m) := by
  induction m generalizing past with
  | zero => exact hk
  | succ m ih =>
      unfold waitCloneLoop
      have hagain : ∀ past, unlocks n v past = k → WaitEnds n v past k (do
          sleep 3
          waitCloneLoop n v maxS m) := fun past hk => sleep_ends (fun _ h => ih h) hk
      refine (sat_bind _ _ _).mpr ((sat_tryCatch _ _ _).mpr
        ((sat_bind _ _ _).mpr ((sat_pve _).mpr ⟨trivial, ?_⟩)))
      rintro (x | x) s rfl
      · exact hagain _ ((unlocks_snoc (by simp [unlocked])).trans hk)
      · exact lock_ends hk hagain

theorem waitCloneLockRelease_ends {past : PyTrace} {k : Nat} (hk : unlocks n v past = k) :
    WaitEnds n v past k (waitCloneLockRelease n v) := by
  refine (sat_bind _ _ _).mpr ⟨trivial, fun m s hs => ?_⟩
  have hs' : s = past ++ [⟨.sys (.polls 240), m⟩] := hs
  exact waitCloneLoop_ends 240 m (by rw [hs', unlocks_snoc rfl, hk])

theorem unlockedWithin_ends (m : Nat) {past : PyTrace} {k : Nat} (hk : unlocks n v past = k) :
    WaitEnds n v past k (unlockedWithin n v m) := by
  induction m generalizing past with
  | zero => exact hk
  | succ m ih =>
      unfold unlockedWithin
      have hagain : ∀ past, unlocks n v past = k → WaitEnds n v past k (do
          sleep 3
          unlockedWithin n v m) := fun past hk => sleep_ends (fun _ h => ih h) hk
      refine (sat_bind _ _ _).mpr ((sat_tryCatch _ _ _).mpr
        ((sat_bind _ _ _).mpr ((sat_pve _).mpr ⟨trivial, ?_⟩)))
      rintro (x | x) s rfl
      · exact hagain _ ((unlocks_snoc (by simp [unlocked])).trans hk)
      · exact lock_ends hk hagain

/-- No clone, no configuration, and about the VM only on its node. -/
def aims (n : String) (v : Int) (e : Eff) : Prop :=
  cloned e = none ∧ (∀ m, about e = some (m, v) → m = n) ∧ ∀ m body, e ≠ .pve (.setConfig m v body)

/-- As before, or a marked configuration that goes to the template's node. -/
def aimsOrSets (tn n : String) (v : Int) (e : Eff) : Prop :=
  aims n v e ∨ ∃ body, e = .pve (.setConfig tn v body) ∧ Marked n body

/-- The trace has one clone, and from there on `after`, with calls of this kind. -/
def Since (φ : Eff → Prop) (tn n : String) (v : Int) (tr after : PyTrace) : Prop :=
  ∃ before tv name a, tr = before ++ ⟨.pve (.clone tn tv v name n), a⟩ :: after ∧ Uncloned before ∧
    ∀ ev ∈ after, φ ev.1

theorem Since.snoc {φ : Eff → Prop} {tr after : PyTrace} {ev : Event Eff Ans}
    (h : Since φ tn n v tr after) (he : φ ev.1) :
    Since φ tn n v (tr ++ [ev]) (after ++ [ev]) := by
  obtain ⟨before, tv, name, a, rfl, hb, ha⟩ := h
  refine ⟨before, tv, name, a, by simp, hb, fun x hx => ?_⟩
  rcases List.mem_append.mp hx with hx | hx
  · exact ha x hx
  · rw [List.mem_singleton.mp hx]
    exact he

theorem Since.append {φ : Eff → Prop} {tr after seg : PyTrace} (h : Since φ tn n v tr after)
    (hs : ∀ ev ∈ seg, φ ev.1) :
    Since φ tn n v (tr ++ seg) (after ++ seg) := by
  induction seg generalizing tr after with
  | nil => simpa using h
  | cons ev seg ih =>
      have hx := ih (h.snoc (hs ev List.mem_cons_self)) fun x hx => hs x (List.mem_cons_of_mem _ hx)
      simpa using hx

/-- Before the first configuration, with the lock seen released `k` times. -/
def Early (tn n : String) (v : Int) (k : Nat) (s : Ledger × PyTrace) : Prop :=
  ∃ after, Since (aims n v) tn n v s.2 after ∧ unlocks n v after = k

def Late (tn n : String) (v : Int) (s : Ledger × PyTrace) : Prop :=
  ∃ after, Since (aimsOrSets tn n v) tn n v s.2 after ∧ 2 ≤ unlocks n v after ∧
    ∃ ev ∈ after, ∃ body, ev.1 = .pve (.setConfig tn v body)

inductive Stopped (tn : String) (s : Ledger × PyTrace) : Prop
  | uncloned : Uncloned s.2 → Stopped tn s
  | early {n : String} {v : Int} {k : Nat} : k < 2 → Early tn n v k s → Stopped tn s
  | late {n : String} {v : Int} : Late tn n v s → Stopped tn s

theorem aims_aside {e : Eff} (h : observes e) (ha : asks e = none) : aims n v e ∧ ∀ a,
    unlocked n v ⟨e, a⟩ = false := by
  cases e with
  | pve c =>
      cases c with
      | config | status | interfaces => cases ha
      | nodes | nextid | storage =>
          exact ⟨⟨rfl, nofun, fun m b he => Eff.noConfusion he fun h => PveCall.noConfusion h⟩,
            fun _ => rfl⟩
      | clone | setConfig | start | shutdown | stop | destroy => exact False.elim h
  | db | kea | sys => exact ⟨⟨rfl, nofun, fun m b he => Eff.noConfusion he⟩, fun _ => rfl⟩

def passes (n : String) (v : Int) (e : Eff) : Prop := aims n v e ∧ ∀ a, unlocked n v ⟨e, a⟩ = false

theorem passes_db {c : DbCall} : passes n v (.db c) :=
  ⟨⟨rfl, nofun, fun _ _ he => Eff.noConfusion he⟩, fun _ => rfl⟩

theorem passes_books {e : Eff} (h : books e) : passes n v e := by
  cases e with
  | db c => exact passes_db
  | pve | kea | sys => exact False.elim h

theorem passes_allows (n : String) (v : Int) (ns as : List String) :
    Allows (passes n v) (fun _ _ => False) ns as where
  aside _ he ha := aims_aside he ha
  read _ _ _ _ _ hv := False.elim hv
  book _ he := passes_books he
  step _ _ := ⟨passes_db, passes_db⟩
  event _ _ := passes_db

theorem own_node (n : String) (v : Int) : (∀ m, some n = some m → m = n) ∧ v = v :=
  ⟨fun _ h => (Option.some.inj h).symm, rfl⟩

theorem aims_allows (ns as : List String) : Allows (aims n v)
    (fun n' v' => (∀ m, n' = some m → m = n) ∧ v' = v) ns as where
  aside _ he ha := (aims_aside he ha).1
  read e he n' v' ha hv := by
    obtain ⟨hn, rfl⟩ := hv
    refine ⟨cloned_observes he, fun m hm => ?_, fun m body h => by subst h; exact he⟩
    unfold asks at ha
    split at ha
    next => cases ha; cases hm; exact hn _ rfl
    next => cases ha; cases hm; exact hn _ rfl
    next => cases ha; cases hm; exact hn _ rfl
    next => cases hm
    next => cases ha
  book _ he := (passes_books he).1
  step _ _ := ⟨passes_db.1, passes_db.1⟩
  event _ _ := passes_db.1

theorem lands_allows (tn n : String) (v : Int) (ns as : List String) : 
    Allows (aimsOrSets tn n v) (fun n' v' => (∀ m, n' = some m → m = n) ∧ v' = v) ns as :=
  (aims_allows ns as).mono fun _ he => .inl he

theorem configBody_marked {spec : VMSpec} (h :
    Dict.get? spec.descriptionMeta "node" = some (.str n)) (net0 : Option String) :
    Marked n (configBody spec net0) :=
  ⟨spec.descriptionMeta, by simp [configBody], h⟩

theorem lands_deploys (v : Int) (rid : Uuid) {spec : VMSpec} (ht : spec.templateNode = tn)
    (hm : Dict.get? spec.descriptionMeta "node" = some (.str n)) :
    Deploys (aimsOrSets tn n v) rid spec n v where
  config net0 := .inr ⟨_, by rw [ht], configBody_marked hm net0⟩
  start := by
    refine .inl ⟨rfl, fun m hm => ?_, fun _ _ he => Eff.noConfusion he fun h =>
      PveCall.noConfusion h⟩
    cases hm
    rfl
  kea _ := .inl ⟨rfl, nofun, fun _ _ he => Eff.noConfusion he⟩
  mac _ := .inl passes_db.1
  reserved _ := .inl passes_db.1
  notes _ _ _ := .inl passes_db.1
  others := .inl passes_db.1

section Stages

variable {jid rid : Uuid} {s : Ledger × PyTrace} {α : Type} {p : Py α}

theorem uncloned_sat (ho : Only (fun e => cloned e = none) p) (hs : Uncloned s.2) :
    Sat (traced (booked jid rid)) (fun _ _ => True) (fun s _ => Uncloned s.2)
      (fun s _ => Stopped tn s) p s :=
  (sat_kept jid rid (I := fun s => Uncloned s.2) ho (fun _ _ _ _ he hi => uncloned_snoc hi he)
    hs).mono (fun _ _ h => h)
    fun _ _ h => .uncloned h

theorem early_sat {k : Nat} (hk : k < 2) (ho : Only (passes n v) p) (hs : Early tn n v k s) :
    Sat (traced (booked jid rid)) (fun _ _ => True) (fun s _ => Early tn n v k s)
      (fun s _ => Stopped tn s) p s := by
  refine (sat_kept jid rid (I := Early tn n v k) ho ?_ hs).mono (fun _ _ h => h) fun _ _ h =>
    .early hk h
  rintro L past e a he ⟨after, hsince, hun⟩
  exact ⟨after ++ [⟨e, a⟩], hsince.snoc he.1, (unlocks_snoc (he.2 a)).trans hun⟩

theorem late_sat (ho : Only (aimsOrSets tn n v) p) (hs : Late tn n v s) :
    Sat (traced (booked jid rid)) (fun _ _ => True) (fun s _ => Late tn n v s)
      (fun s _ => Stopped tn s) p s := by
  refine (sat_kept jid rid (I := Late tn n v) ho ?_ hs).mono (fun _ _ h => h) fun _ _ h => .late h
  rintro L past e a he ⟨after, hsince, hun, ev, hev, hset⟩
  refine ⟨after ++ [⟨e, a⟩], hsince.snoc he, ?_, ev, List.mem_append_left _ hev, hset⟩
  rw [unlocks_append]
  omega

theorem wait_sat {k : Nat} {q : Py Unit} (hk : k < 2) (hw : WaitEnds n v [] 0 q)
    (ho : Only (aims n v) q) (hs : Early tn n v k s) :
    Sat (traced (booked jid rid)) (fun _ _ => True) (fun s _ => Early tn n v (k + 1) s)
      (fun s _ => Stopped tn s) q s := by
  obtain ⟨L, past⟩ := s
  obtain ⟨after, hsince, hun⟩ := hs
  have hcount : ∀ {seg} {j : Nat}, unlocks n v seg = j → unlocks n v (after ++ seg) = k + j := by
    intro seg j hj
    rw [unlocks_append, hun, hj]
  have hends : ∀ {seg : PyTrace} {r : Py Unit}, Exec anything () q seg () r →
      Since (aims n v) tn n v (past ++ seg) (after ++ seg) := fun hx => hsince.append (ho.of_mem hx)
  refine (((sat_segment q past).traced (T := booked jid rid) L).weaken fun _ _ _ => trivial).mono ?_
    ?_
  · rintro ⟨L', past'⟩ a ⟨seg, rfl, hx⟩
    have hq := hw.exec (hx.log [])
    exact ⟨after ++ seg, hends hx, hcount (by simpa using hq)⟩
  · rintro ⟨L', past'⟩ x ⟨seg, rfl, hx⟩
    have hq := hw.exec (hx.log [])
    exact .early hk ⟨after ++ seg, hends hx, hcount (by simpa using hq)⟩

theorem takeClone_early (runtime : AgentRuntime) (spec : VMSpec) (vmid : Int)
    (ht : spec.templateNode = tn)
    (hs : Uncloned s.2) :
    Sat (traced (booked jid rid)) (fun _ _ => True)
      (fun s x => x = (vmid, spec) ∧ Early tn spec.node vmid 1 s) (fun s _ => Stopped tn s)
      (takeClone jid runtime spec vmid) s := by
  obtain ⟨L, past⟩ := s
  have hA := fun ns as => passes_allows spec.node vmid ns as
  unfold takeClone cloneTemplate
  refine Sat.seq (Q := fun s _ => Early tn spec.node vmid 0 s) ?_ fun s _ hs => ?_
  · refine (sat_bind _ _ _).mpr ((sat_booked _ _).mpr ⟨trivial, fun a _ => (sat_orRaise a).mpr ?_⟩)
    have hearly : ∀ L, Early tn spec.node vmid 0
        (L, past ++ [⟨.pve (.clone spec.templateNode spec.templateVmid vmid
        (String.ofList (spec.name.toList.take 63)) spec.node), a⟩]) := fun L =>
      ⟨[], ⟨past, _, _, a, by rw [ht], hs, fun _ h => absurd h List.not_mem_nil⟩, rfl⟩
    cases a with
    | ok x => exact hearly _
    | error x => exact .early Nat.two_pos (hearly _)
  · refine Sat.seq (wait_sat Nat.two_pos (waitCloneLockRelease_ends rfl)
      (only_waitCloneLockRelease _ _ _ (aims_allows [] []) (own_node _ _)) hs) fun s _ hs => ?_
    refine Sat.seq (early_sat Nat.one_lt_two (only_event _ _ _ _ (hA [] _)) hs) fun s _ hs => ?_
    exact Sat.seq (early_sat Nat.one_lt_two (only_recordStep _ _ _ _ _ (hA _ [])) hs) fun s _ hs =>
      ⟨rfl, hs⟩

theorem configureCloudInit_late (spec : VMSpec) (vmid : Int) (ht : spec.templateNode = tn)
    (hm : Dict.get? spec.descriptionMeta "node" = some (.str spec.node))
    (hs : Early tn spec.node vmid 1 s) :
    Sat (traced (booked jid rid)) (fun _ _ => True) (fun s _ => Late tn spec.node vmid s)
      (fun s _ => Stopped tn s)
      (configureCloudInit spec vmid) s := by
  unfold configureCloudInit
  refine Sat.seq (wait_sat Nat.one_lt_two (unlockedWithin_ends 3 rfl)
    (only_unlockedWithin _ _ _ (aims_allows [] []) (own_node _ _)) hs) fun s _ hs => ?_
  obtain ⟨L, past⟩ := s
  obtain ⟨after, ⟨before, tv, name, a, htr, hb, ha⟩, hun⟩ := hs
  refine (sat_bind _ _ _).mpr ((sat_booked _ _).mpr ⟨trivial, fun b _ => (sat_orRaise b).mpr ?_⟩)
  have hlate : ∀ L, Late tn spec.node vmid (L,
      past ++ [⟨.pve (.setConfig spec.templateNode vmid (configBody spec none)), b⟩]) := by
    intro L
    refine ⟨after ++ [⟨.pve (.setConfig spec.templateNode vmid (configBody spec none)), b⟩], ?_, ?_,
      ⟨.pve (.setConfig spec.templateNode vmid (configBody spec none)), b⟩,
      List.mem_append_right _ (List.mem_singleton.mpr rfl), _, by rw [ht]⟩
    · refine Since.snoc ⟨before, tv, name, a, htr, hb, fun x hx => .inl (ha x hx)⟩
        (.inr ⟨_, by rw [ht], ?_⟩)
      exact configBody_marked hm none
    · rw [unlocks_append, hun]
      omega
  cases b with
  | ok x => exact hlate _
  | error x => exact .late (hlate _)

theorem deploy_late (cfg : Settings) (runtime : AgentRuntime) (spec : VMSpec) (vmid : Int)
    (ht : spec.templateNode = tn)
    (hm : Dict.get? spec.descriptionMeta "node" = some (.str spec.node))
    (hs : Early tn spec.node vmid 1 s) :
    Sat (traced (booked jid rid)) (fun _ _ => True) (fun s _ => Late tn spec.node vmid s)
      (fun s _ => Stopped tn s)
      (deploy cfg jid runtime spec.node (vmid, spec)) s := by
  have hA := fun ns as => lands_allows tn spec.node vmid ns as
  have hD := lands_deploys vmid runtime.runtimeId ht hm
  unfold deploy
  rw [configureVm_eq, Prog.bind_assoc]
  refine Sat.seq (early_sat Nat.one_lt_two (only_recordStep _ _ _ _ _ (passes_allows _ _ _ [])) hs)
    fun s _ hs => ?_
  rw [Prog.bind_assoc]
  refine Sat.seq (configureCloudInit_late spec vmid ht hm hs) fun s _ hs => late_sat ?_ hs
  refine Only.bind (only_pinMac _ _ _ _ (hA _ []) (own_node _ _) hD.config hD.mac) fun om => ?_
  exact only_bringUp cfg jid runtime om (hA _ _) (own_node _ _) ⟨nofun, rfl⟩ hD

theorem completeJob_stopped (jid rid : Uuid) (cfg : Settings) (runtime : AgentRuntime)
    (hs : Uncloned s.2) :
    Sat (traced (booked jid rid)) (fun _ _ => True)
      (fun s _ => ∃ n v, Late (templateOf runtime.templateSource).1 n v s)
      (fun s _ => Stopped (templateOf runtime.templateSource).1 s) (completeJob cfg jid runtime)
        s := by
  have hA := fun ns as => uncloned_allows ns as
  unfold completeJob
  rw [provisionVm_eq]
  refine Sat.seq (Q := fun s _ => ∃ n v, Late (templateOf runtime.templateSource).1 n v s) ?_
    fun s x hs => ?_
  · refine Sat.seq (uncloned_sat (only_validate _ _ (hA _ [])) hs) fun s _ hs => ?_
    refine Sat.seq (uncloned_sat (only_placeVm _ _ _ (hA _ _)) hs) fun s node hs => ?_
    rw [cloneVm_eq, Prog.bind_assoc]
    refine Sat.seq (uncloned_sat (only_prepareClone _ _ _ _ _ (hA _ []) trivial) hs) fun s v hs =>
      ?_
    refine Sat.seq (takeClone_early runtime (cloneSpec runtime node _ _ v) v rfl hs) fun s x hs =>
      ?_
    obtain ⟨rfl, hs⟩ := hs
    exact (deploy_late cfg runtime _ v rfl rfl hs).mono (fun _ _ h => ⟨_, _, h⟩) fun _ _ h => h
  · obtain ⟨n, v, hs⟩ := hs
    have hL := fun ns as => lands_allows (templateOf runtime.templateSource).1 n v ns as
    refine (late_sat (n := n) (v := v) ?_ hs).mono (fun _ _ h => ⟨n, v, h⟩) fun _ _ h => h
    refine Only.bind (only_bootstrapHermes _ _ (hL _ []) (fun _ _ _ => .inl passes_db.1)
      (fun _ _ => .inl passes_db.1)
      (.inl passes_db.1)) fun _ => ?_
    refine Only.bind (only_call (.inl passes_db.1) fun _ => only_ret _) fun _ => ?_
    refine Only.bind (only_call (.inl passes_db.1) fun _ => only_ret _) fun _ => ?_
    refine Only.bind (only_event _ _ _ _ (hL [] _)) fun _ => ?_
    exact only_commit (.inl passes_db.1) (.inl passes_db.1)

end Stages

theorem filing_passes {e : Eff} (h : filing e) : passes n v e := by
  cases e with
  | db c => exact passes_db
  | pve | kea | sys => exact False.elim h

theorem cloned_of_lands {e : Eff} (h : aimsOrSets tn n v e) : cloned e = none := by
  rcases h with h | ⟨body, rfl, -⟩
  · exact h.1
  · rfl

theorem Since.eq {φ : Eff → Prop} {tr after after' before : PyTrace} {tn' name n' : String}
    {tv v' : Int}
    {a : Except PyExc Json} (h : Since φ tn n v tr after') (hφ : ∀ e, φ e → cloned e = none)
    (htr : tr = before ++ ⟨.pve (.clone tn' tv v' name n'), a⟩ :: after) :
    tn = tn' ∧ n = n' ∧ v = v' ∧ after' = after := by
  obtain ⟨before', tv', name', a', htr', hb, ha⟩ := h
  obtain ⟨-, hev, rfl⟩ :=
    clone_unique (htr'.symm.trans htr) hb (fun ev hev => hφ _ (ha ev hev)) (by simp [cloned])
  cases hev
  exact ⟨rfl, rfl, rfl, rfl⟩

theorem consistent_of_aims {after : PyTrace} (h : ∀ ev ∈ after, aims n v ev.1) :
    Consistent n v after := fun ev hev =>
  ⟨(h ev hev).2.1, fun m body he => absurd he ((h ev hev).2.2 m body)⟩

theorem consistent_late_iff {after : PyTrace} (h : ∀ ev ∈ after, aimsOrSets tn n v ev.1)
    (hs : ∃ ev ∈ after, ∃ body, ev.1 = .pve (.setConfig tn v body)) : Consistent n v after ↔
    tn = n := by
  constructor
  · intro hc
    obtain ⟨ev, hev, body, he⟩ := hs
    exact (hc ev hev).1 tn (by rw [he]; rfl)
  · rintro rfl ev hev
    rcases h ev hev with ha | ⟨body, he, hm⟩
    · exact ⟨ha.2.1, fun m body he => absurd he (ha.2.2 m body)⟩
    · rw [he]
      refine ⟨fun m hm => ?_, fun m body' hb => ?_⟩
      · cases hm
        rfl
      · cases hb
        exact hm

theorem stopped_iff {tr before after : PyTrace} {L : Ledger} {name : String} {tv : Int}
    {a : Except PyExc Json}
    (h : Stopped tn (L, tr)) (htr : tr = before ++ ⟨.pve (.clone tn tv v name n), a⟩ :: after) :
    Consistent n v after ↔ tn = n ∨ unlocks n v after < 2 := by
  cases h with
  | uncloned hu =>
      have hev := hu ⟨.pve (.clone tn tv v name n), a⟩ (by simp [htr])
      cases hev
  | early hk he =>
      obtain ⟨after', hs, hun⟩ := he
      obtain ⟨-, rfl, rfl, rfl⟩ := hs.eq (fun _ h => h.1) htr
      refine iff_of_true ?_ (.inr (hun ▸ hk))
      obtain ⟨-, -, -, -, -, -, ha⟩ := hs
      exact consistent_of_aims ha
  | late hl =>
      obtain ⟨after', hs, hun, hset⟩ := hl
      obtain ⟨-, rfl, rfl, rfl⟩ := hs.eq (fun _ h => cloned_of_lands h) htr
      obtain ⟨-, -, -, -, -, -, ha⟩ := hs
      rw [consistent_late_iff ha hset]
      exact ⟨.inl, fun h => h.resolve_right (by omega)⟩

theorem stopped_append {tr seg : PyTrace} {L L' : Ledger} (h : Stopped tn (L, tr))
    (hseg : ∀ ev ∈ seg, filing ev.1) :
    Stopped tn (L', tr ++ seg) := by
  cases h with
  | uncloned hu => exact .uncloned (uncloned_append hu (uncloned_filing hseg))
  | @early n v k hk he =>
      obtain ⟨after, hs, hun⟩ := he
      refine .early hk ⟨after ++ seg, hs.append fun ev hev => (filing_passes (hseg ev hev)).1, ?_⟩
      have h0 : unlocks n v seg = 0 := List.countP_eq_zero.mpr fun ev hev h => by
        rw [(filing_passes (hseg ev hev)).2 ev.2] at h
        cases h
      rw [unlocks_append, hun, h0]
      rfl
  | late hl =>
      obtain ⟨after, hs, hun, ev, hev, hset⟩ := hl
      refine .late ⟨after ++ seg, hs.append fun ev hev => .inl (filing_passes (hseg ev hev)).1, ?_,
        ev,
        List.mem_append_left _ hev, hset⟩
      rw [unlocks_append]
      omega

variable {R : Type} {rem : Remote R} {i : Nat} {cfg : Settings} {req : ProvisionRequest}
  {requestedBy authority : String}
  {job : ProvisioningJob} {tr : PyTrace} {w' : World R} {q : Py Unit}

/-- A job keeps to the node of its clone exactly when the template is on that
node, or when the lock of the clone is not seen released twice, so that the
job fails before it configures the VM. -/
theorem job_node_consistent_iff (hx : JobRun rem i cfg req requestedBy authority job tr w' q)
    (hq : ∀ e k, q ≠ .call e k) {before after : PyTrace} {tn name n : String} {tv v : Int}
    {a : Except PyExc Json}
    (htr : tr = before ++ ⟨.pve (.clone tn tv v name n), a⟩ :: after) :
    (Consistent n v after ∧ ∀ r m, w'.db.runtime? job.runtimeId = some r → r.node = some m →
    m = n) ↔
      templateNode req job.runtimeId = n ∨ unlocks n v after < 2 := by
  obtain ⟨L, hL, he⟩ := jobRun_settled hx hq (Q := fun rid s => Stopped (templateNode req rid) s)
    (X := fun rid s _ => Stopped (templateNode req rid) s)
    fun jid rid t t' pre hpre => by
      have hstop := completeJob_stopped jid rid cfg (submittedRow cfg req rid t t')
        (s := (.settled (submittedRecord cfg req requestedBy authority jid rid t t').begun, pre))
          (uncloned_filing hpre)
      rw [templateNode_row] at hstop
      refine hstop.mono ?_ fun _ _ h => h
      rintro s _ ⟨n, v, hl⟩
      exact .late hl
  generalize job.runtimeId = rid at hL he ⊢
  have hstop : Stopped (templateNode req rid) (L, tr) := by
    rcases he with ⟨-, hs⟩ | ⟨L₀, past, x, seg, ⟨-, hs⟩, hseg, hset⟩
    · exact hs
    · rw [hset]
      exact stopped_append hs hseg
  have hrow : ∀ r m, w'.db.runtime? rid = some r → r.node = some m → m = n := by
    intro r m hr hm
    have hkept : L.kept.row = r := Option.some.inj (hL.row.symm.trans hr)
    rcases he with ⟨⟨n₀, v₀, ip, x, hset, hc, hmade, -⟩, -⟩ | ⟨L₀, past, x, seg, ⟨hun, -⟩, hseg,
      hset⟩
    · have hn : r.node = some n₀ := by
        rw [← hkept, show L = .settled x from hset]
        exact hc.vm.1
      have hnv : (n, v) = (n₀, v₀) :=
        hmade.2 ⟨.pve (.clone tn tv v name n), a⟩ (by simp [htr]) (n, v) rfl
      rw [hm] at hn
      cases hn
      exact (congrArg Prod.fst hnv).symm
    · have hn : r.node = none := by
        rw [← hkept, show L = .settled (L₀.now.failed rid x) from congrArg Prod.fst hset]
        exact hun.vm.1
      rw [hm] at hn
      cases hn
  rw [and_iff_left hrow]
  have htn : templateNode req rid = tn := by
    cases hstop with
    | uncloned hu =>
        have hev := hu ⟨.pve (.clone tn tv v name n), a⟩ (by simp [htr])
        cases hev
    | early _ he =>
        obtain ⟨after', hs, -⟩ := he
        exact (hs.eq (fun _ h => h.1) htr).1
    | late hl =>
        obtain ⟨after', hs, -⟩ := hl
        exact (hs.eq (fun _ h => cloned_of_lands h) htr).1
  rw [htn] at hstop ⊢
  exact stopped_iff hstop htr

def afterClone (n : String) (v : Int) : PyTrace → Option PyTrace
  | [] => none
  | ev :: tr => if cloned ev.1 = some (n, v) then some tr else afterClone n v tr

theorem afterClone_split {tr after : PyTrace} (h : afterClone n v tr = some after) :
    ∃ before tn tv name a, tr = before ++ ⟨.pve (.clone tn tv v name n), a⟩ :: after := by
  induction tr with
  | nil => cases h
  | cons ev tr ih =>
      unfold afterClone at h
      split at h
      next hc =>
          cases h
          obtain ⟨e, a⟩ := ev
          dsimp only at hc
          unfold cloned at hc
          split at hc
          next tn tv v' name n' =>
              cases hc
              exact ⟨[], tn, tv, name, a, rfl⟩
          · cases hc
      · obtain ⟨before, tn, tv, name, a, rfl⟩ := ih h
        exact ⟨ev :: before, tn, tv, name, a, rfl⟩

/-- The preferred node is up, the status of the template's is not known. -/
def twoNodes : Oracle Unit :=
  oneNodeBut fun
    | .nodes => some (.ok (.arr [.obj [("node", .str "miam00111"), ("status", .str "unknown")],
        .obj [("node", .str "miam-00100"), ("status", .str "online")]]))
    | _ => none

theorem twoNodes_inconsistent :
    ∃ (job : ProvisioningJob) (tr : PyTrace) (m : Machine Unit) (before after : PyTrace) (tn name :
      String) (tv : Int)
      (a : Except PyExc Json),
      JobRun Remote.any 0 {} workerRequest "acms" "sprint_execution_context" job tr
        (m.world fun _ => ()) (.ret ()) ∧
      tr = before ++ ⟨.pve (.clone tn tv 700 name "miam-00100"), a⟩ :: after ∧
        ¬ Consistent "miam-00100" 700 after := by
  have hrun : settles (rehearse twoNodes {} workerRequest blank) (fun _ tr _ =>
      (afterClone "miam-00100" 700 tr).any fun after => after.any fun ev =>
        about ev.1 = some ("miam00111", 700)) = true := by
    decide +kernel
  obtain ⟨job, tr, m, hx, htest⟩ := settles_run hrun
  obtain ⟨after, ha, htest⟩ := (Option.any_eq_true _ _).mp htest
  obtain ⟨ev, hev, hab⟩ := List.any_eq_true.mp htest
  obtain ⟨before, tn, tv, name, a, htr⟩ := afterClone_split ha
  refine ⟨job, tr, m, before, after, tn, name, tv, a,
    rehearse_run twoNodes.follows_any hx rfl known_blank, htr, ?_⟩
  intro hc
  have hn := (hc ev hev).1 "miam00111" (of_decide_eq_true hab)
  exact absurd hn (by decide)

theorem workerRun_consistent :
    ∃ job tr m after, workerRun = some (job, tr, m, .ret ()) ∧
      afterClone "miam00111" 700 tr = some after ∧
      Consistent "miam00111" 700 after := by
  have hrun : settles workerRun (fun _ tr _ => (afterClone "miam00111" 700 tr).isSome) = true := by
    decide +kernel
  obtain ⟨job, tr, m, hx, htest⟩ := settles_run hrun
  obtain ⟨after, ha⟩ := Option.isSome_iff_exists.mp htest
  obtain ⟨before, tn, tv, name, a, htr⟩ := afterClone_split ha
  have hx' := rehearse_run oneNode.follows_any hx rfl known_blank
  have hnode : templateNode workerRequest job.runtimeId = "miam00111" := by
    change (templateOf (some _)).1 = _
    decide
  exact ⟨job, tr, m, after, hx, ha, ((job_node_consistent_iff hx' (Prog.ret_ne_call ()) htr).mpr
    (.inl hnode)).1⟩

end ServerManager.NodeConsistency
