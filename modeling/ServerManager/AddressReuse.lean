import ServerManager.AddressRace
import ServerManager.GuestEvidence
import ServerManager.GuestAddresses
import ServerManager.ReconcileCommits
import ServerManager.ReservationLeak

namespace ServerManager.AddressReuse

open Interaction Interleaving PyJson PyText Orm Effects Config ProxmoxVm CloneHygiene Provisioning
  Api Storage Calls
open Sessions Frames JobCalls JobRuns CreateCalls SubmitOnce Rehearsals Replay AddressCheck
  AddressStages AddressRace
open GuestEvidence (unrun unrun_asks unrun_books unrun_db)

def receipt : Eff → Option String
  | .db (.addStep st) | .db (.setStep st) => if st.step = "BOOTING" then st.detail else none
  | _ => none

def Received (x : String) (past : PyTrace) : Prop := ∃ ev ∈ past, receipt ev.1 = some x

def Asked (rows : List AgentRuntime) (past : PyTrace) : Prop := ∃ rid, Heard rid rows past

def ownerFails (text : String) : Bool :=
  startsWith text "clone hygiene FAIL [ip_not_owned_by_other_runtime]: "

def refusal : Eff → Prop
  | .db (.addEvent ev) => ev.action = "clone_hygiene_failed" ∧
      ∃ text, Dict.get? ev.detail "error" = some (.str text) ∧ ownerFails text = true
  | _ => False

def Rejected (past : PyTrace) : Prop := ∃ ev ∈ past, refusal ev.1

/-- The gate has gone on to the guest's own addresses. -/
def Passed (past : PyTrace) : Prop := ∃ ev ∈ past, ¬ unrun ev.1

/-- The lease inventory reads files and runs a command: what goes wrong there is not a verdict of
the gate. -/
def Inventoried (past : PyTrace) : Prop :=
  ∀ x : PyExc, (⟨.sys .leaseInventory, (.error x : Except PyExc (List String))⟩ : Event Eff Ans) ∈
    past →
    x.cls ≠ .hygieneError

/-- The address that the job has received, and what it has heard of the others. -/
def Knows (g : Option String) (h : Option (List AgentRuntime)) (past : PyTrace) : Prop :=
  (∀ y, Received y past ↔ g = some y) ∧ ∀ rows, Asked rows past ↔ h = some rows

/-- The job asks once, for the one address it has received, and its check is on what it has
heard. -/
structure Judges (past : PyTrace) (e : Eff) : Prop where
  receives : receipt e ≠ none → Knows none none past
  asks : ∀ rid, e = othersRead rid → ∃ x, Knows (some x) none past
  passes : ¬ unrun e → ∃ x rows, Knows (some x) (some rows) past ∧ some x ∉ rows.map addressOf
  refuses : refusal e → Inventoried past → ∃ x rows, Knows (some x) (some rows) past ∧
    some x ∈ rows.map addressOf

/-- Calls that are no part of this. -/
structure Quiet (e : Eff) : Prop where
  receives : receipt e = none
  asks : ∀ rid, e ≠ othersRead rid
  runs : unrun e
  refuses : ¬ refusal e

section Trace

variable {g : Option String} {h : Option (List AgentRuntime)} {past : PyTrace} {x : String}
  {rows : List AgentRuntime}
  {e : Eff} {a : Ans e}

theorem received_snoc : Received x (past ++ [⟨e, a⟩]) ↔ Received x past ∨ receipt e = some x := by
  constructor
  · rintro ⟨ev, hev, hr⟩
    rcases List.mem_append.mp hev with hev | hev
    · exact .inl ⟨ev, hev, hr⟩
    · rw [List.mem_singleton.mp hev] at hr
      exact .inr hr
  · rintro (⟨ev, hev, hr⟩ | hr)
    · exact ⟨ev, List.mem_append_left _ hev, hr⟩
    · exact ⟨_, List.mem_append_right _ (List.mem_singleton.mpr rfl), hr⟩

theorem asked_snoc (he : ∀ rid, e ≠ othersRead rid) : Asked rows (past ++ [⟨e, a⟩]) ↔
    Asked rows past := by
  unfold Asked
  simp only [heard_snoc (he _)]

theorem othersRead_receipt (rid : Uuid) : receipt (othersRead rid) = none := rfl

theorem asked_now {rid : Uuid} {rows' : List AgentRuntime} :
    Asked rows (past ++ [⟨othersRead rid, rows'⟩]) ↔ Asked rows past ∨ rows = rows' := by
  constructor
  · rintro ⟨rid', hr⟩
    rcases List.mem_append.mp hr with hr | hr
    · exact .inl ⟨rid', hr⟩
    · cases List.mem_singleton.mp hr
      exact .inr rfl
  · rintro (⟨rid', hr⟩ | rfl)
    · exact ⟨rid', List.mem_append_left _ hr⟩
    · exact ⟨rid, List.mem_append_right _ List.mem_cons_self⟩

theorem Knows.snoc (hk : Knows g h past) (hr : receipt e = none) (ho : ∀ rid, e ≠ othersRead rid) :
    Knows g h (past ++ [⟨e, a⟩]) := by
  refine ⟨fun y => ?_, fun rows => ?_⟩
  · rw [received_snoc, hk.1, hr]
    simp
  · rw [asked_snoc ho, hk.2]

theorem Knows.receive (hk : Knows none none past) (hr : receipt e = some x) :
    Knows (some x) none (past ++ [⟨e, a⟩]) := by
  refine ⟨fun y => ?_, fun rows => ?_⟩
  · rw [received_snoc, hk.1, hr]
    simp
  · rw [asked_snoc (fun rid he => by rw [he] at hr; cases hr), hk.2]

theorem Knows.ask {rid : Uuid} (hk : Knows (some x) none past) :
    Knows (some x) (some rows) (past ++ [⟨othersRead rid, rows⟩]) := by
  refine ⟨fun y => ?_, fun rows' => ?_⟩
  · refine (received_snoc (e := othersRead rid) (a := rows)).trans ?_
    rw [hk.1, othersRead_receipt]
    simp
  · rw [asked_now, hk.2]
    simp [eq_comm]

theorem Knows.unique {x' : String} {rows' : List AgentRuntime}
    (hk : Knows (some x) (some rows) past)
    (hx : Received x' past) (hr : Asked rows' past) : x' = x ∧ rows' = rows :=
  ⟨(Option.some.inj ((hk.1 x').mp hx)).symm, (Option.some.inj ((hk.2 rows').mp hr)).symm⟩

theorem Quiet.judges (he : Quiet e) : Judges past e :=
  ⟨fun hr => absurd he.receives hr, fun rid h => absurd h (he.asks rid),
    fun hr => absurd he.runs hr,
    fun hr => absurd hr he.refuses⟩

end Trace

theorem ownerFails_iff {text : String} : ownerFails text = true ↔
    "clone hygiene FAIL [ip_not_owned_by_other_runtime]: ".toList <+: text.toList := by
  rw [ownerFails, startsWith, List.isPrefixOf_iff_prefix]

theorem ownerFails_other {name detail : String} (hn : name.toList.head? ≠ some 'i') :
    ¬ ownerFails s!"clone hygiene FAIL [{name}]: {detail}" = true := by
  rw [ownerFails_iff]
  change ¬ _ <+: ("clone hygiene FAIL [" ++ name ++ "]: " ++ detail).toList
  simp only [String.toList_append, List.append_assoc]
  intro hp
  have hsplit : "clone hygiene FAIL [ip_not_owned_by_other_runtime]: ".toList =
      "clone hygiene FAIL [".toList ++ 'i' :: "p_not_owned_by_other_runtime]: ".toList := by decide
  rw [hsplit, List.prefix_append_right_inj] at hp
  cases hcs : name.toList with
  | nil =>
      rw [hcs] at hp
      have hc := (List.cons_prefix_cons.mp hp).1
      exact absurd hc (by decide)
  | cons c cs =>
      rw [hcs] at hp hn
      have hc := (List.cons_prefix_cons.mp hp).1
      exact hn (congrArg some hc.symm)

theorem ownerFails_take {msg : String} {n : Nat}
    (h : ownerFails (String.ofList (msg.toList.take n)) = true) :
    ownerFails msg = true := by
  rw [ownerFails_iff] at h ⊢
  have htake : (String.ofList (msg.toList.take n)).toList = msg.toList.take n :=
    String.toList_ofList
  rw [htake] at h
  exact h.trans (List.take_prefix _ _)

theorem quiet_observes {e : Eff} (he : observes e) (ha : unrun e) : Quiet e := by
  refine ⟨?_, ?_, ha, ?_⟩
  · unfold receipt
    split
    · exact False.elim he
    · exact False.elim he
    · rfl
  · rintro rid rfl
    exact he
  · unfold refusal
    split
    · exact False.elim he
    · exact id

theorem quiet_books {e : Eff} (he : books e) : Quiet e := by
  have hother : ∀ rid, e ≠ othersRead rid := by
    rintro rid rfl
    exact he
  unfold books at he
  split at he
  all_goals first | exact ⟨rfl, hother, unrun_db, id⟩ | exact False.elim he

theorem quiet_step {st : ProvisioningStep} (h : st.step = "BOOTING" → st.detail = none) :
    Quiet (.db (.setStep st)) ∧ Quiet (.db (.addStep st)) := by
  have hr : (if st.step = "BOOTING" then st.detail else none) = none := by
    split
    next hb => exact h hb
    · rfl
  exact ⟨⟨hr, fun _ he => (by cases he), unrun_db, id⟩,
    ⟨hr, fun _ he => (by cases he), unrun_db, id⟩⟩

theorem quiet_event {ev : RuntimeEvent} (h : ev.action ≠ "clone_hygiene_failed") :
    Quiet (.db (.addEvent ev)) :=
  ⟨rfl, fun _ he => (by cases he), unrun_db, fun hr => h hr.1⟩

theorem quiet_allows {ns as : List String} (hn : "BOOTING" ∉ ns)
    (ha : "clone_hygiene_failed" ∉ as) :
    Allows Quiet (fun n _ => n ≠ none) ns as where
  aside _ he ha := quiet_observes he (unrun_asks ha)
  read e he n v ha hv := by
    refine quiet_observes he ?_
    rintro v rfl
    cases ha
    exact hv rfl
  book _ he := quiet_books he
  step st hs := quiet_step fun hb => absurd (hb ▸ hs) hn
  event ev he := quiet_event fun hb => ha (hb ▸ he)

theorem quiet_steps {ns : List String} (hn : "BOOTING" ∉ ns) :
    Allows Quiet (fun n _ => n ≠ none) ns [] :=
  quiet_allows hn List.not_mem_nil

section Job

variable {g : Option String} {h : Option (List AgentRuntime)} {past : PyTrace} {x : String}
  {rows : List AgentRuntime}
  {α : Type} {p : Py α}

def Knew (past : PyTrace) : Prop := ∃ g h, Knows g h past

theorem sat_quiet (ho : Only Quiet p) (hk : Knows g h past) :
    Sat log Judges (fun s _ => Knows g h s) (fun s _ => Knew s) p past := by
  refine ((ho.keeps (T := log) (I := Knows g h) (fun s e a s' he hk hs => ?_) hk).weaken
    fun _ _ he => he.1.judges).mono
    (fun _ _ h => h) fun _ _ hk => ⟨g, h, hk⟩
  rw [show s' = _ from hs]
  exact hk.snoc he.receives he.asks

theorem sat_knew (ho : Only Quiet p) (hk : Knew past) :
    Sat log Judges (fun s _ => Knew s) (fun s _ => Knew s) p past := by
  obtain ⟨g, h, hk⟩ := hk
  exact (sat_quiet ho hk).mono (fun _ _ hk => ⟨g, h, hk⟩) fun _ _ h => h

theorem quiet_recordStep (job : Uuid) (seq : Nat) (step : String) (state : StepState)
    (detail : Option String)
    (hs : step = "BOOTING" → detail = none) :
    Only Quiet (recordStep job seq step state detail) := by
  obtain ⟨hset, hadd⟩ := show Quiet (.db (.setStep ⟨job, seq, step, state, detail⟩)) ∧
      Quiet (.db (.addStep ⟨job, seq, step, state, detail⟩)) from quiet_step hs
  have hend : Only Quiet commit := only_commit (quiet_books trivial) (quiet_books trivial)
  refine Only.bind (only_flush (quiet_books trivial)) fun _ => ?_
  refine Only.bind (only_call (quiet_books trivial) fun _ => only_ret _) fun found => ?_
  split
  · exact Only.bind (only_call hset fun _ => only_ret _) fun _ => hend
  · exact Only.bind (only_call hadd fun _ => only_ret _) fun _ => hend

theorem recordStep_receives (job : Uuid) (seq : Nat) (state : StepState)
    (hk : Knows none none past) :
    Sat log Judges (fun s _ => Knows (some x) none s) (fun s _ => Knew s)
      (recordStep job seq "BOOTING" state (some x)) past := by
  have hwrite : ∀ {e : Eff} {past : PyTrace}, receipt e = some x → unrun e → ¬ refusal e →
      Knows none none past →
      Judges past e ∧ ∀ a s, log past e a s →
        Sat log Judges (fun s _ => Knows (some x) none s) (fun s _ => Knew s) commit s := by
    intro e past hr hu hf hk
    have ho : ∀ rid, e ≠ othersRead rid := by
      rintro rid rfl
      cases hr
    refine ⟨⟨fun _ => hk, fun rid h => absurd h (ho rid), fun h => absurd hu h,
      fun h => absurd h hf⟩, fun a s hs => ?_⟩
    refine sat_quiet (only_commit (quiet_books trivial) (quiet_books trivial)) ?_
    rw [show s = _ from hs]
    exact hk.receive hr
  refine Sat.seq (sat_quiet (only_flush (quiet_books trivial)) hk) fun s _ hk => ?_
  refine Sat.seq (sat_quiet (only_call (quiet_books (e := .db (.findStep job seq)) trivial) fun _ =>
    only_ret _) hk)
    fun s found hk => ?_
  cases found with
  | some st => exact (sat_bind _ _ _).mpr (hwrite rfl unrun_db id hk)
  | none => exact (sat_bind _ _ _).mpr (hwrite rfl unrun_db id hk)

/-- What the gate raises has the text of the check only if a row has the address. -/
def Founded (x : String) (rows : List AgentRuntime) (s : PyTrace) (y : PyExc) : Prop :=
  y.cls = .hygieneError → ownerFails y.msg = true → Inventoried s → some x ∈ rows.map addressOf

theorem require_founded {checks : List Check} {name detail : String} {passed : Bool}
    (hn : name.toList.head? ≠ some 'i') (hk : Knows g h past) :
    Sat log Judges (fun s _ => Knows g h s) (fun s y => Knows g h s ∧ Founded x rows s y)
      (CloneHygiene.require checks name passed detail) past := by
  refine (GuestAddresses.sat_require _ _ _ _).mpr ?_
  split
  · exact hk
  · exact ⟨hk, fun _ hf => absurd hf (ownerFails_other hn)⟩

theorem verifyAddress_judges (checks : List Check) (vmid : Int)
    (hk : Knows (some x) (some rows) past) :
    Sat log Judges (fun s _ => Knows (some x) (some rows) s)
      (fun s y => Knows (some x) (some rows) s ∧ Founded x rows s y)
      (verifyAddress checks vmid x (rows.filterMap addressOf)) past := by
  have hlease : Quiet (.sys .leaseInventory) := quiet_observes trivial (unrun_asks rfl)
  refine (sat_bind _ _ _).mpr ⟨hlease.judges, fun a s hs => (sat_orRaise a).mpr ?_⟩
  have hk₁ : Knows (some x) (some rows) s := by
    rw [show s = _ from hs]
    exact hk.snoc hlease.receives hlease.asks
  cases a with
  | error y =>
      refine ⟨hk₁, fun hcls _ hi => absurd hcls (hi y ?_)⟩
      rw [show s = _ from hs]
      exact List.mem_append_right _ (List.mem_singleton.mpr rfl)
  | ok leases =>
      refine (sat_bind _ _ _).mpr ((GuestAddresses.sat_require _ _ _ _).mpr ?_)
      split
      next hpass =>
          have hfree : some x ∉ rows.map addressOf := by
            rw [← mem_others]
            simpa using hpass
          have hexec : ∀ past, Knows (some x) (some rows) past →
              Judges past (.sys (.guestExec vmid)) := fun past hk =>
            ⟨fun h => absurd rfl h, fun rid h => (by cases h), fun _ => ⟨x, rows, hk, hfree⟩,
              False.elim⟩
          refine (sat_bind _ _ _).mpr ((sat_bind _ _ _).mpr ⟨hexec _ hk₁, fun out s' hs' => ?_⟩)
          have hk₂ : Knows (some x) (some rows) s' := by
            rw [show s' = _ from hs']
            exact hk₁.snoc rfl fun rid h => by cases h
          exact require_founded (by decide) hk₂
      next hfail =>
          refine ⟨hk₁, fun _ _ _ => mem_others.mp ?_⟩
          simpa using hfail

theorem verifyCloneIdentity_judges (vmid : Int) (hostname mac expected : String) (guest : Json)
    (hx : x ≠ "")
    (hk : Knows (some x) (some rows) past) :
    Sat log Judges (fun s _ => Knows (some x) (some rows) s)
      (fun s y => Knows (some x) (some rows) s ∧ Founded x rows s y)
      (verifyCloneIdentity vmid hostname mac x expected guest (rows.filterMap addressOf)) past := by
  unfold verifyCloneIdentity
  refine Sat.seq (require_founded (by decide) hk) fun s checks hk => ?_
  refine Sat.seq (require_founded (by decide) hk) fun s checks hk => ?_
  refine Sat.seq (require_founded (by decide) hk)
    fun s checks hk => ?_
  dsimp only
  rw [if_pos hx]
  refine Sat.seq (verifyAddress_judges checks vmid hk) fun s checks hk => ?_
  exact require_founded (by decide) hk

theorem runCloneHygiene_judges (runtime : AgentRuntime) (node : String) (vmid : Int) (hx : x ≠ "")
    (hk : Knows (some x) none past) :
    Sat log Judges (fun s _ => Knew s) (fun s _ => Knew s) (runCloneHygiene runtime node vmid x)
      past := by
  have hset : ∀ v, Only Quiet (setMeta runtime.runtimeId "clone_hygiene" v) := fun v =>
    only_call ⟨rfl, fun _ h => (by cases h), unrun_db, id⟩ fun _ => only_ret _
  have hconfig : Only Quiet (vmConfig node vmid) :=
    only_readVm _ _ (quiet_steps List.not_mem_nil) (Option.some_ne_none _)
  unfold runCloneHygiene
  refine Sat.seq (sat_quiet hconfig hk) fun s cfg hk => ?_
  refine Sat.seq (sat_quiet (only_net0Mac cfg) hk) fun s mac hk => ?_
  refine Sat.seq (sat_quiet (only_guestMarker cfg) hk) fun s marker hk => ?_
  refine Sat.seq (Q := fun s others => ∃ rows, Knows (some x) (some rows) s ∧
    others = rows.filterMap addressOf) ?_
    fun s others hs => ?_
  · refine (sat_bind _ _ _).mpr (Sat.seq (sat_quiet (only_flush (quiet_books trivial)) hk)
      fun s _ hk => ?_)
    refine ⟨⟨fun h => absurd rfl h, fun rid _ => ⟨x, hk⟩, fun h => absurd unrun_db h, False.elim⟩,
      fun rows s' hs => ?_⟩
    rw [show s' = _ from hs]
    exact ⟨rows, hk.ask, rfl⟩
  obtain ⟨rows, hk, rfl⟩ := hs
  refine Sat.seq (sat_quiet (only_dictGet _ _) hk) fun s guestId hk => ?_
  refine Sat.seq (Q := fun s report => Knows (some x) (some rows) s ∧ ∀ y, report = Except.error y →
    Founded x rows s y ∧
    y.cls = .hygieneError) ?_ fun s report hs => ?_
  · refine (sat_tryCatch _ _ _).mpr (Sat.seq ((verifyCloneIdentity_judges _ _ _ _ _ hx hk).mono
      (fun _ _ h => h) ?_)
      fun s checks hk => ⟨hk, fun y hy => by cases hy⟩)
    intro s y hs
    obtain ⟨hk, hf⟩ := hs
    split
    next hcls =>
        refine ⟨hk, fun z hz => ?_⟩
        cases hz
        exact ⟨hf, hcls⟩
    · exact ⟨_, _, hk⟩
  obtain ⟨hk, hreport⟩ := hs
  cases report with
  | ok checks =>
      refine Sat.seq (sat_quiet (only_call (quiet_observes (e := .sys .now) trivial
        (unrun_asks rfl))
        fun _ => only_ret _) hk) fun s t hk => ?_
      exact sat_knew (hset _) ⟨_, _, hk⟩
  | error y =>
      obtain ⟨hf, hcls⟩ := hreport y rfl
      have hnote : ∀ v, Quiet (noteCall runtime.runtimeId "clone_hygiene" v) := fun _ =>
        ⟨rfl, fun _ h => (by cases h), unrun_db, id⟩
      refine (sat_bind _ _ _).mpr ⟨(hnote _).judges, fun _ s₁ hs₁ => ?_⟩
      have hk₁ : Knows (some x) (some rows) s₁ := by
        rw [show s₁ = _ from hs₁]
        exact hk.snoc (hnote _).receives (hnote _).asks
      refine (sat_bind _ _ _).mpr ⟨⟨fun h => absurd rfl h, fun rid h => (by cases h),
        fun h => absurd unrun_db h, ?_⟩,
        fun _ s₂ hs₂ => ?_⟩
      · rintro ⟨-, text, htext, howner⟩ hi
        have htext : some (Json.str (String.ofList (y.msg.toList.take 400))) = some (.str text) :=
          htext
        injection htext with htext
        injection htext with htext
        refine ⟨x, rows, hk₁, hf hcls (ownerFails_take (htext ▸ howner)) fun z hz => hi z ?_⟩
        rw [show s₁ = _ from hs₁]
        exact List.mem_append_left _ hz
      · refine ⟨some x, some rows, ?_⟩
        rw [show s₂ = _ from hs₂]
        exact hk₁.snoc rfl fun rid h => (by cases h)

theorem quiet_pve (c : PveCall) : Quiet (.pve c) :=
  ⟨rfl, fun _ h => (by cases h), fun _ h => (by cases h), id⟩

theorem quiet_kea (c : KeaCall) : Quiet (.kea c) :=
  ⟨rfl, fun _ h => (by cases h), fun _ h => (by cases h), id⟩

theorem quiet_modify (rid : Uuid) (b : Bool) (f : AgentRuntime → AgentRuntime) :
    Quiet (.db (.modify rid b f)) :=
  ⟨rfl, fun _ h => (by cases h), unrun_db, id⟩

theorem quiet_audit {rid : Uuid} {action result : String} {detail : Dict}
    (h : action ≠ "clone_hygiene_failed") :
    Only Quiet (event rid action result detail) :=
  only_call (quiet_event h) fun _ => only_ret _

theorem bootVm_judges (job : Uuid) (runtime : AgentRuntime) (node : String) (vmid : Int)
    (hk : Knows none none past) :
    Sat log Judges (fun s _ => Knew s) (fun s _ => Knew s) (bootVm job runtime node vmid) past := by
  unfold bootVm
  refine Sat.seq (sat_quiet (quiet_recordStep _ _ _ _ _ fun _ => rfl) hk) fun s _ hk => ?_
  refine Sat.seq (sat_quiet (Only.bind (only_pve (quiet_pve _)) fun _ => only_pure _) hk)
    fun s _ hk => ?_
  refine Sat.seq (sat_quiet (only_waitForIp _ _ _ (quiet_steps List.not_mem_nil)
    (Option.some_ne_none _)) hk) fun s ip hk => ?_
  cases hf : ip.filter (· != "") with
  | none => exact ⟨_, _, hk⟩
  | some x =>
      have hx : x ≠ "" := by simpa using (Option.filter_eq_some_iff.mp hf).2
      refine Sat.seq (sat_quiet (only_call (quiet_modify _ _ _) fun _ => only_ret _) hk)
        fun s _ hk => ?_
      refine Sat.seq (recordStep_receives _ _ _ hk) fun s _ hk => ?_
      refine Sat.seq (sat_quiet (quiet_recordStep _ _ _ _ _ fun h => absurd h (by decide)) hk)
        fun s _ hk => ?_
      refine Sat.seq (runCloneHygiene_judges runtime node vmid hx hk) fun s _ hk => ?_
      exact sat_knew (quiet_recordStep _ _ _ _ _ fun h => absurd h (by decide)) hk

theorem provisionVm_judges (cfg : Settings) (job : Uuid) (runtime : AgentRuntime)
    (hk : Knows none none past) :
    Sat log Judges (fun s _ => Knew s) (fun s _ => Knew s) (provisionVm cfg job runtime) past := by
  rw [provisionVm_eq]
  refine Sat.seq (sat_quiet (only_validate _ _ (quiet_steps (by decide))) hk) fun s _ hk => ?_
  refine Sat.seq (sat_quiet (only_placeVm _ _ _ (quiet_allows (by decide) (by decide))) hk)
    fun s node hk => ?_
  refine Sat.seq (sat_quiet (only_cloneVm _ _ _ _ _ (quiet_allows (by decide) (by decide))
    (Option.some_ne_none _)
    (fun _ => Option.some_ne_none _) fun _ _ => quiet_pve _) hk) fun s x hk => ?_
  obtain ⟨vmid, spec⟩ := x
  refine Sat.seq (sat_quiet (only_configureVm _ _ _ _ (quiet_steps (by decide))
    (Option.some_ne_none _) (fun _ => quiet_pve _) fun _ => quiet_modify _ _ _) hk) fun s om hk => ?_
  have hboot : ∀ s, Knows none none s → Sat log Judges (fun s _ => Knew s) (fun s _ => Knew s) (do
      bootVm job runtime node vmid
      pure (vmid, node)) s := fun s hk => Sat.seq (bootVm_judges job runtime node vmid hk) fun s _ hk => hk
  unfold bringUp
  split
  · refine Sat.seq (sat_quiet (only_reserveSandbox _ _ _ _ _ _
      (quiet_allows (by decide) (by decide))
      (Option.some_ne_none _) quiet_kea fun x => quiet_modify _ _ _) hk) fun s _ hk => hboot s hk
  · exact hboot s hk

theorem completeJob_judges (cfg : Settings) (job : Uuid) (runtime : AgentRuntime)
    (hk : Knows none none past) :
    Sat log Judges (fun s _ => Knew s) (fun s _ => Knew s) (completeJob cfg job runtime) past := by
  refine Sat.seq (provisionVm_judges cfg job runtime hk) fun s x hk => ?_
  refine Sat.seq (sat_knew (only_bootstrapHermes _ _ (quiet_steps (by decide))
    (fun _ _ _ => quiet_modify _ _ _) (fun _ _ => ⟨rfl, fun _ h => (by cases h), unrun_db, id⟩) (quiet_modify _ _ _)) hk)
    fun s _ hk => ?_
  refine sat_knew ?_ hk
  refine Only.bind (only_call (quiet_modify _ _ _) fun _ => only_ret _) fun _ => ?_
  refine Only.bind (only_call ⟨rfl, fun _ h => (by cases h), unrun_db, id⟩ fun _ => only_ret _)
    fun _ => ?_
  refine Only.bind (quiet_audit (by decide)) fun _ => ?_
  exact only_commit (quiet_books trivial) (quiet_books trivial)

theorem quiet_failJob (job rid : Uuid) (y : PyExc) : Only Quiet (failJob job rid y) := by
  refine Only.bind (only_call ⟨rfl, fun _ h => (by cases h), unrun_db, id⟩ fun _ => only_ret _)
    fun _ => ?_
  refine Only.bind (only_call (quiet_modify _ _ _) fun _ => only_ret _) fun _ => ?_
  refine Only.bind (quiet_audit (by decide)) fun _ => ?_
  exact only_commit (quiet_books trivial) (quiet_books trivial)

theorem quiet_submits {e : Eff} (he : submits e) : Quiet e := by
  have hother : ∀ rid, e ≠ othersRead rid := by
    rintro rid rfl
    exact he
  have hrun : unrun e := by
    rintro v rfl
    exact he
  unfold submits at he
  split at he
  all_goals first | exact ⟨rfl, hother, hrun, id⟩ | exact False.elim he | skip
  exact quiet_event (by rw [he]; decide)

theorem submits_opening {cfg : Settings} {req : ProvisionRequest} {actor : String}
    {s : Session × PyTrace} {e : Eff}
    (h : Opening cfg req actor s e) : submits e := by
  cases h with
  | take => exact fun _ => rfl
  | addEvent => rfl
  | find | drawRow | now | addRow | sendRow | drawJob | addJob | send | commit | getJob | getRow
  | sendJob
  | commitJob => trivial

theorem knows_filing {b : Bool} {ks : List Uuid} (hf : Filing b ks past) :
    Knows none none past := by
  refine ⟨fun y => ⟨?_, fun h => by cases h⟩, fun rows => ⟨?_, fun h => by cases h⟩⟩
  · rintro ⟨ev, hev, hr⟩
    rw [(quiet_submits (hf.calls ev hev)).receives] at hr
    cases hr
  · rintro ⟨rid, hr⟩
    exact absurd rfl ((quiet_submits (hf.calls _ hr)).asks rid)

theorem create_judges {R : Type} {rem : Remote R} (cfg : Settings) (req : ProvisionRequest)
    (actor : String) :
    Sat (traced (sessionStep rem)) (fun s e => Judges s.2 e) (fun _ _ => True) (fun _ _ => True)
      ((Request.create req actor).prog cfg) ({}, []) := by
  refine create_sat (fun s e h => (quiet_submits (submits_opening h)).judges) (fun _ => True)
    (fun _ => True)
    (fun _ _ => trivial) (fun rid jid t t' past hf => ?_) fun s _ => ⟨?_, trivial⟩
  · refine ((completeJob_judges cfg jid _ (knows_filing hf)).traced _).mono (fun _ _ _ => trivial)
      fun s y hk => ?_
    exact ((sat_knew (quiet_failJob jid rid y) hk).traced s.1).mono (fun _ _ _ => trivial)
      fun _ _ _ => trivial
  · exact Quiet.judges ⟨rfl, fun _ h => (by cases h), unrun_db, id⟩

end Job

structure Judged (tr : PyTrace) : Prop where
  rejected : Rejected tr → Inventoried tr → ∃ x rows, Knows (some x) (some rows) tr ∧
    some x ∈ rows.map addressOf
  passed : Passed tr → ∃ x rows, Knows (some x) (some rows) tr ∧ some x ∉ rows.map addressOf

theorem judged_nil : Judged [] :=
  ⟨fun ⟨_, h, _⟩ => absurd h List.not_mem_nil, fun ⟨_, h, _⟩ => absurd h List.not_mem_nil⟩

section Histories

variable {x : String} {rows : List AgentRuntime} {past : PyTrace} {e : Eff} {a : Ans e}

theorem Knows.next (hk : Knows (some x) (some rows) past) (he : Judges past e) :
    Knows (some x) (some rows) (past ++ [⟨e, a⟩]) := by
  refine hk.snoc ?_ fun rid ho => ?_
  · by_contra hr
    have hnone := ((he.receives hr).1 x).mp ((hk.1 x).mpr rfl)
    cases hnone
  · obtain ⟨y, hy⟩ := he.asks rid ho
    have hnone := (hy.2 rows).mp ((hk.2 rows).mpr rfl)
    cases hnone

theorem Judged.next (h : Judged past) (he : Judges past e) : Judged (past ++ [⟨e, a⟩]) := by
  refine ⟨?_, ?_⟩
  · rintro ⟨ev, hev, hr⟩ hi
    have hi' : Inventoried past := fun y hy => hi y (List.mem_append_left _ hy)
    obtain ⟨x, rows, hk, hx⟩ : ∃ x rows, Knows (some x) (some rows) past ∧ some x ∈ rows.map addressOf := by
      rcases List.mem_append.mp hev with hev | hev
      · exact h.rejected ⟨ev, hev, hr⟩ hi'
      · rw [List.mem_singleton.mp hev] at hr
        exact he.refuses hr hi'
    exact ⟨x, rows, hk.next he, hx⟩
  · rintro ⟨ev, hev, hr⟩
    obtain ⟨x, rows, hk, hx⟩ : ∃ x rows, Knows (some x) (some rows) past ∧ some x ∉ rows.map addressOf := by
      rcases List.mem_append.mp hev with hev | hev
      · exact h.passed ⟨ev, hev, hr⟩
      · rw [List.mem_singleton.mp hev] at hr
        exact he.passes hr
    exact ⟨x, rows, hk.next he, hx⟩

end Histories

section Reached

variable {R : Type} {rem : Remote R} {c d f : Parties R} {cfg : Settings} {req : ProvisionRequest}
  {actor : String}
  {reqs : Nat → Request} {i : Nat} {rid : Uuid} {x : String}

def Creates (cfg : Settings) (req : ProvisionRequest) (actor : String) (i j : Nat)
    (s : Session × PyTrace)
    (e : Eff) : Prop :=
  j = i → Works cfg req actor s e ∧ Judges s.2 e

theorem works_owns {s : Session} {past : PyTrace}
    (h : Works cfg req actor (s, past) (othersRead rid)) : Owns rid s := by
  rcases h with h | ⟨rid', jid, h⟩ | h
  · have hs := submits_opening h
    exact False.elim hs
  · have hc := h.call
    cases hc with
    | routine hr => rcases hr with hr | hr <;> exact False.elim hr
    | others => exact (h.read rfl).owns
  · cases h

theorem judged_reach {w : World R} (hi : reqs i = .create req actor) (hw : w.sessions i = {})
    (hr : Reach (fun i => World.step rem i) (fun _ _ _ => True)
    (Interleaving.start w fun j => (reqs j).prog cfg) c) :
    Lawful (fun j (w : World R) => w.sessions j) (sessionStep rem) (Creates cfg req actor i)
      (fun c => Judged (c.procs i).trace) c := by
  refine Lawful.reach ?_ ⟨judged_nil, fun j => ?_⟩ hr
  · intro c d j e a hc hp _ hs
    refine ⟨?_, sessionStep_step hs.world, fun _ hj => step_other hs.world hj⟩
    rcases traces hs i with ht | ⟨rfl, ht⟩
    · rwa [ht]
    · rw [ht]
      exact hc.next (hp rfl).2
  · by_cases hj : j = i
    · subst hj
      have hsat : Sat (traced (sessionStep rem)) (fun s e => Works cfg req actor s e ∧ Judges s.2 e)
          (fun _ _ => True)
          (fun _ _ => True) ((Request.create req actor).prog cfg) ({}, []) :=
        ((create_works cfg req actor).and (create_judges cfg req actor)).mono (fun _ _ _ => trivial)
          fun _ _ _ => trivial
      rw [← hw, ← hi] at hsat
      exact hsat.weaken fun _ _ he _ => he
    · have hall : Sat (traced (sessionStep rem)) (fun _ _ => True) (fun _ _ => True)
          (fun _ _ => True)
          ((reqs j).prog cfg) (w.sessions j, []) :=
            ReconcileCommits.sat_trivially (fun _ _ => trivial) fun _ _ => trivial
      exact hall.weaken fun _ _ _ h => absurd h hj

theorem heard_reach {rows : List AgentRuntime} (h : Heard rid rows (c.procs i).trace)
    (hr : Reach (fun i => World.step rem i) (fun _ _ _ => True) c d) :
    Heard rid rows (d.procs i).trace := by
  induction hr with
  | refl => exact h
  | @tail d f j ev _ _ hs ih =>
      rcases traces (e := ev.1) (a := ev.2) hs i with ht | ⟨-, ht⟩
      · rwa [ht]
      · rw [ht]
        exact List.mem_append_left _ ih

def Released (db : Db) (k : Uuid) : Prop :=
  ∃ ev ∈ db.events, ev.runtimeId = k ∧ ev.action = "sandbox_reservation_released"

/-- Every other runtime that records the address is destroyed, and its reservation is released. -/
def Vacated (db : Db) (rid : Uuid) (x : String) : Prop :=
  ∀ k r, k ≠ rid → db.runtime? k = some r → addressOf r = some x → r.actualState = .destroyed ∧
    Released db k

/-- A job that has made its check was refused if some other runtime, destroyed
or not, recorded the address when the job looked. -/
theorem rejected_iff {w : World R} {rows : List AgentRuntime} (hi : reqs i = .create req actor)
    (hw : w.sessions i = {})
    (hc : Reach (fun i => World.step rem i) (fun _ _ _ => True)
    (Interleaving.start w fun j => (reqs j).prog cfg) c)
    (hs : Step (fun i => World.step rem i) c i ⟨othersRead rid, rows⟩ d)
    (hd : Reach (fun i => World.step rem i) (fun _ _ _ => True) d f)
    (hx : Received x (f.procs i).trace)
    (hl : Inventoried (f.procs i).trace) (hmade : Rejected (f.procs i).trace ∨
    Passed (f.procs i).trace) :
    Rejected (f.procs i).trace ↔ Taken c.world.db rid x := by
  have hstart := judged_reach hi hw hc
  have howns : Owns rid (c.world.sessions i) := works_owns (hstart.promise hs rfl).1
  have hjudged := (judged_reach hi hw ((hc.trans (.tail .refl trivial hs)).trans hd)).inv
  have hheard : Heard rid rows (f.procs i).trace := by
    refine heard_reach ?_ hd
    rw [hs.trace_self]
    exact List.mem_append_right _ (List.mem_singleton.mpr rfl)
  rw [← read_rows howns hs.world x]
  constructor
  · intro hr
    obtain ⟨x', rows', hk, hin⟩ := hjudged.rejected hr hl
    obtain ⟨rfl, rfl⟩ := hk.unique hx ⟨rid, hheard⟩
    exact hin
  · intro hin
    refine hmade.resolve_right fun hp => ?_
    obtain ⟨x', rows', hk, hno⟩ := hjudged.passed hp
    obtain ⟨rfl, rfl⟩ := hk.unique hx ⟨rid, hheard⟩
    exact hno hin

/-- The check spares an address that has been given back if and only if no
runtime has had it before. -/
theorem reusable_iff {w : World R} {rows : List AgentRuntime} (hi : reqs i = .create req actor)
    (hw : w.sessions i = {})
    (hc : Reach (fun i => World.step rem i) (fun _ _ _ => True)
    (Interleaving.start w fun j => (reqs j).prog cfg) c)
    (hs : Step (fun i => World.step rem i) c i ⟨othersRead rid, rows⟩ d)
    (hd : Reach (fun i => World.step rem i) (fun _ _ _ => True) d f)
    (hx : Received x (f.procs i).trace)
    (hl : Inventoried (f.procs i).trace) (hmade : Rejected (f.procs i).trace ∨
    Passed (f.procs i).trace) :
    (Vacated c.world.db rid x → ¬ Rejected (f.procs i).trace) ↔
      (Vacated c.world.db rid x → ¬ Taken c.world.db rid x) := by
  rw [rejected_iff hi hw hc hs hd hx hl hmade]

end Reached

def firstId : Uuid := ⟨1#128⟩

def secondId : Uuid := ⟨3#128⟩

def firstMarker : String :=
  "\x7b\"server_runtime_id\":\"00000000-0000-0000-0000-000000000001\",\"acms_agent_id\":\"agent-1\",\"provisioning_request_id\":1,\"provider\":1,\"node\":1,\"vmid\":1,\"created_by_agent_runtime_manager\":1,\"created_at\":1,\"template_source\":1\x7d"

/-- Every guest gets the lowest address of the pool, as Kea reserves it. -/
def pooled : Oracle Kea.Table where
  pve k c :=
    match c with
    | .config _ 700 => some (.ok (.obj [("net0", .str "virtio=BC:24:11:AA:BB:CC,bridge=vmbr0"),
        ("description", .str firstMarker)]), k)
    | .status .. => some (.ok (.obj [("status", .str "stopped")]), k)
    | .interfaces .. => some (.ok (.obj [("result", .arr [.obj [("ip-addresses", .arr [.obj
        [("ip-address-type", .str "ipv4"), ("ip-address", .str "10.0.20.222")]])]])]), k)
    | c => (JobOutcome.oneNode.pve () c).map fun x => (x.1, k)
  kea k c := k.answer (.kea c)
  neigh _ _ := none

def secondSandbox : ProvisionRequest :=
  { ReservationLeak.sandboxRequest with requestId := "req-2", name := "sbx-2" }

/-- A sandbox is created and deleted, then another one is created. -/
def history : List Request :=
  [.create ReservationLeak.sandboxRequest "acms", .destroy firstId "acms",
    .create secondSandbox "acms"]

def requests (i : Nat) : Request := Rehearsals.cast history (.create secondSandbox "acms") i

def serves (i : Nat) (m : Machine Kea.Table) (e : Eff) : Option (Ans e × Machine Kea.Table) :=
  Machine.answer pooled i m e

theorem serves_step (i : Nat) (m : Machine Kea.Table) (e : Eff) (a : Ans e) (m' : Machine Kea.Table)
    (h : serves i m e = some (a, m')) : World.step Remote.any i (m.world (fun _ => ())) e a
    (m'.world (fun _ => ())) :=
  Machine.answer_step pooled.follows_any i m e a m' h

def opened : Played Kea.Table := opening SandboxBoot.gateOn {} ⟨[], []⟩ history

def untilRead : List Nat := List.replicate 166 0 ++ List.replicate 17 1 ++ List.replicate 118 2

def atRead : Played Kea.Table := opened.play serves untilRead

def ended : Played Kea.Table := (atRead.play serves [2]).play serves (List.replicate 9 2)

def looks : Eff → Bool
  | .db (.selectRuntimes (.others rid)) => rid = secondId
  | _ => false

theorem looks_eq {e : Eff} (h : looks e = true) : e = othersRead secondId := by
  unfold looks at h
  split at h
  next rid => rw [of_decide_eq_true h]; rfl
  · cases h

def refused (ev : Event Eff Ans) : Bool :=
  match ev.1 with
  | .db (.addEvent x) => x.action = "clone_hygiene_failed" &&
      (Dict.get? x.detail "error").any fun y =>
        match y with | .str text => ownerFails text | _ => false
  | _ => false

def surveyed : Event Eff Ans → Bool
  | ⟨.sys .leaseInventory, a⟩ => (a : Except PyExc (List String)).toBool
  | _ => true

/-- The rows with the address are destroyed, and their reservations released. -/
def vacant (db : Db) : Bool :=
  db.runtimes.all fun y => y.row.runtimeId = secondId || addressOf y.row ≠ some "10.0.20.222" ||
    (y.row.actualState = .destroyed && db.events.any fun ev =>
      ev.runtimeId = y.row.runtimeId && ev.action = "sandbox_reservation_released")

theorem history_run :
    (opened.follows serves (fun _ _ => true) untilRead && atRead.offers serves 2 looks &&
      (atRead.play serves [2]).follows serves (fun _ _ => true) (List.replicate 9 2) &&
        vacant atRead.state.db &&
      (traceOf ended 2).any (fun ev => receipt ev.1 = some "10.0.20.222") &&
        (traceOf ended 2).any refused &&
      (traceOf ended 2).all surveyed) = true := by
  decide +kernel

theorem refused_refusal {ev : Event Eff Ans} (h : refused ev = true) : refusal ev.1 := by
  obtain ⟨e, a⟩ := ev
  unfold refused at h
  split at h
  next x hx =>
      obtain ⟨hact, herr⟩ := Bool.and_eq_true_iff.mp h
      obtain ⟨y, hy, ht⟩ := (Option.any_eq_true _ _).mp herr
      have hx : e = .db (.addEvent x) := hx
      subst hx
      refine ⟨of_decide_eq_true hact, ?_⟩
      cases y with
      | str text => exact ⟨text, hy, ht⟩
      | null | bool | int | float | arr | obj => cases ht
  · cases h

theorem vacant_vacated {db : Db} (h : vacant db = true) : Vacated db secondId "10.0.20.222" := by
  intro k r hk hr hx
  obtain ⟨y, hy, rfl⟩ := Option.map_eq_some_iff.mp hr
  have hkey : y.row.runtimeId = k := runtime?_key hr
  have hrow := List.all_eq_true.mp h y (List.mem_of_find?_eq_some hy)
  simp only [hkey, hk, hx, decide_false, Bool.false_or, ne_eq, not_true_eq_false, Bool.and_eq_true,
    List.any_eq_true,
    decide_eq_true_eq] at hrow
  obtain ⟨hst, ev, hev, hid, hact⟩ := hrow
  exact ⟨hst, ev, hev, hid, hact⟩

theorem surveyed_inventoried {tr : PyTrace} (h : tr.all surveyed = true) : Inventoried tr := by
  intro x hx
  have hs := List.all_eq_true.mp h _ hx
  cases hs

def idle : Request := .create secondSandbox "acms"

def gate : Settings := SandboxBoot.gateOn

abbrev shows (b : Played Kea.Table) : Parties Unit := shown gate (fun _ => ()) idle b

abbrev begun : World Unit := opened.state.world fun _ => ()

theorem history_reached : ∃ rows,
    Reach (fun i => World.step Remote.any i) (fun _ _ _ => True)
      (Interleaving.start begun fun j => (requests j).prog gate)
        (shows atRead) ∧
      Step (fun i => World.step Remote.any i) (shows atRead) 2 ⟨othersRead secondId, rows⟩
        (shows (atRead.play serves [2])) ∧
      Reach (fun i => World.step Remote.any i) (fun _ _ _ => True) (shows (atRead.play serves [2]))
        (shows ended) ∧
      Received "10.0.20.222" ((shows ended).procs 2).trace ∧
        Inventoried ((shows ended).procs 2).trace ∧
      Rejected ((shows ended).procs 2).trace ∧
        Vacated (shows atRead).world.db secondId "10.0.20.222" := by
  have hrun := history_run
  simp only [Bool.and_eq_true] at hrun
  obtain ⟨⟨⟨⟨⟨⟨hf, ho⟩, hg⟩, hv⟩, hx⟩, hr⟩, hl⟩ := hrun
  obtain ⟨e, rows, he, hs⟩ :=
    Board.offers_step (π := Machine.world fun _ => ()) ⟨idle.prog gate, []⟩ serves_step ho
  obtain rfl := looks_eq he
  refine ⟨rows, ?_, hs, ?_, ?_, ?_, ?_, ?_⟩
  · have hreach :=
      Board.follows_reach (P := fun _ _ _ => True) ⟨idle.prog gate, []⟩ serves_step
        (fun _ _ _ _ => trivial) hf
    have hstart : shows opened = Interleaving.start begun fun j => (requests j).prog gate :=
      shown_opening gate (fun _ => ()) {} (⟨[], []⟩ : Kea.Table) history idle
    exact hstart ▸ hreach
  · exact Board.follows_reach (P := fun _ _ _ => True) ⟨idle.prog gate, []⟩ serves_step
      (fun _ _ _ _ => trivial) hg
  · rw [shown_trace]
    obtain ⟨ev, hev, hr⟩ := List.any_eq_true.mp hx
    exact ⟨ev, hev, of_decide_eq_true hr⟩
  · rw [shown_trace]
    exact surveyed_inventoried hl
  · rw [shown_trace]
    obtain ⟨ev, hev, hr⟩ := List.any_eq_true.mp hr
    exact ⟨ev, hev, refused_refusal hr⟩
  · rw [shown_db]
    exact vacant_vacated hv

def createsOrDeletes : Request → Bool
  | .create .. | .destroy .. => true
  | _ => false

theorem requests_sandboxes (j : Nat) : createsOrDeletes (requests j) = true := by
  unfold requests Rehearsals.cast
  rcases j with _ | _ | _ | j
  · rfl
  · rfl
  · rfl
  · rfl

/-- The address of a sandbox that was deleted, with its reservation, is refused to the next one. -/
theorem given_back_refused :
    ¬ ∀ (cfg : Settings) (reqs : Nat → Request) (w : World Unit) (c d f : Parties Unit) (i :
      Nat) (req : ProvisionRequest)
      (actor : String) (rid : Uuid) (rows : List AgentRuntime) (x : String),
      (∀ j, createsOrDeletes (reqs j) = true) → reqs i = .create req actor → w.sessions i = {} →
      Reach (fun i => World.step Remote.any i) (fun _ _ _ => True)
        (Interleaving.start w fun j => (reqs j).prog cfg) c →
      Step (fun i => World.step Remote.any i) c i ⟨othersRead rid, rows⟩ d →
      Reach (fun i => World.step Remote.any i) (fun _ _ _ => True) d f →
        Received x (f.procs i).trace →
      Inventoried (f.procs i).trace → Vacated c.world.db rid x → ¬ Rejected (f.procs i).trace := by
  intro hall
  obtain ⟨rows, hc, hs, hd, hx, hl, hr, hv⟩ := history_reached
  exact hall gate requests begun _ _ _ 2 secondSandbox "acms" secondId rows _ requests_sandboxes rfl
    (opening_sessions gate (fun _ => ()) {} _ history 2) hc hs hd hx hl hv hr

/-- Although the first sandbox is destroyed, its row still has the address. -/
theorem second_life :
    ∃ rows,
      Step (fun i => World.step Remote.any i) (shows atRead) 2 ⟨othersRead secondId, rows⟩
        (shows (atRead.play serves [2])) ∧
      Vacated (shows atRead).world.db secondId "10.0.20.222" ∧
        Taken (shows atRead).world.db secondId "10.0.20.222" := by
  obtain ⟨rows, hc, hs, hd, hx, hl, hr, hv⟩ := history_reached
  refine ⟨rows, hs, hv, ?_⟩
  by_contra hno
  have hiff := reusable_iff (show requests 2 = .create secondSandbox "acms" from rfl)
    (opening_sessions gate (fun _ => ()) {} _ history 2) hc hs hd hx hl (.inl hr)
  exact hiff.mpr (fun _ => hno) hv hr

end ServerManager.AddressReuse
