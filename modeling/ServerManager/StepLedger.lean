import ServerManager.JobOutcome

namespace ServerManager.StepLedger

open Interaction PyJson Orm Effects Config ProxmoxVm Placement Provisioning Storage Calls
open Frames JobCalls JobLedger JobRuns JobOutcome Replay

def recorded : Eff → Option ProvisioningStep
  | .db (.setStep st) | .db (.addStep st) => some st
  | _ => none

/-- The names of the steps, as often as they are recorded. -/
def entered (tr : PyTrace) : List String := tr.filterMap fun ev => (recorded ev.1).map (·.step)

/-- The rows of a job tell which steps it has entered, and how they ended. -/
structure Faithful (rows : List ProvisioningStep) (names : List String) (failed : Prop) : Prop where
  one : ∀ name ∈ names, ∃ row, rows.filter (fun row => row.step = name) = [row]
  ended : ∀ row ∈ rows, row.state = .done ∨ row.state = .failed
  last : ∀ row ∈ rows, row.state = .failed ↔ failed ∧ names.getLast? = some row.step
  order : ∀ a ∈ rows, ∀ b ∈ rows, a.seq < b.seq ↔ names.idxOf a.step < names.idxOf b.step

def opens (e : Eff) : Prop := ∃ st, recorded e = some st ∧ st.step = "PLACING" ∧ st.state = .running

def refuses (d : PlacementDecision) : Prop := d.rejected = true ∨ d.node = ""

/-- The placement decision, from the answers that follow the entry of the step. -/
def Decided (cls tn : String) (tr : PyTrace) (d : PlacementDecision) : Prop :=
  ∃ before ev seg after, tr = before ++ ev :: (commitCalls ++ (seg ++ after)) ∧ opens ev.1 ∧
    Exec anything () (selectNode cls tn) seg () (.ret d)

/-- The decision of a trace that enters the placement once. -/
def Chosen (cls tn : String) (tr : PyTrace) (d : PlacementDecision) : Prop :=
  ∃ before ev seg after, tr = before ++ ev :: (commitCalls ++ (seg ++ after)) ∧ opens ev.1 ∧
    Exec anything () (selectNode cls tn) seg () (.ret d) ∧ (∀ y ∈ before, ¬ opens y.1) ∧
    ∀ y ∈ commitCalls ++ (seg ++ after), ¬ opens y.1

variable {cls tn : String} {tr : PyTrace} {d : PlacementDecision}

theorem Chosen.eq {d' : PlacementDecision} (h : Chosen cls tn tr d) (h' : Decided cls tn tr d') :
    d' = d := by
  obtain ⟨before, ev, seg, after, htr, -, hx, hb, ha⟩ := h
  obtain ⟨before', ev', seg', after', htr', hev', hx'⟩ := h'
  obtain ⟨-, -, hrest⟩ :=
    split_unique (P := fun ev : Event Eff Ans => opens ev.1) (htr.symm.trans htr') hb ha hev'
  have hseg := List.append_cancel_left hrest
  have hd := (hx.unique hx' (Prog.ret_ne_call d) (Prog.ret_ne_call d') hseg).2
  cases hd
  rfl

theorem Chosen.decided (h : Chosen cls tn tr d) : Decided cls tn tr d := by
  obtain ⟨before, ev, seg, after, htr, hev, hx, -, -⟩ := h
  exact ⟨before, ev, seg, after, htr, hev, hx⟩

theorem Chosen.append {more : PyTrace} (h : Chosen cls tn tr d) (hm : ∀ y ∈ more, ¬ opens y.1) :
    Chosen cls tn (tr ++ more) d := by
  obtain ⟨before, ev, seg, after, rfl, hev, hx, hb, ha⟩ := h
  refine ⟨before, ev, seg, after ++ more, by simp, hev, hx, hb, fun y hy => ?_⟩
  rw [← List.append_assoc seg, ← List.append_assoc commitCalls] at hy
  rcases List.mem_append.mp hy with hy | hy
  · exact ha y hy
  · exact hm y hy

theorem Chosen.entered (h : Chosen cls tn tr d) : "PLACING" ∈ entered tr := by
  obtain ⟨before, ev, seg, after, rfl, ⟨st, hst, hname, -⟩, -⟩ := h
  refine List.mem_filterMap.mpr ⟨ev, by simp, ?_⟩
  rw [hst, ← hname]
  rfl

def aloof (e : Eff) : Prop := ∀ st, recorded e = some st → st.step ≠ "PLACING"

theorem aloof.not_opens {e : Eff} (h : aloof e) : ¬ opens e := by
  rintro ⟨st, hst, hname, -⟩
  exact h st hst hname

theorem aloof_of_none {e : Eff} (h : recorded e = none) : aloof e := by
  intro st hst
  rw [h] at hst
  cases hst

theorem recorded_observes {e : Eff} (h : observes e) : recorded e = none := by
  cases e with
  | db c => exact False.elim h
  | pve | kea | sys => rfl

theorem recorded_books {e : Eff} (h : books e) : recorded e = none := by
  unfold books at h
  split at h
  · rfl
  · rfl
  · rfl
  · rfl
  · exact False.elim h

theorem recorded_filing {e : Eff} (h : filing e) : recorded e = none := by
  unfold recorded
  split
  · exact False.elim h
  · exact False.elim h
  · rfl

theorem aloof_allows (ns as : List String) (h : "PLACING" ∉ ns) :
    Allows aloof (fun _ _ => True) ns as where
  aside _ he _ := aloof_of_none (recorded_observes he)
  read _ he _ _ _ _ := aloof_of_none (recorded_observes he)
  book _ he := aloof_of_none (recorded_books he)
  step st hs := by
    have hne : st.step ≠ "PLACING" := fun he => h (he ▸ hs)
    refine ⟨fun x hx => ?_, fun x hx => ?_⟩
    · cases hx
      exact hne
    · cases hx
      exact hne
  event _ _ := aloof_of_none rfl

def Gone (rows : List ProvisioningStep) : Prop := ∀ row ∈ rows, row.step ≠ "PLACING"

theorem gone_putStep {st : ProvisioningStep} {rows : List ProvisioningStep} (h : Gone rows)
    (hs : st.step ≠ "PLACING") :
    Gone (putStep st rows) := by
  intro row hrow
  obtain ⟨x, hx, rfl⟩ := List.mem_map.mp hrow
  split
  · exact hs
  · exact h x hx

theorem gone_step {jid rid : Uuid} {L : Ledger} {e : Eff} (h : Gone L.now.tables.steps)
    (he : aloof e) :
    Gone (L.step jid rid e).now.tables.steps := by
  cases e with
  | pve | kea | sys => exact h
  | db c =>
      cases c with
      | setStep st =>
          simp only [Ledger.step, adds, Tables.put]
          split
          · exact gone_putStep h (he st rfl)
          · exact h
      | addStep st =>
          simp only [Ledger.step, adds, Tables.put]
          split
          · intro row hrow
            rcases List.mem_append.mp hrow with hrow | hrow
            · exact h row hrow
            · rw [List.mem_singleton.mp hrow]
              exact he st rfl
          · exact h
      | addEvent ev =>
          simp only [Ledger.step, adds, Tables.put]
          split
          · exact h
          · exact h
      | addBridge b =>
          simp only [Ledger.step, adds, Tables.put]
          split
          · exact h
          · exact h
      | addRuntime | addJob | getRuntime | getJob | findJob | selectRuntimes | placedNodes
      | findStep | modify | modifyJob
      | flush | commit | close => exact h

theorem steps_same {jid rid : Uuid} {L : Ledger} {e : Eff} (he : recorded e = none) :
    (L.step jid rid e).now.tables.steps = L.now.tables.steps := by
  cases e with
  | pve | kea | sys => rfl
  | db c =>
      cases c with
      | setStep | addStep => cases he
      | addEvent | addBridge =>
          simp only [Ledger.step, adds, Tables.put]
          split
          · rfl
          · rfl
      | addRuntime | addJob | getRuntime | getJob | findJob | selectRuntimes | placedNodes
      | findStep | modify | modifyJob
      | flush | commit | close => rfl

theorem entered_append (a b : PyTrace) : entered (a ++ b) = entered a ++ entered b :=
  List.filterMap_append

theorem entered_still {seg : PyTrace} (h : ∀ y ∈ seg, recorded y.1 = none) : entered seg = [] := by
  refine List.filterMap_eq_nil_iff.mpr fun y hy => ?_
  rw [h y hy]
  rfl

/-- The rows and the trace of a job whose placement has not begun. -/
structure At (rows : List ProvisioningStep) (names : List String) (s : Ledger × PyTrace) :
    Prop where
  rows : s.1.now.tables.steps = rows
  names : entered s.2 = names
  closed : ∀ y ∈ s.2, ¬ opens y.1

theorem recorded_entered {st : ProvisioningStep} {seg : PyTrace} (h : Recorded st seg) :
    entered seg = [st.step] := by
  obtain ⟨found, e, a, rfl, rfl | rfl⟩ := h
  · rfl
  · rfl

theorem recorded_closed {st : ProvisioningStep} {seg : PyTrace} (h : Recorded st seg)
    (hst : st.step ≠ "PLACING" ∨ st.state ≠ .running) : ∀ y ∈ seg, ¬ opens y.1 := by
  rintro y hy ⟨x, hx, hname, hrun⟩
  have hxs : x = st := by
    obtain ⟨found, e, a, rfl, he⟩ := h
    rcases List.mem_cons.mp hy with rfl | hy
    · cases hx
    rcases List.mem_cons.mp hy with rfl | hy
    · cases hx
    rcases List.mem_cons.mp hy with rfl | hy
    · rcases he with rfl | rfl
      · exact (Option.some.inj hx).symm
      · exact (Option.some.inj hx).symm
    · rw [recorded_books (commitCalls_books y hy)] at hx
      cases hx
  subst hxs
  rcases hst with h | h
  · exact h hname
  · exact h hrun

section Stages

variable {jid rid : Uuid} {s : Ledger × PyTrace} {rows : List ProvisioningStep}
  {names : List String}
  {X : Ledger × PyTrace → PyExc → Prop}

theorem recordStep_at (seq : Nat) (step : String) (state : StepState) (detail : Option String)
    (hst : step ≠ "PLACING" ∨ state ≠ .running) (hs : At rows names s) :
    Sat (traced (booked jid rid)) (fun _ _ => True)
      (fun s _ => At (upsert ⟨jid, seq, step, state, detail⟩ rows) (names ++ [step]) s) X
      (recordStep jid seq step state detail) s := by
  obtain ⟨L, past⟩ := s
  refine recordStep_books _ _ _ _ fun seg hseg => ⟨?_, ?_, fun y hy => ?_⟩
  · rw [← hs.rows]
    rfl
  · rw [entered_append, hs.names, recorded_entered hseg]
  · rcases List.mem_append.mp hy with hy | hy
    · exact hs.closed y hy
    · exact recorded_closed hseg hst y hy

def validatedRows (jid : Uuid) : List ProvisioningStep :=
  [⟨jid, 1, "VALIDATING", .done, none⟩, ⟨jid, 2, "RESERVING", .done, none⟩]

def validatedNames : List String := ["VALIDATING", "VALIDATING", "RESERVING"]

theorem validate_at (runtime : AgentRuntime) (hs : At [] [] s) :
    Sat (traced (booked jid rid)) (fun _ _ => True)
      (fun s _ => runtime.acmsAgentId ≠ "" ∧ At (validatedRows jid) validatedNames s)
      (fun s _ => runtime.acmsAgentId = "" ∧ At [⟨jid, 1, "VALIDATING", .running, none⟩]
        ["VALIDATING"] s)
      (validate jid runtime) s := by
  unfold validate
  refine Sat.seq (recordStep_at _ _ _ _ (.inl (by decide)) hs) fun s _ hs => ?_
  split
  next hag => exact ⟨hag, hs⟩
  next hag =>
      refine Sat.seq (recordStep_at _ _ _ _ (.inl (by decide)) hs) fun s _ hs => ?_
      exact (recordStep_at _ _ _ _ (.inl (by decide)) hs).mono (fun _ _ h => ⟨hag, h⟩) fun _ _ h =>
        h

theorem selectNode_sure (cls tn : String) :
    Sat (traced (booked jid rid)) (fun _ _ => True) (fun _ _ => True) (fun _ _ => False)
      (selectNode cls tn) s := by
  obtain ⟨L, past⟩ := s
  unfold selectNode flush
  refine (sat_bind _ _ _).mpr ((sat_booked _ _).mpr ⟨trivial, fun a ha => ?_⟩)
  have ha' : a = Except.ok () := ha
  subst ha'
  refine (sat_bind _ _ _).mpr ⟨trivial, fun total s _ =>
    (sat_bind _ _ _).mpr ⟨trivial, fun inference s _ => ?_⟩⟩
  change Sat _ _ _ _ (ite _ _ _) _
  split
  · trivial
  · unfold candidateNodes
    refine Sat.seq (Q := fun _ _ => True) ?_ fun s nodes _ => ?_
    · refine Sat.seq (Q := fun _ _ => True) ((sat_tryCatch _ _ _).mpr ?_) fun s _ _ => trivial
      have hnodes :=
        (only_listNodes (uncloned_allows [] [])).keeps (T := traced (booked jid rid))
          (I := fun _ => True)
        (s := s) (fun _ _ _ _ _ _ _ => trivial) trivial
      exact (hnodes.weaken fun _ _ _ => trivial).mono (fun _ _ _ => trivial) fun _ _ _ => trivial
    · dsimp only
      split
      · trivial
      · trivial

/-- The decision has been made, and the row of the step is as `rows` say. -/
structure Placed (cls tn : String) (d : PlacementDecision) (rows : List ProvisioningStep)
    (names : List String)
    (s : Ledger × PyTrace) : Prop where
  rows : s.1.now.tables.steps = rows
  names : entered s.2 = names
  chosen : Chosen cls tn s.2 d

theorem recordStep_placed (seq : Nat) (step : String) (state : StepState) (detail : Option String)
    (hst : step ≠ "PLACING" ∨ state ≠ .running) (hs : Placed cls tn d rows names s) :
    Sat (traced (booked jid rid)) (fun _ _ => True)
      (fun s _ => Placed cls tn d (upsert ⟨jid, seq, step, state, detail⟩ rows) (names ++ [step]) s)
        X
      (recordStep jid seq step state detail) s := by
  obtain ⟨L, past⟩ := s
  refine recordStep_books _ _ _ _ fun seg hseg =>
    ⟨?_, ?_, hs.chosen.append (recorded_closed hseg hst)⟩
  · rw [← hs.rows]
    rfl
  · rw [entered_append, hs.names, recorded_entered hseg]

theorem selectNode_placed (cls tn : String) (hs : At rows names s) :
    Sat (traced (booked jid rid)) (fun _ _ => True)
      (fun s d => Placed cls tn d (upsert ⟨jid, 3, "PLACING", .running, none⟩ rows)
        (names ++ ["PLACING"]) s)
      (fun _ _ => False)
      (do
        recordStep jid 3 "PLACING"
        selectNode cls tn) s := by
  obtain ⟨L, past⟩ := s
  refine (sat_bind _ _ _).mpr (recordStep_books _ _ _ _ fun seg hseg => ?_)
  have hnames : entered (past ++ seg) = names ++ ["PLACING"] := by
    rw [entered_append, hs.names, recorded_entered hseg]
  obtain ⟨found, e, a, rfl, he⟩ := hseg
  have hopen : opens e := by
    rcases he with rfl | rfl
    · exact ⟨_, rfl, rfl, rfl⟩
    · exact ⟨_, rfl, rfl, rfl⟩
  have hA : Allows (fun e => recorded e = none) (fun _ _ => True) [] [] :=
    ⟨fun _ h _ => recorded_observes h, fun _ h _ _ _ _ => recorded_observes h,
      fun _ h => recorded_books h, nofun, nofun⟩
  have hstill : Only (fun e => recorded e = none) (selectNode cls tn) := only_selectNode cls tn hA
  have hkept :=
    sat_kept jid rid (I := fun s => s.1.now.tables.steps =
      upsert ⟨jid, 3, "PLACING", .running, none⟩ rows)
    hstill (fun L _ _ _ he hi => (steps_same he).trans hi)
    (s := (.settled (L.now.stepped ⟨jid, 3, "PLACING", .running, none⟩), past ++
      ⟨.db .flush, Except.ok ()⟩ :: ⟨.db (.findStep jid 3), found⟩ :: ⟨e, a⟩ :: commitCalls))
    (by rw [← hs.rows]; rfl)
  have hseg := (sat_segment (selectNode cls tn) (past ++
    ⟨.db .flush, Except.ok ()⟩ :: ⟨.db (.findStep jid 3), found⟩ :: ⟨e, a⟩ :: commitCalls)).traced (T := booked jid rid)
    (.settled (L.now.stepped ⟨jid, 3, "PLACING", .running, none⟩))
  refine (((selectNode_sure cls tn).and (hkept.and hseg)).weaken fun _ _ _ => trivial).mono ?_
    fun _ _ h => h.1
  rintro ⟨L', tr⟩ d ⟨-, hrows, seg, rfl, hx⟩
  have hclosed : ∀ y ∈ seg, recorded y.1 = none := hstill.of_mem hx
  refine ⟨hrows, ?_, past ++ [⟨.db .flush, Except.ok ()⟩, ⟨.db (.findStep jid 3), found⟩], ⟨e, a⟩,
    seg, [], by simp, hopen,
    hx, fun y hy => ?_, fun y hy => ?_⟩
  · rw [entered_append, hnames, entered_still hclosed, List.append_nil]
  · rcases List.mem_append.mp hy with hy | hy
    · exact hs.closed y hy
    · refine (aloof_of_none (recorded_books ?_)).not_opens
      rcases List.mem_cons.mp hy with rfl | hy
      · trivial
      · rw [List.mem_singleton.mp hy]
        trivial
  · rw [List.append_nil] at hy
    rcases List.mem_append.mp hy with hy | hy
    · exact (aloof_of_none (recorded_books (commitCalls_books y hy))).not_opens
    · exact (aloof_of_none (hclosed y hy)).not_opens

def placementClass (runtimeClass : String) : String :=
  if runtimeClass = "" then "software_development_worker" else runtimeClass

def rejectedRows (jid : Uuid) (detail : Option String) : List ProvisioningStep :=
  validatedRows jid ++ [⟨jid, 3, "PLACING", .failed, detail⟩]

def rejectedNames : List String := validatedNames ++ ["PLACING", "PLACING"]

def Replaced (cls tn : String) (s : Ledger × PyTrace) : Prop :=
  Gone s.1.now.tables.steps ∧ ∃ d, Chosen cls tn s.2 d ∧ ¬ refuses d

inductive Short (agent cls tn : String) (jid : Uuid) (s : Ledger × PyTrace) : Prop
  | unnamed : agent = "" → At [⟨jid, 1, "VALIDATING", .running, none⟩] ["VALIDATING"] s →
      Short agent cls tn jid s
  | rejected {d : PlacementDecision} {detail : Option String} : agent ≠ "" → refuses d →
      Placed cls tn d (rejectedRows jid detail) rejectedNames s → Short agent cls tn jid s
  | replaced : agent ≠ "" → Replaced cls tn s → Short agent cls tn jid s

theorem placeVm_placed (runtime : AgentRuntime) (tn : String) (hag : runtime.acmsAgentId ≠ "")
    (hs : At (validatedRows jid) validatedNames s) :
    Sat (traced (booked jid rid)) (fun _ _ => True)
      (fun s _ => ∃ d detail, ¬ refuses d ∧ Placed (placementClass runtime.runtimeClass) tn d
        (validatedRows jid ++ [⟨jid, 3, "PLACING", .done, detail⟩]) rejectedNames s)
      (fun s _ => Short runtime.acmsAgentId (placementClass runtime.runtimeClass) tn jid s)
      (placeVm jid runtime tn) s := by
  unfold placeVm
  rw [← Prog.bind_assoc]
  refine Sat.seq ((selectNode_placed (placementClass runtime.runtimeClass) tn hs).mono
    (fun _ _ h => h)
    fun _ _ h => False.elim h) fun s d hs => ?_
  split
  next href =>
      have hd : refuses d := by simpa [refuses] using href
      refine Sat.seq (recordStep_placed _ _ _ _ (.inr (by decide)) hs) fun s _ hs => ?_
      exact .rejected hag hd hs
  next hacc =>
      have hd : ¬ refuses d := by simpa [refuses] using hacc
      refine Sat.seq (Q := fun s _ => Placed (placementClass runtime.runtimeClass) tn d
        (upsert ⟨jid, 3, "PLACING", .running, none⟩ (validatedRows jid)) (validatedNames ++ ["PLACING"]) s) ?_ fun s _ hs => ?_
      · obtain ⟨L, past⟩ := s
        refine (sat_booked _ _).mpr ⟨trivial,
          fun a _ => ⟨(steps_same rfl).trans hs.rows, ?_, hs.chosen.append fun y hy => ?_⟩⟩
        · rw [entered_append, hs.names]
          rfl
        · rw [List.mem_singleton.mp hy]
          exact (aloof_of_none rfl).not_opens
      · refine Sat.seq (recordStep_placed _ _ _ _ (.inr (by decide)) hs) fun s _ hs => ?_
        exact ⟨d, _, hd, hs⟩

theorem replaced_sat {α : Type} {p : Py α} {agent : String} (hag : agent ≠ "") (ho : Only aloof p)
    (hs : Replaced cls tn s) :
    Sat (traced (booked jid rid)) (fun _ _ => True) (fun s _ => Replaced cls tn s)
      (fun s _ => Short agent cls tn jid s)
      p s := by
  refine (sat_kept jid rid (I := Replaced cls tn) ho ?_ hs).mono (fun _ _ h => h) fun _ _ h =>
    .replaced hag h
  rintro L past e a he ⟨hgone, d, hd, hr⟩
  refine ⟨gone_step hgone he, d, hd.append fun y hy => ?_, hr⟩
  rw [List.mem_singleton.mp hy]
  exact he.not_opens

theorem aloof_deploys (rid : Uuid) (spec : VMSpec) (n : String) (v : Int) :
    Deploys aloof rid spec n v where
  config _ := aloof_of_none rfl
  start := aloof_of_none rfl
  kea _ := aloof_of_none rfl
  mac _ := aloof_of_none rfl
  reserved _ := aloof_of_none rfl
  notes _ _ _ := aloof_of_none rfl
  others := aloof_of_none rfl

theorem prepareClone_replaced (runtime : AgentRuntime) (n tn' : String) (tv : Int) {agent : String}
    (hag : agent ≠ "")
    {detail : Option String} (hd : ¬ refuses d)
    (hs : Placed cls tn d (validatedRows jid ++ [⟨jid, 3, "PLACING", .done, detail⟩]) names s) :
    Sat (traced (booked jid rid)) (fun _ _ => True) (fun s _ => Replaced cls tn s)
      (fun s _ => Short agent cls tn jid s)
      (prepareClone jid runtime n tn' tv) s := by
  have hA := aloof_allows [] [] (by simp)
  unfold prepareClone
  refine Sat.seq (recordStep_placed _ _ _ _ (.inl (by decide)) hs) fun s _ hs => ?_
  refine replaced_sat hag ?_ ⟨?_, d, hs.chosen, hd⟩
  · refine Only.bind (Only.bind (only_pve (hA.aside _ trivial rfl)) fun x => only_pyInt x)
      fun vmid => ?_
    refine Only.bind (only_templateStorage _ hA trivial) fun tstore => ?_
    refine Only.ite (Only.bind (only_pure _) fun active => ?_)
      (Only.bind (only_storageActive _ _ hA) fun active => ?_)
    · exact Only.ite (only_raised _ _) (only_pure _)
    · exact Only.ite (only_raised _ _) (only_pure _)
  · rw [hs.rows]
    simp [Gone, upsert, putStep, validatedRows]

theorem completeJob_short (jid rid : Uuid) (cfg : Settings) (runtime : AgentRuntime)
    (hs : At [] [] s) :
    Sat (traced (booked jid rid)) (fun _ _ => True)
      (fun s _ => runtime.acmsAgentId ≠ "" ∧
        Replaced (placementClass runtime.runtimeClass) (templateOf runtime.templateSource).1 s)
      (fun s _ => Short runtime.acmsAgentId (placementClass runtime.runtimeClass)
        (templateOf runtime.templateSource).1 jid s)
      (completeJob cfg jid runtime) s := by
  have hA := fun ns as h => aloof_allows ns as h
  unfold completeJob
  rw [provisionVm_eq]
  refine Sat.seq (Q := fun s _ => runtime.acmsAgentId ≠ "" ∧
    Replaced (placementClass runtime.runtimeClass) (templateOf runtime.templateSource).1 s) ?_ fun s x hs => ?_
  · refine Sat.seq ((validate_at runtime hs).mono (fun _ _ h => h) fun s _ h => .unnamed h.1 h.2)
      fun s _ hs => ?_
    obtain ⟨hag, hs⟩ := hs
    refine Sat.seq (placeVm_placed runtime _ hag hs) fun s n hs => ?_
    obtain ⟨d, detail, hd, hs⟩ := hs
    rw [cloneVm_eq, Prog.bind_assoc]
    refine Sat.seq (prepareClone_replaced runtime n _ _ hag hd hs) fun s v hs => ?_
    refine (replaced_sat hag ?_ hs).mono (fun _ _ h => ⟨hag, h⟩) fun _ _ h => h
    refine Only.bind (only_takeClone _ _ _ _ (hA _ _ (by decide)) trivial fun _ =>
      aloof_of_none rfl) fun x => ?_
    exact only_deploy _ _ _ _ _ (hA _ _ (by decide)) trivial trivial trivial (aloof_deploys _ _ _ _)
  · obtain ⟨hag, hs⟩ := hs
    refine (replaced_sat hag ?_ hs).mono (fun _ _ h => ⟨hag, h⟩) fun _ _ h => h
    refine Only.bind (only_bootstrapHermes _ _ (hA _ [] (by decide))
      (fun _ _ _ => aloof_of_none rfl)
      (fun _ _ => aloof_of_none rfl) (aloof_of_none rfl)) fun _ => ?_
    refine Only.bind (only_call (aloof_of_none rfl) fun _ => only_ret _) fun _ => ?_
    refine Only.bind (only_call (aloof_of_none rfl) fun _ => only_ret _) fun _ => ?_
    refine Only.bind (only_event _ _ _ _ (hA [] _ (by simp))) fun _ => ?_
    exact only_commit (aloof_of_none rfl) (aloof_of_none rfl)

end Stages

theorem not_faithful_running {rows : List ProvisioningStep} {names : List String} {failed : Prop}
    (row : ProvisioningStep) (hm : row ∈ rows) (hr : row.state = .running) :
    ¬ Faithful rows names failed := by
  intro h
  rcases h.ended row hm with he | he
  · rw [hr] at he
    cases he
  · rw [hr] at he
    cases he

theorem not_faithful_gone {rows : List ProvisioningStep} {names : List String} {failed : Prop}
    (hg : Gone rows)
    (hn : "PLACING" ∈ names) : ¬ Faithful rows names failed := by
  intro h
  obtain ⟨row, hrow⟩ := h.one _ hn
  have hm : row ∈ rows.filter (fun row => row.step = "PLACING") := by
    rw [hrow]
    exact List.mem_singleton.mpr rfl
  obtain ⟨hm, hs⟩ := List.mem_filter.mp hm
  exact hg row hm (of_decide_eq_true hs)

theorem rejected_faithful (jid : Uuid) (detail : Option String) {failed : Prop} (hf : failed) :
    Faithful (rejectedRows jid detail) rejectedNames failed where
  one name hn := by
    simp only [rejectedNames, validatedNames, List.cons_append, List.nil_append, List.mem_cons,
      List.not_mem_nil, or_false] at hn
    rcases hn with rfl | rfl | rfl | rfl | rfl
    · exact ⟨_, rfl⟩
    · exact ⟨_, rfl⟩
    · exact ⟨_, rfl⟩
    · exact ⟨_, rfl⟩
    · exact ⟨_, rfl⟩
  ended row hrow := by
    simp only [rejectedRows, validatedRows, List.cons_append, List.nil_append, List.mem_cons,
      List.not_mem_nil, or_false] at hrow
    rcases hrow with rfl | rfl | rfl
    · exact .inl rfl
    · exact .inl rfl
    · exact .inr rfl
  last row hrow := by
    simp only [rejectedRows, validatedRows, List.cons_append, List.nil_append, List.mem_cons,
      List.not_mem_nil, or_false] at hrow
    rcases hrow with rfl | rfl | rfl
    · simp [rejectedNames, validatedNames]
    · simp [rejectedNames, validatedNames]
    · simp [rejectedNames, validatedNames, hf]
  order a ha b hb := by
    simp only [rejectedRows, validatedRows, List.cons_append, List.nil_append, List.mem_cons,
      List.not_mem_nil, or_false] at ha hb
    rcases ha with rfl | rfl | rfl <;> rcases hb with rfl | rfl | rfl <;> dsimp only <;> decide

theorem Short.append {agent : String} {jid : Uuid} {L : Ledger} {seg : PyTrace}
    (h : Short agent cls tn jid (L, tr))
    (L' : Ledger) (hL : L'.now.tables.steps = L.now.tables.steps)
    (hseg : ∀ y ∈ seg, recorded y.1 = none) :
    Short agent cls tn jid (L', tr ++ seg) := by
  have hclosed : ∀ y ∈ seg, ¬ opens y.1 := fun y hy => (aloof_of_none (hseg y hy)).not_opens
  have hnames : entered (tr ++ seg) = entered tr := by
    rw [entered_append, entered_still hseg, List.append_nil]
  cases h with
  | unnamed hag hs =>
      refine .unnamed hag ⟨hL.trans hs.rows, hnames.trans hs.names, fun y hy => ?_⟩
      rcases List.mem_append.mp hy with hy | hy
      · exact hs.closed y hy
      · exact hclosed y hy
  | rejected hag hd hs =>
      exact .rejected hag hd ⟨hL.trans hs.rows, hnames.trans hs.names, hs.chosen.append hclosed⟩
  | replaced hag hs =>
      obtain ⟨hgone, d, hd, hr⟩ := hs
      exact .replaced hag ⟨by rw [hL]; exact hgone, d, hd.append hclosed, hr⟩

theorem short_iff {agent : String} {jid : Uuid} {L : Ledger} {failed : Prop}
    (h : Short agent cls tn jid (L, tr))
    (hf : ∀ d, Chosen cls tn tr d → refuses d → failed) :
    Faithful L.now.tables.steps (entered tr) failed ↔
      agent ≠ "" ∧ ∃ d, Decided cls tn tr d ∧ refuses d := by
  cases h with
  | unnamed hag hs =>
      refine iff_of_false (not_faithful_running ⟨jid, 1, "VALIDATING", .running, none⟩ ?_ rfl)
        fun h => h.1 hag
      rw [hs.rows]
      exact List.mem_singleton.mpr rfl
  | @rejected d detail hag hd hs =>
      refine iff_of_true ?_ ⟨hag, d, hs.chosen.decided, hd⟩
      have hr : L.now.tables.steps = rejectedRows jid detail := hs.rows
      have hn : entered tr = rejectedNames := hs.names
      rw [hr, hn]
      exact rejected_faithful jid detail (hf d hs.chosen hd)
  | replaced hag hs =>
      obtain ⟨hgone, d, hd, hr⟩ := hs
      refine iff_of_false (not_faithful_gone hgone hd.entered) ?_
      rintro ⟨-, d', hd', hr'⟩
      rw [hd.eq hd'] at hr'
      exact hr hr'

variable {R : Type} {rem : Remote R} {i : Nat} {cfg : Settings} {req : ProvisionRequest}
  {requestedBy authority : String}
  {job : ProvisioningJob} {w' : World R} {q : Py Unit}

/-- The step rows of a finished job are faithful exactly when it was rejected by
the placement: else a row is left RUNNING, or the first step of the clone has
overwritten the row of the placement. -/
theorem step_rows_faithful_iff (hx : JobRun rem i cfg req requestedBy authority job tr w' q)
    (hq : ∀ e k, q ≠ .call e k) {j : ProvisioningJob} (hj : w'.db.job? job.jobId = some j) :
    Faithful (w'.db.steps.filter (fun st => st.jobId = job.jobId)) (entered tr)
      (j.state = .failed) ↔
      req.acmsAgentId ≠ "" ∧
        ∃ d, Decided (placementClass req.runtimeClass) (templateNode req job.runtimeId) tr d ∧
          refuses d := by
  obtain ⟨L, hL, he⟩ := jobRun_settled hx hq
    (Q := fun rid s => req.acmsAgentId ≠ "" ∧
    Replaced (placementClass req.runtimeClass) (templateNode req rid) s)
    (X := fun rid s _ => ∃ jid, Short req.acmsAgentId (placementClass req.runtimeClass)
    (templateNode req rid) jid s)
    fun jid rid t t' pre hpre => by
      have hag : (submittedRow cfg req rid t t').acmsAgentId = req.acmsAgentId ∧
          (submittedRow cfg req rid t t').runtimeClass = req.runtimeClass := by
        unfold submittedRow
        split
        · exact ⟨rfl, rfl⟩
        · exact ⟨rfl, rfl⟩
      have hat : At [] [] (Ledger.settled (submittedRecord cfg req requestedBy authority jid rid t
          t').begun, pre) := by
        refine ⟨rfl, entered_still fun y hy => recorded_filing (hpre y hy), fun y hy => ?_⟩
        exact (aloof_of_none (recorded_filing (hpre y hy))).not_opens
      have hshort := completeJob_short jid rid cfg (submittedRow cfg req rid t t') hat
      rw [hag.1, hag.2, templateNode_row] at hshort
      exact hshort.mono (fun _ _ h => h) fun _ _ h => ⟨jid, h⟩
  generalize job.runtimeId = rid at hL he ⊢
  have hrows : w'.db.steps.filter (fun st => st.jobId = job.jobId) = L.kept.tables.steps :=
    congrArg Tables.steps hL.tables
  have hjob : L.kept.job = j := Option.some.inj (hL.job.symm.trans hj)
  rw [hrows]
  rcases he with ⟨⟨n, v, ip, x, hset, -⟩, hag, hgone, d, hd, hr⟩ | ⟨L₀, past, x, seg,
    ⟨-, jid, hshort⟩, hseg, hset⟩
  · have hL' : L = .settled x := hset
    have hkept : L.kept = L.now := by rw [hL']; rfl
    rw [hkept]
    have hend : Short req.acmsAgentId _ _ job.jobId (L, tr) := .replaced hag ⟨hgone, d, hd, hr⟩
    refine short_iff hend fun d' hd' hr' => ?_
    rw [hd.eq hd'.decided] at hr'
    exact absurd hr' hr
  · obtain ⟨rfl, rfl⟩ := Prod.mk.inj hset
    have hfail : j.state = .failed := by
      rw [← hjob]
      rfl
    have hend :=
      hshort.append (.settled (L₀.now.failed rid x)) rfl fun y hy => recorded_filing (hseg y hy)
    have hiff := short_iff hend fun _ _ _ => hfail
    exact hiff

def stepStates (job : ProvisioningJob) (m : Machine Unit) : List (Nat × String × StepState) :=
  (m.db.steps.filter (fun st => st.jobId = job.jobId)).map fun st => (st.seq, st.step, st.state)

theorem workerRun_unfaithful :
    ∃ (job : ProvisioningJob) (tr : PyTrace) (m : Machine Unit) (j : ProvisioningJob),
      JobRun Remote.any 0 {} workerRequest "acms" "sprint_execution_context" job tr
        (m.world fun _ => ()) (.ret ()) ∧
      m.db.job? job.jobId = some j ∧ j.state = .done ∧
      ¬ Faithful (m.db.steps.filter (fun st => st.jobId = job.jobId)) (entered tr)
        (j.state = .failed) := by
  have hrun : settles workerRun (fun job tr m => leaves .done job m &&
      (entered tr).contains "PLACING" &&
      (stepStates job m).all fun row => row.2.1 ≠ "PLACING") = true := by
    decide +kernel
  obtain ⟨job, tr, m, hx, htest⟩ := settles_run hrun
  simp only [Bool.and_eq_true] at htest
  obtain ⟨⟨hst, hin⟩, hno⟩ := htest
  obtain ⟨j, hj, hst⟩ := leaves_state hst
  refine ⟨job, tr, m, j, rehearse_run oneNode.follows_any hx rfl known_blank, hj, hst, ?_⟩
  refine not_faithful_gone (fun row hrow => ?_) (List.contains_iff_mem.mp hin)
  have hne := List.all_eq_true.mp hno _ (List.mem_map.mpr ⟨row, hrow, rfl⟩)
  exact of_decide_eq_true hne

def noNodes : Oracle Unit :=
  oneNodeBut fun
    | .nodes => some (.ok (.arr []))
    | _ => none

def columns (st : ProvisioningStep) : Uuid × Nat × String × StepState × Option String :=
  (st.jobId, st.seq, st.step, st.state, st.detail)

theorem columns_injective : Function.Injective columns := by
  rintro ⟨a, b, c, d, e⟩ ⟨a', b', c', d', e'⟩ h
  cases h
  rfl

theorem noNodes_faithful :
    ∃ job tr m j, rehearse noNodes {} workerRequest blank = some (job, tr, m, .ret ()) ∧
      m.db.job? job.jobId = some j ∧
      Faithful (m.db.steps.filter (fun st => st.jobId = job.jobId)) (entered tr)
        (j.state = .failed) ∧
      ∃ d, Decided "software_development_worker" (templateNode workerRequest job.runtimeId) tr d ∧
        refuses d := by
  have hrun : settles (rehearse noNodes {} workerRequest blank)
      (fun job tr m => leaves .failed job m &&
      entered tr = rejectedNames && (m.db.steps.filter (fun st => st.jobId = job.jobId)).map
        columns =
        (rejectedRows job.jobId (some "no_eligible_node")).map columns) = true := by
    decide +kernel
  obtain ⟨job, tr, m, hx, htest⟩ := settles_run hrun
  simp only [Bool.and_eq_true, decide_eq_true_eq] at htest
  obtain ⟨⟨hst, hnames⟩, hrows⟩ := htest
  obtain ⟨j, hj, hst⟩ := leaves_state hst
  have hx' := rehearse_run noNodes.follows_any hx rfl known_blank
  have hf : Faithful (m.db.steps.filter (fun st => st.jobId = job.jobId)) (entered tr)
      (j.state = .failed) := by
    rw [List.map_injective_iff.mpr columns_injective hrows, hnames]
    exact rejected_faithful job.jobId _ hst
  exact ⟨job, tr, m, j, hx, hj, hf, ((step_rows_faithful_iff hx' (Prog.ret_ne_call ()) hj).mp hf).2⟩

end ServerManager.StepLedger
