import ServerManager.JobOutcome

namespace ServerManager.GuestEvidence

open Interaction PyJson PyText Orm Effects Config ProxmoxVm CloneHygiene Provisioning Storage Calls
open Frames JobCalls JobLedger JobRuns JobOutcome Replay

/-- What the command has printed in the guest, if it ended well there. `qm guest
exec` reports this as a JSON object, in which tabs and line ends are escaped. -/
def guestText (stdout : String) : Option String :=
  match loads stdout with
  | some (.obj fields) =>
      match Dict.get? fields "exitcode", Dict.get? fields "out-data" with
      | some (.int 0), some (.str text) => some text
      | _, _ => none
  | _ => none

/-- The guest's own listing, which it takes the success of both commands to have. -/
def listing : Option CompletedProcess → Option String
  | some out => if out.returncode = 0 then guestText out.stdout else none
  | none => none

/-- The listing was obtained and has the address of the guest alone. -/
def Listed (ip : String) (g : Option CompletedProcess) : Prop :=
  ∃ text, listing g = some text ∧ ipv4Tokens text ≠ [] ∧ ∀ t ∈ ipv4Tokens text, t = ip

/-- What the gate finds in the report as it stands has an address that is not the guest's. -/
def Disputed (ip : String) (g : Option CompletedProcess) : Prop :=
  ∃ t ∈ ipv4Tokens (runText g), t ≠ ip

/-- The configuration that `vm_config` makes of an answer. -/
def readConfig : Except PyExc Json → Json
  | .ok x => x.orElse (.obj [])
  | .error _ => .obj []

def markerOf (fs : Dict) : Json :=
  match ((Dict.get? fs "description").getD .null).orElse (.str "\x7b\x7d") with
  | .str text => (loads text).getD (.obj [])
  | _ => .obj []

def Identified (agent : String) (x : Except PyExc Json) : Prop :=
  ∃ fs ms, readConfig x = .obj fs ∧ markerOf fs = .obj ms ∧
    ((Dict.get? ms "acms_agent_id").getD .null).isStr agent = true

/-- Whenever the command is run for a VM, it shows what the gate is to see, or
the gate has another reason to refuse the VM. -/
def Evident (ip agent : String) (tr : PyTrace) : Prop :=
  ∀ before n v x mid g after, tr = before ++ ⟨.pve (.config n v), x⟩ ::
    (mid ++ ⟨.sys (.guestExec v), g⟩ :: after) →
    (∀ ev ∈ mid, asks ev.1 = none) → Listed ip g ∨ Disputed ip g ∨ ¬ Identified agent x

def unrun (e : Eff) : Prop := ∀ v, e ≠ .sys (.guestExec v)

def Unrun (tr : PyTrace) : Prop := ∀ ev ∈ tr, unrun ev.1

theorem unrun_append {a b : PyTrace} (ha : Unrun a) (hb : Unrun b) : Unrun (a ++ b) := by
  intro ev hev
  rcases List.mem_append.mp hev with hev | hev
  · exact ha ev hev
  · exact hb ev hev

theorem unrun_snoc {past : PyTrace} {ev : Event Eff Ans} (h : Unrun past) (he : unrun ev.1) :
    Unrun (past ++ [ev]) :=
  unrun_append h fun _ hx => List.mem_singleton.mp hx ▸ he

theorem unrun_asks {e : Eff} (h : asks e = none) : unrun e := by
  rintro v rfl
  cases h

theorem unrun_db {c : DbCall} : unrun (.db c) := fun _ h => Eff.noConfusion h

theorem unrun_books {e : Eff} (h : books e) : unrun e := by
  cases e with
  | db c => exact unrun_db
  | pve | kea | sys => exact False.elim h

theorem unrun_filing {e : Eff} (h : filing e) : unrun e := by
  cases e with
  | db c => exact unrun_db
  | pve | kea | sys => exact False.elim h

/-- The configuration was read as `x` before the command ended as `g`. -/
def Gated (x : Except PyExc Json) (g : Option CompletedProcess) (tr : PyTrace) : Prop :=
  ∃ before n v mid after, tr = before ++ ⟨.pve (.config n v), x⟩ ::
    (mid ++ ⟨.sys (.guestExec v), g⟩ :: after) ∧
    Unrun before ∧ (∀ ev ∈ mid, asks ev.1 = none) ∧ Unrun after

variable {x : Except PyExc Json} {g : Option CompletedProcess} {tr : PyTrace}

theorem Gated.snoc {ev : Event Eff Ans} (h : Gated x g tr) (he : unrun ev.1) :
    Gated x g (tr ++ [ev]) := by
  obtain ⟨before, n, v, mid, after, rfl, hb, hm, ha⟩ := h
  exact ⟨before, n, v, mid, after ++ [ev], by simp, hb, hm, unrun_snoc ha he⟩

theorem Gated.append {seg : PyTrace} (h : Gated x g tr) (hs : Unrun seg) :
    Gated x g (tr ++ seg) := by
  obtain ⟨before, n, v, mid, after, rfl, hb, hm, ha⟩ := h
  exact ⟨before, n, v, mid, after ++ seg, by simp, hb, hm, unrun_append ha hs⟩

theorem Gated.eq {x' : Except PyExc Json} {g' : Option CompletedProcess}
    {before mid after : PyTrace} {n : String} {v : Int}
    (h : Gated x g tr) (htr : tr = before ++ ⟨.pve (.config n v), x'⟩ ::
    (mid ++ ⟨.sys (.guestExec v), g'⟩ :: after))
    (hm : ∀ ev ∈ mid, asks ev.1 = none) : x = x' ∧ g = g' := by
  obtain ⟨before₀, n₀, v₀, mid₀, after₀, htr₀, hb₀, hm₀, ha₀⟩ := h
  have hsplit : (before₀ ++ ⟨.pve (.config n₀ v₀), x⟩ :: mid₀) ++ ⟨.sys (.guestExec v₀), g⟩ ::
      after₀ =
      (before ++ ⟨.pve (.config n v), x'⟩ :: mid) ++ ⟨.sys (.guestExec v), g'⟩ :: after := by
    rw [List.append_assoc, List.append_assoc]
    exact htr₀.symm.trans htr
  have hun : Unrun (before₀ ++ ⟨.pve (.config n₀ v₀), x⟩ :: mid₀) := by
    refine unrun_append hb₀ fun ev hev => ?_
    rcases List.mem_cons.mp hev with rfl | hev
    · exact fun v h => Eff.noConfusion h
    · exact unrun_asks (hm₀ ev hev)
  obtain ⟨hl, hev, -⟩ := split_unique (P := fun ev : Event Eff Ans => ¬ unrun ev.1) hsplit
    (fun y hy => not_not.mpr (hun y hy)) (fun y hy => not_not.mpr (ha₀ y hy)) fun h => h v rfl
  obtain ⟨-, hcfg, -⟩ :=
    split_last (P := fun ev : Event Eff Ans => asks ev.1 ≠ none) hl (Option.some_ne_none _)
    (Option.some_ne_none _) (fun y hy => not_not.mpr (hm₀ y hy)) fun y hy => not_not.mpr (hm y hy)
  cases hev
  cases hcfg
  exact ⟨rfl, rfl⟩

theorem Gated.evident_iff (h : Gated x g tr) (ip agent : String) :
    Evident ip agent tr ↔ Listed ip g ∨ Disputed ip g ∨ ¬ Identified agent x := by
  constructor
  · intro he
    obtain ⟨before, n, v, mid, after, htr, -, hm, -⟩ := h
    exact he before n v x mid g after htr hm
  · intro hc before n v x' mid g' after htr hm
    obtain ⟨rfl, rfl⟩ := h.eq htr hm
    exact hc

theorem evident_of_unrun (h : Unrun tr) (ip agent : String) : Evident ip agent tr := by
  intro before n v x mid g after htr hm
  have hev := h ⟨.sys (.guestExec v), g⟩ (by simp [htr])
  exact absurd rfl (hev v)

theorem Gated.only {g' : Option CompletedProcess} {v : Int} (h : Gated x g tr)
    (hm : (⟨.sys (.guestExec v), g'⟩ : Event Eff Ans) ∈ tr) : g' = g := by
  obtain ⟨before, n, v₀, mid, after, rfl, hb, hmid, ha⟩ := h
  rcases List.mem_append.mp hm with hm | hm
  · exact absurd rfl (hb _ hm v)
  rcases List.mem_cons.mp hm with hm | hm
  · cases hm
  rcases List.mem_append.mp hm with hm | hm
  · exact absurd rfl (unrun_asks (hmid _ hm) v)
  rcases List.mem_cons.mp hm with hm | hm
  · cases hm
    rfl
  · exact absurd rfl (ha _ hm v)

theorem Gated.mem (h : Gated x g tr) : ∃ v, (⟨.sys (.guestExec v), g⟩ : Event Eff Ans) ∈ tr := by
  obtain ⟨before, n, v, mid, after, rfl, -⟩ := h
  exact ⟨v, by simp⟩

/-- The gate refuses the VM, or has not come to the command. -/
def Refused (ip agent : String) (tr : PyTrace) : Prop :=
  Unrun tr ∨ ∃ x g, Gated x g tr ∧ (Disputed ip g ∨ ¬ Identified agent x)

def Accepted (ip agent : String) (tr : PyTrace) : Prop :=
  ∃ x g, Gated x g tr ∧ ¬ Disputed ip g ∧ Identified agent x

/-- The configuration was read as `x`, and what came then reads no VM. -/
def Read (n : String) (v : Int) (x : Except PyExc Json) (past s : PyTrace) : Prop :=
  ∃ mid, s = past ++ ⟨.pve (.config n v), x⟩ :: mid ∧ ∀ ev ∈ mid, asks ev.1 = none

section Gate

variable {n : String} {v : Int} {past s : PyTrace} {ip agent : String}

theorem Refused.snoc {ev : Event Eff Ans} (h : Refused ip agent s) (he : unrun ev.1) :
    Refused ip agent (s ++ [ev]) := by
  rcases h with h | ⟨x, g, hg, hr⟩
  · exact .inl (unrun_snoc h he)
  · exact .inr ⟨x, g, hg.snoc he, hr⟩

theorem Accepted.snoc {ev : Event Eff Ans} (h : Accepted ip agent s) (he : unrun ev.1) :
    Accepted ip agent (s ++ [ev]) := by
  obtain ⟨x, g, hg, hr⟩ := h
  exact ⟨x, g, hg.snoc he, hr⟩

theorem Read.refused (h : Read n v x past s) (hp : Unrun past) : Refused ip agent s := by
  obtain ⟨mid, rfl, hm⟩ := h
  refine .inl (unrun_append hp fun ev hev => ?_)
  rcases List.mem_cons.mp hev with rfl | hev
  · exact fun v h => Eff.noConfusion h
  · exact unrun_asks (hm ev hev)

theorem Read.snoc {ev : Event Eff Ans} (h : Read n v x past s) (he : asks ev.1 = none) :
    Read n v x past (s ++ [ev]) := by
  obtain ⟨mid, rfl, hm⟩ := h
  refine ⟨mid ++ [ev], by simp, fun y hy => ?_⟩
  rcases List.mem_append.mp hy with hy | hy
  · exact hm y hy
  · rw [List.mem_singleton.mp hy]
    exact he

theorem Read.gated (h : Read n v x past s) (hp : Unrun past) (g : Option CompletedProcess) :
    Gated x g (s ++ [⟨.sys (.guestExec v), g⟩]) := by
  obtain ⟨mid, rfl, hm⟩ := h
  exact ⟨past, n, v, mid, [], by simp, hp, hm, fun _ h => absurd h List.not_mem_nil⟩

theorem require_log (checks : List Check) (name detail : String) (passed : Bool)
    {Q : PyTrace → List Check → Prop}
    {X : PyTrace → PyExc → Prop} (hq : passed = true → ∀ cs, Q s cs)
    (hx : passed = false → ∀ e, X s e) :
    Sat log (fun _ _ => True) Q X (CloneHygiene.require checks name passed detail) s := by
  unfold CloneHygiene.require
  cases passed with
  | true => exact hq rfl _
  | false => exact hx rfl _

theorem vmConfig_log (n : String) (v : Int) (past : PyTrace) {X : PyTrace → PyExc → Prop} :
    Sat log (fun _ _ => True) (fun s cfg => ∃ x, Read n v x past s ∧ cfg = readConfig x) X
      (vmConfig n v) past := by
  refine (sat_tryCatch _ _ _).mpr ((sat_bind _ _ _).mpr ((sat_pve _).mpr ⟨trivial, ?_⟩))
  rintro (e | y) s rfl
  · exact ⟨.error e, ⟨[], rfl, fun _ h => absurd h List.not_mem_nil⟩, rfl⟩
  · exact ⟨.ok y, ⟨[], rfl, fun _ h => absurd h List.not_mem_nil⟩, rfl⟩

theorem guestMarker_log (cfg : Json) {X : PyTrace → PyExc → Prop} (hx : ∀ e, X s e) :
    Sat log (fun _ _ => True) (fun s' m => s' = s ∧ ∃ fs, cfg = .obj fs ∧ m = markerOf fs) X
      (guestMarker cfg) s := by
  unfold guestMarker dictGet
  cases cfg with
  | obj fs =>
      refine (sat_bind _ _ _).mpr ((sat_pure _ _).mpr ?_)
      unfold markerOf
      split
      next text ht => exact ⟨rfl, fs, rfl, by simp [ht]⟩
      next hno =>
          refine ⟨rfl, fs, rfl, ?_⟩
          split
          next text ht => exact absurd ht (hno text)
          · rfl
  | null | bool | int | float | str | arr => exact hx _

theorem still_log {α : Type} {p : Py α} {X : PyTrace → PyExc → Prop}
    (ho : ∀ φ : Eff → Prop, Only φ p) (hx : ∀ e, X s e) :
    Sat log (fun _ _ => True) (fun s' _ => s' = s) X p s := by
  have hkeep :=
    (ho fun _ => False).keeps (T := log) (I := fun s' => s' = s) (fun _ _ _ _ h _ _ => False.elim h)
    rfl
  refine (hkeep.weaken fun _ _ _ => trivial).mono (fun _ _ h => h) ?_
  rintro s' e rfl
  exact hx e

theorem verifyAddress_log (checks : List Check) (others : List String) (hp : Unrun past)
    (hr : Read n v x past s) :
    Sat log (fun _ _ => True) (fun s _ => ∃ g, Gated x g s ∧ ¬ Disputed ip g)
      (fun s _ => Refused ip agent s)
      (verifyAddress checks v ip others) s := by
  unfold verifyAddress guestNetplanStaticIps
  refine (sat_bind _ _ _).mpr ⟨trivial, fun a s₁ hs₁ => (sat_orRaise a).mpr ?_⟩
  have hr₁ : Read n v x past s₁ := hs₁ ▸ hr.snoc rfl
  cases a with
  | error e => exact hr₁.refused hp
  | ok leased =>
      refine (sat_bind _ _ _).mpr (require_log _ _ _ _ (fun _ cs => ?_) fun _ _ => hr₁.refused hp)
      refine (sat_bind _ _ _).mpr ((sat_bind _ _ _).mpr
        ⟨trivial, fun g s₂ hs₂ => (sat_pure _ _).mpr ?_⟩)
      have hg : Gated x g s₂ := hs₂ ▸ hr₁.gated hp g
      refine require_log _ _ _ _ (fun hpass _ => ⟨g, hg, ?_⟩) fun hfail _ =>
        .inr ⟨x, g, hg, .inl ?_⟩
      · rintro ⟨t, ht, hne⟩
        have hm : t ∈ (ipv4Tokens (runText g)).filter (· != ip) :=
          List.mem_filter.mpr ⟨ht, by simpa using hne⟩
        rw [List.isEmpty_iff.mp hpass] at hm
        cases hm
      · simpa [Disputed] using hfail

theorem verifyCloneIdentity_log (hostname mac : String) (guestId : Json) (others : List String)
    (hip : ip ≠ "")
    (hp : Unrun past) (hr : Read n v x past s)
    (hid : guestId.isStr agent = true ↔ Identified agent x) :
    Sat log (fun _ _ => True) (fun s _ => Accepted ip agent s) (fun s _ => Refused ip agent s)
      (verifyCloneIdentity v hostname mac ip agent guestId others) s := by
  have hno : Refused ip agent s := hr.refused hp
  unfold verifyCloneIdentity
  refine (sat_bind _ _ _).mpr (require_log _ _ _ _ (fun _ cs => ?_) fun _ _ => hno)
  refine (sat_bind _ _ _).mpr (require_log _ _ _ _ (fun _ cs => ?_) fun _ _ => hno)
  refine (sat_bind _ _ _).mpr (require_log _ _ _ _ (fun _ cs => ?_) fun _ _ => hno)
  rw [if_pos hip]
  refine Sat.seq (verifyAddress_log cs others hp hr) fun s cs hs => ?_
  obtain ⟨g, hg, hc⟩ := hs
  refine require_log _ _ _ _ (fun hpass _ => ⟨x, g, hg, hc, hid.mp hpass⟩) fun hfail _ =>
    .inr ⟨x, g, hg, .inr fun h => ?_⟩
  rw [hid.mpr h] at hfail
  cases hfail

theorem runCloneHygiene_log (runtime : AgentRuntime) (n : String) (v : Int) (hip : ip ≠ "")
    (hp : Unrun past) :
    Sat log (fun _ _ => True) (fun s _ => Accepted ip runtime.acmsAgentId s)
      (fun s _ => Refused ip runtime.acmsAgentId s)
      (runCloneHygiene runtime n v ip) past := by
  unfold runCloneHygiene
  refine Sat.seq (vmConfig_log n v past) fun s cfg hs => ?_
  obtain ⟨x, hr, rfl⟩ := hs
  have hno : ∀ e : PyExc, Refused ip runtime.acmsAgentId s := fun _ => hr.refused hp
  refine Sat.seq (still_log (fun φ => only_net0Mac _) hno) fun s' mac hs' => ?_
  subst hs'
  refine Sat.seq (guestMarker_log _ hno) fun s' marker hs' => ?_
  obtain ⟨rfl, fs, hfs, rfl⟩ := hs'
  refine Sat.seq (Q := fun s _ => Read n v x past s) ?_ fun s others hr => ?_
  · refine (sat_bind _ _ _).mpr ((sat_bind _ _ _).mpr
      ⟨trivial, fun a s₁ hs₁ => (sat_orRaise a).mpr ?_⟩)
    have hr₁ : Read n v x past s₁ := hs₁ ▸ hr.snoc rfl
    cases a with
    | error e => exact hr₁.refused hp
    | ok u => exact ⟨trivial, fun rows s₂ hs₂ => hs₂ ▸ hr₁.snoc rfl⟩
  refine Sat.seq (Q := fun s' m => s' = s ∧ ∃ ms, markerOf fs = .obj ms ∧
    m = (Dict.get? ms "acms_agent_id").getD .null)
    ?_ fun s' guestId hs' => ?_
  · unfold dictGet
    split
    next ms hms => exact ⟨rfl, ms, hms, rfl⟩
    · exact hr.refused hp
  obtain ⟨rfl, ms, hms, rfl⟩ := hs'
  have hid : ((Dict.get? ms "acms_agent_id").getD .null).isStr runtime.acmsAgentId = true ↔
      Identified runtime.acmsAgentId x := by
    refine ⟨fun h => ⟨fs, ms, hfs, hms, h⟩, ?_⟩
    rintro ⟨fs', ms', hfs', hms', h⟩
    rw [hfs] at hfs'
    cases hfs'
    rw [hms] at hms'
    cases hms'
    exact h
  refine Sat.seq (Q := fun s report => (∀ cs, report = .ok cs → Accepted ip runtime.acmsAgentId s) ∧
    ∀ e, report = .error e → Refused ip runtime.acmsAgentId s) ?_ fun s report hs => ?_
  · refine (sat_tryCatch _ _ _).mpr (Sat.seq ((verifyCloneIdentity_log _ _ _ _ hip hp hr hid).mono
      (fun _ _ h => h) ?_)
      fun s cs hs => ⟨fun _ _ => hs, nofun⟩)
    intro s e hs
    change Sat _ _ _ _ (ite _ _ _) _
    split
    · exact ⟨nofun, fun _ _ => hs⟩
    · exact hs
  cases report with
  | ok cs =>
      refine (sat_bind _ _ _).mpr ⟨trivial, fun t s₁ hs₁ => ⟨trivial, fun _ s₂ hs₂ => ?_⟩⟩
      have h₁ : Accepted ip runtime.acmsAgentId s₁ :=
        hs₁ ▸ (hs.1 cs rfl).snoc fun _ h => Eff.noConfusion h fun h => SysCall.noConfusion h
      exact hs₂ ▸ h₁.snoc unrun_db
  | error e =>
      refine (sat_bind _ _ _).mpr ⟨trivial, fun _ s₁ hs₁ =>
        (sat_bind _ _ _).mpr ⟨trivial, fun _ s₂ hs₂ => ?_⟩⟩
      have h₁ : Refused ip runtime.acmsAgentId s₁ := hs₁ ▸ (hs.2 e rfl).snoc unrun_db
      exact hs₂ ▸ h₁.snoc unrun_db

end Gate

def ipOf (L : Ledger) : Option Json := Dict.get? L.now.row.ownershipMeta "ip"

def Passed (agent : String) (s : Ledger × PyTrace) : Prop :=
  ∃ ip, ipOf s.1 = some (.str ip) ∧ Accepted ip agent s.2

def Barred (agent : String) (s : Ledger × PyTrace) : Prop :=
  Unrun s.2 ∨ ∃ ip, ipOf s.1 = some (.str ip) ∧ Refused ip agent s.2

def sparesIp (jid rid : Uuid) (e : Eff) : Prop := ∀ L : Ledger, ipOf (L.step jid rid e) = ipOf L

variable {jid rid : Uuid}

theorem sparesIp_remote {e : Eff} (h : ∀ c, e ≠ .db c) : sparesIp jid rid e := fun L => by
  rw [ledger_remote h]

theorem sparesIp_observes {e : Eff} (h : observes e) : sparesIp jid rid e :=
  sparesIp_remote fun c hc => by subst hc; exact h

theorem sparesIp_books {e : Eff} (h : books e) : sparesIp jid rid e := by
  intro L
  unfold books at h
  split at h
  · rfl
  · rfl
  · rfl
  · rfl
  · exact False.elim h

theorem sparesIp_note {key : String} (h : "ip" ≠ key) (v : Json) :
    sparesIp jid rid (noteCall rid key v) := fun _ =>
  Dict.get?_set_of_ne _ _ h

theorem sparesIp_allows (jid rid : Uuid) (ns as : List String) :
    Allows (sparesIp jid rid) (fun _ _ => True) ns as where
  aside _ he _ := sparesIp_observes he
  read _ he _ _ _ _ := sparesIp_observes he
  book _ he := sparesIp_books he
  step _ _ := ⟨fun _ => rfl, fun _ => rfl⟩
  event _ _ := fun _ => rfl

theorem unrun_allows (ns as : List String) : Allows unrun (fun n _ => n ≠ none) ns as where
  aside _ _ ha := unrun_asks ha
  read e he n v ha hn := by
    rintro v rfl
    cases ha
    exact hn rfl
  book _ he := unrun_books he
  step _ _ := ⟨unrun_db, unrun_db⟩
  event _ _ := unrun_db

section Stages

variable {s : Ledger × PyTrace} {agent : String} {α : Type} {p : Py α}

theorem unrun_sat (ho : Only unrun p) (hs : Unrun s.2) :
    Sat (traced (booked jid rid)) (fun _ _ => True) (fun s _ => Unrun s.2)
      (fun s _ => Barred agent s) p s :=
  (sat_kept jid rid (I := fun s => Unrun s.2) ho (fun _ _ _ _ he hi => unrun_snoc hi he) hs).mono
    (fun _ _ h => h)
    fun _ _ h => .inl h

theorem passed_sat {p : Py Unit} (h : Sat (traced (booked jid rid)) (fun _ _ => True)
    (fun _ _ => True) (fun _ _ => False) p s)
    (ho : Only unrun p) (hi : Only (sparesIp jid rid) p) (hs : Passed agent s) :
    Sat (traced (booked jid rid)) (fun _ _ => True) (fun s _ => Passed agent s) (fun _ _ => False) p
      s := by
  obtain ⟨ip, hip, hacc⟩ := hs
  have h₁ :=
    sat_kept jid rid (I := fun s => Accepted ip agent s.2) ho (fun _ _ _ _ he hi => hi.snoc he) hacc
  have h₂ :=
    sat_kept jid rid (I := fun s => ipOf s.1 = some (.str ip)) hi
      (fun L _ _ _ he hi => (he L).trans hi) hip
  refine ((h.and (h₁.and h₂)).weaken fun _ _ _ => trivial).mono ?_ fun _ _ h => h.1
  rintro s u ⟨-, hacc, hip⟩
  exact ⟨ip, hip, hacc⟩

theorem runCloneHygiene_gate (runtime : AgentRuntime) (n : String) (v : Int) {ip : String}
    (hk : runtime.runtimeId = rid)
    (hne : ip ≠ "") (hip : ipOf s.1 = some (.str ip)) (hs : Unrun s.2) :
    Sat (traced (booked jid rid)) (fun _ _ => True) (fun s _ => Passed runtime.acmsAgentId s)
      (fun s _ => Barred runtime.acmsAgentId s) (runCloneHygiene runtime n v ip) s := by
  have hspare : Only (sparesIp jid rid) (runCloneHygiene runtime n v ip) := by
    refine only_runCloneHygiene _ _ _ _ (sparesIp_allows jid rid [] _) trivial trivial (fun x => ?_)
      fun _ => rfl
    rw [hk]
    exact sparesIp_note (by decide) x
  have hkept :=
    sat_kept jid rid (I := fun s => ipOf s.1 = some (.str ip)) hspare
      (fun L _ _ _ he hi => (he L).trans hi) hip
  have hgate := (runCloneHygiene_log runtime n v hne hs).traced (T := booked jid rid) s.1
  refine ((hkept.and hgate).weaken fun _ _ _ => trivial).mono ?_ ?_
  · rintro s u ⟨hip, hacc⟩
    exact ⟨ip, hip, hacc⟩
  · rintro s e ⟨hip, href⟩
    exact .inr ⟨ip, hip, href⟩

theorem bootVm_gate (runtime : AgentRuntime) (n : String) (v : Int) (hk : runtime.runtimeId = rid)
    (hs : Unrun s.2) :
    Sat (traced (booked jid rid)) (fun _ _ => True) (fun s _ => Passed runtime.acmsAgentId s)
      (fun s _ => Barred runtime.acmsAgentId s) (bootVm jid runtime n v) s := by
  have hA := fun ns as => unrun_allows ns as
  unfold bootVm
  refine Sat.seq (unrun_sat (only_recordStep _ _ _ _ _ (hA _ [])) hs) fun s _ hs => ?_
  refine Sat.seq (unrun_sat (Only.bind (only_pve fun _ h => Eff.noConfusion h) fun _ => only_pure _)
    hs) fun s _ hs => ?_
  refine Sat.seq (unrun_sat (only_waitForIp _ _ _ (hA [] []) (Option.some_ne_none _)) hs)
    fun s ip hs => ?_
  cases hf : ip.filter (· != "") with
  | none => exact .inl hs
  | some ip' =>
      have hne : ip' ≠ "" := by simpa using (Option.filter_eq_some_iff.mp hf).2
      refine Sat.seq (Q := fun s _ => ipOf s.1 = some (.str ip') ∧ Unrun s.2) ?_ fun s _ hs => ?_
      · obtain ⟨L, past⟩ := s
        rw [hk]
        exact setMeta_books ⟨Dict.get?_set_self _ _ _, unrun_snoc hs unrun_db⟩
      have hstep : ∀ (seq : Nat) (step : String) (state : StepState) (detail : Option String) (s :
          Ledger × PyTrace),
          ipOf s.1 = some (.str ip') ∧ Unrun s.2 → Sat (traced (booked jid rid)) (fun _ _ => True)
            (fun s _ => ipOf s.1 = some (.str ip') ∧ Unrun s.2)
              (fun s _ => Barred runtime.acmsAgentId s)
            (recordStep jid seq step state detail) s := by
        rintro seq step state detail s ⟨hip, hun⟩
        have hkept := sat_kept jid rid (I := fun s => ipOf s.1 = some (.str ip'))
          (only_recordStep jid seq step state detail (sparesIp_allows jid rid _ []))
            (fun L _ _ _ he hi => (he L).trans hi) hip
        refine ((hkept.and (unrun_sat (only_recordStep _ _ _ _ _ (hA _ [])) hun)).weaken
          fun _ _ _ => trivial).mono
          (fun _ _ h => h) fun _ _ h => h.2
      refine Sat.seq (hstep _ _ _ _ s hs) fun s _ hs => Sat.seq (hstep _ _ _ _ s hs) fun s _ hs =>
        ?_
      refine Sat.seq (runCloneHygiene_gate runtime n v hk hne hs.1 hs.2) fun s _ hs => ?_
      exact (passed_sat (recordStep_books _ _ _ _ fun _ _ => trivial)
        (only_recordStep _ _ _ _ _ (hA _ []))
        (only_recordStep _ _ _ _ _ (sparesIp_allows jid rid _ [])) hs).mono (fun _ _ h => h) fun _ _ h => False.elim h

theorem unrun_deploys (rid : Uuid) (spec : VMSpec) (n : String) (v : Int) :
    Deploys unrun rid spec n v where
  config _ := fun _ h => Eff.noConfusion h
  start := fun _ h => Eff.noConfusion h
  kea _ := fun _ h => Eff.noConfusion h
  mac _ := unrun_db
  reserved _ := unrun_db
  notes _ _ _ := unrun_db
  others := unrun_db

theorem deploy_gate (cfg : Settings) (runtime : AgentRuntime) (n : String) (y : Int × VMSpec)
    (hk : runtime.runtimeId = rid)
    (hs : Unrun s.2) :
    Sat (traced (booked jid rid)) (fun _ _ => True) (fun s _ => Passed runtime.acmsAgentId s)
      (fun s _ => Barred runtime.acmsAgentId s) (deploy cfg jid runtime n y) s := by
  have hA := fun ns as => unrun_allows ns as
  have hD := unrun_deploys runtime.runtimeId y.2 n y.1
  have hboot : ∀ s : Ledger × PyTrace, Unrun s.2 → Sat (traced (booked jid rid)) (fun _ _ => True)
      (fun s _ => Passed runtime.acmsAgentId s) (fun s _ => Barred runtime.acmsAgentId s)
      (do
        bootVm jid runtime n y.1
        pure (y.1, n)) s := fun s hs => Sat.seq (bootVm_gate runtime n y.1 hk hs) fun s _ hs => hs
  unfold deploy bringUp
  refine Sat.seq (unrun_sat (only_configureVm _ _ _ _ (hA _ []) (Option.some_ne_none _) hD.config
    hD.mac) hs)
    fun s om hs => ?_
  split
  · exact Sat.seq (unrun_sat (only_reserveSandbox _ _ _ _ _ _ (hA _ _) (Option.some_ne_none _)
      hD.kea hD.reserved) hs)
      fun s _ hs => hboot s hs
  · exact hboot s hs

theorem finish_gate (runtime : AgentRuntime) (v : Int) (n : String) (hk : runtime.runtimeId = rid)
    (hs : Passed agent s) :
    Sat (traced (booked jid rid)) (fun _ _ => True) (fun s _ => Passed agent s) (fun _ _ => False)
      (do
        bootstrapHermes jid runtime
        modify runtime.runtimeId (placed v n)
        modifyJob jid jobDone
        event runtime.runtimeId "provision_complete" "ok" [("vmid", .int v), ("node", .str n)]
        commit) s := by
  have hA := fun ns as => unrun_allows ns as
  have hI := fun ns as => sparesIp_allows jid rid ns as
  refine passed_sat ?_ ?_ ?_ hs
  · refine Sat.seq (bootstrapHermes_sure runtime hk) fun s _ _ => ?_
    refine (sat_bind _ _ _).mpr ⟨trivial, fun _ s _ =>
      (sat_bind _ _ _).mpr ⟨trivial, fun _ s _ => ?_⟩⟩
    refine (sat_bind _ _ _).mpr ⟨trivial, fun _ s _ => ?_⟩
    obtain ⟨L, past⟩ := s
    exact commit_books fun _ _ => trivial
  · refine Only.bind (only_bootstrapHermes _ _ (hA _ []) (fun _ _ _ => unrun_db)
      (fun _ _ => unrun_db) unrun_db) fun _ => ?_
    refine Only.bind (only_call unrun_db fun _ => only_ret _) fun _ => ?_
    refine Only.bind (only_call unrun_db fun _ => only_ret _) fun _ => ?_
    exact Only.bind (only_event _ _ _ _ (hA [] _)) fun _ => only_commit unrun_db unrun_db
  · have hnote : ∀ key ∈ bridgeKeys, ∀ x, sparesIp jid rid (noteCall runtime.runtimeId key x) := by
      intro key hkey x
      rw [hk]
      refine sparesIp_note ?_ x
      rintro rfl
      simp [bridgeKeys] at hkey
    refine Only.bind (only_bootstrapHermes _ _ (hI _ []) hnote (fun _ _ _ => rfl) fun _ => rfl)
      fun _ => ?_
    refine Only.bind (only_call (fun _ => rfl) fun _ => only_ret _) fun _ => ?_
    refine Only.bind (only_call (fun _ => rfl) fun _ => only_ret _) fun _ => ?_
    exact Only.bind (only_event _ _ _ _ (hI [] _)) fun _ => only_commit (fun _ => rfl) fun _ => rfl

theorem completeJob_gate (cfg : Settings) (runtime : AgentRuntime) (hk : runtime.runtimeId = rid)
    (hs : Unrun s.2) :
    Sat (traced (booked jid rid)) (fun _ _ => True) (fun s _ => Passed runtime.acmsAgentId s)
      (fun s _ => Barred runtime.acmsAgentId s) (completeJob cfg jid runtime) s := by
  have hA := fun ns as => unrun_allows ns as
  unfold completeJob
  rw [provisionVm_eq]
  refine Sat.seq (Q := fun s _ => Passed runtime.acmsAgentId s) ?_ fun s x hs => ?_
  · refine Sat.seq (unrun_sat (only_validate _ _ (hA _ [])) hs) fun s _ hs => ?_
    refine Sat.seq (unrun_sat (only_placeVm _ _ _ (hA _ _)) hs) fun s node hs => ?_
    refine Sat.seq (unrun_sat (only_cloneVm _ _ _ _ _ (hA _ _) (Option.some_ne_none _)
      (fun _ => Option.some_ne_none _)
      fun _ _ _ h => Eff.noConfusion h) hs) fun s x hs => ?_
    exact deploy_gate cfg runtime node x hk hs
  · exact (finish_gate runtime x.1 x.2 hk hs).mono (fun _ _ h => h) fun _ _ h => False.elim h

end Stages

variable {R : Type} {rem : Remote R} {i : Nat} {cfg : Settings} {req : ProvisionRequest}
  {requestedBy authority : String}
  {job : ProvisioningJob} {w' : World R} {q : Py Unit}

/-- The listing of the guest's addresses was obtained, and agrees with the address in the row. -/
def Obtained (r : AgentRuntime) (tr : PyTrace) : Prop :=
  ∃ v g ip, (⟨.sys (.guestExec v), g⟩ : Event Eff Ans) ∈ tr ∧
    Dict.get? r.ownershipMeta "ip" = some (.str ip) ∧ Listed ip g

theorem accepted_iff {ip agent : String} {r : AgentRuntime}
    (hip : Dict.get? r.ownershipMeta "ip" = some (.str ip))
    (h : Accepted ip agent tr) : Obtained r tr ↔ Evident ip agent tr := by
  obtain ⟨x, g, hg, hc, hid⟩ := h
  rw [hg.evident_iff]
  constructor
  · rintro ⟨v, g', ip', hm, hip', hl⟩
    rw [hip] at hip'
    cases hip'
    rw [hg.only hm] at hl
    exact .inl hl
  · rintro (hl | h | h)
    · obtain ⟨v, hm⟩ := hg.mem
      exact ⟨v, g, ip, hm, hip, hl⟩
    · exact absurd h hc
    · exact absurd hid h

theorem refused_evident {ip agent : String} {seg : PyTrace} (h : Refused ip agent tr)
    (hs : Unrun seg) :
    Evident ip agent (tr ++ seg) := by
  rcases h with h | ⟨x, g, hg, hr⟩
  · exact evident_of_unrun (unrun_append h hs) ip agent
  · exact ((hg.append hs).evident_iff ip agent).mpr (.inr hr)

/-- A job is DONE only on evidence exactly when the command that lists the
guest's addresses gives it, or else the gate refuses the VM. -/
theorem done_on_evidence_iff (hx : JobRun rem i cfg req requestedBy authority job tr w' q)
    (hq : ∀ e k, q ≠ .call e k) {j : ProvisioningJob} (hj : w'.db.job? job.jobId = some j)
    {r : AgentRuntime}
    (hr : w'.db.runtime? job.runtimeId = some r) :
    (j.state = .done → Obtained r tr) ↔
      ∀ ip, Dict.get? r.ownershipMeta "ip" = some (.str ip) → Evident ip req.acmsAgentId tr := by
  obtain ⟨L, hL, he⟩ := jobRun_settled hx hq (Q := fun _ s => Passed req.acmsAgentId s)
    (X := fun _ s _ => Barred req.acmsAgentId s)
    fun jid rid t t' pre hpre => by
      have hag : (submittedRow cfg req rid t t').acmsAgentId = req.acmsAgentId := by
        unfold submittedRow
        split
        · rfl
        · rfl
      rw [← hag]
      exact completeJob_gate cfg _ (submittedRow_blank cfg req rid t t').1 fun ev hev =>
        unrun_filing (hpre ev hev)
  generalize job.runtimeId = rid at hL he hr
  have hkept : L.kept.row = r := Option.some.inj (hL.row.symm.trans hr)
  have hjob : L.kept.job = j := Option.some.inj (hL.job.symm.trans hj)
  rcases he with ⟨⟨n, v, ip₀, x, hset, hc, -⟩, ip, hip, hacc⟩ | ⟨L₀, past, x, seg, ⟨-, hbar⟩, hseg,
    hset⟩
  · have hL' : L = .settled x := hset
    have hdone : j.state = .done := by
      rw [← hjob, hL']
      exact hc.job
    have hipr : Dict.get? r.ownershipMeta "ip" = some (.str ip) := by
      rw [← hkept, hL']
      have hnow : ipOf L = some (.str ip) := hip
      rw [hL'] at hnow
      exact hnow
    rw [forall_prop_of_true hdone, accepted_iff hipr hacc]
    constructor
    · intro h ip' hip'
      rw [hipr] at hip'
      cases hip'
      exact h
    · exact fun h => h ip hipr
  · obtain ⟨rfl, rfl⟩ := Prod.mk.inj hset
    have hfail : j.state = .failed := by
      rw [← hjob]
      rfl
    have hseg' : Unrun seg := fun ev hev => unrun_filing (hseg ev hev)
    refine iff_of_true (fun h => ?_) fun ip' hip' => ?_
    · rw [hfail] at h
      cases h
    · rcases hbar with hun | ⟨ip, hip, href⟩
      · exact evident_of_unrun (unrun_append hun hseg') ip' _
      · have hipr : Dict.get? r.ownershipMeta "ip" = some (.str ip) := by
          rw [← hkept]
          exact hip
        rw [hipr] at hip'
        cases hip'
        exact refused_evident href hseg'

def noListing (tr : PyTrace) : Bool :=
  tr.all fun
    | ⟨.sys (.guestExec _), g⟩ => Option.isNone (g : Option CompletedProcess)
    | _ => true

theorem noListing_not_obtained (h : noListing tr = true) (r : AgentRuntime) : ¬ Obtained r tr := by
  rintro ⟨v, g, ip, hm, -, text, htext, -⟩
  have hev := List.all_eq_true.mp h _ hm
  cases g with
  | none => cases htext
  | some out => cases hev

theorem workerRun_no_evidence :
    ∃ (job : ProvisioningJob) (tr : PyTrace) (m : Machine Unit) (j : ProvisioningJob) (r :
      AgentRuntime),
      JobRun Remote.any 0 {} workerRequest "acms" "sprint_execution_context" job tr
        (m.world fun _ => ()) (.ret ()) ∧
      m.db.job? job.jobId = some j ∧ m.db.runtime? job.runtimeId = some r ∧ j.state = .done ∧
        ¬ Obtained r tr := by
  have hrun : settles workerRun (fun job tr m => leaves .done job m &&
      (m.db.runtime? job.runtimeId).isSome &&
      noListing tr) = true := by
    decide +kernel
  obtain ⟨job, tr, m, hx, htest⟩ := settles_run hrun
  simp only [Bool.and_eq_true] at htest
  obtain ⟨⟨hst, hr⟩, hno⟩ := htest
  obtain ⟨j, hj, hst⟩ := leaves_state hst
  obtain ⟨r, hr⟩ := Option.isSome_iff_exists.mp hr
  exact ⟨job, tr, m, j, r, rehearse_run oneNode.follows_any hx rfl known_blank, hj, hr, hst,
    noListing_not_obtained hno r⟩

/-- The report of a guest that shows its address, and no other. -/
def addressReport : CompletedProcess :=
  ⟨0, "\x7b\"exitcode\":0,\"exited\":1,\"out-data\":\"\\tinet 10.0.20.31/24\"\x7d", ""⟩

def listingGuest : Oracle Unit := { oneNode with guest := fun _ _ => some addressReport }

theorem listing_listed : Listed "10.0.20.31" (some addressReport) := by
  have htext : listing (some addressReport) = some "\tinet 10.0.20.31/24" := by decide +kernel
  have htok : ipv4Tokens "\tinet 10.0.20.31/24" = ["10.0.20.31"] := by decide +kernel
  refine ⟨_, htext, ?_, ?_⟩
  · rw [htok]
    exact List.cons_ne_nil _ _
  · rw [htok]
    exact fun t ht => List.mem_singleton.mp ht

/-- A tab before another address hides it from the gate and not from the listing. -/
example : ipv4Tokens "inet 10.0.20.31/24\\t10.0.20.203" = ["10.0.20.31"] ∧
    ipv4Tokens "inet 10.0.20.31/24\t10.0.20.203" = ["10.0.20.31", "10.0.20.203"] := by
  decide +kernel

/-- The address of the row and the output of the command, as `listingGuest` gives them. -/
def listsAddress (job : ProvisioningJob) (tr : PyTrace) (m : Machine Unit) : Bool :=
  (match (m.db.runtime? job.runtimeId).bind fun r => Dict.get? r.ownershipMeta "ip" with
    | some (.str ip) => ip = "10.0.20.31"
    | _ => false) &&
  tr.all fun
    | ⟨.sys (.guestExec _), g⟩ =>
        match (g : Option CompletedProcess) with
        | some out => out.returncode = 0 && out.stdout = addressReport.stdout && out.stderr = ""
        | none => false
    | _ => true

theorem listingGuest_obtained :
    ∃ job tr m j r, rehearse listingGuest {} workerRequest blank = some (job, tr, m, .ret ()) ∧
      m.db.job? job.jobId = some j ∧ m.db.runtime? job.runtimeId = some r ∧ j.state = .done ∧
        Obtained r tr := by
  have hrun : settles (rehearse listingGuest {} workerRequest blank)
      (fun job tr m => leaves .done job m &&
      listsAddress job tr m) = true := by
    decide +kernel
  obtain ⟨job, tr, m, hx, htest⟩ := settles_run hrun
  obtain ⟨hst, hlist⟩ := (Bool.and_eq_true _ _).mp htest
  obtain ⟨j, hj, hst⟩ := leaves_state hst
  obtain ⟨hip, hall⟩ := (Bool.and_eq_true _ _).mp hlist
  have hx' := rehearse_run listingGuest.follows_any hx rfl known_blank
  cases hr : m.db.runtime? job.runtimeId with
  | none =>
      rw [hr] at hip
      cases hip
  | some r =>
      refine ⟨job, tr, m, j, r, hx, hj, hr, hst,
        (done_on_evidence_iff hx' (Prog.ret_ne_call ()) hj hr).mpr (fun ip hget => ?_) hst⟩
      have haddr : ip = "10.0.20.31" := by
        rw [hr, Option.bind_some, hget] at hip
        exact of_decide_eq_true hip
      intro before n v x mid g after htr hm
      have hev := List.all_eq_true.mp hall ⟨.sys (.guestExec v), g⟩ (by simp [htr])
      have hg : g = some addressReport := by
        cases g with
        | none => cases hev
        | some out =>
            obtain ⟨code, stdout, stderr⟩ := out
            simp only [Bool.and_eq_true, decide_eq_true_eq] at hev
            obtain ⟨⟨rfl, rfl⟩, rfl⟩ := hev
            rfl
      rw [haddr, hg]
      exact .inl listing_listed

end ServerManager.GuestEvidence
