import ServerManager.Calls

namespace ServerManager.OwnershipGate

open Interaction PyJson Orm Effects Config ProxmoxVm Reconciliation Api Calls

/-- What a verification of `(node, vmid)` for a row has established when it
returned normally; `seg` lists the calls it made. -/
structure Owned (protectedVmids : List Int) (n : String) (v : Int) (r : AgentRuntime)
    (seg : PyTrace) : Prop where
  returned : Exec anything () (verifyOwnership protectedVmids n v r) seg () (.ret ())
  unprotected : v ∉ protectedVmids
  created : r.createdByAgentRuntimeManager = true
  marked : ∃ cfg text marker, ⟨.pve (.config n v), .ok (.obj cfg)⟩ ∈ seg ∧
    Dict.get? cfg "description" = some (.str text) ∧ loads text = some (.obj marker) ∧
    ((Dict.get? marker "created_by_agent_runtime_manager").any Json.truthy = true) ∧
    (Dict.get? marker "server_runtime_id").map Json.pyStr = some r.runtimeId.str ∧
    ∀ k ∈ ownershipRequiredKeys, Dict.has marker k = true

/-- The row an operation is at work on: the one it has read last. -/
def Loaded (r : AgentRuntime) (past : PyTrace) : Prop :=
  ∃ rid before after, past = before ++ ⟨.db (.getRuntime rid), some r⟩ :: after ∧
    ∀ ev ∈ after, ¬ loadsRow ev.1

/-- The VM has been verified for the row the operation is at work on. -/
def Gated (protectedVmids : List Int) (n : String) (v : Int) (past : PyTrace) : Prop :=
  ∃ r before seg after, past = before ++ seg ++ after ∧ Loaded r before ∧
    r.node = some n ∧ r.vmid = some v ∧ Owned protectedVmids n v r seg ∧
    ∀ ev ∈ seg ++ after, ¬ loadsRow ev.1

/-- Power calls only behind the gate, and destroy calls only where `b` allows them. -/
def Gate (protectedVmids : List Int) (b : Prop) (past : PyTrace) (e : Eff) : Prop :=
  (∀ n v, target e = some (n, v) → Gated protectedVmids n v past) ∧ (destroys e → b)

def calm (e : Eff) : Prop := ¬ loadsRow e ∧ target e = none

theorem calm_of_observes {e : Eff} (h : observes e) : calm e := by
  unfold observes at h
  split at h
  all_goals first | exact False.elim h | exact ⟨id, rfl⟩

variable {protectedVmids : List Int} {b : Prop}

theorem gate_of_calm {e : Eff} (h : calm e) (past : PyTrace) : Gate protectedVmids b past e := by
  refine ⟨fun n v he => ?_, fun hd => ?_⟩
  · rw [h.2] at he
    cases he
  · have ht := h.2
    unfold destroys at hd
    split at hd
    · cases ht
    · exact False.elim hd

/-- A fact about the past that lasts until the next row is read. -/
def Stable (I : PyTrace → Prop) : Prop := ∀ past ev, I past → ¬ loadsRow ev.1 → I (past ++ [ev])

theorem loaded_unique {past : PyTrace} {r r' : AgentRuntime} (h : Loaded r past)
    (h' : Loaded r' past) : r = r' := by
  obtain ⟨k, before, after, rfl, ha⟩ := h
  obtain ⟨k', before', after', heq, ha'⟩ := h'
  rcases List.append_eq_append_iff.mp heq with ⟨mid, -, hm⟩ | ⟨mid, -, hm⟩
  · cases mid with
    | nil =>
        cases hm
        rfl
    | cons x mid =>
        obtain ⟨-, haft⟩ := List.cons.inj hm
        refine absurd trivial (ha ⟨.db (.getRuntime k'), some r'⟩ ?_)
        rw [haft]
        exact List.mem_append_right _ List.mem_cons_self
  · cases mid with
    | nil =>
        cases hm
        rfl
    | cons x mid =>
        obtain ⟨-, haft⟩ := List.cons.inj hm
        refine absurd trivial (ha' ⟨.db (.getRuntime k), some r⟩ ?_)
        rw [haft]
        exact List.mem_append_right _ List.mem_cons_self

theorem loaded_stable (r : AgentRuntime) : Stable (Loaded r) := by
  rintro past ev ⟨rid, before, after, rfl, ha⟩ hc
  refine ⟨rid, before, after ++ [ev], by simp, fun x hx => ?_⟩
  rcases List.mem_append.mp hx with hx | hx
  · exact ha x hx
  · rw [List.mem_singleton.mp hx]
    exact hc

theorem gated_stable (n : String) (v : Int) : Stable (Gated protectedVmids n v) := by
  rintro past ev ⟨r, before, seg, after, rfl, hl, hn, hv, ho, ha⟩ hc
  refine ⟨r, before, seg, after ++ [ev], by simp, hl, hn, hv, ho, fun x hx => ?_⟩
  rw [← List.append_assoc] at hx
  rcases List.mem_append.mp hx with hx | hx
  · exact ha x hx
  · rw [List.mem_singleton.mp hx]
    exact hc

theorem Stable.and {I J : PyTrace → Prop} (hI : Stable I) (hJ : Stable J) :
    Stable (fun s => I s ∧ J s) :=
  fun past ev h hc => ⟨hI past ev h.1 hc, hJ past ev h.2 hc⟩

theorem sat_calm {α : Type} {p : Py α} {I : PyTrace → Prop} {past : PyTrace} (h : Only calm p)
    (hI : Stable I) (hs : I past) :
    Sat log (Gate protectedVmids b) (fun s _ => I s) (fun s _ => I s) p past := by
  refine (h.keeps (fun s e a s' he hi hl => ?_) hs).weaken fun s e he => gate_of_calm he.1 s
  cases hl
  exact hI s ⟨e, a⟩ hi he.1

theorem sat_observing {α : Type} {p : Py α} {I : PyTrace → Prop} {past : PyTrace}
    (h : Only observes p)
    (hI : Stable I) (hs : I past) :
    Sat log (Gate protectedVmids b) (fun s _ => I s) (fun s _ => I s) p past :=
  sat_calm (h.mono fun _ he => calm_of_observes he) hI hs

structure Marks (r : AgentRuntime) (marker : Dict) : Prop where
  flag : (Dict.get? marker "created_by_agent_runtime_manager").any Json.truthy = true
  runtimeId : (Dict.get? marker "server_runtime_id").map Json.pyStr = some r.runtimeId.str
  complete : ∀ k ∈ ownershipRequiredKeys, Dict.has marker k = true

theorem has_of_missingKeys {marker : Dict} (h : missingKeys marker = [])
    (hf : (Dict.get? marker "created_by_agent_runtime_manager").any Json.truthy = true) :
    ∀ k ∈ ownershipRequiredKeys, Dict.has marker k = true := by
  intro k hk
  by_cases hc : k = "created_by_agent_runtime_manager"
  · subst hc
    cases hg : Dict.get? marker "created_by_agent_runtime_manager" with
    | none => rw [hg] at hf; cases hf
    | some x => rw [Dict.has_eq_isSome, hg]; rfl
  · have hm := List.filter_eq_nil_iff.mp h k hk
    simpa [hc] using hm

theorem marks_of_tests {r : AgentRuntime} {marker : Dict}
    (hf : ¬ (!((Dict.get? marker "created_by_agent_runtime_manager").getD .null).truthy) = true)
    (hr : ¬ (((Dict.get? marker "server_runtime_id").getD (.str "")).pyStr != r.runtimeId.str) =
    true)
    (hm : ¬ (missingKeys marker != []) = true) : Marks r marker := by
  have hflag : (Dict.get? marker "created_by_agent_runtime_manager").any Json.truthy = true := by
    cases hg : Dict.get? marker "created_by_agent_runtime_manager" with
    | none => simp [hg, Json.truthy] at hf
    | some x => simpa [hg] using hf
  have hall := has_of_missingKeys (by simpa using hm) hflag
  refine ⟨hflag, ?_, hall⟩
  have hid := hall "server_runtime_id" (by simp [ownershipRequiredKeys])
  rw [Dict.has_eq_isSome] at hid
  obtain ⟨x, hx⟩ := Option.isSome_iff_exists.mp hid
  rw [hx] at hr ⊢
  simpa using hr

theorem checkMarker_cases (n : String) (v : Int) (r : AgentRuntime) (m : Json) :
    (∃ x, checkMarker n v r m = throw x) ∨
      ∃ marker, m = .obj marker ∧ Marks r marker ∧ checkMarker n v r m = pure () := by
  unfold checkMarker
  split
  next marker =>
      dsimp only
      split
      · exact .inl ⟨_, rfl⟩
      next hf =>
          split
          · exact .inl ⟨_, rfl⟩
          next hr =>
              split
              · exact .inl ⟨_, rfl⟩
              next hm =>
                  refine .inr ⟨marker, rfl, marks_of_tests hf hr hm, rfl⟩
  next => exact .inl ⟨_, rfl⟩

theorem vmConfig_reads (n : String) (v : Int) (past : PyTrace) :
    Sat log (fun _ _ => True) (fun s x => x = .obj [] ∨ ⟨.pve (.config n v), .ok x⟩ ∈ s)
      (fun _ _ => True)
      (vmConfig n v) past := by
  simp only [vmConfig, sat_tryCatch, sat_bind, sat_pve, sat_pure, true_and]
  rintro (x | x) s rfl
  · exact .inl trivial
  · by_cases hx : x.truthy
    · refine .inr ?_
      simp [Json.orElse, hx]
    · refine .inl ?_
      simp [Json.orElse, hx]

/-- What a returned verification says about the row and about the description it read. -/
def Read (protectedVmids : List Int) (n : String) (v : Int) (r : AgentRuntime) (s : PyTrace) :
    Prop :=
  v ∉ protectedVmids ∧ r.createdByAgentRuntimeManager = true ∧
    ∃ cfg text marker, ⟨.pve (.config n v), .ok (.obj cfg)⟩ ∈ s ∧
      Dict.get? cfg "description" = some (.str text) ∧ loads text = some (.obj marker) ∧
        Marks r marker

theorem description_reads {n : String} {v : Int} {r : AgentRuntime} {fs : Dict} {s : PyTrace}
    (hp : v ∉ protectedVmids) (hc : r.createdByAgentRuntimeManager = true)
    (hcfg : Json.obj fs = .obj [] ∨ ⟨.pve (.config n v), .ok (.obj fs)⟩ ∈ s) :
    Sat log (fun _ _ => True) (fun s _ => Read protectedVmids n v r s) (fun _ _ => True)
      (match ((Dict.get? fs "description").getD .null).orElse (.str "") with
      | .str text =>
          match loads text with
          | some marker => checkMarker n v r marker
          | none => raised .ownershipError s!"VM {n}/{v} has no parseable ownership marker"
      | _ => raised .ownershipError s!"VM {n}/{v} has no parseable ownership marker") s := by
  split
  next text hd =>
      split
      next marker hl =>
          rcases checkMarker_cases n v r marker with ⟨x, hx⟩ | ⟨m, rfl, hm, hx⟩
          · rw [hx]
            exact trivial
          · rw [hx]
            have hne : text ≠ "" := by
              intro he
              rw [he] at hl
              cases hl
            have hg : Dict.get? fs "description" = some (.str text) := by
              cases hg : Dict.get? fs "description" with
              | none =>
                  rw [hg] at hd
                  exact absurd (Json.str.inj hd).symm hne
              | some x =>
                  rw [hg] at hd
                  by_cases ht : x.truthy
                  · simpa [Json.orElse, ht] using hd
                  · exact absurd (by simpa [Json.orElse, ht] using hd.symm) hne
            refine ⟨hp, hc, fs, text, m, ?_, hg, hl, hm⟩
            rcases hcfg with hcfg | hcfg
            · cases hcfg
              cases hg
            · exact hcfg
      · exact trivial
  · exact trivial

theorem verifyOwnership_reads (n : String) (v : Int) (r : AgentRuntime) (past : PyTrace) :
    Sat log (fun _ _ => True) (fun s _ => Read protectedVmids n v r s) (fun _ _ => True)
      (verifyOwnership protectedVmids n v r) past := by
  unfold verifyOwnership
  split
  · exact trivial
  next hp =>
      refine Sat.seq (Q := fun _ _ => True) ((only_vmExists n v).keeps (I := fun _ => True)
        (fun _ _ _ _ _ _ _ => trivial) trivial |>.weaken fun _ _ _ => trivial) fun s found _ => ?_
      split
      · exact trivial
      · split
        · exact trivial
        next hc =>
            refine Sat.seq (vmConfig_reads n v s) fun s' cfg hcfg => ?_
            cases cfg with
            | null | bool | int | float | str | arr => exact trivial
            | obj fs =>
                exact description_reads (by simpa using hp) (by simpa using hc) hcfg

theorem owned_of_returned {n : String} {v : Int} {r : AgentRuntime} {seg : PyTrace}
    (h : Exec anything () (verifyOwnership protectedVmids n v r) seg () (.ret ())) :
    Owned protectedVmids n v r seg := by
  obtain ⟨hp, hc, cfg, text, marker, hm, hd, hl, hk⟩ :=
    (verifyOwnership_reads n v r []).exec (h.log [])
  exact ⟨h, hp, hc, cfg, text, marker, hm, hd, hl, hk.flag, hk.runtimeId, hk.complete⟩

theorem verifyOwnership_gates {n : String} {v : Int} {r : AgentRuntime} {past : PyTrace}
    (hl : Loaded r past) (hn : r.node = some n) (hv : r.vmid = some v) :
    Sat log (Gate protectedVmids b) (fun s _ => Loaded r s ∧ Gated protectedVmids n v s)
      (fun s _ => Loaded r s)
      (verifyOwnership protectedVmids n v r) past := by
  have ho : Only observes (verifyOwnership protectedVmids n v r) := only_verifyOwnership _ n v r
  have hc : Sat log (Gate protectedVmids b) (fun s _ => Loaded r s) (fun s _ => Loaded r s)
      (verifyOwnership protectedVmids n v r) past := sat_observing ho (loaded_stable r) hl
  refine ((hc.and (sat_segment _ past)).mono ?_ fun s x hx => hx.1).weaken fun s e he => he.1
  rintro s _ ⟨hs, seg, rfl, hx⟩
  refine ⟨hs, r, past, seg, [], by simp, hl, hn, hv, owned_of_returned hx, ?_⟩
  intro ev he
  rw [List.append_nil] at he
  exact (calm_of_observes (ho.of_mem hx ev he)).1

variable {cfg : Settings} {rs : ReconcileSettings} {r : AgentRuntime} {past : PyTrace}

theorem verifyOwned_gates (hl : Loaded r past) :
    Sat log (Gate cfg.protectedVmids b)
      (fun s _ => Loaded r s ∧ ∃ n v, r.node = some n ∧ r.vmid = some v ∧
        Gated cfg.protectedVmids n v s)
      (fun s _ => Loaded r s) (verifyOwned cfg r) past := by
  unfold verifyOwned
  split
  next n v hn hv =>
      refine (verifyOwnership_gates hl hn hv).mono ?_ fun s x hx => hx
      intro s _ hs
      exact ⟨hs.1, n, v, hn, hv, hs.2⟩
  · exact hl

theorem sat_gated {n : String} {v : Int} {c : PveCall} (ht : target (.pve c) = some (n, v))
    (hd : destroys (.pve c) → b) (hl : Loaded r past) (hg : Gated protectedVmids n v past) :
    Sat log (Gate protectedVmids b) (fun s _ => Loaded r s ∧ Gated protectedVmids n v s)
      (fun s _ => Loaded r s ∧ Gated protectedVmids n v s) (pve c) past := by
  have hk : ∀ a : Except PyExc Json, Loaded r (past ++ [⟨.pve c, a⟩]) ∧
      Gated protectedVmids n v (past ++ [⟨.pve c, a⟩]) :=
    fun a => ((loaded_stable r).and (gated_stable n v)) past ⟨.pve c, a⟩ ⟨hl, hg⟩ id
  refine (sat_pve c).mpr ⟨⟨fun n' v' he => ?_, hd⟩, ?_⟩
  · rw [ht] at he
    cases he
    exact hg
  · rintro (x | x) s rfl
    · exact hk _
    · exact hk _

theorem start_gated {n : String} {v : Int} (hl : Loaded r past)
    (hg : Gated protectedVmids n v past) :
    Sat log (Gate protectedVmids b) (fun s _ => Loaded r s) (fun s _ => Loaded r s) (start n v)
      past :=
  Sat.seq ((sat_gated rfl False.elim hl hg).mono (fun _ _ hs => hs) fun _ _ hs => hs.1)
    fun _ _ hs => hs.1

theorem shutdown_gated {n : String} {v : Int} (hl : Loaded r past)
    (hg : Gated protectedVmids n v past) :
    Sat log (Gate protectedVmids b) (fun s _ => Loaded r s ∧ Gated protectedVmids n v s)
      (fun s _ => Loaded r s) (shutdown n v) past := by
  unfold shutdown stopForce
  refine (sat_tryCatch _ _ _).mpr ?_
  refine Sat.seq ((sat_gated rfl False.elim hl hg).mono (fun _ _ hs => hs) fun s x hs => ?_)
    fun _ _ hs => hs
  -- the forced stop that follows a failed shutdown
  exact Sat.seq ((sat_gated rfl False.elim hs.1 hs.2).mono (fun _ _ h => h) fun _ _ h => h.1)
    fun _ _ h => h

theorem destroy_gated {n : String} {v : Int} (hb : b) (hl : Loaded r past)
    (hg : Gated protectedVmids n v past) :
    Sat log (Gate protectedVmids b) (fun s _ => Loaded r s) (fun s _ => Loaded r s) (destroy n v)
      past :=
  Sat.seq ((sat_gated rfl (fun _ => hb) hl hg).mono (fun _ _ hs => hs) fun _ _ hs => hs.1)
    fun _ _ hs => hs.1

theorem calm_audit (r : AgentRuntime) (action result : String) (detail : Dict) :
    Only calm (audit r action result detail) :=
  only_audit r action result detail ⟨id, rfl⟩

theorem calm_modify (rid : Uuid) (f : AgentRuntime → AgentRuntime) : Only calm (modify rid f) :=
  only_call ⟨id, rfl⟩ fun _ => only_ret _

theorem calm_record (rid : Uuid) (res : ReconcileResult) : Only calm (record rid res) :=
  only_record rid res ⟨id, rfl⟩ ⟨id, rfl⟩ fun _ => ⟨id, rfl⟩

theorem calm_commit : Only calm commit := only_commit ⟨id, rfl⟩ ⟨id, rfl⟩

theorem sat_calm_gated {α : Type} {p : Py α} {n : String} {v : Int} (h : Only calm p)
    (hl : Loaded r past)
    (hg : Gated protectedVmids n v past) :
    Sat log (Gate protectedVmids b) (fun s _ => Loaded r s ∧ Gated protectedVmids n v s)
      (fun s _ => Loaded r s) p past :=
  (sat_calm h ((loaded_stable r).and (gated_stable n v)) ⟨hl, hg⟩).mono (fun _ _ hs => hs)
    fun _ _ hs => hs.1

theorem startAttempt_gated {n : String} {v : Int} (before : String) (hl : Loaded r past)
    (hg : Gated protectedVmids n v past) :
    Sat log (Gate protectedVmids b) (fun s _ => Loaded r s) (fun s _ => Loaded r s)
      (startAttempt r before n v) past := by
  refine Sat.seq (sat_calm_gated (calm_audit r _ _ _) hl hg) fun s _ hs => ?_
  refine Sat.seq (start_gated hs.1 hs.2) fun s _ hs => ?_
  exact Sat.seq (sat_calm (calm_modify _ _) (loaded_stable r) hs) fun s _ hs => hs

theorem calm_backoff (rs : ReconcileSettings) (r : AgentRuntime) : Only calm (backoff rs r) := by
  unfold backoff
  refine Only.ite (Only.bind (calm_audit r _ _ _) fun _ => ?_) (only_pure _)
  exact only_call ⟨id, rfl⟩ fun _ => only_ret _

theorem calm_correctRunning (r : AgentRuntime) (pve : Json) : Only calm (correctRunning r pve) := by
  unfold correctRunning
  exact Only.ite (Only.bind (calm_modify _ _) fun _ => calm_audit r _ _ _) (only_pure _)

theorem calm_correctStopped (r : AgentRuntime) (pve : Json) : Only calm (correctStopped r pve) := by
  unfold correctStopped
  exact Only.ite (Only.bind (calm_modify _ _) fun _ => calm_audit r _ _ _) (only_pure _)

theorem calm_exhausted (r : AgentRuntime) (before : String) : Only calm (exhausted r before) :=
  Only.bind (calm_modify _ _) fun _ => Only.bind (calm_audit r _ _ _) fun _ => only_pure _

theorem calm_shutdownOutcome (r : AgentRuntime) (before : String) (after : Json) :
    Only calm (shutdownOutcome r before after) := by
  unfold shutdownOutcome
  refine Only.ite (Only.bind (calm_modify _ _) fun _ => only_pure _) ?_
  exact Only.bind (calm_modify _ _) fun _ => Only.bind (calm_audit r _ _ _) fun _ => only_pure _

theorem reconcileRunning_gated (before : String) (pve : Json) (hl : Loaded r past) :
    Sat log (Gate cfg.protectedVmids b) (fun s _ => Loaded r s) (fun s _ => Loaded r s)
      (reconcileRunning cfg rs r before pve) past := by
  unfold reconcileRunning
  split
  · exact Sat.seq (sat_calm (calm_correctRunning r pve) (loaded_stable r) hl) fun s _ hs => hs
  · split
    · exact hl
    · refine Sat.seq (verifyOwned_gates hl) fun s _ hs => ?_
      obtain ⟨hs, n, v, hn, hv, hg⟩ := hs
      split
      · exact sat_calm (calm_exhausted r before) (loaded_stable r) hs
      · refine Sat.seq (sat_calm_gated (calm_backoff rs r) hs hg) fun s _ hs => ?_
        rw [hn, hv]
        exact startAttempt_gated before hs.1 hs.2

theorem reconcileStopped_gated (before : String) (pve : Json) (hl : Loaded r past) :
    Sat log (Gate cfg.protectedVmids b) (fun s _ => Loaded r s) (fun s _ => Loaded r s)
      (reconcileStopped cfg rs r before pve) past := by
  unfold reconcileStopped
  split
  · exact Sat.seq (sat_calm (calm_correctStopped r pve) (loaded_stable r) hl) fun s _ hs => hs
  · split
    · exact hl
    · refine Sat.seq (verifyOwned_gates hl) fun s _ hs => ?_
      obtain ⟨hs, n, v, hn, hv, hg⟩ := hs
      refine Sat.seq (sat_calm_gated (calm_audit r _ _ _) hs hg) fun s _ hs => ?_
      have hd : Sat log (Gate cfg.protectedVmids b) (fun s _ => Loaded r s) (fun s _ => Loaded r s)
          (shutdownVm r) s := by
        unfold shutdownVm
        rw [hn, hv]
        exact (shutdown_gated hs.1 hs.2).mono (fun _ _ h => h.1) fun _ _ h => h
      refine Sat.seq hd fun s _ hs => ?_
      refine Sat.seq (sat_observing (only_waitPveState _ _ _ _) (loaded_stable r) hs)
        fun s after hs => ?_
      exact sat_calm (calm_shutdownOutcome r before after) (loaded_stable r) hs

theorem converge_gated (pve : Json) (hl : Loaded r past) :
    Sat log (Gate cfg.protectedVmids b) (fun s _ => Loaded r s) (fun s _ => Loaded r s)
      (converge cfg rs r pve) past := by
  unfold converge
  split
  · exact reconcileRunning_gated _ pve hl
  · exact reconcileStopped_gated _ pve hl

theorem calm_skip (rid : Uuid) (r : AgentRuntime) (note : String) : Only calm (skip rid r note) :=
  Only.bind (calm_record rid _) fun _ => only_pure _

theorem calm_unavailable (rid : Uuid) (r : AgentRuntime) : Only calm (unavailable rid r) :=
  Only.bind (calm_modify _ _) fun _ => Only.bind (calm_record rid _) fun _ => only_pure _

theorem reconcileRow_gated (rid : Uuid) (hl : Loaded r past) :
    Sat log (Gate cfg.protectedVmids b) (fun s _ => Loaded r s) (fun s _ => Loaded r s)
      (reconcileRow cfg rs rid r) past := by
  unfold reconcileRow
  split
  · exact sat_calm (calm_skip rid r _) (loaded_stable r) hl
  · refine Sat.seq (sat_observing (only_pveVmState _ _) (loaded_stable r) hl) fun s pve hs => ?_
    split
    · exact sat_calm (calm_skip rid r _) (loaded_stable r) hs
    · split
      · exact sat_calm (calm_unavailable rid r) (loaded_stable r) hs
      · have hc : Sat log (Gate cfg.protectedVmids b) (fun s _ => Loaded r s)
            (fun s _ => Loaded r s)
            (tryCatch (converge cfg rs r pve) (refusal r)) s := by
          refine (sat_tryCatch _ _ _).mpr ((converge_gated pve hs).mono (fun _ _ h => h)
            fun s x hs => ?_)
          exact sat_calm (only_refusal r x fun _ _ => ⟨id, rfl⟩) (loaded_stable r) hs
        refine Sat.seq hc fun s res hs => ?_
        exact Sat.seq (sat_calm (calm_record rid res) (loaded_stable r) hs) fun s _ hs => hs

theorem loaded_now (past : PyTrace) (rid : Uuid) (r : AgentRuntime) :
    Loaded r (past ++ [⟨.db (.getRuntime rid), some r⟩]) :=
  ⟨rid, past, [], rfl, fun _ he => absurd he List.not_mem_nil⟩

theorem gate_getRuntime (rid : Uuid) : Gate protectedVmids b past (.db (.getRuntime rid)) :=
  ⟨fun _ _ he => absurd he nofun, fun hd => False.elim hd⟩

theorem reconcileRuntime_gated (rid : Uuid) (past : PyTrace) :
    Sat log (Gate cfg.protectedVmids b) (fun _ _ => True) (fun _ _ => True)
      (reconcileRuntime cfg rs rid) past := by
  unfold reconcileRuntime
  rw [sat_bind, sat_getRuntime]
  refine ⟨gate_getRuntime rid, ?_⟩
  rintro (_ | r) s rfl
  · exact trivial
  · exact (reconcileRow_gated rid (loaded_now past rid r)).mono (fun _ _ _ => trivial) fun _ _ _ =>
      trivial

theorem stable_true : Stable (fun _ => True) := fun _ _ _ _ => trivial

theorem sat_calm_true {α : Type} {p : Py α} (h : Only calm p) (past : PyTrace) :
    Sat log (Gate protectedVmids b) (fun _ _ => True) (fun _ _ => True) p past :=
  sat_calm h stable_true trivial

theorem reconcileRows_gated (rows : List AgentRuntime) (past : PyTrace) :
    Sat log (Gate cfg.protectedVmids b) (fun _ _ => True) (fun _ _ => True)
      (reconcileRows cfg rs rows) past := by
  induction rows generalizing past with
  | nil => exact trivial
  | cons r rows ih =>
      refine Sat.seq (reconcileRuntime_gated r.runtimeId past) fun s res _ => ?_
      refine Sat.seq (sat_calm_true calm_commit s) fun s _ _ => ?_
      exact Sat.seq (ih s) fun s _ _ => trivial

theorem calm_selectRuntimes (q : Query) : Only calm (selectRuntimes q) :=
  Only.bind (only_flush ⟨id, rfl⟩) fun _ => only_call ⟨id, rfl⟩ fun _ => only_ret _

theorem calm_expireRows (rows : List AgentRuntime) : Only calm (expireRows rows) := by
  induction rows with
  | nil => exact only_pure _
  | cons r rows ih =>
      refine Only.bind (calm_modify _ _) fun _ => Only.bind (calm_audit r _ _ _) fun _ => ?_
      exact Only.bind ih fun _ => only_pure _

theorem calm_expireStaleSandboxes : Only calm expireStaleSandboxes :=
  Only.bind (only_call ⟨id, rfl⟩ fun _ => only_ret _) fun _ =>
    Only.bind (calm_selectRuntimes _) fun rows => calm_expireRows rows

theorem reconcileAll_gated (limit : Nat) (past : PyTrace) :
    Sat log (Gate cfg.protectedVmids b) (fun _ _ => True) (fun _ _ => True)
      (reconcileAll cfg rs limit) past := by
  refine Sat.seq (sat_calm_true calm_expireStaleSandboxes past) fun s _ _ => ?_
  refine Sat.seq (sat_calm_true (calm_selectRuntimes _) s) fun s rows _ => ?_
  exact reconcileRows_gated rows s

theorem calm_addEvent (ev : RuntimeEvent) : Only calm (addEvent ev) :=
  only_call ⟨id, rfl⟩ fun _ => only_ret _

theorem calm_close : Only calm close := only_call ⟨id, rfl⟩ fun _ => only_ret _

theorem destroyRefused_raises {Q : PyTrace → Unit → Prop} (rid : Uuid) (actor : String) (x : PyExc)
    (past : PyTrace) :
    Sat log (Gate protectedVmids b) Q (fun _ _ => True) (destroyRefused rid actor x) past := by
  unfold destroyRefused
  split
  · refine Sat.seq (sat_calm_true (calm_addEvent _) past) fun s _ _ => ?_
    exact Sat.seq (sat_calm_true calm_commit s) fun s _ _ => trivial
  · exact trivial

theorem calm_destroyComplete (cfg : Settings) (rid : Uuid) (r : AgentRuntime) (actor : String) :
    Only calm (destroyComplete cfg rid r actor) := by
  refine Only.bind (calm_modify _ _) fun _ => Only.bind (calm_addEvent _) fun _ => ?_
  refine Only.bind ?_ fun _ => calm_commit
  exact only_releaseReservation cfg rid _ actor (fun c => ⟨id, rfl⟩) fun _ => ⟨id, rfl⟩

theorem destroyVm_gated {rid : Uuid} {actor : String} {n : String} {v : Int} (hl : Loaded r past)
    (hn : r.node = some n) (hv : r.vmid = some v) (audit : RuntimeEvent) :
    Sat log (Gate cfg.protectedVmids True) (fun s _ => Loaded r s) (fun _ _ => True)
      (do
        tryCatch (verifyOwnership cfg.protectedVmids n v r) (destroyRefused rid actor)
        addEvent audit
        commit
        shutdown n v
        destroy n v
        destroyComplete cfg rid r actor) past := by
  have hg : Sat log (Gate cfg.protectedVmids True)
      (fun s _ => Loaded r s ∧ Gated cfg.protectedVmids n v s)
      (fun _ _ => True) (tryCatch (verifyOwnership cfg.protectedVmids n v r)
        (destroyRefused rid actor)) past := by
    refine (sat_tryCatch _ _ _).mpr ((verifyOwnership_gates hl hn hv).mono (fun _ _ h => h)
      fun s x _ => ?_)
    exact destroyRefused_raises rid actor x s
  refine Sat.seq hg fun s _ hs => ?_
  refine Sat.mono (X := fun s _ => Loaded r s) ?_ (fun _ _ h => h) fun _ _ _ => trivial
  refine Sat.seq (sat_calm_gated (calm_addEvent _) hs.1 hs.2) fun s _ hs => ?_
  refine Sat.seq (sat_calm_gated calm_commit hs.1 hs.2) fun s _ hs => ?_
  refine Sat.seq (shutdown_gated hs.1 hs.2) fun s _ hs => ?_
  refine Sat.seq (destroy_gated trivial hs.1 hs.2) fun s _ hs => ?_
  exact sat_calm (calm_destroyComplete cfg rid r actor) (loaded_stable r) hs

theorem destroyAgentRuntime_gated (rid : Uuid) (actor : String) (past : PyTrace) :
    Sat log (Gate cfg.protectedVmids True) (fun _ _ => True) (fun _ _ => True)
      (destroyAgentRuntime cfg rid actor) past := by
  unfold destroyAgentRuntime
  rw [sat_withSession]
  refine Sat.mono (Q := fun _ _ => True) (X := fun _ _ => True) ?_
    (fun s _ _ => sat_calm_true calm_close s) fun s _ _ => sat_calm_true calm_close s
  rw [sat_bind, sat_getRuntime]
  refine ⟨gate_getRuntime rid, ?_⟩
  rintro (_ | r) s rfl
  · exact trivial
  · dsimp only
    split
    next n v hn hv =>
        exact (destroyVm_gated (loaded_now past rid r) hn hv _).mono (fun _ _ _ => trivial)
          fun _ _ _ => trivial
    · exact trivial

/-- The operations that act on the VMs of existing runtimes. -/
inductive Operation
  | reconcileRuntime (rs : ReconcileSettings) (rid : Uuid)
  | reconcileAll (rs : ReconcileSettings) (limit : Nat)
  | destroyAgentRuntime (rid : Uuid) (actor : String)

def Operation.reconciles : Operation → Prop
  | .destroyAgentRuntime .. => False
  | _ => True

def Operation.prog (cfg : Settings) : Operation → Py Unit
  | .reconcileRuntime rs rid => do
      let _ ← Reconciliation.reconcileRuntime cfg rs rid
  | .reconcileAll rs limit => do
      let _ ← Reconciliation.reconcileAll cfg rs limit
  | .destroyAgentRuntime rid actor => Api.destroyAgentRuntime cfg rid actor

theorem operation_gated (op : Operation) :
    Sat log (Gate cfg.protectedVmids (¬ op.reconciles)) (fun _ _ => True) (fun _ _ => True)
      (op.prog cfg) [] := by
  cases op with
  | reconcileRuntime rs rid => exact Sat.seq (reconcileRuntime_gated rid []) fun _ _ _ => trivial
  | reconcileAll rs limit => exact Sat.seq (reconcileAll_gated limit []) fun _ _ _ => trivial
  | destroyAgentRuntime rid actor =>
      exact (destroyAgentRuntime_gated rid actor []).weaken fun s e he => ⟨he.1, fun _ => id⟩

/-- In every run of operations, in any surroundings, each call that starts,
stops or destroys a VM comes after a verification of that VM that returned
normally, made by the same operation for the row it is at work on; and the
reconciler destroys nothing. -/
theorem power_calls_verified {S : Type} {step : S → (e : Eff) → Ans e → S → Prop} {s t : S}
    {cfg : Settings}
    {hist : List (Operation × PyTrace)} (h : Runs step s (hist.map (fun x => (x.1.prog cfg, x.2)))
    t)
    {op : Operation} {before after : PyTrace} {ev : Event Eff Ans}
    (hm : (op, before ++ ev :: after) ∈ hist) :
    (∀ n v, target ev.1 = some (n, v) → Gated cfg.protectedVmids n v before) ∧
      (op.reconciles → ¬ destroys ev.1) := by
  obtain ⟨s', t', q, hx⟩ := h.exec_of_mem (List.mem_map_of_mem hm)
  obtain ⟨u, u', k, hp, -, -⟩ := hx.split
  have hg := ((operation_gated op).exec (hp.log [])).1
  rw [List.nil_append] at hg
  exact ⟨hg.1, fun ho hd => hg.2 hd ho⟩

def workerId : Uuid := ⟨0x5a4d0c6e9b1f4f0e8c2d7a6b5c4d3e2f#128⟩

def worker : AgentRuntime :=
  { runtimeId := workerId, acmsAgentId := "agent-7", provisioningRequestId := "req-7", name := "worker-7"
    node := some "miam00111", vmid := some 700, actualState := .stopped, createdByAgentRuntimeManager := true }

def workerMarker : String :=
  "\x7b\"server_runtime_id\":\"5a4d0c6e-9b1f-4f0e-8c2d-7a6b5c4d3e2f\",\"acms_agent_id\":1,\"provisioning_request_id\":1,\"provider\":1,\"node\":1,\"vmid\":1,\"created_by_agent_runtime_manager\":1,\"created_at\":1,\"template_source\":1\x7d"

/-- PVE reports the worker stopped and shows its marker; every other call succeeds. -/
def stoppedWorker (_ : Unit) : (e : Eff) → Option (Ans e × Unit)
  | .db (.getRuntime _) => some (some worker, ())
  | .db (.addEvent _) => some ((), ())
  | .pve (.status ..) => some (.ok (.obj [("status", .str "stopped")]), ())
  | .pve (.config ..) => some (.ok (.obj [("description", .str workerMarker)]), ())
  | .pve (.start ..) => some (.ok .null, ())
  | _ => none

def startTrace : PyTrace :=
  (play stoppedWorker 6 () ((Operation.reconcileRuntime {} workerId).prog {})).1

theorem startTrace_target : (startTrace[5]?).bind (fun ev => target ev.1) = some
    ("miam00111", 700) := by
  decide +kernel

theorem startTrace_verified :
    (startTrace[5]?).bind (fun ev => target ev.1) = some ("miam00111", 700) ∧
      Gated [906] "miam00111" 700 (startTrace.take 5) := by
  refine ⟨startTrace_target, ?_⟩
  obtain ⟨ev, he, ht⟩ := Option.bind_eq_some_iff.mp startTrace_target
  obtain ⟨hlen, hget⟩ := List.getElem?_eq_some_iff.mp he
  have hsplit : startTrace = startTrace.take 5 ++ ev :: startTrace.drop 6 := by
    rw [← hget, ← List.drop_eq_getElem_cons hlen, List.take_append_drop]
  have hr : Runs anything () ([(Operation.reconcileRuntime {} workerId, startTrace)].map
      (fun x => (x.1.prog {}, x.2))) () :=
    .cons (play_exec (fun _ => ()) stoppedWorker (fun _ _ _ _ _ => trivial) 6 () _) (.nil ())
  have hm : (Operation.reconcileRuntime {} workerId, startTrace.take 5 ++ ev :: startTrace.drop 6) ∈
      [(Operation.reconcileRuntime {} workerId, startTrace)] := by
    rw [← hsplit]
    exact List.mem_singleton_self _
  exact (power_calls_verified hr hm).1 "miam00111" 700 ht

end ServerManager.OwnershipGate
