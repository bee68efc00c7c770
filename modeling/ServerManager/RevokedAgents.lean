import ServerManager.KeyRequests

namespace ServerManager.RevokedAgents

open PyJson PyNumber AgentKeys KeyRequests

def Owns (a : Agent) (r : AgentKey) : Prop :=
  r.projectId = a.projectId ∧ r.agentInstanceId = a.agentInstanceId

instance (a : Agent) (r : AgentKey) : Decidable (Owns a r) := inferInstanceAs (Decidable (_ ∧ _))

/-- The agent has had keys, and all of them are revoked. -/
structure Retired (w : World) (a : Agent) : Prop where
  known : ∃ r ∈ w.rows, Owns a r
  revoked : ∀ r ∈ w.rows, Owns a r → r.revoked = true

def unrevoked (w : World) (a : Agent) : List AgentKey :=
  w.rows.filter (fun r => decide (Owns a r ∧ r.revoked = false))

/-- The answer to a provision has a live key with a number that has not been
handed out before, and this key is the only one of the agent that is not revoked. -/
def Revived (w : World) (a : Agent) (out : World × Reply) : Prop :=
  ∃ keyId keyAlias k, out.2 = .created keyId keyAlias (some k) ∧ k ∈ out.1.live ∧ w.issued ≤ k ∧
    (unrevoked out.1 a).map (fun r => (r.keyId, r.rawKey)) = [(keyId, some k)]

/-- LiteLLM and the database answer as they should. -/
structure Plain (c : Call) : Prop where
  connected : c.connected = true
  select : c.select = true
  generate : c.generate = .key
  delete : c.delete = .answered true
  write : c.write = true
  commit : c.commit = .done

variable {float : Json → Option PyFloat} {w : World} {a : Agent}

theorem Retired.taken (h : Retired w a) (ho : Orderly w)
    (ha : a.externalId = a.projectId ++ "/" ++ a.agentInstanceId) :
    ∃ r ∈ w.rows, r.externalId = a.externalId ∧ w.active a.externalId = none := by
  obtain ⟨r, hr, hown⟩ := h.known
  have hext : r.externalId = a.externalId := by rw [ho.named r hr, ha, hown.1, hown.2]
  refine ⟨r, hr, hext, ?_⟩
  cases hact : w.active a.externalId with
  | none => rfl
  | some s =>
      obtain ⟨hs, hsext, hsact⟩ := active_spec hact
      obtain rfl := ho.identity_eq hr hs (hext.trans hsext.symm)
      rw [h.revoked r hr hown] at hsact
      cases hsact

theorem provision_taken (float : Json → Option PyFloat) {c : Call} (ho : Orderly w)
    (hret : Retired w a)
    (ha : agentOf (.provision c) = some a) :
    (handle float w (.provision c)).1.rows = w.rows ∧
    keyIdOf (handle float w (.provision c)).2 = none := by
  obtain ⟨r, hr, hext, hnone⟩ := hret.taken ho (agentOf_named ha)
  have he := handle_effect float w (.provision c)
  generalize handle float w (.provision c) = out at he
  cases he with
  | idle hrows _ _ _ hreply => exact ⟨hrows, hreply⟩
  | existing hb hact _ =>
      obtain rfl := Option.some.inj (ha.symm.trans hb)
      rw [hnone] at hact
      cases hact
  | inserted hb _ _ _ hf _ _ =>
      obtain rfl := Option.some.inj (ha.symm.trans hb)
      exact absurd hext (free_spec hf r hr)

theorem Retired.handle (h : Retired w a) (ho : Orderly w)
    (ha : a.externalId = a.projectId ++ "/" ++ a.agentInstanceId) (q : Request) :
    Retired (handle float w q).1 a := by
  obtain ⟨r, hr, hown⟩ := h.known
  refine ⟨?_, fun s hs hsown => ?_⟩
  · obtain ⟨s, hs, hk⟩ := later_row float q hr
    exact ⟨s, hs, hk.projectId.trans hown.1, hk.agentInstanceId.trans hown.2⟩
  · rcases earlier_row hs with ⟨t, ht, hk⟩ | ⟨c, b, budget, rfl, hb, -, hf, rfl⟩
    · apply hk.revoked
      apply h.revoked t ht
      exact ⟨hk.projectId.symm.trans hsown.1, hk.agentInstanceId.symm.trans hsown.2⟩
    · -- a new row of the agent would have the identity of the revoked one
      obtain ⟨t, ht, htext, -⟩ := h.taken ho ha
      have hnew : b.externalId = a.externalId := by
        rw [agentOf_named hb, ha]
        exact congrArg₂ (fun p i => p ++ "/" ++ i) hsown.1 hsown.2
      exact absurd (htext.trans hnew.symm) (free_spec hf t ht)

theorem Retired.run (requests : List Request) (h : Retired (run float .empty requests) a)
    (ha : a.externalId = a.projectId ++ "/" ++ a.agentInstanceId) (more : List Request) :
    Retired (AgentKeys.run float .empty (requests ++ more)) a := by
  induction more using List.reverseRecOn with
  | nil => simpa using h
  | append_singleton more q ih =>
      rw [← List.append_assoc, run_concat]
      exact ih.handle (orderly_run float _) ha q

theorem provision_not_revived {c : Call} (ho : Orderly w) (hret : Retired w a)
    (ha : agentOf (.provision c) = some a) :
    ¬ Revived w a (handle float w (.provision c)) := by
  rintro ⟨keyId, keyAlias, k, hreply, -⟩
  have hnone := (provision_taken float ho hret ha).2
  rw [hreply] at hnone
  cases hnone

/-- An agent whose keys are revoked gets no key, however often and whenever it asks. -/
theorem never_revived (float : Json → Option PyFloat) (requests : List Request) (a : Agent)
    (hret : Retired (run float .empty requests) a) (more : List Request) (c : Call)
    (ha : agentOf (.provision c) = some a) :
    ¬ Revived (run float .empty (requests ++ more)) a
      (handle float (run float .empty (requests ++ more)) (.provision c)) :=
  provision_not_revived (orderly_run float _) (hret.run requests (agentOf_named ha) more) ha

def acms : Agent := ⟨"acms/7", "acms", "7"⟩

def revokedOnce : List Request := [.provision plainCall, .revoke plainCall]

theorem acms_retired : Retired (run (fun _ => none) .empty revokedOnce) acms :=
  ⟨by decide +kernel, by decide +kernel⟩

theorem acms_identified : agentOf (.provision plainCall) = some acms := by decide +kernel

theorem acms_never_revived :
    ¬ Revived (run (fun _ => none) .empty (revokedOnce ++ [])) acms
      (handle (fun _ => none) (run (fun _ => none) .empty (revokedOnce ++ []))
        (.provision plainCall)) :=
  never_revived (fun _ => none) revokedOnce acms acms_retired [] plainCall acms_identified

/-- The key is made by LiteLLM and lost. -/
theorem revoked_not_provisioned : ¬ ∀ (float : Json → Option PyFloat) (requests : List Request),
    (∀ q ∈ requests, Plain (callOf q)) → ∀ a, Retired (run float .empty requests) a →
      ∀ c, Plain c → agentOf (.provision c) = some a →
        Revived (run float .empty requests) a
          (handle float (run float .empty requests) (.provision c)) := by
  intro hall
  have hplain : Plain plainCall := ⟨rfl, rfl, rfl, rfl, rfl, rfl⟩
  have hrun : ∀ q ∈ revokedOnce, Plain (callOf q) := by
    intro q hq
    simp only [revokedOnce, List.mem_cons, List.not_mem_nil, or_false] at hq
    rcases hq with rfl | rfl
    · exact hplain
    · exact hplain
  have hrevived :=
    hall (fun _ => none) revokedOnce hrun acms acms_retired plainCall hplain acms_identified
  exact provision_not_revived (orderly_run _ _) acms_retired acms_identified hrevived

end ServerManager.RevokedAgents
