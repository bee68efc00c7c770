import ServerManager.AgentKeys

namespace ServerManager.KeyRequests

open PyJson PyNumber AgentKeys

deriving instance DecidableEq for Agent

def callOf : Request → Call
  | .provision c => c
  | .rotate c => c
  | .revoke c => c

def identified : Request → Identified
  | .provision c => identify c ["agent_name", "harness"]
  | .rotate c => identify c []
  | .revoke c => identify c []

def agentOf (r : Request) : Option Agent :=
  match identified r with
  | .agent a => some a
  | _ => none

def selected (w : World) (r : Request) : Option AgentKey :=
  if (callOf r).connected && (callOf r).select
    then (agentOf r).bind (fun a => w.active a.externalId) else none

def keyIdOf : Reply → Option Nat
  | .existing keyId _ _ => some keyId
  | .created keyId _ _ => some keyId
  | .rotated keyId _ => some keyId
  | .revoked keyId => some keyId
  | _ => none

def rawKeyOf : Reply → Option Nat
  | .existing _ _ rawKey => rawKey
  | .created _ _ rawKey => rawKey
  | .rotated _ rawKey => rawKey
  | _ => none

def rotatedRow (rawKey : Option Nat) (r : AgentKey) : AgentKey := { r with rawKey := rawKey }

def revokedRow (r : AgentKey) : AgentKey := { r with revoked := true, enabled := false }

section

variable (float : Json → Option PyFloat)

def insertedRow (c : Call) (w : World) (a : Agent) (budget : Option PyFloat) : AgentKey :=
  newRow w a ((c.field "agent_name").getD "") ((c.field "harness").getD "") budget
    (w.newKey c.generate)

/-- The request goes as far as `POST /key/generate`. -/
def generates (w : World) : Request → Bool
  | .provision c => (applicant float c w).isSome
  | .rotate c => (selected w (.rotate c)).isSome
  | .revoke _ => false

def made (w : World) (r : Request) : Nat :=
  if generates float w r && (callOf r).generate.creates then 1 else 0

inductive Effect (w : World) : Request → World × Reply → Prop
  | idle {r : Request} {w' : World} {reply : Reply} : w'.rows = w.rows → w'.nextId = w.nextId →
      w'.issued = w.issued + made float w r → (Sound w → Sound w') → keyIdOf reply = none →
        Effect w r (w', reply)
  | existing {c : Call} {a : Agent} {row : AgentKey} : agentOf (.provision c) = some a →
      w.active a.externalId = some row →
      selected w (.provision c) = some row → Effect w (.provision c)
        (w, .existing row.keyId row.keyAlias row.rawKey)
  | inserted {c : Call} {a : Agent} {budget : Option PyFloat} {reply : Reply} :
      agentOf (.provision c) = some a →
      applicant float c w = some a → budgetOf float c = some budget → c.generate.accepted = true →
      w.free a.externalId (insertedRow c w a budget).keyAlias = true → c.stored = true →
      (reply = .failed ∨ reply = .created w.nextId (insertedRow c w a budget).keyAlias
        (w.newKey c.generate)) →
      Effect w (.provision c) ((w.create c.generate.creates).insert (insertedRow c w a budget),
        reply)
  | rotated {c : Call} {a : Agent} {row : AgentKey} {reply : Reply} : agentOf (.rotate c) = some a →
      w.active a.externalId = some row → selected w (.rotate c) = some row →
        c.generate.accepted = true → c.updates row = true →
      (reply = .failed ∨ reply = .rotated row.keyId (w.newKey c.generate)) →
      Effect w (.rotate c) ((giveBack c row (w.create c.generate.creates)).update row.keyId
        (rotatedRow (w.newKey c.generate)), reply)
  | revoked {c : Call} {a : Agent} {row : AgentKey} {reply : Reply} : agentOf (.revoke c) = some a →
      w.active a.externalId = some row → selected w (.revoke c) = some row → c.updates row = true →
      (reply = .failed ∨ reply = .revoked row.keyId) →
      Effect w (.revoke c) ((giveBack c row w).update row.keyId revokedRow, reply)

end

theorem issued_made (float : Json → Option PyFloat) {w : World} {r : Request}
    (h : generates float w r = true) :
    (w.create (callOf r).generate.creates).issued = w.issued + made float w r := by
  rw [made, h]
  cases (callOf r).generate.creates with
  | false => rfl
  | true => rfl

theorem keyIdOf_refusal {reply : Reply} (h : reply.IsRefusal) : keyIdOf reply = none := by
  rcases h with rfl | ⟨status, text, rfl⟩
  · rfl
  · rfl

theorem uncommitted {c : Call} (h : c.stored = false) : c.committed = false := by
  rw [Call.stored] at h
  rw [Call.committed]
  cases hw : c.write with
  | false => rfl
  | true =>
      cases hc : c.commit with
      | done => simp [hw, hc, Commit.happens] at h
      | failed happened => rfl

theorem replaceKey_eq (c : Call) (row : AgentKey) (change : AgentKey → AgentKey) (reply : Reply)
    (w : World) :
    ∃ out, (out = .failed ∨ out = reply) ∧ (replaceKey c row change reply w =
        ((giveBack c row w).update row.keyId change, out) ∧ c.updates row = true ∨
      replaceKey c row change reply w = (giveBack c row w, .failed) ∧ c.updates row = false) := by
  have hout : ∀ b : Bool, (if b then reply else Reply.failed) = .failed ∨
      (if b then reply else Reply.failed) = reply := by
    intro b
    cases b with
    | false => exact .inl rfl
    | true => exact .inr rfl
  refine ⟨if c.committed then reply else .failed, hout _, ?_⟩
  simp only [replaceKey, giveBack, Call.updates]
  cases row.rawKey with
  | none =>
      cases hst : c.stored with
      | true => exact .inl ⟨rfl, rfl⟩
      | false =>
          refine .inr ⟨?_, rfl⟩
          simp [uncommitted hst]
  | some key =>
      cases hret : c.delete.returns with
      | false => exact .inr ⟨by simp, by simp⟩
      | true =>
          cases hst : c.stored with
          | true => exact .inl ⟨by simp, by simp⟩
          | false => exact .inr ⟨by simp [uncommitted hst], by simp⟩

variable {float : Json → Option PyFloat} {w : World}

theorem idle_effect {r : Request} {reply : Reply} (h : generates float w r = true)
    (hr : keyIdOf reply = none) :
    Effect float w r (w.create (callOf r).generate.creates, reply) :=
  .idle (rows_create _ _) (nextId_create _ _) (issued_made float h) (fun hw => hw.create _) hr

theorem insertKey_effect {c : Call} {a : Agent} {budget : Option PyFloat}
    (ha : agentOf (.provision c) = some a)
    (happ : applicant float c w = some a) (hb : budgetOf float c = some budget)
    (hg : c.generate.accepted = true) :
    Effect float w (.provision c) (insertKey c (insertedRow c w a budget)
      (w.create c.generate.creates)) := by
  have hidle : ∀ reply : Reply, keyIdOf reply = none →
      Effect float w (.provision c) (w.create c.generate.creates, reply) :=
    fun reply => idle_effect (Option.isSome_iff_exists.mpr ⟨a, happ⟩)
  rw [insertKey, free_create]
  by_cases hf : w.free (insertedRow c w a budget).externalId (insertedRow c w a budget).keyAlias =
    true
  · rw [if_pos hf]
    by_cases hst : c.stored = true
    · rw [if_pos hst]
      apply Effect.inserted ha happ hb hg hf hst
      cases c.committed with
      | false => exact .inl rfl
      | true => exact .inr rfl
    · rw [if_neg hst, uncommitted (by simpa using hst)]
      exact hidle _ rfl
  · rw [if_neg hf]
    exact hidle _ rfl

theorem generateKey_effect {c : Call} {a : Agent} {budget : Option PyFloat}
    (ha : agentOf (.provision c) = some a)
    (happ : applicant float c w = some a) (hb : budgetOf float c = some budget) :
    Effect float w (.provision c) (generateKey c (newRow w a ((c.field "agent_name").getD "")
      ((c.field "harness").getD "") budget) w) := by
  rcases generateKey_cases c (newRow w a ((c.field "agent_name").getD "") ((c.field "harness").getD "") budget) w with
    ⟨hg, heq⟩ | ⟨-, reply, heq, hr⟩
  · rw [heq]
    exact insertKey_effect ha happ hb hg
  · rw [heq]
    exact idle_effect (Option.isSome_iff_exists.mpr ⟨a, happ⟩) (keyIdOf_refusal hr)

theorem rotateRow_effect {c : Call} {a : Agent} {row : AgentKey} (ha : agentOf (.rotate c) = some a)
    (hact : w.active a.externalId = some row) (hsel : selected w (.rotate c) = some row) :
    Effect float w (.rotate c) (rotateRow c row w) := by
  have hgen : generates float w (.rotate c) = true := Option.isSome_iff_exists.mpr ⟨row, hsel⟩
  rcases rotateRow_cases c row w with ⟨hg, heq⟩ | ⟨-, reply, heq, hr⟩
  · rw [heq]
    obtain ⟨out, hout, ⟨heq', hup⟩ | ⟨heq', -⟩⟩ :=
      replaceKey_eq c row (rotatedRow (w.newKey c.generate))
      (.rotated row.keyId (w.newKey c.generate)) (w.create c.generate.creates)
    · exact heq' ▸ .rotated ha hact hsel hg hup hout
    · obtain ⟨hrows, hnext, hissued⟩ := giveBack_frame c row (w.create c.generate.creates)
      exact heq' ▸ .idle (hrows.trans (rows_create _ _)) (hnext.trans (nextId_create _ _))
        (hissued.trans (issued_made float hgen)) (fun hw => (hw.create _).giveBack c row) rfl
  · rw [heq]
    exact idle_effect hgen (keyIdOf_refusal hr)

theorem revokeRow_effect {c : Call} {a : Agent} {row : AgentKey} (ha : agentOf (.revoke c) = some a)
    (hact : w.active a.externalId = some row) (hsel : selected w (.revoke c) = some row) :
    Effect float w (.revoke c) (replaceKey c row revokedRow (.revoked row.keyId) w) := by
  obtain ⟨out, hout, ⟨heq, hup⟩ | ⟨heq, hup⟩⟩ :=
    replaceKey_eq c row revokedRow (.revoked row.keyId) w
  · rw [heq]
    exact .revoked ha hact hsel hup hout
  · rw [heq]
    obtain ⟨hrows, hnext, hissued⟩ := giveBack_frame c row w
    exact .idle hrows hnext hissued (fun hw => hw.giveBack c row) rfl

theorem agentOf_eq {r : Request} {a : Agent} (h : identified r = .agent a) :
    agentOf r = some a := by
  rw [agentOf, h]

theorem agentOf_spec {r : Request} {a : Agent} (h : agentOf r = some a) :
    identified r = .agent a := by
  rw [agentOf] at h
  split at h
  next b hb =>
    rw [hb]
    exact congrArg _ (Option.some.inj h)
  · cases h

theorem selected_eq {r : Request} {a : Agent} (h : identified r = .agent a)
    (hc : ((callOf r).connected && (callOf r).select) = true) :
    selected w r = w.active a.externalId := by
  rw [selected, if_pos hc, agentOf_eq h]
  rfl

theorem selected_spec {r : Request} {row : AgentKey} (h : selected w r = some row) :
    ∃ a, identified r = .agent a ∧ ((callOf r).connected && (callOf r).select) = true ∧
      w.active a.externalId = some row := by
  by_cases hc : ((callOf r).connected && (callOf r).select) = true
  · rw [selected, if_pos hc] at h
    obtain ⟨a, ha, hact⟩ := Option.bind_eq_some_iff.mp h
    exact ⟨a, agentOf_spec ha, hc, hact⟩
  · rw [selected, if_neg hc] at h
    cases h

theorem selected_rotate (w : World) (c : Call) : selected w (.rotate c) = target c w := by
  simp only [selected, callOf, agentOf, identified, target]
  cases identify c [] with
  | refused status text => simp
  | failed => simp
  | agent a => simp

theorem handle_effect (float : Json → Option PyFloat) (w : World) (r : Request) :
    Effect float w r (handle float w r) := by
  -- a request that stops before `POST /key/generate`
  have hidle : ∀ reply : Reply, generates float w r = false → keyIdOf reply = none →
      Effect float w r (w, reply) := by
    intro reply hg hr
    exact .idle rfl rfl (by simp [made, hg]) id hr
  cases r with
  | provision c =>
      rw [handle, provision]
      cases hid : identify c ["agent_name", "harness"] with
      | refused status text => exact hidle _ (by simp [generates, applicant, hid]) rfl
      | failed => exact hidle _ (by simp [generates, applicant, hid]) rfl
      | agent a =>
          simp only
          cases hconn : c.connected && c.select with
          | false => exact hidle _ (by simp [generates, applicant, hid, hconn]) rfl
          | true =>
              have hsel := selected_eq (w := w) (r := .provision c) hid hconn
              simp only [if_true]
              cases hact : w.active a.externalId with
              | some row =>
                  rw [hact] at hsel
                  simp only
                  split
                  · exact .existing (agentOf_eq hid) hact hsel
                  · exact hidle _ (by simp [generates, applicant, hid, hact]) rfl
              | none =>
                  cases hb : budgetOf float c with
                  | none => exact hidle _ (by simp [generates, applicant, hid, hb]) rfl
                  | some budget =>
                      exact generateKey_effect (agentOf_eq hid)
                        (by simp [applicant, hid, hconn, hact, hb]) hb
  | rotate c =>
      rw [handle, rotate]
      rcases withRow_cases c w with ⟨hnone, reply, hr, heq⟩ | ⟨a, row, hid, -, hact, hrow, heq⟩
      · rw [heq]
        exact hidle _ (by rw [generates, selected_rotate, hnone, Option.isSome_none])
          (keyIdOf_refusal hr)
      · rw [heq]
        exact rotateRow_effect (agentOf_eq hid) hact ((selected_rotate w c).trans hrow)
  | revoke c =>
      rw [handle, revoke]
      rcases withRow_cases c w with ⟨-, reply, hr, heq⟩ | ⟨a, row, hid, hconn, hact, -, heq⟩
      · rw [heq]
        exact hidle _ rfl (keyIdOf_refusal hr)
      · rw [heq]
        have hsel : selected w (.revoke c) = w.active a.externalId := selected_eq hid hconn
        exact revokeRow_effect (agentOf_eq hid) hact (hsel.trans hact)

/-- A row after a request is the row before it, of the same agent. -/
structure Kept (r s : AgentKey) : Prop where
  keyId : s.keyId = r.keyId
  externalId : s.externalId = r.externalId
  projectId : s.projectId = r.projectId
  agentInstanceId : s.agentInstanceId = r.agentInstanceId
  monthlyBudget : s.monthlyBudget = r.monthlyBudget
  revoked : r.revoked = true → s.revoked = true

theorem Kept.refl (r : AgentKey) : Kept r r := ⟨rfl, rfl, rfl, rfl, rfl, id⟩

theorem Kept.trans {r s t : AgentKey} (h : Kept r s) (h' : Kept s t) : Kept r t where
  keyId := h'.keyId.trans h.keyId
  externalId := h'.externalId.trans h.externalId
  projectId := h'.projectId.trans h.projectId
  agentInstanceId := h'.agentInstanceId.trans h.agentInstanceId
  monthlyBudget := h'.monthlyBudget.trans h.monthlyBudget
  revoked hr := h'.revoked (h.revoked hr)

theorem kept_rotatedRow (rawKey : Option Nat) (r : AgentKey) : Kept r (rotatedRow rawKey r) :=
  ⟨rfl, rfl, rfl, rfl, rfl, id⟩

theorem kept_revokedRow (r : AgentKey) : Kept r (revokedRow r) :=
  ⟨rfl, rfl, rfl, rfl, rfl, fun _ => rfl⟩

def changeAt (keyId : Nat) (change : AgentKey → AgentKey) (r : AgentKey) : AgentKey :=
  if r.keyId = keyId then change r else r

theorem rows_update (w : World) (keyId : Nat) (change : AgentKey → AgentKey) :
    (w.update keyId change).rows = w.rows.map (changeAt keyId change) := rfl

theorem mem_update {keyId : Nat} {change : AgentKey → AgentKey} {s : AgentKey} :
    s ∈ (w.update keyId change).rows ↔
    ∃ r ∈ w.rows, r.keyId = keyId ∧ s = change r ∨ r.keyId ≠ keyId ∧ s = r := by
  rw [rows_update, List.mem_map]
  apply exists_congr
  intro r
  apply and_congr_right
  intro _
  by_cases hid : r.keyId = keyId
  · simp [changeAt, hid, eq_comm]
  · simp [changeAt, hid, eq_comm]

theorem kept_changeAt {change : AgentKey → AgentKey} (h : ∀ r, Kept r (change r)) (keyId : Nat)
    (r : AgentKey) :
    Kept r (changeAt keyId change r) := by
  by_cases hr : r.keyId = keyId
  · simpa [changeAt, hr] using h r
  · simpa [changeAt, hr] using Kept.refl r

def IsInserted (float : Json → Option PyFloat) (w : World) (q : Request) (s : AgentKey) : Prop :=
  ∃ c a budget, q = .provision c ∧ agentOf q = some a ∧ budgetOf float c = some budget ∧
    w.free a.externalId s.keyAlias = true ∧ s = insertedRow c w a budget

theorem Effect.rows {q : Request} {out : World × Reply} (h : Effect float w q out) :
    ∃ (change : AgentKey → AgentKey) (new : Option AgentKey), (∀ r, Kept r (change r)) ∧
      out.1.rows = w.rows.map change ++ new.toList ∧ ∀ s ∈ new, IsInserted float w q s := by
  cases h with
  | idle hrows _ _ _ _ => exact ⟨id, none, Kept.refl, by simp [hrows], nofun⟩
  | existing _ _ _ => exact ⟨id, none, Kept.refl, by simp, nofun⟩
  | @inserted c a budget _ ha _ hb _ hf _ _ =>
      refine ⟨id, some (insertedRow c w a budget),
        Kept.refl, by simp [World.insert], fun s hs => ?_⟩
      obtain rfl := Option.some.inj hs
      exact ⟨c, a, budget, rfl, ha, hb, hf, rfl⟩
  | @rotated c a row _ _ _ _ _ _ _ =>
      refine ⟨changeAt row.keyId (rotatedRow (w.newKey c.generate)), none,
        kept_changeAt (kept_rotatedRow _) _, ?_, nofun⟩
      rw [rows_update, (giveBack_frame c row _).1, rows_create, Option.toList_none, List.append_nil]
  | @revoked c a row _ _ _ _ _ _ =>
      refine ⟨changeAt row.keyId revokedRow, none, kept_changeAt kept_revokedRow _, ?_, nofun⟩
      rw [rows_update, (giveBack_frame c row _).1, Option.toList_none, List.append_nil]

theorem later_row (float : Json → Option PyFloat) (q : Request) {r : AgentKey} (hr : r ∈ w.rows) :
    ∃ s ∈ (handle float w q).1.rows, Kept r s := by
  obtain ⟨change, new, hkept, hrows, -⟩ := (handle_effect float w q).rows
  refine ⟨change r, ?_, hkept r⟩
  rw [hrows]
  exact List.mem_append_left _ (List.mem_map_of_mem hr)

theorem earlier_row {q : Request} {s : AgentKey} (hs : s ∈ (handle float w q).1.rows) :
    (∃ r ∈ w.rows, Kept r s) ∨ IsInserted float w q s := by
  obtain ⟨change, new, hkept, hrows, hnew⟩ := (handle_effect float w q).rows
  rw [hrows] at hs
  rcases List.mem_append.mp hs with hs | hs
  · obtain ⟨r, hr, rfl⟩ := List.mem_map.mp hs
    exact .inl ⟨r, hr, hkept r⟩
  · exact .inr (hnew s (Option.mem_toList.mp hs))

/-- Rows have their own identities too, and an identity is made of its parts. -/
structure Orderly (w : World) : Prop extends Sound w where
  identities : w.rows.Pairwise (fun r s => r.externalId ≠ s.externalId)
  named : ∀ r ∈ w.rows, r.externalId = r.projectId ++ "/" ++ r.agentInstanceId

theorem Orderly.empty : Orderly .empty := ⟨.empty, .nil, nofun⟩

theorem Orderly.identity_eq (h : Orderly w) {r s : AgentKey} (hr : r ∈ w.rows) (hs : s ∈ w.rows)
    (he : r.externalId = s.externalId) : r = s := by
  by_contra hne
  have hsymm : Std.Symm (fun r s : AgentKey => r.externalId ≠ s.externalId) := ⟨fun _ _ h => h.symm⟩
  exact h.identities.forall hr hs hne he

theorem free_spec {e keyAlias : String} (h : w.free e keyAlias = true) : ∀ r ∈ w.rows,
    r.externalId ≠ e := by
  intro r hr
  have hall := List.all_eq_true.mp h r hr
  simp only [decide_eq_true_eq] at hall
  exact hall.1

theorem agentOf_named {q : Request} {a : Agent} (h : agentOf q = some a) :
    a.externalId = a.projectId ++ "/" ++ a.agentInstanceId := by
  have hid : ∀ c others, identify c others = .agent a →
      a.externalId = a.projectId ++ "/" ++ a.agentInstanceId := by
    intro c others hid
    simp only [identify] at hid
    split at hid
    · split at hid
      · split at hid
        · cases hid
        · split at hid
          · cases hid
          · cases hid
            rfl
      · cases hid
    · cases hid
  have hagent := agentOf_spec h
  cases q with
  | provision c => exact hid c _ hagent
  | rotate c => exact hid c _ hagent
  | revoke c => exact hid c _ hagent

theorem Effect.sound {q : Request} {out : World × Reply} (h : Effect float w q out) (hw : Sound w) :
    Sound out.1 := by
  cases h with
  | idle _ _ _ hsound _ => exact hsound hw
  | existing _ _ _ => exact hw
  | @inserted c a budget _ _ _ _ _ _ _ _ =>
      apply (hw.create c.generate.creates).insert (nextId_create w _).symm
      intro k hk
      obtain ⟨-, -, hlt, hnew⟩ := newKey_fresh hw c.generate hk
      rw [rows_create]
      exact ⟨hlt, hnew⟩
  | @rotated c a row _ _ hact _ _ _ _ =>
      obtain ⟨hrows, -, hissued⟩ := giveBack_frame c row (w.create c.generate.creates)
      obtain ⟨hrow, -, -⟩ := active_spec hact
      rw [rows_create] at hrows
      apply ((hw.create c.generate.creates).giveBack c row).update (hrows ▸ hrow)
      refine ⟨fun _ => rfl, fun k hk => ?_⟩
      obtain ⟨-, -, hlt, hnew⟩ := newKey_fresh hw c.generate hk
      rw [hrows, hissued]
      exact .inr ⟨hlt, hnew⟩
  | @revoked c a row _ _ hact _ _ _ =>
      obtain ⟨hrow, -, -⟩ := active_spec hact
      apply (hw.giveBack c row).update ((giveBack_frame c row w).1 ▸ hrow)
      exact ⟨fun _ => rfl, fun k hk => .inl hk⟩

theorem Orderly.handle (h : Orderly w) (q : Request) : Orderly (handle float w q).1 := by
  have he := handle_effect float w q
  obtain ⟨change, new, hkept, hrows, hnew⟩ := he.rows
  refine ⟨he.sound h.toSound, ?_, fun s hs => ?_⟩
  · rw [hrows]
    apply List.pairwise_append.mpr ⟨List.pairwise_map.mpr (h.identities.imp _), _, _⟩
    · intro r s hrs
      rw [(hkept r).externalId, (hkept s).externalId]
      exact hrs
    · cases new with
      | none => exact .nil
      | some s => exact List.pairwise_singleton _ s
    · -- the identity of a new row is that of no other
      intro r' hr' s hs
      obtain ⟨r, hr, rfl⟩ := List.mem_map.mp hr'
      obtain ⟨c, a, budget, rfl, -, -, hf, rfl⟩ := hnew s (Option.mem_toList.mp hs)
      rw [(hkept r).externalId]
      exact free_spec hf r hr
  · rcases earlier_row hs with ⟨r, hr, hk⟩ | ⟨c, a, budget, rfl, ha, -, -, rfl⟩
    · rw [hk.externalId, hk.projectId, hk.agentInstanceId]
      exact h.named r hr
    · exact agentOf_named ha

theorem run_concat (float : Json → Option PyFloat) (w : World) (requests : List Request)
    (q : Request) :
    run float w (requests ++ [q]) = (handle float (run float w requests) q).1 := List.foldl_append

theorem run_append (float : Json → Option PyFloat) (w : World) (requests more : List Request) :
    run float w (requests ++ more) = run float (run float w requests) more := List.foldl_append

theorem orderly_run (float : Json → Option PyFloat) (requests : List Request) :
    Orderly (run float .empty requests) := by
  induction requests using List.reverseRecOn with
  | nil => exact .empty
  | append_singleton requests q ih =>
      rw [run_concat]
      exact ih.handle q

theorem later_run (float : Json → Option PyFloat) {r : AgentKey} (hr : r ∈ w.rows)
    (more : List Request) :
    ∃ s ∈ (run float w more).rows, Kept r s := by
  induction more using List.reverseRecOn with
  | nil => exact ⟨r, hr, Kept.refl r⟩
  | append_singleton more q ih =>
      obtain ⟨s, hs, hrs⟩ := ih
      obtain ⟨t, ht, hst⟩ := later_row float q hs
      refine ⟨t, ?_, hrs.trans hst⟩
      rw [run_concat]
      exact ht

end ServerManager.KeyRequests
