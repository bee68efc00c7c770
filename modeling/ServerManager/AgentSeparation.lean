import ServerManager.KeyRequests

namespace ServerManager.AgentSeparation

open PyJson PyText PyNumber AgentKeys KeyRequests

section

variable (float : Json → Option PyFloat)

def rowOf (w : World) (n : Nat) : Option AgentKey := w.rows.find? (fun r => decide (r.keyId = n))

inductive Touches (w : World) (q : Request) (n : Nat) : Prop
  | reads {row : AgentKey} : selected w q = some row → row.keyId = n → Touches w q n
  | answers : keyIdOf (handle float w q).2 = some n → Touches w q n
  | hands {row : AgentKey} {k : Nat} : row ∈ w.rows → row.keyId = n → row.rawKey = some k →
      rawKeyOf (handle float w q).2 = some k → Touches w q n
  | writes : rowOf (handle float w q).1 n ≠ rowOf w n → Touches w q n

/-- In no history do the two requests, one after the other, have to do with the same row. -/
def KeptApart (q q' : Request) : Prop :=
  ∀ before between n, ¬ (Touches float (run float .empty before) q n ∧
    Touches float (run float .empty (before ++ q :: between)) q' n)

end

inductive Kind
  | provision
  | rotate
  | revoke

def Kind.request : Kind → Call → Request
  | .provision, c => .provision c
  | .rotate, c => .rotate c
  | .revoke, c => .revoke c

/-- A text that is not empty and that trimming leaves as it is. -/
structure Trimmed (s : String) : Prop where
  strip : strip s.toList = s.toList
  ne : s ≠ ""

def agent (projectId agentInstanceId : String) : Agent :=
  ⟨projectId ++ "/" ++ agentInstanceId, projectId, agentInstanceId⟩

/-- The second pair is the first one with the separator further to the right. -/
def Longer (p i p' i' : String) : Prop := ∃ s, p' = p ++ "/" ++ s ∧ i = s ++ "/" ++ i'

def Shifted (p i p' i' : String) : Prop := Longer p i p' i' ∨ Longer p' i' p i

theorem append_sep_eq {α : Type} {sep : α} {a b c d : List α} :
    a ++ sep :: b = c ++ sep :: d ↔
      a = c ∧ b = d ∨ (∃ s, c = a ++ sep :: s ∧ b = s ++ sep :: d) ∨ ∃ s, a = c ++ sep :: s ∧
        d = s ++ sep :: b := by
  constructor
  · intro h
    rcases List.append_eq_append_iff.mp h with ⟨s, hc, hb⟩ | ⟨s, ha, hd⟩
    · cases s with
      | nil =>
          simp only [List.append_nil, List.nil_append, List.cons.injEq, true_and] at hc hb
          exact .inl ⟨hc.symm, hb⟩
      | cons x s =>
          simp only [List.cons_append, List.cons.injEq] at hb
          obtain ⟨rfl, hb⟩ := hb
          exact .inr (.inl ⟨s, hc, hb⟩)
    · cases s with
      | nil =>
          simp only [List.append_nil, List.nil_append, List.cons.injEq, true_and] at ha hd
          exact .inl ⟨ha, hd.symm⟩
      | cons x s =>
          simp only [List.cons_append, List.cons.injEq] at hd
          obtain ⟨rfl, hd⟩ := hd
          exact .inr (.inr ⟨s, ha, hd⟩)
  · rintro (⟨rfl, rfl⟩ | ⟨s, rfl, rfl⟩ | ⟨s, rfl, rfl⟩)
    · rfl
    · simp
    · simp

theorem toList_sep (p i : String) : (p ++ "/" ++ i).toList = p.toList ++ '/' :: i.toList := by simp

theorem longer_iff {p i p' i' : String} :
    Longer p i p' i' ↔ ∃ s, p'.toList = p.toList ++ '/' :: s ∧
      i.toList = s ++ '/' :: i'.toList := by
  constructor
  · rintro ⟨s, rfl, rfl⟩
    exact ⟨s.toList, toList_sep p s, toList_sep s i'⟩
  · rintro ⟨s, hp, hi⟩
    refine ⟨String.ofList s, String.toList_inj.mp ?_, String.toList_inj.mp ?_⟩
    · rw [hp, toList_sep, String.toList_ofList]
    · rw [hi, toList_sep, String.toList_ofList]

theorem identity_eq_iff {p i p' i' : String} :
    p ++ "/" ++ i = p' ++ "/" ++ i' ↔ (p, i) = (p', i') ∨ Shifted p i p' i' := by
  rw [← String.toList_inj, toList_sep, toList_sep, append_sep_eq, String.toList_inj,
    String.toList_inj, Prod.mk.injEq,
    Shifted, longer_iff, longer_iff]

variable {float : Json → Option PyFloat} {w : World}

theorem rowOf_change {w' : World} {n : Nat} (keyId : Nat) {change : AgentKey → AgentKey}
    (hc : ∀ r, Kept r (change r))
    (hrows : w'.rows = w.rows.map (changeAt keyId change)) (hn : n ≠ keyId) :
    rowOf w' n = rowOf w n := by
  have hcomp : (fun r => decide (r.keyId = n)) ∘ changeAt keyId change = fun r =>
      decide (r.keyId = n) := by
    funext r
    simp [(kept_changeAt hc keyId r).keyId]
  rw [rowOf, hrows, List.find?_map, hcomp, rowOf]
  cases hf : w.rows.find? (fun r => decide (r.keyId = n)) with
  | none => rfl
  | some r =>
      have hr : r.keyId = n := by simpa using List.find?_some hf
      simp [changeAt, hr, hn]

theorem rowOf_insert {w' : World} {n : Nat} (row : AgentKey) (hrows : w'.rows = w.rows ++ [row])
    (hn : n ≠ row.keyId) :
    rowOf w' n = rowOf w n := by
  have hno : [row].find? (fun r => decide (r.keyId = n)) = none := by simp [Ne.symm hn]
  rw [rowOf, hrows, List.find?_append, hno, Option.or_none, rowOf]

theorem touches_own (ho : Orderly w) {q : Request} {n : Nat} (h : Touches float w q n) :
    ∃ a, agentOf q = some a ∧ ∃ s ∈ (handle float w q).1.rows, s.keyId = n ∧
      s.externalId = a.externalId := by
  have hfound : ∀ {a : Agent} {row : AgentKey}, agentOf q = some a →
      w.active a.externalId = some row → row.keyId = n →
      ∃ a, agentOf q = some a ∧ ∃ s ∈ (handle float w q).1.rows, s.keyId = n ∧
        s.externalId = a.externalId := by
    intro a row ha hact hid
    obtain ⟨hrow, hext, -⟩ := active_spec hact
    obtain ⟨s, hs, hk⟩ := later_row float q hrow
    exact ⟨a, ha, s, hs, hk.keyId.trans hid, hk.externalId.trans hext⟩
  have he := handle_effect float w q
  cases h with
  | @reads row hsel hid =>
      obtain ⟨a, ha, -, hact⟩ := selected_spec hsel
      exact hfound (agentOf_eq ha) hact hid
  | answers hans =>
      generalize handle float w q = out at he hans hfound ⊢
      cases he with
      | idle _ _ _ _ hreply =>
          rw [hreply] at hans
          cases hans
      | existing ha hact _ => exact hfound ha hact (Option.some.inj hans)
      | @inserted c a budget reply ha _ _ _ _ _ hreply =>
          rcases hreply with rfl | rfl
          · cases hans
          · exact ⟨a, ha, _, List.mem_append_right _ (List.mem_singleton.mpr rfl),
              Option.some.inj hans, rfl⟩
      | rotated ha hact _ _ _ hreply =>
          rcases hreply with rfl | rfl
          · cases hans
          · exact hfound ha hact (Option.some.inj hans)
      | revoked ha hact _ _ hreply =>
          rcases hreply with rfl | rfl
          · cases hans
          · exact hfound ha hact (Option.some.inj hans)
  | @hands row k hrow hid hk hans =>
      -- an answer's key is that of the row found, or one that nobody has had
      have hfresh : ∀ g, w.newKey g ≠ some k :=
        fun g hg => (newKey_fresh ho.toSound g hg).2.2.2 row hrow hk
      generalize handle float w q = out at he hans hfound ⊢
      cases he with
      | @idle _ _ reply _ _ _ _ hreply => cases reply <;> simp_all [keyIdOf, rawKeyOf]
      | @existing c a row' ha hact _ =>
          obtain ⟨hrow', -, -⟩ := active_spec hact
          obtain rfl := ho.row_eq hrow hrow' (.inr ⟨k, hk, hans⟩)
          exact hfound ha hact hid
      | @inserted c _ _ _ _ _ _ _ _ _ hreply =>
          rcases hreply with rfl | rfl
          · cases hans
          · exact absurd hans (hfresh _)
      | rotated _ _ _ _ _ hreply =>
          rcases hreply with rfl | rfl
          · cases hans
          · exact absurd hans (hfresh _)
      | revoked _ _ _ _ hreply =>
          rcases hreply with rfl | rfl
          · cases hans
          · cases hans
  | writes hne =>
      generalize handle float w q = out at he hne hfound ⊢
      cases he with
      | idle hrows _ _ _ _ => exact absurd (by simp [rowOf, hrows]) hne
      | existing _ _ _ => exact absurd rfl hne
      | @inserted c a budget _ ha _ _ _ _ _ _ =>
          have hid : n = w.nextId := by
            by_contra hn
            apply hne
            apply rowOf_insert (insertedRow c w a budget) _ hn
            simp [World.insert]
          exact ⟨a, ha, _, List.mem_append_right _ (List.mem_singleton.mpr rfl), hid.symm, rfl⟩
      | @rotated c a row _ ha hact _ _ _ _ =>
          apply hfound ha hact
          by_contra hn
          apply hne
          apply rowOf_change row.keyId (kept_rotatedRow (w.newKey c.generate)) _ (Ne.symm hn)
          rw [rows_update, (giveBack_frame c row _).1, rows_create]
      | @revoked c a row _ ha hact _ _ _ =>
          apply hfound ha hact
          by_contra hn
          apply hne
          apply rowOf_change row.keyId kept_revokedRow _ (Ne.symm hn)
          rw [rows_update, (giveBack_frame c row _).1]

theorem identity_of_shared {q q' : Request} {before between : List Request} {n : Nat}
    (h : Touches float (run float .empty before) q n)
    (h' : Touches float (run float .empty (before ++ q :: between)) q' n) :
    ∃ a a', agentOf q = some a ∧ agentOf q' = some a' ∧ a.externalId = a'.externalId := by
  have ho := orderly_run float (before ++ q :: between)
  obtain ⟨a, ha, s, hs, hid, hext⟩ := touches_own (orderly_run float before) h
  obtain ⟨a', ha', s', hs', hid', hext'⟩ := touches_own ho h'
  refine ⟨a, a', ha, ha', ?_⟩
  have hrun : run float .empty (before ++ q :: between) =
      run float (handle float (run float .empty before) q).1 between := by
    rw [run_append]
    rfl
  obtain ⟨t, ht, hst⟩ := later_run float hs between
  rw [← hrun] at ht
  obtain ⟨u, hu, htu⟩ := later_row float q' ht
  have hsame : u = s' := by
    apply (ho.handle q').row_eq hu hs'
    exact .inl (((htu.keyId.trans hst.keyId).trans hid).trans hid'.symm)
  rw [← hext, ← hext', ← hsame, htu.externalId, hst.externalId]

/-- A call for a pair. Its statements fail if they are to. -/
def callFor (p i : String) (write : Bool) : Call where
  authorized := true
  body := [("project_id", .str p), ("agent_instance_id", .str i)]
  connected := true
  select := true
  generate := .key
  delete := .answered true
  write := write
  commit := .done

theorem field_text {c : Call} {name s : String} (h : c.body.get? name = some (.str s))
    (hs : Trimmed s) : c.field name = some s := by
  have hs' : (s != "") = true := by simpa using hs.ne
  simp [Call.field, h, strippedText, Json.orElse, Json.truthy, hs', hs.strip]

theorem field_missing {c : Call} {name : String} (h : c.body.get? name = none) :
    c.field name = some "" := by
  simp [Call.field, h, strippedText, Json.orElse, Json.truthy, PyText.strip, PyText.rstrip]

theorem agentOf_callFor {p i : String} (hp : Trimmed p) (hi : Trimmed i) (write : Bool) (k : Kind) :
    agentOf (k.request (callFor p i write)) = some (agent p i) := by
  have hproject : (callFor p i write).field "project_id" = some p := by
    apply field_text _ hp
    rfl
  have hinstance : (callFor p i write).field "agent_instance_id" = some i := by
    apply field_text _ hi
    rfl
  have hname : (callFor p i write).field "agent_name" = some "" := by
    apply field_missing
    rfl
  have hharness : (callFor p i write).field "harness" = some "" := by
    apply field_missing
    rfl
  have hauth : (callFor p i write).authorized = true := rfl
  cases k with
  | provision =>
      simp [Kind.request, agentOf, identified, identify, hauth, hproject, hinstance, hname,
        hharness, hp.ne, hi.ne, agent]
  | rotate =>
      simp [Kind.request, agentOf, identified, identify, hauth, hproject, hinstance, hp.ne, hi.ne,
        agent]
  | revoke =>
      simp [Kind.request, agentOf, identified, identify, hauth, hproject, hinstance, hp.ne, hi.ne,
        agent]

theorem first_row (float : Json → Option PyFloat) {p i : String} (hp : Trimmed p) (hi : Trimmed i) :
    ∃ row, (run float .empty [.provision (callFor p i true)]).rows = [row] ∧
      row.externalId = p ++ "/" ++ i ∧
      row.revoked = false := by
  have hid : identify (callFor p i true) ["agent_name", "harness"] = .agent (agent p i) := by
    have ha := agentOf_callFor hp hi true .provision
    simp only [Kind.request, agentOf, identified] at ha
    split at ha
    next a h =>
      rw [h]
      exact congrArg _ (Option.some.inj ha)
    · cases ha
  have hrun : run float .empty [.provision (callFor p i true)] =
      (provision float (callFor p i true) .empty).1 := rfl
  have hbudget : budgetOf float (callFor p i true) = some none := rfl
  rw [hrun]
  simp only [provision, hid, hbudget]
  exact ⟨_, rfl, rfl, rfl⟩

theorem unwritten {q : Request} (hq : (callOf q).stored = false) :
    (handle float w q).1.rows = w.rows := by
  have he := handle_effect float w q
  have hup : ∀ row, (callOf q).updates row = false := by simp [Call.updates, hq]
  generalize handle float w q = out at he
  cases he with
  | idle hrows _ _ _ _ => exact hrows
  | existing _ _ _ => rfl
  | inserted _ _ _ _ _ hst _ =>
      rw [callOf, hst] at hq
      cases hq
  | rotated _ _ _ _ hst _ =>
      rw [callOf] at hup
      rw [hup] at hst
      cases hst
  | revoked _ _ _ hst _ =>
      rw [callOf] at hup
      rw [hup] at hst
      cases hst

theorem selected_callFor {row : AgentKey} {p i : String} (hp : Trimmed p) (hi : Trimmed i)
    (hrows : w.rows = [row])
    (hext : row.externalId = p ++ "/" ++ i) (hact : row.revoked = false) (k : Kind) (write : Bool) :
    selected w (k.request (callFor p i write)) = some row := by
  have hcall : callOf (k.request (callFor p i write)) = callFor p i write := by cases k <;> rfl
  have hactive : w.active (p ++ "/" ++ i) = some row := by simp [World.active, hrows, hext, hact]
  rw [selected, hcall, agentOf_callFor hp hi]
  exact hactive

/-- Requests for two pairs are kept apart, whatever they meet, unless one pair
is the other with the separator at another place. -/
theorem kept_apart_iff (float : Json → Option PyFloat) {p i p' i' : String} (hp : Trimmed p)
    (hi : Trimmed i) (hp' : Trimmed p')
    (hi' : Trimmed i') (hne : (p, i) ≠ (p', i')) (k k' : Kind) :
    (∀ c c', agentOf (k.request c) = some (agent p i) →
    agentOf (k'.request c') = some (agent p' i') →
      KeptApart float (k.request c) (k'.request c')) ↔ ¬ Shifted p i p' i' := by
  constructor
  · intro hall hshift
    have heq : p ++ "/" ++ i = p' ++ "/" ++ i' := identity_eq_iff.mpr (.inr hshift)
    obtain ⟨row, hrows, hext, hact⟩ := first_row float hp hi
    have hapart :=
      hall (callFor p i false) (callFor p' i' true) (agentOf_callFor hp hi false k)
        (agentOf_callFor hp' hi' true k')
    -- the first of the two reads the row and fails to write, the second one reads it again
    have hread : selected (run float .empty [.provision (callFor p i true)])
        (k.request (callFor p i false)) = some row :=
      selected_callFor hp hi hrows hext hact k false
    have hagain : selected (run float .empty [.provision (callFor p i true),
        k.request (callFor p i false)])
        (k'.request (callFor p' i' true)) = some row := by
      apply selected_callFor hp' hi' _ (hext.trans heq) hact
      have hstored : (callOf (k.request (callFor p i false))).stored = false := by cases k <;> rfl
      have hrun :=
        run_concat float .empty [.provision (callFor p i true)] (k.request (callFor p i false))
      exact (congrArg World.rows hrun).trans ((unwritten hstored).trans hrows)
    exact hapart [.provision (callFor p i true)] [] row.keyId ⟨.reads hread rfl, .reads hagain rfl⟩
  · intro hno c c' hc hc' before between n ⟨h, h'⟩
    obtain ⟨a, a', ha, ha', heq⟩ := identity_of_shared h h'
    obtain rfl := Option.some.inj (hc.symm.trans ha)
    obtain rfl := Option.some.inj (hc'.symm.trans ha')
    rcases identity_eq_iff.mp heq with hsame | hshift
    · exact hne hsame
    · exact hno hshift

theorem trimmed_of {s : String} (h : PyText.strip s.toList = s.toList ∧ s ≠ "") : Trimmed s :=
  ⟨h.1, h.2⟩

/-- Pairs without a separator in their instances. -/
theorem plain_kept_apart : ¬ Shifted "acms" "7" "acms" "8" ∧
    KeptApart (fun _ => none) (.provision (callFor "acms" "7" true))
      (.rotate (callFor "acms" "8" true)) := by
  have h7 : Trimmed "7" := trimmed_of (by decide +kernel)
  have h8 : Trimmed "8" := trimmed_of (by decide +kernel)
  have hacms : Trimmed "acms" := trimmed_of (by decide +kernel)
  have hno : ¬ Shifted "acms" "7" "acms" "8" := by
    intro hshift
    have heq : "acms" ++ "/" ++ "7" = "acms" ++ "/" ++ "8" := identity_eq_iff.mpr (.inr hshift)
    revert heq
    decide +kernel
  have hapart :=
    (kept_apart_iff (fun _ => none) hacms h7 hacms h8 (by decide) .provision .rotate).mpr hno
  exact ⟨hno, hapart _ _ (agentOf_callFor hacms h7 true .provision)
    (agentOf_callFor hacms h8 true .rotate)⟩

/-- The second agent is handed the first one's key. -/
theorem foreign_key_handed : ¬ ∀ (float : Json → Option PyFloat) (q q' : Request) (a a' : Agent),
    agentOf q = some a → agentOf q' = some a' →
      (a.projectId, a.agentInstanceId) ≠ (a'.projectId, a'.agentInstanceId) →
      KeptApart float q q' := by
  intro hall
  have hapart :=
    hall (fun _ => none) (.provision (callFor "acms" "eu/7" true))
      (.provision (callFor "acms/eu" "7" true))
    (agent "acms" "eu/7") (agent "acms/eu" "7") (by decide +kernel) (by decide +kernel) (by decide)
  apply hapart [] [] 1
  refine ⟨.answers (by decide +kernel), ?_⟩
  have hrow : ∃ row ∈ (run (fun _ => none) .empty [.provision (callFor "acms" "eu/7" true)]).rows,
      row.keyId = 1 ∧ row.rawKey = some 0 := by decide +kernel
  obtain ⟨row, hmem, hid, hk⟩ := hrow
  exact .hands hmem hid hk (by decide +kernel)

end ServerManager.AgentSeparation
