import ServerManager.KeyRequests

namespace ServerManager.RotatedBudgets

open PyJson PyNumber AgentKeys KeyRequests

/-- The body of `POST /key/generate`. -/
structure KeyBody where
  keyAlias : String
  maxBudget : Option PyFloat
  budgetDuration : Option String
  deriving DecidableEq

/-- `if budget:`. -/
def given : Option PyFloat → Bool
  | none => false
  | some budget => budget != .fin 0

def provisionBody (keyAlias : String) (budget : Option PyFloat) : KeyBody :=
  if given budget then ⟨keyAlias, budget, some "30d"⟩ else ⟨keyAlias, none, none⟩

def rotateBody (keyAlias : String) : KeyBody := ⟨keyAlias, none, none⟩

section

variable (float : Json → Option PyFloat)

/-- What the request asks LiteLLM for, if it asks for a key. -/
def bodyOf (w : World) : Request → Option KeyBody
  | .provision c =>
      match applicant float c w, budgetOf float c with
      | some a, some budget => some (provisionBody (c.keyAlias a) budget)
      | _, _ => none
  | .rotate c => (selected w (.rotate c)).map (fun row => rotateBody row.keyAlias)
  | .revoke _ => none

/-- The table, and the bodies with which LiteLLM's keys have been made, in the order of their
numbers. -/
structure Ledger where
  world : World
  bodies : List KeyBody

def Ledger.step (l : Ledger) (q : Request) : Ledger where
  world := (handle float l.world q).1
  bodies :=
    if (callOf q).generate.creates then l.bodies ++ (bodyOf float l.world q).toList else l.bodies

def ledger (requests : List Request) : Ledger := requests.foldl (Ledger.step float) ⟨.empty, []⟩

/-- `max_budget` and `budget_duration` of a key. -/
def limitsAt (requests : List Request) (k : Nat) : Option (Option PyFloat × Option String) :=
  ((ledger float requests).bodies[k]?).map (fun b => (b.maxBudget, b.budgetDuration))

def expected (budget : Option PyFloat) : Option PyFloat × Option String :=
  (budget, budget.map (fun _ => "30d"))

/-- A provision with this budget has made the row, with this key. -/
def Provisioned (requests : List Request) (n : Nat) (budget : Option PyFloat) (first : Option Nat) :
    Prop :=
  ∃ before c, before ++ [.provision c] <+: requests ∧ budgetOf float c = some budget ∧
    (∀ r ∈ (run float .empty before).rows, r.keyId ≠ n) ∧
    ∃ row ∈ (run float .empty (before ++ [.provision c])).rows, row.keyId = n ∧ row.rawKey = first

/-- The budget of an agent is recorded, and its live key has it as the first one had. -/
def BudgetKept (requests : List Request) : Prop :=
  ∀ n budget first, Provisioned float requests n budget first →
    ∀ row ∈ (run float .empty requests).rows, row.keyId = n → row.monthlyBudget = budget ∧
      (row.revoked = false → ∀ k ∈ row.rawKey, k ∈ (run float .empty requests).live →
        limitsAt float requests k = some (expected budget) ∧ ∀ k₀ ∈ first, limitsAt float requests k₀ = limitsAt float requests k)

/-- A new key has no budget of zero, and a row that is rotated has none at all. -/
def Limited (w : World) : Request → Prop
  | .provision c =>
      ∀ a, applicant float c w = some a → c.generate = .key →
        w.free a.externalId (c.keyAlias a) = true →
      c.stored = true → budgetOf float c ≠ some (some (.fin 0))
  | .rotate c =>
      ∀ row, selected w (.rotate c) = some row → c.generate = .key → c.updates row = true →
        row.monthlyBudget = none
  | .revoke _ => True

end

variable {float : Json → Option PyFloat} {w : World}

theorem ledger_concat (requests : List Request) (q : Request) :
    ledger float (requests ++ [q]) = (ledger float requests).step float q := List.foldl_append

theorem ledger_world (requests : List Request) :
    (ledger float requests).world = run float .empty requests := by
  induction requests using List.reverseRecOn with
  | nil => rfl
  | append_singleton requests q ih => rw [ledger_concat, run_concat, ← ih, Ledger.step]

theorem applicant_spec {c : Call} {a : Agent} (h : applicant float c w = some a) :
    identify c ["agent_name", "harness"] = .agent a ∧ (c.connected && c.select) = true ∧
      w.active a.externalId = none ∧
      ∃ budget, budgetOf float c = some budget := by
  simp only [applicant] at h
  split at h
  next b hid =>
    split at h
    next hif =>
      obtain rfl := Option.some.inj h
      simp only [Bool.and_eq_true, Option.isNone_iff_eq_none, Option.isSome_iff_exists] at hif
      exact ⟨hid, by simpa using hif.1.1, hif.1.2, hif.2⟩
    · cases h
  · cases h

theorem bodyOf_isSome (float : Json → Option PyFloat) (w : World) (q : Request) :
    (bodyOf float w q).isSome = generates float w q := by
  cases q with
  | provision c =>
      cases happ : applicant float c w with
      | none => simp [bodyOf, generates, happ]
      | some a =>
          obtain ⟨-, -, -, budget, hb⟩ := applicant_spec happ
          simp [bodyOf, generates, happ, hb]
  | rotate c => simp [bodyOf, generates]
  | revoke c => rfl

theorem issued_handle (float : Json → Option PyFloat) (w : World) (q : Request) :
    (handle float w q).1.issued = w.issued + made float w q := by
  have he := handle_effect float w q
  generalize handle float w q = out at he
  cases he with
  | idle _ _ hissued _ _ => exact hissued
  | @existing c a row ha hact hsel =>
      have hid : identify c ["agent_name", "harness"] = .agent a := agentOf_spec ha
      simp [made, generates, applicant, hid, hact]
  | inserted _ happ _ _ _ _ _ =>
      exact issued_made float (r := .provision _) (Option.isSome_iff_exists.mpr ⟨_, happ⟩)
  | @rotated c _ row _ _ _ hsel _ _ _ =>
      refine (giveBack_frame c row _).2.2.trans ?_
      exact issued_made float (r := .rotate _) (Option.isSome_iff_exists.mpr ⟨_, hsel⟩)
  | @revoked c _ row _ _ _ _ _ _ => exact (giveBack_frame c row w).2.2

theorem length_bodies (requests : List Request) :
    (ledger float requests).bodies.length = (run float .empty requests).issued := by
  induction requests using List.reverseRecOn with
  | nil => rfl
  | append_singleton requests q ih =>
      have hsome := bodyOf_isSome float (run float .empty requests) q
      rw [run_concat, issued_handle, ledger_concat, Ledger.step, ledger_world, made, ← hsome]
      cases hc : (callOf q).generate.creates with
      | false => simpa using ih
      | true =>
          cases hb : bodyOf float (run float .empty requests) q with
          | none => simpa using ih
          | some body => simpa using ih

theorem bodies_concat (float : Json → Option PyFloat) (requests : List Request) (q : Request) :
    (ledger float requests).bodies <+: (ledger float (requests ++ [q])).bodies := by
  rw [ledger_concat, Ledger.step]
  split
  · exact List.prefix_append _ _
  · exact List.prefix_refl _

theorem limitsAt_append {requests : List Request} {k : Nat} {x : Option PyFloat × Option String}
    (h : limitsAt float requests k = some x) (more : List Request) :
    limitsAt float (requests ++ more) k = some x := by
  induction more using List.reverseRecOn with
  | nil => simpa using h
  | append_singleton more q ih =>
      obtain ⟨body, hbody, hx⟩ := Option.map_eq_some_iff.mp ih
      obtain ⟨rest, hrest⟩ := bodies_concat float (requests ++ more) q
      obtain ⟨hlt, -⟩ := List.getElem?_eq_some_iff.mp hbody
      rw [← List.append_assoc, limitsAt, ← hrest, List.getElem?_append_left hlt, hbody]
      exact congrArg some hx

theorem limitsAt_made {requests : List Request} {q : Request} {body : KeyBody}
    (hc : (callOf q).generate.creates = true)
    (hb : bodyOf float (run float .empty requests) q = some body) :
    limitsAt float (requests ++ [q]) (run float .empty requests).issued =
      some (body.maxBudget, body.budgetDuration) := by
  rw [limitsAt, ledger_concat, Ledger.step, if_pos hc, ledger_world, hb, ← length_bodies]
  simp

theorem limits_provisionBody {keyAlias : String} {budget : Option PyFloat}
    (hb : budget ≠ some (.fin 0)) :
    ((provisionBody keyAlias budget).maxBudget, (provisionBody keyAlias budget).budgetDuration) =
    expected budget := by
  cases budget with
  | none => rfl
  | some b =>
      have hgiven : given (some b) = true := by simpa [given] using hb
      rw [provisionBody, if_pos hgiven]
      rfl

/-- The keys of all rows have the budgets that are recorded. -/
def Faithful (float : Json → Option PyFloat) (requests : List Request) : Prop :=
  ∀ row ∈ (run float .empty requests).rows, ∀ k, row.rawKey = some k →
    limitsAt float requests k = some (expected row.monthlyBudget)

theorem Faithful.concat {requests : List Request} (h : Faithful float requests) (q : Request)
    (hq : Limited float (run float .empty requests) q) : Faithful float (requests ++ [q]) := by
  have ho := orderly_run float requests
  have hold : ∀ row ∈ (run float .empty requests).rows, ∀ k, row.rawKey = some k →
      limitsAt float (requests ++ [q]) k = some (expected row.monthlyBudget) :=
    fun row hrow k hk => limitsAt_append (h row hrow k hk) [q]
  have hmade : ∀ body, (callOf q).generate.creates = true →
      bodyOf float (run float .empty requests) q = some body →
      limitsAt float (requests ++ [q]) (run float .empty requests).issued =
        some (body.maxBudget, body.budgetDuration) :=
    fun body => limitsAt_made
  have he := handle_effect float (run float .empty requests) q
  intro row hrow k hk
  rw [run_concat] at hrow
  generalize run float .empty requests = w at ho hq hold hmade he hrow
  generalize handle float w q = out at he hrow
  cases he with
  | idle hrows _ _ _ _ =>
      rw [hrows] at hrow
      exact hold row hrow k hk
  | existing _ _ _ => exact hold row hrow k hk
  | @inserted c a budget _ ha happ hb _ hf hst _ =>
      rw [World.insert, rows_create] at hrow
      rcases List.mem_append.mp hrow with hrow | hrow
      · exact hold row hrow k hk
      · rw [List.mem_singleton.mp hrow] at hk ⊢
        obtain ⟨rfl, hg, -⟩ := newKey_fresh ho.toSound c.generate hk
        have hbody : bodyOf float w (.provision c) =
            some (provisionBody (c.keyAlias a) budget) := by simp [bodyOf, happ, hb]
        have hzero : budget ≠ some (.fin 0) := fun hz => hq a happ hg hf hst (hz ▸ hb)
        rw [hmade _ (by simp [callOf, hg, Generate.creates]) hbody, limits_provisionBody hzero]
        rfl
  | @rotated c a r _ ha hact hsel _ hup _ =>
      obtain ⟨hr, -, -⟩ := active_spec hact
      obtain ⟨s, hs, hcases⟩ := mem_update.mp hrow
      rw [(giveBack_frame c r _).1, rows_create] at hs
      rcases hcases with ⟨hid, rfl⟩ | ⟨-, rfl⟩
      · obtain rfl := ho.row_eq hs hr (.inl hid)
        obtain ⟨rfl, hg, -⟩ := newKey_fresh ho.toSound c.generate hk
        have hbody : bodyOf float w (.rotate c) = some (rotateBody s.keyAlias) := by
          simp [bodyOf, hsel]
        rw [hmade _ (by simp [callOf, hg, Generate.creates]) hbody, rotatedRow, hq s hsel hg hup]
        rfl
      · exact hold row hs k hk
  | @revoked c a r _ _ _ _ _ _ =>
      obtain ⟨s, hs, hcases⟩ := mem_update.mp hrow
      rw [(giveBack_frame c r _).1] at hs
      rcases hcases with ⟨-, rfl⟩ | ⟨-, rfl⟩
      · exact hold s hs k hk
      · exact hold row hs k hk

theorem faithful_run {requests : List Request}
    (h : ∀ pre q, pre ++ [q] <+: requests → Limited float (run float .empty pre) q) :
    Faithful float requests := by
  induction requests using List.reverseRecOn with
  | nil => exact nofun
  | append_singleton requests q ih =>
      refine (ih fun pre r hpre => h pre r (hpre.trans (List.prefix_append _ _))).concat q ?_
      exact h requests q (List.prefix_refl _)

theorem Provisioned.mono {requests more : List Request} {n : Nat} {budget : Option PyFloat}
    {first : Option Nat}
    (h : Provisioned float requests n budget first) (hpre : requests <+: more) :
    Provisioned float more n budget first := by
  obtain ⟨before, c, hbefore, hrest⟩ := h
  exact ⟨before, c, hbefore.trans hpre, hrest⟩

theorem provisioned_row {requests : List Request} {row : AgentKey}
    (hrow : row ∈ (run float .empty requests).rows) :
    ∃ first, Provisioned float requests row.keyId row.monthlyBudget first := by
  induction requests using List.reverseRecOn generalizing row with
  | nil => cases hrow
  | append_singleton requests q ih =>
      have ho := orderly_run float requests
      have hrow' := hrow
      rw [run_concat] at hrow'
      rcases earlier_row hrow' with ⟨r, hr, hk⟩ | ⟨c, a, budget, rfl, -, hb, -, hins⟩
      · obtain ⟨first, hfirst⟩ := ih hr
        rw [hk.keyId, hk.monthlyBudget]
        exact ⟨first, hfirst.mono (List.prefix_append _ _)⟩
      · refine ⟨row.rawKey, requests, c, List.prefix_refl _, ?_, fun r hr he => ?_, row, hrow, rfl,
          rfl⟩
        · rw [hins]
          exact hb
        · have hid : row.keyId = (run float .empty requests).nextId := by rw [hins]; rfl
          have hlt := ho.ids r hr
          omega

theorem Provisioned.row {requests : List Request} {n : Nat} {budget : Option PyFloat}
    {first : Option Nat}
    (h : Provisioned float requests n budget first) {row : AgentKey}
    (hrow : row ∈ (run float .empty requests).rows)
    (hn : row.keyId = n) : row.monthlyBudget = budget ∧ ∃ before more row₀,
    requests = before ++ more ∧
      row₀ ∈ (run float .empty before).rows ∧ row₀.monthlyBudget = budget ∧
        row₀.rawKey = first := by
  obtain ⟨before, c, ⟨more, rfl⟩, hb, hnew, row₀, hrow₀, hid, hfirst⟩ := h
  have hbudget : row₀.monthlyBudget = budget := by
    have hrow₀' := hrow₀
    rw [run_concat] at hrow₀'
    rcases earlier_row hrow₀' with ⟨r, hr, hk⟩ | ⟨c', a, budget', heq, -, hb', -, hins⟩
    · exact absurd (hk.keyId.symm.trans hid) (hnew r hr)
    · obtain rfl := Request.provision.inj heq
      rw [hb'] at hb
      rw [hins]
      exact Option.some.inj hb
  refine ⟨?_, before ++ [.provision c], more, row₀, rfl, hrow₀, hbudget, hfirst⟩
  obtain ⟨s, hs, hk⟩ := later_run float hrow₀ more
  rw [← run_append] at hs
  obtain rfl := (orderly_run float _).row_eq hs hrow (.inl ((hk.keyId.trans hid).trans hn.symm))
  exact hk.monthlyBudget.trans hbudget

theorem Faithful.budgetKept {requests : List Request}
    (h : ∀ pre, pre <+: requests → Faithful float pre) :
    BudgetKept float requests := by
  intro n budget first hp row hrow hn
  obtain ⟨hbudget, before, more, row₀, rfl, hrow₀, hbudget₀, hfirst⟩ := hp.row hrow hn
  refine ⟨hbudget, fun _ k hk _ => ?_⟩
  have hkey := h _ (List.prefix_refl _) row hrow k hk
  rw [hbudget] at hkey
  refine ⟨hkey, fun k₀ hk₀ => ?_⟩
  have hkey₀ := h before (List.prefix_append _ _) row₀ hrow₀ k₀ (hfirst.trans hk₀)
  rw [hbudget₀] at hkey₀
  rw [limitsAt_append hkey₀ more, hkey]

theorem provision_stores {c : Call} {a : Agent} {budget : Option PyFloat}
    (happ : applicant float c w = some a)
    (hb : budgetOf float c = some budget) (hg : c.generate = .key)
    (hf : w.free a.externalId (c.keyAlias a) = true)
    (hst : c.stored = true) : (handle float w (.provision c)).1 =
    (w.create true).insert (insertedRow c w a budget) := by
  obtain ⟨hid, hconn, hact, -⟩ := applicant_spec happ
  have hfree : (w.create Generate.key.creates).free (insertedRow c w a budget).externalId
      (insertedRow c w a budget).keyAlias =
      true := by
    rw [free_create]
    exact hf
  rw [handle, provision, hid]
  simp only [hconn, hact, hb, if_true, generateKey, hg, insertKey]
  rw [insertedRow, hg] at hfree ⊢
  rw [if_pos hfree, if_pos hst]
  rfl

theorem rotate_stores (float : Json → Option PyFloat) {c : Call} {row : AgentKey}
    (hsel : selected w (.rotate c) = some row)
    (hg : c.generate = .key) (hup : c.updates row = true) :
    (handle float w (.rotate c)).1 = (giveBack c row (w.create true)).update row.keyId
    (rotatedRow (some w.issued)) := by
  have hrotate : rotateRow c row w =
      replaceKey c row (rotatedRow (some w.issued)) (.rotated row.keyId (some w.issued))
        (w.create true) := by
    rw [rotateRow, hg]
    rfl
  rw [selected_rotate] at hsel
  rw [handle, rotate]
  rcases withRow_cases c w with ⟨hnone, -⟩ | ⟨a, row', -, -, -, hrow, heq⟩
  · rw [hnone] at hsel
    cases hsel
  · obtain rfl := Option.some.inj (hrow.symm.trans hsel)
    rw [heq, hrotate, replaceKey_world]
    exact if_pos hup

theorem BudgetKept.new_key {requests : List Request} {q : Request}
    (h : BudgetKept float (requests ++ [q])) {row : AgentKey}
    {body : KeyBody} (hrow : row ∈ (run float .empty (requests ++ [q])).rows)
    (hact : row.revoked = false)
    (hkey : row.rawKey = some (run float .empty requests).issued)
    (hlive : (run float .empty requests).issued ∈ (run float .empty (requests ++ [q])).live)
    (hc : (callOf q).generate.creates = true)
    (hb : bodyOf float (run float .empty requests) q = some body) :
    (body.maxBudget, body.budgetDuration) = expected row.monthlyBudget := by
  obtain ⟨first, hp⟩ := provisioned_row hrow
  obtain ⟨-, hlimits⟩ := h _ _ _ hp row hrow rfl
  have hkept := (hlimits hact _ hkey hlive).1
  rw [limitsAt_made hc hb] at hkept
  exact Option.some.inj hkept

theorem BudgetKept.limited {requests : List Request} {q : Request}
    (h : BudgetKept float (requests ++ [q])) :
    Limited float (run float .empty requests) q := by
  have hcreates : (callOf q).generate = .key → (callOf q).generate.creates = true := fun hg => by
    rw [hg]; rfl
  cases q with
  | provision c =>
      intro a happ hg hf hst hb
      have hstores := provision_stores happ hb hg hf hst
      have hrow : insertedRow c (run float .empty requests) a (some (.fin 0)) ∈
          (run float .empty (requests ++ [.provision c])).rows := by
        rw [run_concat, hstores]
        exact List.mem_append_right _ (List.mem_singleton.mpr rfl)
      have hkey : (insertedRow c (run float .empty requests) a (some (.fin 0))).rawKey =
          some (run float .empty requests).issued := by
        simp [insertedRow, newRow, World.newKey, hg]
      have hlive : (run float .empty requests).issued ∈
          (run float .empty (requests ++ [.provision c])).live := by
        rw [run_concat, hstores]
        simp [World.insert, World.create]
      have hbody : bodyOf float (run float .empty requests) (.provision c) =
          some (provisionBody (c.keyAlias a) (some (.fin 0))) := by
        simp [bodyOf, happ, hb]
      have hno := h.new_key hrow rfl hkey hlive (hcreates hg) hbody
      exact absurd hno (by simp [provisionBody, given, expected, insertedRow, newRow])
  | rotate c =>
      intro row hsel hg hup
      have hstores := rotate_stores float hsel hg hup
      obtain ⟨a, -, -, hact⟩ := selected_spec hsel
      obtain ⟨hmem, -, hunrevoked⟩ := active_spec hact
      have hrow : rotatedRow (some (run float .empty requests).issued) row ∈
          (run float .empty (requests ++ [.rotate c])).rows := by
        rw [run_concat, hstores]
        refine mem_update.mpr ⟨row, ?_, .inl ⟨rfl, rfl⟩⟩
        rw [(giveBack_frame c row _).1, rows_create]
        exact hmem
      have hlive : (run float .empty requests).issued ∈
          (run float .empty (requests ++ [.rotate c])).live := by
        rw [run_concat, hstores]
        change _ ∈ (giveBack c row _).live
        cases hraw : row.rawKey with
        | none => simp [giveBack, hraw, World.create]
        | some key =>
            have hlt := (orderly_run float requests).keys row hmem key hraw
            rw [giveBack, hraw]
            refine (mem_live_drop _ _ _ _).mpr ⟨by simp [World.create], fun hd => ?_⟩
            omega
      have hbody : bodyOf float (run float .empty requests) (.rotate c) =
          some (rotateBody row.keyAlias) := by simp [bodyOf, hsel]
      have hno := h.new_key hrow hunrevoked rfl hlive (hcreates hg) hbody
      exact (congrArg Prod.fst hno).symm
  | revoke c => trivial

/-- All keys keep their budgets throughout a run exactly when each request, on the table
that it finds, gives no new key a budget of zero and rotates no row with a budget. -/
theorem budget_kept_iff (float : Json → Option PyFloat) (requests : List Request) :
    (∀ pre, pre <+: requests → BudgetKept float pre) ↔
      ∀ pre q, pre ++ [q] <+: requests → Limited float (run float .empty pre) q := by
  constructor
  · intro hall pre q hpre
    exact (hall _ hpre).limited
  · intro hall pre hpre
    apply Faithful.budgetKept
    intro earlier hearlier
    apply faithful_run
    intro before q hbefore
    exact hall before q (hbefore.trans (hearlier.trans hpre))

def rotatedOnce : List Request :=
  [.provision { plainCall with body := agentBody ++ [("monthly_budget_usd", .int 5)] },
    .rotate plainCall]

def intBudget : Json → Option PyFloat
  | .int n => some (.fin n)
  | _ => none

theorem rotation_drops_budget : ¬ ∀ (float : Json → Option PyFloat) (requests : List Request),
    BudgetKept float requests := by
  intro hall
  have hbudget : budgetOf intBudget { plainCall with body := agentBody ++ [("monthly_budget_usd",
      .int 5)] } =
      some (some (.fin 5)) := rfl
  have hp : Provisioned intBudget rotatedOnce 1 (some (.fin 5)) (some 0) := by
    refine ⟨[], _, ⟨[.rotate plainCall], rfl⟩, hbudget, nofun, ?_⟩
    decide +kernel
  have hrow : ∃ row ∈ (run intBudget .empty rotatedOnce).rows, row.keyId = 1 ∧ row.revoked = false ∧
      row.rawKey = some 1 := by
    decide +kernel
  obtain ⟨row, hmem, hid, hact, hk⟩ := hrow
  obtain ⟨-, hlimits⟩ := hall intBudget rotatedOnce 1 _ _ hp row hmem hid
  have hno := (hlimits hact 1 hk (by decide +kernel)).1
  have hlimit : limitsAt intBudget rotatedOnce 1 = some (none, none) := by decide +kernel
  rw [hlimit] at hno
  cases hno

end ServerManager.RotatedBudgets
