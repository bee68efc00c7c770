import ServerManager.PyText
import ServerManager.PyNumber
import Mathlib.Data.List.Pairwise
import Mathlib.Data.List.Induction

namespace ServerManager.AgentKeys

open PyJson PyText PyNumber

structure AgentKey where
  keyId : Nat
  externalId : String
  projectId : String
  agentInstanceId : String
  agentName : String
  harness : String
  keyAlias : String
  rawKey : Option Nat
  enabled : Bool
  revoked : Bool
  monthlyBudget : Option PyFloat
  deriving DecidableEq

structure World where
  rows : List AgentKey
  nextId : Nat
  live : List Nat
  issued : Nat
  deriving DecidableEq

def World.empty : World := ⟨[], 1, [], 0⟩

/-- `POST /key/generate`. An answer of 200 has the key or not; any failure can
come after the key has been created. -/
inductive Generate
  | key
  | keyless (created : Bool)
  | status (text : String) (created : Bool)
  | raises (created : Bool)
  deriving DecidableEq

/-- `POST /key/delete`, whose status nobody looks at. -/
inductive Delete
  | answered (deleted : Bool)
  | raises (deleted : Bool)
  deriving DecidableEq

inductive Commit
  | done
  | failed (happened : Bool)
  deriving DecidableEq

def Generate.creates : Generate → Bool
  | .key => true
  | .keyless created => created
  | .status _ created => created
  | .raises created => created

def Generate.accepted : Generate → Bool
  | .key => true
  | .keyless _ => true
  | _ => false

def Delete.deletes : Delete → Bool
  | .answered deleted => deleted
  | .raises deleted => deleted

def Delete.returns : Delete → Bool
  | .answered .. => true
  | .raises _ => false

def Commit.happens : Commit → Bool
  | .done => true
  | .failed happened => happened

/-- A request and everything it meets. -/
structure Call where
  authorized : Bool
  body : Dict
  connected : Bool
  select : Bool
  generate : Generate
  delete : Delete
  write : Bool
  commit : Commit

inductive Reply
  | error (status : Nat) (text : String)
  | failed
  | existing (keyId : Nat) (keyAlias : String) (rawKey : Option Nat)
  | created (keyId : Nat) (keyAlias : String) (rawKey : Option Nat)
  | rotated (keyId : Nat) (rawKey : Option Nat)
  | revoked (keyId : Nat)
  deriving DecidableEq

/-- `WHERE external_id=%s AND revoked_at IS NULL`. -/
def World.active (w : World) (externalId : String) : Option AgentKey :=
  w.rows.find? (fun r => decide (r.externalId = externalId ∧ r.revoked = false))

/-- `external_id` and `alias` are unique, also among revoked rows. -/
def World.free (w : World) (externalId keyAlias : String) : Bool :=
  w.rows.all (fun r => decide (r.externalId ≠ externalId ∧ r.keyAlias ≠ keyAlias))

/-- The numbers have no gaps: those that failed INSERTs use up are left out. -/
def World.insert (w : World) (r : AgentKey) : World :=
  { w with rows := w.rows ++ [r], nextId := w.nextId + 1 }

/-- `UPDATE … WHERE key_id=%s`. -/
def World.update (w : World) (keyId : Nat) (change : AgentKey → AgentKey) : World :=
  { w with rows := w.rows.map (fun r => if r.keyId = keyId then change r else r) }

def World.create (w : World) (created : Bool) : World :=
  if created then { w with live := w.live ++ [w.issued], issued := w.issued + 1 } else w

def World.drop (w : World) (deleted : Bool) (key : Nat) : World :=
  if deleted then { w with live := w.live.filter (fun k => decide (k ≠ key)) } else w

def World.newKey (w : World) (g : Generate) : Option Nat := if g = .key then some w.issued else none

def Call.field (c : Call) (name : String) : Option String :=
  strippedText ((c.body.get? name).getD .null)

structure Agent where
  externalId : String
  projectId : String
  agentInstanceId : String

inductive Identified
  | agent (a : Agent)
  | refused (status : Nat) (text : String)
  | failed

/-- All fields have to be texts before the first two are looked at. -/
def identify (c : Call) (others : List String) : Identified :=
  if c.authorized then
    match c.field "project_id", c.field "agent_instance_id" with
    | some projectId, some agentInstanceId =>
        if others.any (fun name => (c.field name).isNone) then .failed
        else if projectId = "" ∨ agentInstanceId =
          "" then .refused 400 "project_id and agent_instance_id required"
        else .agent ⟨projectId ++ "/" ++ agentInstanceId, projectId, agentInstanceId⟩
    | _, _ => .failed
  else .refused 401 "service auth required"

/-- The row is stored when the statement and the commit have happened. -/
def Call.stored (c : Call) : Bool := c.write && c.commit.happens

def Call.committed (c : Call) : Bool := c.write && c.commit == .done

section Requests

variable (float : Json → Option PyFloat)

def budgetOf (c : Call) : Option (Option PyFloat) :=
  match (c.body.get? "monthly_budget_usd").getD .null with
  | .null => some none
  | .str "" => some none
  | v => (float v).map some

def defaultAlias (externalId : String) : String :=
  String.ofList (externalId.toList.map (fun c => if c = '/' then '-' else c))

def newRow (w : World) (a : Agent) (agentName harness : String) (budget : Option PyFloat)
    (rawKey : Option Nat) : AgentKey where
  keyId := w.nextId
  externalId := a.externalId
  projectId := a.projectId
  agentInstanceId := a.agentInstanceId
  agentName := agentName
  harness := harness
  keyAlias := if agentName = "" then defaultAlias a.externalId else agentName
  rawKey := rawKey
  enabled := true
  revoked := false
  monthlyBudget := budget

def insertKey (c : Call) (row : AgentKey) (w : World) : World × Reply :=
  if w.free row.externalId row.keyAlias then
    (if c.stored then w.insert row else w, if c.committed
    then .created row.keyId row.keyAlias row.rawKey else .failed)
  else (w, .failed)

def generateKey (c : Call) (row : Option Nat → AgentKey) (w : World) : World × Reply :=
  match c.generate with
  | .status text created =>
      (w.create created, .error 502 ("litellm key generate failed: " ++
        String.ofList (text.toList.take 150)))
  | .raises created => (w.create created, .failed)
  | g => insertKey c (row (w.newKey g)) (w.create g.creates)

/-- `service_provision`. -/
def provision (c : Call) (w : World) : World × Reply :=
  match identify c ["agent_name", "harness"] with
  | .refused status text => (w, .error status text)
  | .failed => (w, .failed)
  | .agent a =>
      if c.connected && c.select then
        match w.active a.externalId with
        | some row =>
            (w, if c.commit = .done then .existing row.keyId row.keyAlias row.rawKey else .failed)
        | none =>
            match budgetOf float c with
            | some budget =>
                generateKey c (newRow w a ((c.field "agent_name").getD "")
                  ((c.field "harness").getD "") budget) w
            | none => (w, .failed)
      else (w, .failed)

/-- The update of a row after its old key has been given back. -/
def replaceKey (c : Call) (row : AgentKey) (change : AgentKey → AgentKey) (reply : Reply)
    (w : World) : World × Reply :=
  let update (w : World) : World × Reply :=
    (if c.stored then w.update row.keyId change else w, if c.committed then reply else .failed)
  match row.rawKey with
  | none => update w
  | some key =>
      if c.delete.returns then update (w.drop c.delete.deletes key)
        else (w.drop c.delete.deletes key, .failed)

/-- The row of the agent for `rotate` and `revoke`. -/
def withRow (c : Call) (w : World) (next : AgentKey → World × Reply) : World × Reply :=
  match identify c [] with
  | .refused status text => (w, .error status text)
  | .failed => (w, .failed)
  | .agent a =>
      if c.connected && c.select then
        match w.active a.externalId with
        | some row => next row
        | none => (w, .error 404 "agent not found")
      else (w, .failed)

def rotateRow (c : Call) (row : AgentKey) (w : World) : World × Reply :=
  match c.generate with
  | .status _ created => (w.create created, .error 502 "litellm key generate failed")
  | .raises created => (w.create created, .failed)
  | g =>
      let rawKey := w.newKey g
      replaceKey c row (fun r => { r with rawKey := rawKey }) (.rotated row.keyId rawKey)
        (w.create g.creates)

/-- `service_rotate`. -/
def rotate (c : Call) (w : World) : World × Reply := withRow c w (fun row => rotateRow c row w)

/-- `service_revoke`. -/
def revoke (c : Call) (w : World) : World × Reply :=
  withRow c w (fun row => replaceKey c row (fun r => { r with revoked := true, enabled := false })
    (.revoked row.keyId) w)

inductive Request
  | provision (c : Call)
  | rotate (c : Call)
  | revoke (c : Call)

def handle (w : World) : Request → World × Reply
  | .provision c => provision float c w
  | .rotate c => rotate c w
  | .revoke c => revoke c w

def run (w : World) (requests : List Request) : World :=
  requests.foldl (fun w r => (handle float w r).1) w

end Requests

def Owed (w : World) (k : Nat) : Prop := ∃ r ∈ w.rows, r.revoked = false ∧ r.rawKey = some k

/-- The live keys are those of the rows, and none of them is a revoked row's. -/
structure Agree (w : World) : Prop where
  live : ∀ k, k ∈ w.live ↔ Owed w k
  revoked : ∀ r ∈ w.rows, r.revoked = true → ∀ k ∈ r.rawKey, k ∉ w.live

/-- Different rows have different numbers and different keys. -/
def AgentKey.Apart (r s : AgentKey) : Prop :=
  r.keyId ≠ s.keyId ∧ ∀ k, r.rawKey = some k → s.rawKey ≠ some k

instance : Std.Symm AgentKey.Apart where
  symm _ _ hab := ⟨fun hk => hab.1 hk.symm, fun k hb ha => hab.2 k ha hb⟩

/-- What the sequence and LiteLLM guarantee, whatever fails. -/
structure Sound (w : World) : Prop where
  apart : w.rows.Pairwise AgentKey.Apart
  ids : ∀ r ∈ w.rows, r.keyId < w.nextId
  keys : ∀ r ∈ w.rows, ∀ k ∈ r.rawKey, k < w.issued
  live : ∀ k ∈ w.live, k < w.issued

theorem Sound.empty : Sound .empty := ⟨.nil, nofun, nofun, nofun⟩

theorem Sound.row_eq {w : World} (h : Sound w) {r s : AgentKey} (hr : r ∈ w.rows) (hs : s ∈ w.rows)
    (he : r.keyId = s.keyId ∨ ∃ k, r.rawKey = some k ∧ s.rawKey = some k) : r = s := by
  by_contra hne
  have hap := h.apart.forall hr hs hne
  rcases he with he | ⟨k, hk, hk'⟩
  · exact hap.1 he
  · exact hap.2 k hk hk'

theorem agree_iff {w : World} (h : Sound w) : Agree w ↔ ∀ k, k ∈ w.live ↔ Owed w k := by
  refine ⟨fun ha => ha.live, fun hl => ⟨hl, fun r hr hrev k hk hlive => ?_⟩⟩
  obtain ⟨s, hs, hact, hsk⟩ := (hl k).mp hlive
  obtain rfl := h.row_eq hr hs (.inr ⟨k, hk, hsk⟩)
  rw [hrev] at hact
  cases hact

theorem agree_change {w w' : World} (h : Sound w) (h' : Sound w') (ha : Agree w) {old : Option Nat}
    {made kept dead dropped : Prop}
    (hold : ∀ k ∈ old, Owed w k)
    (hlive : ∀ k, k ∈ w'.live ↔ k ∈ w.live ∧ ¬ (dead ∧ old = some k) ∨ made ∧ k = w.issued)
    (howed : ∀ k, Owed w' k ↔ Owed w k ∧ ¬ (dropped ∧ old = some k) ∨ kept ∧ k = w.issued) :
    Agree w' ↔ (made ↔ kept) ∧ ∀ k ∈ old, dead ↔ dropped := by
  rw [agree_iff h']
  have hnew : w.issued ∉ w.live ∧ ¬ Owed w w.issued := by
    refine ⟨fun hk => Nat.lt_irrefl _ (h.live _ hk),
      fun ⟨r, hr, _, hk⟩ => Nat.lt_irrefl _ (h.keys r hr _ hk)⟩
  constructor
  · intro hl
    constructor
    · have hissued := hl w.issued
      rw [hlive, howed] at hissued
      tauto
    · intro k hk
      have hk' := hl k
      have hlt : k ≠ w.issued := fun he => hnew.2 (he ▸ hold k hk)
      have howe := hold k hk
      have hin := (ha.live k).mpr howe
      rw [hlive, howed] at hk'
      have hsome : old = some k := hk
      tauto
  · rintro ⟨hmade, hdead⟩ k
    rw [hlive, howed, ha.live, hmade]
    by_cases hk : old = some k
    · rw [hdead k hk]
    · tauto

@[simp] theorem rows_create (w : World) (created : Bool) : (w.create created).rows = w.rows := by
  cases created with
  | false => rfl
  | true => rfl

@[simp] theorem nextId_create (w : World) (created : Bool) :
    (w.create created).nextId = w.nextId := by
  cases created with
  | false => rfl
  | true => rfl

theorem free_create (w : World) (created : Bool) (e keyAlias : String) :
    (w.create created).free e keyAlias = w.free e keyAlias := by
  rw [World.free, World.free, rows_create]

theorem owed_create (w : World) (created : Bool) (k : Nat) : Owed (w.create created) k ↔
    Owed w k := by
  cases created with
  | false => exact Iff.rfl
  | true => exact Iff.rfl

theorem mem_live_create (w : World) (created : Bool) (k : Nat) :
    k ∈ (w.create created).live ↔ k ∈ w.live ∨ created = true ∧ k = w.issued := by
  cases created with
  | false => simp [World.create]
  | true => simp [World.create]

theorem issued_create (w : World) (created : Bool) : w.issued ≤ (w.create created).issued := by
  cases created with
  | false => exact Nat.le_refl _
  | true => exact Nat.le_succ _

theorem Sound.create {w : World} (h : Sound w) (created : Bool) : Sound (w.create created) := by
  have hle := issued_create w created
  refine ⟨?_, ?_, ?_, fun k hk => ?_⟩
  · rw [rows_create]
    exact h.apart
  · rw [rows_create, nextId_create]
    exact h.ids
  · rw [rows_create]
    exact fun r hr k hk => (h.keys r hr k hk).trans_le hle
  · rcases (mem_live_create w created k).mp hk with hk | ⟨rfl, rfl⟩
    · exact (h.live k hk).trans_le hle
    · exact Nat.lt_succ_self _

theorem newKey_fresh {w : World} (h : Sound w) (g : Generate) {k : Nat} (hk : w.newKey g = some k) :
    k = w.issued ∧ g = .key ∧ k < (w.create g.creates).issued ∧ ∀ r ∈ w.rows,
      r.rawKey ≠ some k := by
  unfold World.newKey at hk
  split at hk
  next hg =>
    obtain rfl := Option.some.inj hk
    subst hg
    exact ⟨rfl, rfl, Nat.lt_succ_self _, fun r hr he => Nat.lt_irrefl _ (h.keys r hr _ he)⟩
  · cases hk

theorem Sound.drop {w : World} (h : Sound w) (deleted : Bool) (key : Nat) :
    Sound (w.drop deleted key) := by
  cases deleted with
  | false => exact h
  | true => exact ⟨h.apart, h.ids, h.keys, fun k hk => h.live k (List.mem_of_mem_filter hk)⟩

theorem mem_live_drop (w : World) (deleted : Bool) (key k : Nat) :
    k ∈ (w.drop deleted key).live ↔ k ∈ w.live ∧ ¬ (deleted = true ∧ k = key) := by
  cases deleted with
  | false => simp [World.drop]
  | true => simp [World.drop]

theorem Sound.insert {w : World} (h : Sound w) {row : AgentKey} (hid : row.keyId = w.nextId)
    (hkey : ∀ k, row.rawKey = some k → k < w.issued ∧ ∀ r ∈ w.rows, r.rawKey ≠ some k) :
    Sound (w.insert row) where
  apart := by
    refine List.pairwise_append.mpr ⟨h.apart, List.pairwise_singleton _ _, fun r hr s hs => ?_⟩
    obtain rfl := List.mem_singleton.mp hs
    refine ⟨fun he => Nat.lt_irrefl _ ((h.ids r hr).trans_eq (hid.symm.trans he.symm)),
      fun k hk hk' => (hkey k hk').2 r hr hk⟩
  ids r hr := by
    rcases List.mem_append.mp hr with hr | hr
    · exact (h.ids r hr).trans (Nat.lt_succ_self _)
    · rw [List.mem_singleton.mp hr, hid]
      exact Nat.lt_succ_self _
  keys r hr k hk := by
    rcases List.mem_append.mp hr with hr | hr
    · exact h.keys r hr k hk
    · rw [List.mem_singleton.mp hr] at hk
      exact (hkey k hk).1
  live := h.live

theorem owed_insert (w : World) {row : AgentKey} (hr : row.revoked = false) (k : Nat) :
    Owed (w.insert row) k ↔ Owed w k ∨ row.rawKey = some k := by
  constructor
  · rintro ⟨r, hr', hact, hk⟩
    rcases List.mem_append.mp hr' with hr' | hr'
    · exact .inl ⟨r, hr', hact, hk⟩
    · exact .inr (List.mem_singleton.mp hr' ▸ hk)
  · rintro (⟨r, hr', hact, hk⟩ | hk)
    · exact ⟨r, List.mem_append_left _ hr', hact, hk⟩
    · exact ⟨row, List.mem_append_right _ (List.mem_singleton.mpr rfl), hr, hk⟩

/-- A change keeps the row's key, or gives it a new one or none. -/
structure Fresh (w : World) (row : AgentKey) (change : AgentKey → AgentKey) : Prop where
  keyId : ∀ r, (change r).keyId = r.keyId
  key : ∀ k, (change row).rawKey = some k → row.rawKey = some k ∨ k < w.issued ∧ ∀ r ∈ w.rows,
    r.rawKey ≠ some k

theorem Sound.update {w : World} (h : Sound w) {row : AgentKey} (hrow : row ∈ w.rows)
    {change : AgentKey → AgentKey}
    (hc : Fresh w row change) : Sound (w.update row.keyId change) := by
  have hsame : ∀ r ∈ w.rows, r.keyId = row.keyId → r = row :=
    fun r hr he => h.row_eq hr hrow (.inl he)
  have hid : ∀ r, (if r.keyId = row.keyId then change r else r).keyId = r.keyId := by
    intro r
    split
    · exact hc.keyId r
    · rfl
  have hkey : ∀ r ∈ w.rows, ∀ k, (if r.keyId = row.keyId then change r else r).rawKey = some k →
      r.rawKey = some k ∨ r = row ∧ k < w.issued ∧ ∀ r ∈ w.rows, r.rawKey ≠ some k := by
    intro r hr k hk
    by_cases he : r.keyId = row.keyId
    · rw [if_pos he, hsame r hr he] at hk
      rw [hsame r hr he]
      exact (hc.key k hk).imp_right fun hnew => ⟨rfl, hnew⟩
    · rw [if_neg he] at hk
      exact .inl hk
  refine ⟨List.pairwise_map.mpr (h.apart.imp_of_mem fun {r s} hr hs hrs =>
    ⟨?_, fun k hk hk' => ?_⟩), fun r hr => ?_,
    fun r hr k hk => ?_, h.live⟩
  · rw [hid r, hid s]
    exact hrs.1
  · rcases hkey r hr k hk with hold | ⟨rfl, -, hnew⟩
    · rcases hkey s hs k hk' with hold' | ⟨rfl, -, hnew⟩
      · exact hrs.2 k hold hold'
      · exact hnew r hr hold
    · rcases hkey s hs k hk' with hold' | ⟨rfl, -, -⟩
      · exact hnew s hs hold'
      · exact hrs.1 rfl
  · obtain ⟨r, hr', rfl⟩ := List.mem_map.mp hr
    rw [hid r]
    exact h.ids r hr'
  · obtain ⟨r, hr', rfl⟩ := List.mem_map.mp hr
    rcases hkey r hr' k hk with hold | ⟨-, hlt, -⟩
    · exact h.keys r hr' k hold
    · exact hlt

theorem owed_update {w : World} (h : Sound w) {row : AgentKey} (hrow : row ∈ w.rows)
    (change : AgentKey → AgentKey) (k : Nat) :
    Owed (w.update row.keyId change) k ↔
      Owed w k ∧ row.rawKey ≠ some k ∨ (change row).revoked = false ∧
        (change row).rawKey = some k := by
  have hsame : ∀ r ∈ w.rows, r.keyId = row.keyId → r = row :=
    fun r hr he => h.row_eq hr hrow (.inl he)
  constructor
  · rintro ⟨r', hr', hact', hk⟩
    obtain ⟨r, hr, rfl⟩ := List.mem_map.mp hr'
    by_cases he : r.keyId = row.keyId
    · rw [if_pos he, hsame r hr he] at hact' hk
      exact .inr ⟨hact', hk⟩
    · rw [if_neg he] at hact' hk
      refine .inl ⟨⟨r, hr, hact', hk⟩, fun hk' => he ?_⟩
      rw [h.row_eq hr hrow (.inr ⟨k, hk, hk'⟩)]
  · rintro (⟨⟨r, hr, hact', hk⟩, hne⟩ | ⟨hact', hk⟩)
    · have he : r.keyId ≠ row.keyId := fun he => hne (hsame r hr he ▸ hk)
      exact ⟨r, List.mem_map.mpr ⟨r, hr, if_neg he⟩, hact', hk⟩
    · exact ⟨change row, List.mem_map.mpr ⟨row, hrow, if_pos rfl⟩, hact', hk⟩

/-- The row is updated: the old key, if there is one, has been asked for without an exception. -/
def Call.updates (c : Call) (row : AgentKey) : Bool :=
  (row.rawKey.isNone || c.delete.returns) && c.stored

theorem active_spec {w : World} {e : String} {row : AgentKey} (h : w.active e = some row) :
    row ∈ w.rows ∧ row.externalId = e ∧ row.revoked = false := by
  have hfind : w.rows.find? (fun r => decide (r.externalId = e ∧ r.revoked = false)) = some row := h
  have hp := List.find?_some hfind
  simp only [decide_eq_true_eq] at hp
  exact ⟨List.mem_of_find?_eq_some hfind, hp⟩

def giveBack (c : Call) (row : AgentKey) (w : World) : World :=
  match row.rawKey with
  | some key => w.drop c.delete.deletes key
  | none => w

theorem giveBack_frame (c : Call) (row : AgentKey) (w : World) :
    (giveBack c row w).rows = w.rows ∧ (giveBack c row w).nextId = w.nextId ∧
    (giveBack c row w).issued = w.issued := by
  rw [giveBack]
  cases row.rawKey with
  | none => exact ⟨rfl, rfl, rfl⟩
  | some key =>
      cases c.delete.deletes with
      | false => exact ⟨rfl, rfl, rfl⟩
      | true => exact ⟨rfl, rfl, rfl⟩

theorem Sound.giveBack {w : World} (h : Sound w) (c : Call) (row : AgentKey) :
    Sound (giveBack c row w) := by
  rw [AgentKeys.giveBack]
  cases row.rawKey with
  | none => exact h
  | some key => exact h.drop _ key

theorem replaceKey_world (c : Call) (row : AgentKey) (change : AgentKey → AgentKey) (reply : Reply)
    (w : World) :
    (replaceKey c row change reply w).1 =
      if c.updates row then (giveBack c row w).update row.keyId change else giveBack c row w := by
  unfold replaceKey giveBack Call.updates
  cases row.rawKey with
  | none => simp
  | some key =>
      cases hr : c.delete.returns with
      | false => simp
      | true => simp

theorem replaceKey_agree {w : World} (h : Sound w) (ha : Agree w) (c : Call) {row : AgentKey}
    (hrow : row ∈ w.rows)
    (hact : row.revoked = false) {made : Bool} {change : AgentKey → AgentKey} (reply : Reply)
    (hc : Fresh (w.create made) row change)
    {kept : Prop} (hkept : ∀ k, ((change row).revoked = false ∧ (change row).rawKey = some k) ↔
    kept ∧ k = w.issued) :
    Sound (replaceKey c row change reply (w.create made)).1 ∧
      (Agree (replaceKey c row change reply (w.create made)).1 ↔
        (made = true ↔ c.updates row = true ∧ kept) ∧ ∀ k ∈ row.rawKey, c.delete.deletes = true ↔ c.updates row = true) := by
  -- LiteLLM takes the old key away or not
  generalize hw₁ : giveBack c row (w.create made) = w₁
  obtain ⟨hrows', -, hissued⟩ := giveBack_frame c row (w.create made)
  have hsound₁ := (h.create made).giveBack c row
  rw [hw₁] at hrows' hissued hsound₁
  have hrows : w₁.rows = w.rows := hrows'.trans (rows_create w made)
  have howed₁ : ∀ k, Owed w₁ k ↔ Owed w k := by
    intro k
    unfold Owed
    rw [hrows]
  have hold : ∀ k ∈ row.rawKey, Owed w k := fun k hk => ⟨row, hrow, hact, hk⟩
  have hlive₁ : ∀ k, k ∈ w₁.live ↔
      k ∈ w.live ∧ ¬ (c.delete.deletes = true ∧ row.rawKey = some k) ∨ made = true ∧
        k = w.issued := by
    intro k
    rw [← hw₁, giveBack]
    cases hraw : row.rawKey with
    | none =>
        rw [mem_live_create]
        simp
    | some key =>
        have hne : key ≠ w.issued := fun he => Nat.lt_irrefl _ (he ▸ h.keys row hrow key hraw)
        simp only [mem_live_drop, mem_live_create, Option.some.injEq]
        constructor
        · rintro ⟨hk | hk, hno⟩
          · exact .inl ⟨hk, fun hd => hno ⟨hd.1, hd.2.symm⟩⟩
          · exact .inr hk
        · rintro (⟨hk, hno⟩ | ⟨hm, rfl⟩)
          · exact ⟨.inl hk, fun hd => hno ⟨hd.1, hd.2.symm⟩⟩
          · exact ⟨.inr ⟨hm, rfl⟩, fun hd => hne hd.2.symm⟩
  rw [replaceKey_world, hw₁]
  by_cases hup : c.updates row = true
  · rw [if_pos hup]
    have hrow₁ : row ∈ w₁.rows := hrows ▸ hrow
    have hfresh₁ : Fresh w₁ row change := by
      refine ⟨hc.keyId, fun k hk => (hc.key k hk).imp_right fun hnew => ⟨hissued ▸ hnew.1, ?_⟩⟩
      rw [hrows, ← rows_create w made]
      exact hnew.2
    have hsound := hsound₁.update hrow₁ hfresh₁
    have howed : ∀ k, Owed (w₁.update row.keyId change) k ↔
        Owed w k ∧ ¬ (True ∧ row.rawKey = some k) ∨ kept ∧ k = w.issued := by
      intro k
      rw [owed_update hsound₁ hrow₁, howed₁, hkept, true_and]
    refine ⟨hsound, (agree_change h hsound ha hold hlive₁ howed).trans ?_⟩
    simp [hup]
  · rw [if_neg hup]
    have howed : ∀ k, Owed w₁ k ↔ Owed w k ∧ ¬ (False ∧ row.rawKey = some k) ∨ False ∧
        k = w.issued := by
      intro k
      rw [howed₁]
      simp
    refine ⟨hsound₁, (agree_change h hsound₁ ha hold hlive₁ howed).trans ?_⟩
    simp [hup]

theorem create_agree {w : World} (h : Sound w) (ha : Agree w) (created : Bool) :
    Agree (w.create created) ↔ created = false := by
  have hlive : ∀ k, k ∈ (w.create created).live ↔
      k ∈ w.live ∧ ¬ (False ∧ none = some k) ∨ created = true ∧ k = w.issued := by
    intro k
    rw [mem_live_create]
    simp
  have howed : ∀ k, Owed (w.create created) k ↔
      Owed w k ∧ ¬ (False ∧ none = some k) ∨ False ∧ k = w.issued := by
    intro k
    rw [owed_create]
    simp
  have hold : ∀ k ∈ (none : Option Nat), Owed w k := nofun
  refine (agree_change h (h.create created) ha hold hlive howed).trans ?_
  simp

theorem insertKey_agree {w : World} (h : Sound w) (ha : Agree w) (c : Call) {row : AgentKey}
    (hid : row.keyId = w.nextId)
    (hact : row.revoked = false) (hkey : row.rawKey = w.newKey c.generate) :
    Sound (insertKey c row (w.create c.generate.creates)).1 ∧
      (Agree (insertKey c row (w.create c.generate.creates)).1 ↔
        (c.generate.creates = true → c.generate = .key ∧ w.free row.externalId row.keyAlias = true ∧ c.stored = true)) := by
  have hworld : (insertKey c row (w.create c.generate.creates)).1 =
      if w.free row.externalId row.keyAlias = true ∧
        c.stored = true then (w.create c.generate.creates).insert row
      else w.create c.generate.creates := by
    rw [insertKey, free_create]
    by_cases hf : w.free row.externalId row.keyAlias = true
    · by_cases hst : c.stored = true
      · simp [hf, hst]
      · simp [hf, hst]
    · simp [hf]
  rw [hworld]
  by_cases hin : w.free row.externalId row.keyAlias = true ∧ c.stored = true
  · rw [if_pos hin]
    have hsound : Sound ((w.create c.generate.creates).insert row) := by
      refine (h.create _).insert (hid.trans (nextId_create w _).symm) fun k hk => ?_
      rw [hkey] at hk
      obtain ⟨-, -, hlt, hnew⟩ := newKey_fresh h _ hk
      rw [rows_create]
      exact ⟨hlt, hnew⟩
    have hlive : ∀ k, k ∈ ((w.create c.generate.creates).insert row).live ↔
        k ∈ w.live ∧ ¬ (False ∧ none = some k) ∨ c.generate.creates = true ∧ k = w.issued := by
      intro k
      refine (mem_live_create w _ k).trans ?_
      simp
    have howed : ∀ k, Owed ((w.create c.generate.creates).insert row) k ↔
        Owed w k ∧ ¬ (False ∧ none = some k) ∨ c.generate = .key ∧ k = w.issued := by
      intro k
      rw [owed_insert _ hact, owed_create, hkey, World.newKey]
      by_cases hg : c.generate = .key
      · simp [hg, eq_comm]
      · simp [hg]
    have hold : ∀ k ∈ (none : Option Nat), Owed w k := nofun
    refine ⟨hsound, (agree_change h hsound ha hold hlive howed).trans ?_⟩
    constructor
    · exact fun he hc => ⟨he.1.mp hc, hin⟩
    · intro himp
      refine ⟨⟨fun hc => (himp hc).1, fun hg => ?_⟩, nofun⟩
      rw [hg]
      rfl
  · rw [if_neg hin]
    refine ⟨h.create _, (create_agree h ha _).trans ?_⟩
    rw [← Bool.not_eq_true]
    exact ⟨fun hno hc => absurd hc hno, fun himp hc => hin (himp hc).2⟩

def Reply.IsRefusal (reply : Reply) : Prop :=
  reply = .failed ∨ ∃ status text, reply = .error status text

theorem rotateRow_cases (c : Call) (row : AgentKey) (w : World) :
    c.generate.accepted = true ∧ rotateRow c row w =
        replaceKey c row (fun r => { r with rawKey := w.newKey c.generate })
          (.rotated row.keyId (w.newKey c.generate))
          (w.create c.generate.creates) ∨
      c.generate.accepted = false ∧ ∃ reply, rotateRow c row w =
        (w.create c.generate.creates, reply) ∧ reply.IsRefusal := by
  rw [rotateRow]
  cases c.generate with
  | status text created => exact .inr ⟨rfl, _, rfl, .inr ⟨_, _, rfl⟩⟩
  | raises created => exact .inr ⟨rfl, _, rfl, .inl rfl⟩
  | key => exact .inl ⟨rfl, rfl⟩
  | keyless created => exact .inl ⟨rfl, rfl⟩

theorem generateKey_cases (c : Call) (row : Option Nat → AgentKey) (w : World) :
    c.generate.accepted = true ∧
        generateKey c row w = insertKey c (row (w.newKey c.generate))
          (w.create c.generate.creates) ∨
      c.generate.accepted = false ∧ ∃ reply, generateKey c row w =
        (w.create c.generate.creates, reply) ∧ reply.IsRefusal := by
  rw [generateKey]
  cases c.generate with
  | status text created => exact .inr ⟨rfl, _, rfl, .inr ⟨_, _, rfl⟩⟩
  | raises created => exact .inr ⟨rfl, _, rfl, .inl rfl⟩
  | key => exact .inl ⟨rfl, rfl⟩
  | keyless created => exact .inl ⟨rfl, rfl⟩

theorem rotateRow_agree {w : World} (h : Sound w) (ha : Agree w) (c : Call) {row : AgentKey}
    (hrow : row ∈ w.rows)
    (hact : row.revoked = false) :
    Sound (rotateRow c row w).1 ∧
      (Agree (rotateRow c row w).1 ↔
        if c.generate.accepted = true then
          (c.generate.creates = true ↔ c.generate = .key ∧ c.updates row = true) ∧
            ∀ k ∈ row.rawKey, c.delete.deletes = true ↔ c.updates row = true
        else c.generate.creates = false) := by
  rcases rotateRow_cases c row w with ⟨hg, heq⟩ | ⟨hg, reply, heq, -⟩
  · rw [heq, if_pos hg]
    have hfresh : Fresh (w.create c.generate.creates) row
        (fun r => { r with rawKey := w.newKey c.generate }) := by
      refine ⟨fun _ => rfl, fun k hk => .inr ?_⟩
      obtain ⟨-, -, hlt, hnew⟩ := newKey_fresh h _ hk
      rw [rows_create]
      exact ⟨hlt, hnew⟩
    have hkept : ∀ k, (row.revoked = false ∧ w.newKey c.generate = some k) ↔
        c.generate = .key ∧ k = w.issued := by
      intro k
      unfold World.newKey
      by_cases hk : c.generate = .key
      · simp [hk, hact, eq_comm]
      · simp [hk]
    have hreplace :=
      replaceKey_agree h ha c hrow hact (.rotated row.keyId (w.newKey c.generate)) hfresh hkept
    refine ⟨hreplace.1, hreplace.2.trans ?_⟩
    rw [and_comm (a := c.updates row = true)]
  · rw [heq, if_neg (by simp [hg])]
    exact ⟨h.create _, create_agree h ha _⟩

def Call.keyAlias (c : Call) (a : Agent) : String :=
  if (c.field "agent_name").getD "" = "" then defaultAlias a.externalId
    else (c.field "agent_name").getD ""

theorem generateKey_agree {w : World} (h : Sound w) (ha : Agree w) (c : Call) (a : Agent)
    (harness : String) (budget : Option PyFloat) :
    Sound (generateKey c (newRow w a ((c.field "agent_name").getD "") harness budget) w).1 ∧
      (Agree (generateKey c (newRow w a ((c.field "agent_name").getD "") harness budget) w).1 ↔
        (c.generate.creates = true → c.generate = .key ∧ w.free a.externalId (c.keyAlias a) = true ∧ c.stored = true)) := by
  rcases generateKey_cases c (newRow w a ((c.field "agent_name").getD "") harness budget) w with ⟨-,
    heq⟩ | ⟨hg, reply, heq, -⟩
  · rw [heq]
    exact insertKey_agree h ha c rfl rfl rfl
  · have hkey : c.generate ≠ .key :=
      fun hk => Bool.false_ne_true (hg.symm.trans (congrArg Generate.accepted hk))
    rw [heq]
    refine ⟨h.create _, (create_agree h ha _).trans ?_⟩
    rw [← Bool.not_eq_true]
    exact ⟨fun hno hyes => absurd hyes hno, fun himp hyes => hkey (himp hyes).1⟩

section Requests

variable (float : Json → Option PyFloat)

/-- The row that `rotate` and `revoke` find. -/
def target (c : Call) (w : World) : Option AgentKey :=
  match identify c [] with
  | .agent a => if c.connected && c.select then w.active a.externalId else none
  | _ => none

theorem withRow_cases (c : Call) (w : World) :
    target c w = none ∧ (∃ reply : Reply, reply.IsRefusal ∧ ∀ next, withRow c w next = (w, reply)) ∨
      ∃ a row, identify c [] = .agent a ∧ (c.connected && c.select) = true ∧
        w.active a.externalId = some row ∧
        target c w = some row ∧ ∀ next, withRow c w next = next row := by
  simp only [target, withRow]
  cases identify c [] with
  | refused status text => exact .inl ⟨rfl, _, .inr ⟨_, _, rfl⟩, fun _ => rfl⟩
  | failed => exact .inl ⟨rfl, _, .inl rfl, fun _ => rfl⟩
  | agent a =>
      cases hconn : c.connected && c.select with
      | false => exact .inl ⟨rfl, _, .inl rfl, fun _ => rfl⟩
      | true =>
          cases hact : w.active a.externalId with
          | none =>
              exact .inl ⟨hact, _, .inr ⟨404, "agent not found", rfl⟩, fun _ => by simp [hact]⟩
          | some row => exact .inr ⟨a, row, rfl, rfl, hact, hact, fun _ => by simp [hact]⟩

/-- The agent that `provision` makes a key for. -/
def applicant (c : Call) (w : World) : Option Agent :=
  match identify c ["agent_name", "harness"] with
  | .agent a =>
      if (c.connected && c.select) && (w.active a.externalId).isNone &&
        (budgetOf float c).isSome then some a else none
  | _ => none

/-- A key is created only together with its row, and an old key is taken away
exactly when its row loses it. -/
def Matched (w : World) : Request → Prop
  | .provision c => ∀ a ∈ applicant float c w, c.generate.creates = true →
      c.generate = .key ∧ w.free a.externalId (c.keyAlias a) = true ∧ c.stored = true
  | .rotate c => ∀ row ∈ target c w,
      if c.generate.accepted = true then
        (c.generate.creates = true ↔ c.generate = .key ∧ c.updates row = true) ∧
          ∀ k ∈ row.rawKey, c.delete.deletes = true ↔ c.updates row = true
      else c.generate.creates = false
  | .revoke c =>
      ∀ row ∈ target c w, ∀ k ∈ row.rawKey, c.delete.deletes = true ↔ c.updates row = true

theorem handle_agree {w : World} (h : Sound w) (ha : Agree w) (r : Request) :
    Sound (handle float w r).1 ∧ (Agree (handle float w r).1 ↔ Matched float w r) := by
  have hsame : ∀ P : Prop, P → Sound w ∧ (Agree w ↔ P) := fun P hP => ⟨h, iff_of_true ha hP⟩
  cases r with
  | provision c =>
      unfold handle provision Matched applicant
      simp only
      cases identify c ["agent_name", "harness"] with
      | refused status text => exact hsame _ nofun
      | failed => exact hsame _ nofun
      | agent a =>
          simp only
          cases hconn : c.connected && c.select with
          | false => exact hsame _ nofun
          | true =>
              simp only [if_true, Bool.true_and]
              cases w.active a.externalId with
              | some row => exact hsame _ nofun
              | none =>
                  cases hb : budgetOf float c with
                  | none => exact hsame _ nofun
                  | some budget =>
                      simp only [Option.isNone_none, Option.isSome_some, Bool.true_and, if_true,
                        Option.mem_some_iff, forall_eq']
                      exact generateKey_agree h ha c a _ budget
  | rotate c =>
      rcases withRow_cases c w with ⟨hnone, reply, -, heq⟩ | ⟨a, row, -, -, hfound, hrow, heq⟩
      · rw [handle, rotate, heq, Matched, hnone]
        exact hsame _ nofun
      · obtain ⟨hmem, -, hact⟩ := active_spec hfound
        rw [handle, rotate, heq, Matched, hrow]
        simp only [Option.mem_some_iff, forall_eq']
        exact rotateRow_agree h ha c hmem hact
  | revoke c =>
      rcases withRow_cases c w with ⟨hnone, reply, -, heq⟩ | ⟨a, row, -, -, hfound, hrow, heq⟩
      · rw [handle, revoke, heq, Matched, hnone]
        exact hsame _ nofun
      · obtain ⟨hmem, -, hact⟩ := active_spec hfound
        rw [handle, revoke, heq, Matched, hrow]
        simp only [Option.mem_some_iff, forall_eq']
        have hfresh : Fresh (w.create false) row
            (fun r => { r with revoked := true, enabled := false }) :=
          ⟨fun _ => rfl, fun k hk => .inl hk⟩
        have hkept : ∀ k, ((true : Bool) = false ∧ row.rawKey = some k) ↔ False ∧ k = w.issued := by
          simp
        have hreplace := replaceKey_agree h ha c hmem hact (.revoked row.keyId) hfresh hkept
        refine ⟨hreplace.1, hreplace.2.trans ?_⟩
        simp

/-- In a run all tables agree exactly when each request meets the condition on the table that it
finds. -/
theorem run_agree_iff (requests : List Request) :
    (∀ pre, pre <+: requests → Agree (run float .empty pre)) ↔
      ∀ pre r, pre ++ [r] <+: requests → Matched float (run float .empty pre) r := by
  have hnext : ∀ pre r, run float .empty (pre ++ [r]) = (handle float (run float .empty pre) r).1 :=
    fun pre r =>
    List.foldl_append
  have hagree : Agree World.empty := ⟨fun k => ⟨nofun, fun ⟨r, hr, _⟩ => nomatch hr⟩, nofun⟩
  constructor
  · intro hall pre r hpre
    have hprefix : pre <+: requests := (List.prefix_append pre [r]).trans hpre
    have hsound : ∀ pre, pre <+: requests → Sound (run float .empty pre) := by
      intro pre
      induction pre using List.reverseRecOn with
      | nil => exact fun _ => .empty
      | append_singleton pre r ih =>
          intro hpre
          have hprefix : pre <+: requests := (List.prefix_append pre [r]).trans hpre
          rw [hnext]
          exact (handle_agree float (ih hprefix) (hall pre hprefix) r).1
    exact (handle_agree float (hsound pre hprefix) (hall pre hprefix) r).2.mp
      (hnext pre r ▸ hall _ hpre)
  · intro hall pre
    have hboth : ∀ pre, pre <+: requests → Sound (run float .empty pre) ∧
        Agree (run float .empty pre) := by
      intro pre
      induction pre using List.reverseRecOn with
      | nil => exact fun _ => ⟨.empty, hagree⟩
      | append_singleton pre r ih =>
          intro hpre
          obtain ⟨hs, ha⟩ := ih ((List.prefix_append pre [r]).trans hpre)
          obtain ⟨hs', ha'⟩ := handle_agree float hs ha r
          rw [hnext]
          exact ⟨hs', ha'.mpr (hall pre r hpre)⟩
    exact fun hpre => (hboth pre hpre).2

end Requests

def agentBody : Dict := [("project_id", .str "acms"), ("agent_instance_id", .str "7")]

def plainCall : Call where
  authorized := true
  body := agentBody
  connected := true
  select := true
  generate := .key
  delete := .answered true
  write := true
  commit := .done

/-- Nothing fails, but the row of the revoked key keeps the identity and the alias. -/
def comeback : List Request := [.provision plainCall, .revoke plainCall, .provision plainCall]

theorem comeback_orphan : ¬ ∀ (float : Json → Option PyFloat) (requests : List Request),
    Agree (run float .empty requests) := by
  intro hall
  have hlive := (hall (fun _ => none) comeback).live 1
  have hin : 1 ∈ (run (fun _ => none) .empty comeback).live := by decide +kernel
  obtain ⟨r, hr, -, hk⟩ := hlive.mp hin
  have hrows : ∀ r ∈ (run (fun _ => none) .empty comeback).rows, r.rawKey ≠ some 1 := by
    decide +kernel
  exact hrows r hr hk

end ServerManager.AgentKeys
