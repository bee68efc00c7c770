import ServerManager.Interaction
import ServerManager.PyText

namespace ServerManager.Migrations

open Interaction PyText

structure LedgerRow where
  version : String
  checksum : String
  gitSha : Option String

def LedgerRow.key (row : LedgerRow) : String × String := (row.version, row.checksum)

/-- What the statements of a session can see and change: the tables, the
ledger `schema_migrations`, and the settings of the session. -/
structure Contents (D S : Type) where
  data : D
  ledger : List LedgerRow
  settings : S

inductive Statement (D S : Type)
  | effect (f : Contents D S → Contents D S)
  /-- COMMIT, ROLLBACK and the like. -/
  | control

structure File (D S : Type) where
  name : String
  checksum : String
  sql : List (Statement D S)

section Model

variable {D S : Type}

namespace File

/-- `name.split("_", 1)[0]`. -/
def version (f : File D S) : String := String.ofList (f.name.toList.takeWhile (· != '_'))

def destructive (f : File D S) : Bool := containsText f.name "_destructive_"

def key (f : File D S) : String × String := (f.version, f.checksum)

end File

def endsWith (s p : String) : Bool := p.toList.isSuffixOf s.toList

def localMigrations (dir : List (File D S)) : List (File D S) :=
  (dir.mergeSort (fun f g => f.name ≤ g.name)).filter (fun f => endsWith f.name ".sql")

inductive Call (D S : Type)
  | ensureLedger
  | appliedVersions
  | read (f : File D S)
  | execute (f : File D S)
  | insert (row : LedgerRow)
  | commit
  | rollback

def Reply : Call D S → Type
  | .appliedVersions => Except String (List (String × String))
  | _ => Except String Unit

abbrev Script (D S α : Type) := Prog (Call D S) Reply String α

abbrev RunTrace (D S : Type) := Trace (Call D S) Reply

def orRaise {α : Type} : Except String α → Script D S α
  | .ok a => .ret a
  | .error x => .raise x

def ensureLedger : Script D S Unit := .call .ensureLedger orRaise

/-- `dict(cur.fetchall())`: versions are the primary key. -/
def appliedVersions : Script D S (List (String × String)) := .call .appliedVersions orRaise

/-- `open(m["path"]).read()`. -/
def read (f : File D S) : Script D S Unit := .call (.read f) orRaise

def execute (f : File D S) : Script D S Unit := .call (.execute f) orRaise

def insert (row : LedgerRow) : Script D S Unit := .call (.insert row) orRaise

def commit : Script D S Unit := .call .commit orRaise

def rollback : Script D S Unit := .call .rollback orRaise

def File.row (f : File D S) (gitSha : Option String) : LedgerRow := ⟨f.version, f.checksum, gitSha⟩

def applyOne (gitSha : Option String) (m : File D S) : Script D S Bool :=
  tryCatch (do
      execute m
      insert (m.row gitSha)
      commit
      pure true)
    (fun _ => do
      rollback
      pure false)

/-- Already in the ledger, or destructive and not asked for. -/
def passedOver (force : Bool) (applied : List (String × String)) (m : File D S) : Bool :=
  applied.any (fun p => p.1 == m.version) || (m.destructive && !force)

/-- The loop of `apply`; `true` when a migration has failed. -/
def applyLoop (force : Bool) (gitSha : Option String) (applied : List (String × String)) :
    List (File D S) → Script D S Bool
  | [] => pure false
  | m :: ms =>
      if passedOver force applied m then applyLoop force gitSha applied ms
      else do
        read m
        let ok ← applyOne gitSha m
        if ok then applyLoop force gitSha applied ms else pure true

/-- `migrate.py apply`, with its exit status. -/
def apply (dir : List (File D S)) (force : Bool) (gitSha : Option String) : Script D S Nat := do
  ensureLedger
  commit
  let applied ← appliedVersions
  let failed ← applyLoop force gitSha applied (localMigrations dir)
  pure (if failed then 1 else 0)

/-- The contents, with the files whose SQL has brought them about. -/
structure Image (D S : Type) where
  contents : Contents D S
  done : List (File D S)

/-- What is committed, what the open transaction has made of it, and whether
an error has aborted the transaction. -/
structure Server (D S : Type) where
  saved : Image D S
  current : Image D S
  aborted : Bool

def Statement.run : Statement D S → Contents D S → Contents D S
  | .effect f, c => f c
  | .control, c => c

def File.run (f : File D S) (c : Contents D S) : Contents D S := f.sql.foldl (fun c s => s.run c) c

def Statement.isEffect : Statement D S → Bool
  | .effect _ => true
  | .control => false

def File.transactional (f : File D S) : Prop := ∀ s ∈ f.sql, s.isEffect = true

def Image.execute (b : Image D S) (f : File D S) : Image D S := ⟨f.run b.contents, b.done ++ [f]⟩

def Image.insert (b : Image D S) (row : LedgerRow) : Image D S :=
  { b with contents := { b.contents with ledger := b.contents.ledger ++ [row] } }

/-- Any call may fail; a statement that fails aborts the transaction. SQL that
controls its transaction may leave anything, and a commit that fails may have
been made. -/
def step (s : Server D S) : (e : Call D S) → Reply e → Server D S → Prop
  | .read _, _, s' => s' = s
  | .ensureLedger, .ok _, s' => s.aborted = false ∧ s' = s
  | .appliedVersions, .ok rows, s' =>
      s.aborted = false ∧ rows = s.current.contents.ledger.map LedgerRow.key ∧ s' = s
  | .execute f, .ok _, s' =>
      f.transactional → s.aborted = false ∧ s' = { s with current := s.current.execute f }
  | .execute f, .error _, s' => f.transactional → s' = { s with aborted := true }
  | .insert row, .ok _, s' =>
      s.aborted = false ∧ row.version ∉ s.current.contents.ledger.map (·.version) ∧
        s' = { s with current := s.current.insert row }
  | .commit, .ok _, s' =>
      s' = if s.aborted then { s with current := s.saved, aborted := false }
        else { s with saved := s.current }
  | .commit, .error _, s' =>
      s' = { s with aborted := true } ∨ (s.aborted = false ∧ s' = ⟨s.current, s.current, true⟩)
  | .rollback, .ok _, s' => s' = { s with current := s.saved, aborted := false }
  | .ensureLedger, .error _, s' | .appliedVersions, .error _, s' | .insert _, .error _, s'
  | .rollback, .error _, s' =>
      s' = { s with aborted := true }

/-- A new connection has the settings `init`. -/
def connected (init : S) (b : Image D S) : Server D S :=
  let image := { b with contents := { b.contents with settings := init } }
  ⟨image, image, false⟩

def answer (broken : File D S → Bool) (s : Server D S) : (e : Call D S) → Reply e × Server D S
  | .read _ => (.ok (), s)
  | .ensureLedger =>
      if s.aborted then (.error "aborted", { s with aborted := true }) else (.ok (), s)
  | .appliedVersions =>
      if s.aborted then (.error "aborted", { s with aborted := true })
      else (.ok (s.current.contents.ledger.map LedgerRow.key), s)
  | .execute f =>
      if s.aborted || broken f then (.error "aborted", { s with aborted := true })
      else (.ok (), { s with current := s.current.execute f })
  | .insert row =>
      if s.aborted || s.current.contents.ledger.any (fun r => r.version == row.version) then
        (.error "duplicate key", { s with aborted := true })
      else (.ok (), { s with current := s.current.insert row })
  | .commit =>
      (.ok (), if s.aborted then { s with current := s.saved, aborted := false }
        else { s with saved := s.current })
  | .rollback => (.ok (), { s with current := s.saved, aborted := false })

theorem answer_step (broken : File D S → Bool) (s : Server D S) (e : Call D S) :
    step s e (answer broken s e).1 (answer broken s e).2 := by
  cases e with
  | read f => rfl
  | ensureLedger =>
      cases hs : s.aborted
      · simp [answer, hs, step]
      · simp [answer, hs, step]
  | appliedVersions =>
      cases hs : s.aborted
      · simp [answer, hs, step]
      · simp [answer, hs, step]
  | execute f =>
      by_cases hs : (s.aborted || broken f) = true
      · simp [answer, hs, step]
      · obtain ⟨ha, hb⟩ : s.aborted = false ∧ broken f = false := by simpa using hs
        simp [answer, ha, hb, step]
  | insert row =>
      by_cases hs : (s.aborted || s.current.contents.ledger.any
        (fun r => r.version == row.version)) = true
      · simp [answer, hs, step]
      · simp [answer, hs, step]
        simpa using hs
  | commit => rfl
  | rollback => rfl

def drive {α : Type} (broken : File D S → Bool) :
    Script D S α → Server D S → RunTrace D S × Server D S × Script D S α
  | .ret a, s => ([], s, .ret a)
  | .raise x, s => ([], s, .raise x)
  | .call e k, s =>
      let later := drive broken (k (answer broken s e).1) (answer broken s e).2
      (⟨e, (answer broken s e).1⟩ :: later.1, later.2)

theorem drive_exec {α : Type} (broken : File D S → Bool) (p : Script D S α) (s : Server D S) :
    Exec step s p (drive broken p s).1 (drive broken p s).2.1 (drive broken p s).2.2 := by
  induction p generalizing s with
  | ret a => exact .refl s _
  | raise x => exact .refl s _
  | call e k ih => exact .call (answer_step broken s e) (ih _ _)

/-- A statement of the migration with this version, or its ledger row, has failed. -/
def FailedAt (v : String) (tr : RunTrace D S) : Prop :=
  (∃ (m : File D S) (x : String), m.version = v ∧
    (⟨.execute m, Except.error x⟩ : Event (Call D S) Reply) ∈ tr) ∨
    ∃ (row : LedgerRow) (x : String), row.version = v ∧
      (⟨.insert row, Except.error x⟩ : Event (Call D S) Reply) ∈ tr

/-- What one migration after the other keeps: `J ms b` speaks of the migrations
that are still to come and the committed database. -/
structure Kept (J : List (File D S) → Image D S → Prop) (force : Bool) (gitSha : Option String)
    (applied : List (String × String)) : Prop where
  sql : ∀ m ms b, J (m :: ms) b → m.transactional
  pass : ∀ m ms b, passedOver force applied m = true → J (m :: ms) b → J ms b
  one : ∀ m ms b, passedOver force applied m = false → J (m :: ms) b →
    m.version ∉ (b.execute m).contents.ledger.map (·.version) →
      J ms ((b.execute m).insert (m.row gitSha))

section Run

variable {J : List (File D S) → Image D S → Prop} {force : Bool} {gitSha : Option String}
  {applied : List (String × String)} {s : Server D S × RunTrace D S}

structure Idle (J : List (File D S) → Image D S → Prop) (ms : List (File D S))
    (s : Server D S × RunTrace D S) : Prop where
  open_ : s.1.aborted = false
  clean : s.1.current = s.1.saved
  kept : J ms s.1.saved
  unfailed : ∀ v, ¬ FailedAt v s.2

/-- Wherever the run stops, whole migrations are committed, and none that has failed. -/
structure Settled (J : List (File D S) → Image D S → Prop) (force : Bool)
    (applied : List (String × String))
    (s : Server D S × RunTrace D S) : Prop where
  kept : ∃ ms, J ms s.1.saved
  failed : ∀ v, FailedAt v s.2 → ∃ m ms, m.version = v ∧ passedOver force applied m = false ∧
    J (m :: ms) s.1.saved

theorem settled_unfailed (ms : List (File D S)) (h : J ms s.1.saved) (hn : ∀ v, ¬ FailedAt v s.2) :
    Settled J force applied s :=
  ⟨⟨ms, h⟩, fun v hv => absurd hv (hn v)⟩

theorem unfailed_append {tr : RunTrace D S} {e : Call D S} {a : Reply e} (h : ∀ v, ¬ FailedAt v tr)
    (he : ∀ v, ¬ FailedAt v [(⟨e, a⟩ : Event (Call D S) Reply)]) : ∀ v,
    ¬ FailedAt v (tr ++ [⟨e, a⟩]) := by
  rintro v (⟨m, x, hv, hm⟩ | ⟨row, x, hv, hm⟩)
  · rcases List.mem_append.mp hm with hm | hm
    · exact h v (.inl ⟨m, x, hv, hm⟩)
    · exact he v (.inl ⟨m, x, hv, hm⟩)
  · rcases List.mem_append.mp hm with hm | hm
    · exact h v (.inr ⟨row, x, hv, hm⟩)
    · exact he v (.inr ⟨row, x, hv, hm⟩)

theorem harmless {e : Call D S} {a : Reply e} (hx : ∀ f, e ≠ .execute f)
    (hi : ∀ row, e ≠ .insert row) :
    ∀ v, ¬ FailedAt v [(⟨e, a⟩ : Event (Call D S) Reply)] := by
  rintro v (⟨m, x, -, hm⟩ | ⟨row, x, -, hm⟩)
  · exact hx m (congrArg Sigma.fst (List.mem_singleton.mp hm)).symm
  · exact hi row (congrArg Sigma.fst (List.mem_singleton.mp hm)).symm

theorem failed_last {tr : RunTrace D S} {e : Call D S} {a : Reply e} (h : ∀ v, ¬ FailedAt v tr)
    {v : String}
    (hv : FailedAt v (tr ++ [⟨e, a⟩])) : (∃ f : File D S, e = .execute f ∧ f.version = v) ∨ ∃ row,
    e = .insert row ∧ row.version = v := by
  rcases hv with ⟨m, x, hv, hm⟩ | ⟨row, x, hv, hm⟩
  · rcases List.mem_append.mp hm with hm | hm
    · exact absurd (.inl ⟨m, x, hv, hm⟩) (h v)
    · exact .inl ⟨m, (congrArg Sigma.fst (List.mem_singleton.mp hm)).symm, hv⟩
  · rcases List.mem_append.mp hm with hm | hm
    · exact absurd (.inr ⟨row, x, hv, hm⟩) (h v)
    · exact .inr ⟨row, (congrArg Sigma.fst (List.mem_singleton.mp hm)).symm, hv⟩

theorem Settled.append (h : Settled J force applied s) {s' : Server D S × RunTrace D S}
    {e : Call D S} {a : Reply e}
    (hs : s'.1.saved = s.1.saved) (ht : s'.2 = s.2 ++ [⟨e, a⟩])
    (he : ∀ v, ¬ FailedAt v [(⟨e, a⟩ : Event (Call D S) Reply)]) : Settled J force applied s' := by
  refine ⟨by rw [hs]; exact h.kept, fun v hv => ?_⟩
  rw [hs]
  refine h.failed v ?_
  rw [ht] at hv
  rcases hv with ⟨m, x, hmv, hm⟩ | ⟨row, x, hmv, hm⟩
  · rcases List.mem_append.mp hm with hm | hm
    · exact .inl ⟨m, x, hmv, hm⟩
    · exact absurd (.inl ⟨m, x, hmv, hm⟩) (he v)
  · rcases List.mem_append.mp hm with hm | hm
    · exact .inr ⟨row, x, hmv, hm⟩
    · exact absurd (.inr ⟨row, x, hmv, hm⟩) (he v)

theorem rollback_settled (h : Settled J force applied s) :
    Sat (traced step) (fun s _ => Settled J force applied s)
      (fun s ok => ok = false ∧ Settled J force applied s)
      (fun s _ => Settled J force applied s)
      (do
        rollback
        pure false) s := by
  refine (sat_bind _ _ _).mpr ⟨h, fun a s' hst => ?_⟩
  have he : ∀ v, ¬ FailedAt v [(⟨.rollback, a⟩ : Event (Call D S) Reply)] :=
    harmless (fun f h => by cases h) (fun row h => by cases h)
  cases a with
  | ok u =>
      have hs : s'.1 = { s.1 with current := s.1.saved, aborted := false } := hst.1
      exact ⟨rfl, h.append (by rw [hs]) hst.2 he⟩
  | error x =>
      have hs : s'.1 = { s.1 with aborted := true } := hst.1
      exact h.append (by rw [hs]) hst.2 he

variable {m : File D S} {ms : List (File D S)}

theorem applyOne_sat (hk : Kept J force gitSha applied) (hp : passedOver force applied m = false)
    (h : Idle J (m :: ms) s) :
    Sat (traced step) (fun s _ => Settled J force applied s)
      (fun s ok => if ok then Idle J ms s else Settled J force applied s)
      (fun s _ => Settled J force applied s) (applyOne gitSha m) s := by
  have htx := hk.sql m ms _ h.kept
  have hstop : ∀ {s' : Server D S × RunTrace D S} {e : Call D S} {a : Reply e} {past :
      RunTrace D S},
      (∀ v, ¬ FailedAt v past) → s'.1.saved = s.1.saved → s'.2 = past ++ [⟨e, a⟩] →
      (∀ f : File D S, e = .execute f → f.version = m.version) →
        (∀ row, e = .insert row → row.version = m.version) →
      Settled J force applied s' := by
    intro s' e a past hpast hs ht hx hi
    refine ⟨⟨m :: ms, by rw [hs]; exact h.kept⟩, fun v hv => ?_⟩
    rw [ht] at hv
    have hv' : v = m.version := by
      rcases failed_last hpast hv with ⟨f, he, hf⟩ | ⟨row, he, hrow⟩
      · rw [← hf, hx f he]
      · rw [← hrow, hi row he]
    exact ⟨m, ms, hv'.symm, hp, by rw [hs]; exact h.kept⟩
  have hundo : ∀ {s' : Server D S × RunTrace D S}, Settled J force applied s' →
      Sat (traced step) (fun s _ => Settled J force applied s)
        (fun s ok => if ok then Idle J ms s else Settled J force applied s)
        (fun s _ => Settled J force applied s)
        (do
          rollback
          pure false) s' := by
    intro s' hs'
    refine (rollback_settled hs').mono ?_ fun _ _ h => h
    rintro s'' ok ⟨rfl, hset⟩
    exact hset
  refine (sat_tryCatch _ _ _).mpr ((sat_bind _ _ _).mpr
    ⟨settled_unfailed (m :: ms) h.kept h.unfailed, fun a s₁ hst => ?_⟩)
  cases a with
  | error x =>
      have hs₁ : s₁.1 = { s.1 with aborted := true } := hst.1 htx
      refine hundo (hstop h.unfailed (by rw [hs₁]) hst.2 ?_ ?_)
      · intro f hf
        cases hf
        rfl
      · intro row hrow
        cases hrow
  | ok u =>
      obtain ⟨-, hs₁⟩ := hst.1 htx
      have hun₁ : ∀ v, ¬ FailedAt v s₁.2 := by
        rw [hst.2]
        refine unfailed_append h.unfailed ?_
        rintro v (⟨f, x, -, hm⟩ | ⟨row, x, -, hm⟩)
        · cases List.mem_singleton.mp hm
        · cases List.mem_singleton.mp hm
      refine (sat_bind _ _ _).mpr ⟨settled_unfailed (m :: ms) (by rw [hs₁]; exact h.kept) hun₁,
        fun a s₂ hst => ?_⟩
      cases a with
      | error x =>
          have hs₂ : s₂.1 = { s₁.1 with aborted := true } := hst.1
          refine hundo (hstop hun₁ (by rw [hs₂, hs₁]) hst.2 ?_ ?_)
          · intro f hf
            cases hf
          · intro row hrow
            cases hrow
            rfl
      | ok u =>
          obtain ⟨-, hnew, hs₂⟩ := hst.1
          rw [hs₁] at hnew hs₂
          have hun₂ : ∀ v, ¬ FailedAt v s₂.2 := by
            rw [hst.2]
            refine unfailed_append hun₁ ?_
            rintro v (⟨f, x, -, hm⟩ | ⟨row, x, -, hm⟩)
            · cases List.mem_singleton.mp hm
            · cases List.mem_singleton.mp hm
          have hcur : s₂.1.current = (s.1.saved.execute m).insert (m.row gitSha) := by
            rw [hs₂, ← h.clean]
          have hsav : s₂.1.saved = s.1.saved := by rw [hs₂]
          have hopen : s₂.1.aborted = false := by rw [hs₂]; exact h.open_
          have hnew' : J ms s₂.1.current := by
            rw [hcur]
            rw [h.clean] at hnew
            exact hk.one m ms _ hp h.kept hnew
          refine (sat_bind _ _ _).mpr ⟨settled_unfailed (m :: ms) (by rw [hsav]; exact h.kept) hun₂,
            fun a s₃ hst => ?_⟩
          have hun₃ : ∀ v, ¬ FailedAt v s₃.2 := by
            rw [hst.2]
            exact unfailed_append hun₂ (harmless (fun f h => by cases h) fun row h => by cases h)
          cases a with
          | ok u =>
              have hs₃ : s₃.1 = if s₂.1.aborted
                  then { s₂.1 with current := s₂.1.saved, aborted := false }
                else { s₂.1 with saved := s₂.1.current } := hst.1
              rw [hopen] at hs₃
              have hs₃' : s₃.1 = { s₂.1 with saved := s₂.1.current } := hs₃
              exact ⟨by rw [hs₃']; exact hopen, by rw [hs₃'], by rw [hs₃']; exact hnew', hun₃⟩
          | error x =>
              -- the commit may have been made all the same
              have hs₃ : s₃.1 = { s₂.1 with aborted := true } ∨
                  (s₂.1.aborted = false ∧ s₃.1 = ⟨s₂.1.current, s₂.1.current, true⟩) := hst.1
              refine hundo ?_
              rcases hs₃ with hs₃ | ⟨-, hs₃⟩
              · exact settled_unfailed (m :: ms) (by rw [hs₃, hsav]; exact h.kept) hun₃
              · exact settled_unfailed ms (by rw [hs₃]; exact hnew') hun₃

theorem applyLoop_sat (hk : Kept J force gitSha applied) (ms : List (File D S)) (h : Idle J ms s) :
    Sat (traced step) (fun s _ => Settled J force applied s)
      (fun s failed => (failed = false → J [] s.1.saved) ∧ Settled J force applied s)
      (fun s _ => Settled J force applied s) (applyLoop force gitSha applied ms) s := by
  induction ms generalizing s with
  | nil => exact ⟨fun _ => h.kept, settled_unfailed [] h.kept h.unfailed⟩
  | cons m ms ih =>
      rw [applyLoop]
      split
      next hp => exact ih ⟨h.open_, h.clean, hk.pass m ms _ hp h.kept, h.unfailed⟩
      next hp =>
          have hp' : passedOver force applied m = false := by simpa using hp
          refine (sat_bind _ _ _).mpr ⟨settled_unfailed (m :: ms) h.kept h.unfailed,
            fun a s₁ hst => ?_⟩
          have hs₁ : s₁.1 = s.1 := hst.1
          have hun : ∀ v, ¬ FailedAt v s₁.2 := by
            rw [hst.2]
            exact unfailed_append h.unfailed (harmless (fun f h => by cases h)
              fun row h => by cases h)
          have hidle : Idle J (m :: ms) s₁ :=
            ⟨by rw [hs₁]; exact h.open_, by rw [hs₁]; exact h.clean,
            by rw [hs₁]; exact h.kept, hun⟩
          cases a with
          | error x => exact settled_unfailed (m :: ms) hidle.kept hun
          | ok u =>
              refine Sat.seq (applyOne_sat hk hp' hidle) fun s₂ ok h₂ => ?_
              cases ok with
              | true => exact ih h₂
              | false => exact ⟨Bool.noConfusion, h₂⟩

/-- One run of `apply`. -/
theorem apply_sat {dir : List (File D S)} {image : Image D S}
    (hk : Kept J force gitSha (image.contents.ledger.map LedgerRow.key))
    (h : J (localMigrations dir) image) :
    Sat (traced step) (fun s _ => Settled J force (image.contents.ledger.map LedgerRow.key) s)
      (fun s code => (code = 0 → J [] s.1.saved) ∧
        Settled J force (image.contents.ledger.map LedgerRow.key) s)
      (fun s _ => Settled J force (image.contents.ledger.map LedgerRow.key) s)
        (apply dir force gitSha)
      (⟨image, image, false⟩, []) := by
  have hnone : ∀ v, ¬ FailedAt v ([] : RunTrace D S) := by
    rintro v (⟨m, x, -, hm⟩ | ⟨row, x, -, hm⟩)
    · exact absurd hm List.not_mem_nil
    · exact absurd hm List.not_mem_nil
  refine (sat_bind _ _ _).mpr ⟨settled_unfailed (localMigrations dir) h hnone, fun a s₁ hst => ?_⟩
  have hun₁ : ∀ v, ¬ FailedAt v s₁.2 := by
    rw [hst.2]
    exact unfailed_append hnone (harmless (fun f h => by cases h) fun row h => by cases h)
  cases a with
  | error x =>
      have hs₁ : s₁.1 = ⟨image, image, true⟩ := hst.1
      exact settled_unfailed (localMigrations dir) (by rw [hs₁]; exact h) hun₁
  | ok u =>
      have hs₁ : s₁.1 = ⟨image, image, false⟩ := hst.1.2
      refine (sat_bind _ _ _).mpr ⟨settled_unfailed (localMigrations dir) (by rw [hs₁]; exact h)
        hun₁,
        fun a s₂ hst => ?_⟩
      have hun₂ : ∀ v, ¬ FailedAt v s₂.2 := by
        rw [hst.2]
        exact unfailed_append hun₁ (harmless (fun f h => by cases h) fun row h => by cases h)
      cases a with
      | error x =>
          have hs₂ : s₂.1 = { s₁.1 with aborted := true } ∨
              (s₁.1.aborted = false ∧ s₂.1 = ⟨s₁.1.current, s₁.1.current, true⟩) := hst.1
          have hsav : s₂.1.saved = image := by
            rcases hs₂ with hs₂ | ⟨-, hs₂⟩
            · rw [hs₂, hs₁]
            · rw [hs₂, hs₁]
          exact settled_unfailed (localMigrations dir) (by rw [hsav]; exact h) hun₂
      | ok u =>
          have hs₂ :
              s₂.1 = if s₁.1.aborted then { s₁.1 with current := s₁.1.saved, aborted := false }
            else { s₁.1 with saved := s₁.1.current } := hst.1
          rw [hs₁] at hs₂
          have hs₂' : s₂.1 = ⟨image, image, false⟩ := hs₂
          refine (sat_bind _ _ _).mpr ⟨settled_unfailed (localMigrations dir)
            (by rw [hs₂']; exact h) hun₂,
            fun a s₃ hst => ?_⟩
          have hun₃ : ∀ v, ¬ FailedAt v s₃.2 := by
            rw [hst.2]
            exact unfailed_append hun₂ (harmless (fun f h => by cases h) fun row h => by cases h)
          cases a with
          | error x =>
              have hs₃ : s₃.1 = { s₂.1 with aborted := true } := hst.1
              exact settled_unfailed (localMigrations dir) (by rw [hs₃, hs₂']; exact h) hun₃
          | ok rows =>
              obtain ⟨-, hrows, hs₃⟩ := hst.1
              rw [hs₂'] at hrows hs₃
              have hidle : Idle J (localMigrations dir) s₃ :=
                ⟨by rw [hs₃], by rw [hs₃], by rw [hs₃]; exact h, hun₃⟩
              change Sat _ _ _ _ (applyLoop force gitSha rows (localMigrations dir) >>= _) _
              rw [hrows]
              refine Sat.seq (applyLoop_sat hk (localMigrations dir) hidle) fun s₄ failed h₄ => ?_
              refine ⟨fun hcode => h₄.1 ?_, h₄.2⟩
              cases failed with
              | false => rfl
              | true => cases hcode

end Run

end Model

end ServerManager.Migrations
