import ServerManager.Registry

namespace ServerManager.Transactions

open Interaction FleetDb Fleet Registry
open Effects (PyExc)

/-- The database as the statements of a run see it: the open transaction's in
the legacy mode, the committed one through the adapter. -/
structure View where
  db : Db
  ops : Nat

/-- One statement, whose error reaches the code through `raising`. -/
def View.statement (drv : Driver) (env : Env) (v : View) (raising : PyExc → PyExc) (s : Stmt) :
    Except PyExc s.Rows × View :=
  match env.fault v.ops with
  | some x => (.error (raising x), ⟨v.db, v.ops + 1⟩)
  | none =>
      match exec drv (env.clock v.ops) v.db s with
      | .ok r => (.ok r.1, ⟨r.2, v.ops + 1⟩)
      | .error x => (.error (raising x), ⟨v.db, v.ops + 1⟩)

def View.answer (drv : Driver) (env : Env) (v : View) : (e : Eff) → Ans e × View
  | .sql s => v.statement drv env id s
  | .orm s => v.statement drv env drv.wrap s
  | .getModels ip => (env.net.models ip, v)
  | .completion ip model => (env.net.completion ip model, v)
  | .pve r => (env.net.pve r, v)
  | .connect => (true, v)
  | .commit => (.ok (), v)
  | .rollback => (.ok (), v)
  | .close => ((), v)
  | .restart _ => ((), v)
  | .sleep _ => ((), v)
  | .auditFile .. => ((), v)

def Reads (s : Stmt) : Prop := ∀ drv now db rows db', exec drv now db s = .ok (rows, db') → db' = db

theorem Reads.effect {s : Stmt} (h : Reads s) (drv : Driver) (now : Int) (db : Db) :
    effect drv now s db = db := by
  unfold Fleet.effect
  split
  next r hr => exact h drv now db r.1 r.2 hr
  · rfl

/-- Statements and questions to the hosts, where the error of a statement ends
the program. With the adapter the connection itself is only read from. -/
def Strict {α : Type} (cutover : Bool) : Svc α → Prop
  | .ret _ => True
  | .raise _ => True
  | .call (.sql s) k =>
      (cutover = true → Reads s) ∧ (∀ x, k (.error x) = .raise x) ∧ ∀ rows,
        Strict cutover (k (.ok rows))
  | .call (.orm _) k =>
      cutover = true ∧ (∀ x, k (.error x) = .raise x) ∧ ∀ rows, Strict cutover (k (.ok rows))
  | .call (.getModels _) k => ∀ a, Strict cutover (k a)
  | .call (.completion ..) k => ∀ a, Strict cutover (k a)
  | .call (.pve _) k => ∀ a, Strict cutover (k a)
  | .call .connect _ => False
  | .call .commit _ => False
  | .call .rollback _ => False
  | .call .close _ => False
  | .call (.restart _) _ => False
  | .call (.sleep _) _ => False
  | .call (.auditFile ..) _ => False

section Rules

variable {α β : Type} {cutover : Bool}

theorem Strict.bind {p : Svc α} {f : α → Svc β} (h : Strict cutover p)
    (hf : ∀ a, Strict cutover (f a)) :
    Strict cutover (p >>= f) := by
  induction p with
  | ret a => exact hf a
  | raise x => trivial
  | call e k ih =>
      cases e with
      | sql s =>
          obtain ⟨hr, hx, hk⟩ := h
          refine ⟨hr, fun x => ?_, fun rows => ih _ (hk rows)⟩
          exact congrArg (fun q : Svc α => q.bind f) (hx x)
      | orm s =>
          obtain ⟨hr, hx, hk⟩ := h
          refine ⟨hr, fun x => ?_, fun rows => ih _ (hk rows)⟩
          exact congrArg (fun q : Svc α => q.bind f) (hx x)
      | getModels ip => exact fun a => ih a (h a)
      | completion ip m => exact fun a => ih a (h a)
      | pve r => exact fun a => ih a (h a)
      | connect => exact h.elim
      | commit => exact h.elim
      | rollback => exact h.elim
      | close => exact h.elim
      | restart ip => exact h.elim
      | sleep n => exact h.elim
      | auditFile ip t d b => exact h.elim

theorem strict_execute (s : Stmt) (h : cutover = true → Reads s) : Strict cutover (execute s) :=
  ⟨h, fun _ => rfl, fun _ => trivial⟩

theorem strict_legacy (s : Stmt) : Strict false (execute s) := strict_execute s fun h => by cases h

theorem strict_adapter (s : Stmt) : Strict true (adapter s) := ⟨rfl, fun _ => rfl, fun _ => trivial⟩

theorem strict_send (s : Stmt) : Strict cutover (send cutover s) := by
  cases cutover with
  | false => exact strict_legacy s
  | true => exact strict_adapter s

end Rules

section Modes

variable {α : Type} {drv : Driver} {env : Env}

theorem answer_live {w : World} {pending : Db → Db} (hw : w.txn = .live pending) (s : Stmt) :
    env.answer drv w (.sql s) =
    match env.fault w.ops with
    | some x => (.error x, { w with txn := .aborted, ops := w.ops + 1, now := env.clock w.ops })
    | none =>
        match exec drv (env.clock w.ops) (pending w.db) s with
        | .ok r => (.ok r.1, { w with
            txn := .live (effect drv (env.clock w.ops) s ∘ pending)
            ops := w.ops + 1, now := env.clock w.ops })
        | .error x =>
            (.error x, { w with txn := .aborted, ops := w.ops + 1, now := env.clock w.ops }) := by
  unfold Env.answer Fleet.answer
  rw [hw]
  cases env.fault w.ops with
  | some x => rfl
  | none => rfl

theorem answer_orm (w : World) (s : Stmt) : env.answer drv w (.orm s) =
    match env.fault w.ops with
    | none =>
        match exec drv (env.clock w.ops) w.db s with
        | .ok r => (.ok r.1, { w with db := r.2, ops := w.ops + 1, now := env.clock w.ops })
        | .error x => (.error (drv.wrap x), { w with ops := w.ops + 1, now := env.clock w.ops })
    | some x => (.error (drv.wrap x), { w with ops := w.ops + 1, now := env.clock w.ops }) := rfl

theorem live_open {w : World} {pending : Db → Db} (hw : w.txn = .live pending) :
    w.txn ≠ .closed := by
  rw [hw]
  intro h
  cases h

theorem error_ne_ok {ε α : Type} {x : ε} {p : α → Prop} : ∀ a, (.error x : Except ε α) = .ok a →
    p a := by
  intro a h
  cases h

theorem aborted_open : Txn.aborted ≠ .closed := by
  intro h
  cases h

theorem Strict.legacy (drv : Driver) (env : Env) {p : Svc α} (h : Strict false p) {w : World}
    {pending : Db → Db}
    (hw : w.txn = .live pending) :
    ∃ w', run (env.answer drv) p w = ((run (View.answer drv env) p ⟨pending w.db, w.ops⟩).1, w') ∧
      w'.db = w.db ∧ w'.ops = (run (View.answer drv env) p ⟨pending w.db, w.ops⟩).2.ops ∧
        w'.txn ≠ .closed ∧
      ∀ a, (run (View.answer drv env) p ⟨pending w.db, w.ops⟩).1 = .ok a →
        ∃ pending', w'.txn = .live pending' ∧
          pending' w.db = (run (View.answer drv env) p ⟨pending w.db, w.ops⟩).2.db := by
  induction p generalizing w pending with
  | ret a => exact ⟨w, rfl, rfl, rfl, live_open hw, fun _ _ => ⟨pending, hw, rfl⟩⟩
  | raise x => exact ⟨w, rfl, rfl, rfl, live_open hw, error_ne_ok⟩
  | call e k ih =>
      cases e with
      | sql s =>
          obtain ⟨-, hx, hk⟩ := h
          have hv : View.answer drv env ⟨pending w.db, w.ops⟩ (.sql s) =
              View.statement drv env ⟨pending w.db, w.ops⟩ id s := rfl
          rw [View.statement] at hv
          have hs := @answer_live drv env _ _ hw s
          rw [run_call, run_call]
          cases hf : env.fault w.ops with
          | some x =>
              rw [hf] at hv hs
              rw [hv, hs]
              simp only [id, hx]
              exact ⟨_, rfl, rfl, rfl, aborted_open, error_ne_ok⟩
          | none =>
              rw [hf] at hv hs
              cases he : exec drv (env.clock w.ops) (pending w.db) s with
              | error x =>
                  rw [he] at hv hs
                  rw [hv, hs]
                  simp only [id, hx]
                  exact ⟨_, rfl, rfl, rfl, aborted_open, error_ne_ok⟩
              | ok r =>
                  rw [he] at hv hs
                  rw [hv, hs]
                  have hp : (effect drv (env.clock w.ops) s ∘ pending) w.db = r.2 := by
                    simp only [Function.comp, Fleet.effect, he]
                  have hi := ih (.ok r.1) (hk r.1)
                    (w := { w with
                      txn := .live (effect drv (env.clock w.ops) s ∘ pending)
                      ops := w.ops + 1, now := env.clock w.ops }) rfl
                  simp only [hp] at hi
                  exact hi
      | orm s => exact absurd h.1 (by decide)
      | getModels ip => exact ih _ (h _) hw
      | completion ip m => exact ih _ (h _) hw
      | pve r => exact ih _ (h _) hw
      | connect => exact h.elim
      | commit => exact h.elim
      | rollback => exact h.elim
      | close => exact h.elim
      | restart ip => exact h.elim
      | sleep n => exact h.elim
      | auditFile ip t d b => exact h.elim

theorem Strict.cutover (drv : Driver) (env : Env) {p : Svc α} (h : Strict true p) {w : World}
    {pending : Db → Db} (hw : w.txn = .live pending)
    (hid : ∀ db, pending db = db) :
    ∃ w', run (env.answer drv) p w = ((run (View.answer drv env) p ⟨w.db, w.ops⟩).1, w') ∧
      w'.db = (run (View.answer drv env) p ⟨w.db, w.ops⟩).2.db ∧
      w'.ops = (run (View.answer drv env) p ⟨w.db, w.ops⟩).2.ops ∧ w'.txn ≠ .closed ∧
      ∀ a, (run (View.answer drv env) p ⟨w.db, w.ops⟩).1 = .ok a →
        ∃ pending', w'.txn = .live pending' ∧ ∀ db, pending' db = db := by
  induction p generalizing w pending with
  | ret a => exact ⟨w, rfl, rfl, rfl, live_open hw, fun _ _ => ⟨pending, hw, hid⟩⟩
  | raise x => exact ⟨w, rfl, rfl, rfl, live_open hw, error_ne_ok⟩
  | call e k ih =>
      cases e with
      | sql s =>
          obtain ⟨hr, hx, hk⟩ := h
          have hv : View.answer drv env ⟨w.db, w.ops⟩ (.sql s) =
              View.statement drv env ⟨w.db, w.ops⟩ id s := rfl
          rw [View.statement] at hv
          have hs := @answer_live drv env _ _ hw s
          rw [hid] at hs
          rw [run_call, run_call]
          cases hf : env.fault w.ops with
          | some x =>
              rw [hf] at hv hs
              rw [hv, hs]
              simp only [id, hx]
              exact ⟨_, rfl, rfl, rfl, aborted_open, error_ne_ok⟩
          | none =>
              rw [hf] at hv hs
              cases he : exec drv (env.clock w.ops) w.db s with
              | error x =>
                  rw [he] at hv hs
                  rw [hv, hs]
                  simp only [id, hx]
                  exact ⟨_, rfl, rfl, rfl, aborted_open, error_ne_ok⟩
              | ok r =>
                  obtain ⟨rows, db⟩ := r
                  obtain rfl : db = w.db := hr rfl _ _ _ _ _ he
                  rw [he] at hv hs
                  rw [hv, hs]
                  have hp : ∀ db, (effect drv (env.clock w.ops) s ∘ pending) db = db := fun db => by
                    rw [Function.comp, hid, (hr rfl).effect]
                  exact ih (.ok rows) (hk rows)
                    (w := { w with
                      txn := .live (effect drv (env.clock w.ops) s ∘ pending)
                      ops := w.ops + 1, now := env.clock w.ops }) rfl hp
      | orm s =>
          obtain ⟨-, hx, hk⟩ := h
          have hv : View.answer drv env ⟨w.db, w.ops⟩ (.orm s) =
              View.statement drv env ⟨w.db, w.ops⟩ drv.wrap s := rfl
          rw [View.statement] at hv
          have hs := @answer_orm drv env w s
          have hc := live_open hw
          rw [run_call, run_call]
          cases hf : env.fault w.ops with
          | some x =>
              rw [hf] at hv hs
              rw [hv, hs, hx (drv.wrap x)]
              exact ⟨_, rfl, rfl, rfl, hc, error_ne_ok⟩
          | none =>
              rw [hf] at hv hs
              cases he : exec drv (env.clock w.ops) w.db s with
              | error x =>
                  rw [he] at hv hs
                  rw [hv, hs, hx (drv.wrap x)]
                  exact ⟨_, rfl, rfl, rfl, hc, error_ne_ok⟩
              | ok r =>
                  rw [he] at hv hs
                  rw [hv, hs]
                  exact ih (.ok r.1) (hk r.1)
                    (w := { w with db := r.2, ops := w.ops + 1, now := env.clock w.ops }) hw hid
      | getModels ip => exact ih _ (h _) hw hid
      | completion ip m => exact ih _ (h _) hw hid
      | pve r => exact ih _ (h _) hw hid
      | connect => exact h.elim
      | commit => exact h.elim
      | rollback => exact h.elim
      | close => exact h.elim
      | restart ip => exact h.elim
      | sleep n => exact h.elim
      | auditFile ip t d b => exact h.elim

end Modes

theorem strict_probeHost (cutover : Bool) (ip : String) : Strict cutover (probeHost ip) := by
  intro a
  rcases h : readModels a with ⟨p, _ | mid⟩
  · simp only [h]
    trivial
  · simp only [h]
    exact fun _ => trivial

theorem strict_upsertModels (cutover : Bool) (hid : Int) (ip state : String) (routable : Bool)
    (ms : List ListedModel) : Strict cutover (upsertModels cutover hid ip state routable ms) := by
  induction ms with
  | nil => trivial
  | cons m ms ih => exact (strict_send _).bind fun _ => ih

theorem strict_syncHost (cutover : Bool) (host : Int × String × String) :
    Strict cutover (syncHost cutover host) := by
  refine (strict_probeHost cutover _).bind fun p => (strict_send _).bind fun flags => ?_
  refine Strict.bind ?_ fun _ => trivial
  unfold writeHost
  split
  · exact (strict_send _).bind fun _ => trivial
  · exact strict_upsertModels _ _ _ _ _ _

theorem strict_syncHosts (cutover : Bool) (hosts : List (Int × String × String)) :
    Strict cutover (syncHosts cutover hosts) := by
  induction hosts with
  | nil => trivial
  | cons host hosts ih =>
      exact (strict_syncHost cutover host).bind fun _ => ih.bind fun _ => trivial

theorem strict_syncAliases (cutover : Bool) (rows : List (String × Option String)) :
    Strict cutover (syncAliases cutover rows) := by
  induction rows with
  | nil => trivial
  | cons row rows ih =>
      rcases row with ⟨name, _ | target⟩
      · exact ih
      · refine Strict.bind ?_ fun _ => ih
        exact (strict_send _).bind fun n => (strict_send _).bind fun _ => trivial

theorem reads_hostInventory : Reads .hostInventory := by
  intro drv now db rows db' h
  exact (congrArg Prod.snd (Except.ok.inj h)).symm

theorem reads_aliasSetting : Reads .aliasSetting := by
  intro drv now db rows db' h
  exact (congrArg Prod.snd (Except.ok.inj h)).symm

theorem strict_syncBody (cutover : Bool) : Strict cutover (syncBody cutover) := by
  refine (strict_execute _ fun _ => reads_hostInventory).bind fun hosts => ?_
  refine (strict_syncHosts cutover hosts).bind fun summary => ?_
  refine (strict_execute _ fun _ => reads_aliasSetting).bind fun row => ?_
  refine (strict_send _).bind fun _ => ?_
  exact (strict_syncAliases cutover _).bind fun _ => trivial

/-- The result of the `except` block, whose `rollback` is the operation number `n`. -/
def undone (env : Env) (n : Nat) (x : PyExc) : Except PyExc SyncResult :=
  match env.fault n with
  | none => .ok (.error (shown x))
  | some y => .error y

/-- What `sync_registry` returns or raises and what is committed after it. -/
def syncEnd (drv : Driver) (env : Env) (cutover : Bool) (db : Db) (n : Nat) :
    Except PyExc SyncResult × Db :=
  match env.fault n with
  | some _ => (.ok (.error "pg unavailable"), db)
  | none =>
      match run (View.answer drv env) (syncBody cutover) ⟨db, n + 1⟩ with
      | (.ok summary, v) =>
          match env.fault v.ops with
          | none => (.ok (.hosts summary), v.db)
          | some x => (undone env (v.ops + 1) x, if cutover then v.db else db)
      | (.error x, v) => (undone env v.ops x, if cutover then v.db else db)

theorem run_closing {α : Type} {drv : Driver} {env : Env} (p : Svc α) (w : World) :
    run (env.answer drv) (closing p) w =
      ((run (env.answer drv) p w).1, { (run (env.answer drv) p w).2 with txn := .closed }) := by
  rw [closing, run_bind, run_tryCatch]
  rcases run (env.answer drv) p w with ⟨_ | a, t⟩
  · rfl
  · rfl

theorem answer_connect {drv : Driver} {env : Env} (w : World) : env.answer drv w .connect =
    match env.fault w.ops with
    | none => (true, { w with txn := .live id, ops := w.ops + 1, now := env.clock w.ops })
    | some _ => (false, { w with ops := w.ops + 1, now := env.clock w.ops }) := rfl

theorem answer_commit {drv : Driver} {env : Env} {w : World} {pending : Db → Db}
    (hw : w.txn = .live pending) :
    env.answer drv w .commit =
      match env.fault w.ops with
      | none =>
          (.ok (),
            { db := pending w.db, txn := .live id, ops := w.ops + 1, now := env.clock w.ops })
      | some x =>
          (.error x, { w with txn := .aborted, ops := w.ops + 1, now := env.clock w.ops }) := by
  unfold Env.answer Fleet.answer
  rw [hw]
  cases env.fault w.ops with
  | none => rfl
  | some x => rfl

/-- The `except` block keeps the database. -/
theorem run_undo (drv : Driver) (env : Env) {w : World} (hw : w.txn ≠ .closed) (x : PyExc) :
    ∃ t, run (env.answer drv) (do
        rollback
        pure (SyncResult.error (shown x))) w = (undone env w.ops x, t) ∧ t.db = w.db := by
  have h : env.answer drv w .rollback =
      match env.fault w.ops with
      | none => (.ok (), { w with txn := .live id, ops := w.ops + 1, now := env.clock w.ops })
      | some x =>
          (.error x, { w with txn := .aborted, ops := w.ops + 1, now := env.clock w.ops }) := by
    unfold Env.answer Fleet.answer
    cases hx : w.txn with
    | closed => exact absurd hx hw
    | live pending => cases env.fault w.ops <;> rfl
    | aborted => cases env.fault w.ops <;> rfl
  rw [run_bind, run_rollback, h]
  unfold undone
  cases env.fault w.ops with
  | none => exact ⟨_, rfl, rfl⟩
  | some y => exact ⟨_, rfl, rfl⟩

theorem sync_run (drv : Driver) (env : Env) (cutover : Bool) (w : World) :
    (run (env.answer drv) (syncRegistry cutover) w).1 = (syncEnd drv env cutover w.db w.ops).1 ∧
      (run (env.answer drv) (syncRegistry cutover) w).2.db =
        (syncEnd drv env cutover w.db w.ops).2 := by
  rw [syncRegistry, run_bind, run_pg, answer_connect]
  unfold syncEnd
  cases hf : env.fault w.ops with
  | some x => exact ⟨rfl, rfl⟩
  | none =>
      simp only [if_true]
      rw [run_closing, run_tryCatch, run_bind]
      have hbody : ∃ w', run (env.answer drv) (syncBody cutover)
            { w with txn := .live id, ops := w.ops + 1, now := env.clock w.ops } =
              ((run (View.answer drv env) (syncBody cutover) ⟨w.db, w.ops + 1⟩).1, w') ∧
          w'.db = (if cutover then (run (View.answer drv env) (syncBody cutover)
            ⟨w.db, w.ops + 1⟩).2.db else w.db) ∧
          w'.ops = (run (View.answer drv env) (syncBody cutover) ⟨w.db, w.ops + 1⟩).2.ops ∧
            w'.txn ≠ .closed ∧
          ∀ a, (run (View.answer drv env) (syncBody cutover) ⟨w.db, w.ops + 1⟩).1 = .ok a →
            ∃ pending, w'.txn = .live pending ∧
              pending w'.db = (run (View.answer drv env) (syncBody cutover)
                ⟨w.db, w.ops + 1⟩).2.db := by
        cases cutover with
        | false =>
            obtain ⟨w', hr, hd, ho, ht, hl⟩ := (strict_syncBody false).legacy drv env
              (w := { w with txn := .live id, ops := w.ops + 1, now := env.clock w.ops }) rfl
            refine ⟨w', hr, hd, ho, ht, fun a ha => ?_⟩
            obtain ⟨pending, hp, hv⟩ := hl a ha
            exact ⟨pending, hp, by rw [hd]; exact hv⟩
        | true =>
            obtain ⟨w', hr, hd, ho, ht, hl⟩ := (strict_syncBody true).cutover drv env
              (w := { w with txn := .live id, ops := w.ops + 1, now := env.clock w.ops }) rfl
                fun _ => rfl
            refine ⟨w', hr, hd, ho, ht, fun a ha => ?_⟩
            obtain ⟨pending, hp, hv⟩ := hl a ha
            exact ⟨pending, hp, by rw [hv]; exact hd⟩
      obtain ⟨w', hr, hd, ho, ht, hl⟩ := hbody
      rw [hr]
      revert hd ho hl
      rcases run (View.answer drv env) (syncBody cutover) ⟨w.db, w.ops + 1⟩ with ⟨x | summary, v⟩
      · intro hd ho _
        obtain ⟨t, hu, htd⟩ := run_undo drv env ht x
        simp only [hu]
        exact ⟨by rw [ho], by rw [htd, hd]⟩
      · intro hd ho hl
        obtain ⟨pending, hp, hv⟩ := hl summary rfl
        have ho' : w'.ops = v.ops := ho
        have hc := @answer_commit drv env _ _ hp
        rw [ho'] at hc
        simp only
        rw [run_bind, run_commit, hc]
        cases hf' : env.fault v.ops with
        | none => exact ⟨rfl, hv⟩
        | some x =>
            obtain ⟨t, hu, htd⟩ := run_undo drv env
              (w := { w' with txn := .aborted, ops := v.ops + 1, now := env.clock v.ops }) nofun x
            simp only [hu]
            exact ⟨trivial, by rw [htd]; exact hd⟩

end ServerManager.Transactions
