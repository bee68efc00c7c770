import ServerManager.FleetDb
import ServerManager.ProxmoxVm

namespace ServerManager.Fleet

open Interaction PyJson FleetDb
open Effects (PyExc ExcClass)
open ProxmoxVm (pyTypeName)

inductive PowerAction
  | start
  | shutdown
  deriving DecidableEq, Repr

/-- The requests of `pve_api`. -/
inductive PveReq
  | current (node : String) (vmid : Nat)
  | power (node : String) (vmid : Nat) (action : PowerAction)
  deriving DecidableEq, Repr

/-- `connect` to `close` are about the one psycopg2 connection a function has
open at a time; `orm` is a statement of the adapter, a transaction of its own
on a connection of the engine's pool. -/
inductive Eff
  | connect
  | sql (s : Stmt)
  | commit
  | rollback
  | close
  | orm (s : Stmt)
  | getModels (ip : String)
  | completion (ip : String) (model : Json)
  | pve (r : PveReq)
  | restart (ip : String)
  | sleep (seconds : Nat)
  | auditFile (ip eventType : String) (detail : Json) (insertFailed : Bool)

/-- `pg` and `pve_api` turn every failure into `None`; a models answer is its
status and what `r.json()` gives or raises. -/
@[reducible] def Ans : Eff → Type
  | .connect => Bool
  | .sql s => Except PyExc s.Rows
  | .commit => Except PyExc Unit
  | .rollback => Except PyExc Unit
  | .close => Unit
  | .orm s => Except PyExc s.Rows
  | .getModels _ => Except PyExc (Nat × Except PyExc Json)
  | .completion .. => Except PyExc Nat
  | .pve _ => Option Json
  | .restart _ => Unit
  | .sleep _ => Unit
  | .auditFile .. => Unit

abbrev Svc := Prog Eff Ans PyExc

def orRaise {α : Type} : Except PyExc α → Svc α
  | .ok a => pure a
  | .error x => throw x

def pg : Svc Bool := .call .connect .ret

def execute (s : Stmt) : Svc s.Rows := .call (.sql s) orRaise

def commit : Svc Unit := .call .commit orRaise

def rollback : Svc Unit := .call .rollback orRaise

def close : Svc Unit := .call .close .ret

def adapter (s : Stmt) : Svc s.Rows := .call (.orm s) orRaise

def send (cutover : Bool) (s : Stmt) : Svc s.Rows := if cutover then adapter s else execute s

/-- `try: body finally: conn.close()`. -/
def closing {α : Type} (body : Svc α) : Svc α := do
  let a ← tryCatch body (fun x => do
    close
    throw x)
  close
  pure a

/-- `x.get(key)`, with `None` for a missing key. -/
def dictGet (x : Json) (key : String) : Except PyExc Json :=
  match x with
  | .obj fs => .ok ((Dict.get? fs key).getD .null)
  | _ => .error ⟨.attributeError, s!"'{pyTypeName x}' object has no attribute 'get'"⟩

/-- `f"{e.__class__.__name__}: {e}"`. -/
def shown (x : PyExc) : String := x.cls.name ++ ": " ++ x.msg

def nodeMap : List (String × String × Nat) :=
  [("10.0.20.168", "miam00111", 102), ("10.0.20.161", "miam00111", 103),
    ("10.0.20.162", "miam00112", 401),
   ("10.0.20.163", "miam00143", 109), ("10.0.20.164", "miam00144", 111), ("10.0.20.165", "miam-00149", 149)]

def hostIps : List String := nodeMap.map (·.1)

/-- `NODE_MAP[ip]`. -/
def nodeOf (ip : String) : Except PyExc (String × Nat) :=
  match nodeMap.find? (·.1 == ip) with
  | some p => .ok p.2
  | none => .error ⟨.keyError, "'" ++ ip ++ "'"⟩

theorem nodeOf_inj {ip ip' : String} {p : String × Nat} (h : nodeOf ip = .ok p)
    (h' : nodeOf ip' = .ok p) : ip = ip' := by
  have hmem : ∀ {ip}, nodeOf ip = .ok p → (ip, p) ∈ nodeMap := by
    intro ip h
    unfold nodeOf at h
    split at h
    next q hq =>
      have hip : q.1 = ip := by simpa using List.find?_some hq
      rw [← hip, ← Except.ok.inj h]
      exact List.mem_of_find?_eq_some hq
    · cases h
  have hkeys : (nodeMap.map (·.2)).Nodup := by decide
  exact congrArg Prod.fst (List.inj_on_of_nodup_map hkeys (hmem h) (hmem h') rfl)

def pveApi (r : PveReq) : Svc Json := .call (.pve r) (fun a => pure (a.getD .null))

/-- The `status` of `vm_status(ip)`; no caller reads the rest. -/
def vmStatus (ip : String) : Svc Json := do
  let (node, vmid) ← orRaise (nodeOf ip)
  let answer ← pveApi (.current node vmid)
  let data ← orRaise (dictGet (answer.orElse (.obj [])) "data")
  orRaise (dictGet (data.orElse (.obj [])) "status")

def vmPower (ip : String) (action : PowerAction) : Svc Bool := do
  let (node, vmid) ← orRaise (nodeOf ip)
  let answer ← pveApi (.power node vmid action)
  let data ← orRaise (dictGet (answer.orElse (.obj [])) "data")
  pure data.truthy

/-- A connection: what its open transaction will have done to the database when
it commits, or a transaction that an error has ended. -/
inductive Txn
  | closed
  | live (pending : Db → Db)
  | aborted

/-- `db` is what is committed, `ops` counts the operations on the database and
`now` is the time of the last one. -/
structure World where
  db : Db
  txn : Txn := .closed
  ops : Nat := 0
  now : Int := 0

structure Net where
  models : String → Except PyExc (Nat × Except PyExc Json)
  completion : String → Json → Except PyExc Nat
  pve : PveReq → Option Json

def effect (drv : Driver) (now : Int) (s : Stmt) (db : Db) : Db :=
  match exec drv now db s with
  | .ok r => r.2
  | .error _ => db

def connectionClosed : PyExc := ⟨.other "InterfaceError", "connection already closed"⟩

def transactionAborted : PyExc :=
  ⟨.other "InFailedSqlTransaction",
    "current transaction is aborted, commands ignored until end of transaction block\n"⟩

/-- The answer to one call at the database time `now`; `fault` is the error with
which the operation on the database fails, if it does. A failed commit commits nothing. -/
def answer (drv : Driver) (net : Net) (fault : Option PyExc) (now : Int) (w : World) : (e : Eff) →
    Ans e × World
  | .connect =>
      match fault with
      | none => (true, { w with txn := .live id, ops := w.ops + 1, now := now })
      | some _ => (false, { w with ops := w.ops + 1, now := now })
  | .sql s =>
      match w.txn, fault with
      | .live pending, none =>
          match exec drv now (pending w.db) s with
          | .ok r => (.ok r.1, { w with txn := .live (effect drv now s ∘ pending), ops := w.ops + 1, now := now })
          | .error x => (.error x, { w with txn := .aborted, ops := w.ops + 1, now := now })
      | .live _, some x => (.error x, { w with txn := .aborted, ops := w.ops + 1, now := now })
      | .aborted, _ => (.error transactionAborted, { w with ops := w.ops + 1, now := now })
      | .closed, _ => (.error connectionClosed, { w with ops := w.ops + 1, now := now })
  | .commit =>
      match w.txn, fault with
      | .live pending, none =>
          (.ok (), { db := pending w.db, txn := .live id, ops := w.ops + 1, now := now })
      | .aborted, none => (.ok (), { w with txn := .live id, ops := w.ops + 1, now := now })
      | .closed, _ => (.error connectionClosed, { w with ops := w.ops + 1, now := now })
      | _, some x => (.error x, { w with txn := .aborted, ops := w.ops + 1, now := now })
  | .rollback =>
      match w.txn, fault with
      | .closed, _ => (.error connectionClosed, { w with ops := w.ops + 1, now := now })
      | _, none => (.ok (), { w with txn := .live id, ops := w.ops + 1, now := now })
      | _, some x => (.error x, { w with txn := .aborted, ops := w.ops + 1, now := now })
  | .close => ((), { w with txn := .closed })
  | .orm s =>
      match fault with
      | none =>
          match exec drv now w.db s with
          | .ok r => (.ok r.1, { w with db := r.2, ops := w.ops + 1, now := now })
          | .error x => (.error (drv.wrap x), { w with ops := w.ops + 1, now := now })
      | some x => (.error (drv.wrap x), { w with ops := w.ops + 1, now := now })
  | .getModels ip => (net.models ip, w)
  | .completion ip model => (net.completion ip model, w)
  | .pve r => (net.pve r, w)
  | .restart _ => ((), w)
  | .sleep _ => ((), w)
  | .auditFile .. => ((), w)

/-- The surroundings of one sequential run: the hosts answer in one way, and
`fault` and `clock` go by the number of the operation on the database. -/
structure Env where
  net : Net
  fault : Nat → Option PyExc := fun _ => none
  clock : Nat → Int := fun _ => 0

def Env.answer (drv : Driver) (env : Env) (w : World) (e : Eff) : Ans e × World :=
  Fleet.answer drv env.net (env.fault w.ops) (env.clock w.ops) w e

/-- What the open transaction does to any database is in the relation. -/
def Pending (R : Db → Db → Prop) (w : World) : Prop :=
  ∀ pending, w.txn = .live pending → ∀ d, R d (pending d)

theorem Pending.answer {R : Db → Db → Prop} (hrefl : ∀ d, R d d)
    (htrans : ∀ {a b c}, R a b → R b c → R a c) {w : World}
    {e : Eff} (h : Pending R w) (drv : Driver) (net : Net) (fault : Option PyExc) (now : Int)
    (he : ∀ s, e = .sql s → ∀ d, R d (effect drv now s d)) : Pending R (answer drv net fault now w e).2 := by
  have hid : ∀ {w' : World}, w'.txn = .live id → Pending R w' := fun ht pending hp d => by
    rw [ht] at hp
    cases hp
    exact hrefl d
  unfold Fleet.answer
  cases e with
  | connect =>
      cases fault with
      | none => exact hid rfl
      | some x => exact h
  | sql s =>
      cases ht : w.txn with
      | closed => exact nofun
      | aborted => exact nofun
      | live pending =>
          cases fault with
          | some x => exact nofun
          | none =>
              simp only
              cases exec drv now (pending w.db) s with
              | error x => exact nofun
              | ok r =>
                  intro p hp d
                  cases hp
                  exact htrans (h pending ht d) (he s rfl (pending d))
  | commit =>
      cases w.txn with
      | closed => exact nofun
      | aborted =>
          cases fault with
          | none => exact hid rfl
          | some x => exact nofun
      | live pending =>
          cases fault with
          | none => exact hid rfl
          | some x => exact nofun
  | rollback =>
      cases w.txn with
      | closed => exact nofun
      | aborted =>
          cases fault with
          | none => exact hid rfl
          | some x => exact nofun
      | live pending =>
          cases fault with
          | none => exact hid rfl
          | some x => exact nofun
  | close => exact nofun
  | orm s =>
      cases fault with
      | some x => exact h
      | none =>
          simp only
          cases exec drv now w.db s with
          | error x => exact h
          | ok r => exact h
  | getModels ip => exact h
  | completion ip m => exact h
  | pve r => exact h
  | restart ip => exact h
  | sleep n => exact h
  | auditFile ip t d b => exact h

theorem Pending.committed {R : Db → Db → Prop} (htrans : ∀ {a b c}, R a b → R b c → R a c) {d₀ : Db}
    {w : World} {e : Eff}
    (h : Pending R w) (hdb : R d₀ w.db) (drv : Driver) (net : Net) (fault : Option PyExc)
    (now : Int)
    (he : ∀ s, e = .orm s → ∀ d, R d (effect drv now s d)) : R d₀ (Fleet.answer drv net fault now w e).2.db := by
  unfold Fleet.answer
  cases e with
  | connect => cases fault with
    | none => exact hdb
    | some x => exact hdb
  | sql s => cases w.txn with
    | closed => exact hdb
    | aborted => exact hdb
    | live pending => cases fault with
      | some x => exact hdb
      | none =>
          simp only
          cases exec drv now (pending w.db) s with
          | error x => exact hdb
          | ok r => exact hdb
  | commit => cases hw : w.txn with
    | closed => exact hdb
    | aborted => cases fault with
      | none => exact hdb
      | some x => exact hdb
    | live pending => cases fault with
      | none => exact htrans hdb (h pending hw w.db)
      | some x => exact hdb
  | rollback => cases w.txn with
    | closed => exact hdb
    | aborted => cases fault with
      | none => exact hdb
      | some x => exact hdb
    | live pending => cases fault with
      | none => exact hdb
      | some x => exact hdb
  | orm s => cases fault with
    | some x => exact hdb
    | none =>
        have hs := he s rfl w.db
        unfold effect at hs
        simp only
        revert hs
        cases exec drv now w.db s with
        | error x => exact fun _ => hdb
        | ok r => exact fun hs => htrans hdb hs
  | _ => exact hdb

section Run

variable {S : Type} {f : S → (e : Eff) → Ans e × S}

theorem run_orRaise {α : Type} (x : Except PyExc α) (s : S) : run f (orRaise x) s = (x, s) := by
  cases x with
  | ok a => rfl
  | error e => rfl

theorem run_pg (s : S) : run f pg s = (.ok (f s .connect).1, (f s .connect).2) := rfl

theorem run_execute (st : Stmt) (s : S) : run f
    (execute st) s = ((f s (.sql st)).1, (f s (.sql st)).2) :=
  run_orRaise (f s (.sql st)).1 _

theorem run_adapter (st : Stmt) (s : S) : run f
    (adapter st) s = ((f s (.orm st)).1, (f s (.orm st)).2) :=
  run_orRaise (f s (.orm st)).1 _

theorem run_commit (s : S) : run f commit s = ((f s .commit).1, (f s .commit).2) :=
  run_orRaise (f s .commit).1 _

theorem run_rollback (s : S) : run f rollback s = ((f s .rollback).1, (f s .rollback).2) :=
  run_orRaise (f s .rollback).1 _

end Run

end ServerManager.Fleet
