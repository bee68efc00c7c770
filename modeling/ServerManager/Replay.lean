import ServerManager.Interleaving
import ServerManager.Storage

namespace ServerManager.Replay

open Interaction Interleaving Orm Effects Storage

/-- A world that can be run: the processes with a session are the first ones,
and the remote systems answer from a state of their own. -/
structure Machine (O : Type) where
  db : Db
  sessions : List Session
  clock : Time
  uuids : List Uuid
  remote : O

structure Oracle (O : Type) where
  pve : O → PveCall → Option (Except PyExc PyJson.Json × O)
  kea : O → (c : KeaCall) → Option (KeaAns c × O)
  neigh : O → String → Option String
  guest : O → Int → Option CompletedProcess := fun _ _ => none

variable {O R : Type}

/-- The computed answers are among those that are allowed. -/
structure Oracle.Follows (orc : Oracle O) (π : O → R) (rem : Remote R) : Prop where
  pve : ∀ o c a o', orc.pve o c = some (a, o') → rem.pve (π o) c a (π o')
  kea : ∀ o c a o', orc.kea o c = some (a, o') → rem.kea (π o) c a (π o')
  neigh : ∀ o ip, rem.neigh (π o) ip (orc.neigh o ip)

theorem Oracle.follows_any (orc : Oracle O) : orc.Follows (fun _ => ()) Remote.any :=
  ⟨fun _ _ _ _ _ => trivial, fun _ _ _ _ _ => trivial, fun _ _ => trivial⟩

namespace Machine

def session (m : Machine O) (i : Nat) : Session := (m.sessions[i]?).getD {}

def world (π : O → R) (m : Machine O) : World R := ⟨m.db, m.session, m.clock, m.uuids, π m.remote⟩

def setSession (m : Machine O) (i : Nat) (s : Session) : Option (Machine O) :=
  if i < m.sessions.length then some { m with sessions := m.sessions.set i s } else none

def view (m : Machine O) (i : Nat) : Db := m.db.applyAll m.clock (m.session i).txn

def conflicting : Write → Write → Bool
  | .updateRuntime l _ _, .updateRuntime l' _ _ => l.runtimeId = l'.runtimeId
  | .updateJob l _, .updateJob l' _ => l.jobId = l'.jobId
  | .insertJob j, .insertJob j' => j.requestId = j'.requestId
  | _, _ => false

def blocked (m : Machine O) (i : Nat) (ws : List Write) : Bool :=
  (List.range m.sessions.length).any (fun j => j ≠ i &&
    ws.any (fun x => (m.session j).txn.any (conflicting x)))

def takenKey (db : Db) : Write → Bool
  | .insertJob j => db.jobs.any (fun j' => j'.requestId = j.requestId)
  | _ => false

def duplicate (m : Machine O) (ws : List Write) : Bool := ws.any (takenKey m.db)

def answerDb (m : Machine O) (i : Nat) : (c : DbCall) → Option (DbAns c × Machine O)
  | .getRuntime rid =>
      match (m.session i).obj? rid with
      | some o => some (some o.cur, m)
      | none =>
          match (m.view i).runtime? rid with
          | some r => (m.setSession i ((m.session i).load r).2).map (fun m' => (some r, m'))
          | none => some (none, m)
  | .getJob jid =>
      match (m.session i).job? jid with
      | some o => some (some o.cur, m)
      | none =>
          match (m.view i).job? jid with
          | some j => (m.setSession i ((m.session i).loadJob j).2).map (fun m' => (some j, m'))
          | none => some (none, m)
  | .findJob q =>
      match (m.view i).jobs.find? (fun j => j.requestId = q) with
      | some j =>
          (m.setSession i ((m.session i).loadJob j).2).map
            (fun m' => (some ((m.session i).loadJob j).1, m'))
      | none => some (none, m)
  | .selectRuntimes q =>
      (m.setSession i ((m.session i).loadAll (Query.run q (m.view i))).2).map
        (fun m' => (((m.session i).loadAll (Query.run q (m.view i))).1, m'))
  | .placedNodes => some ((m.view i).placedNodes, m)
  | .findStep jid seq => some ((m.view i).steps.find? (fun st => st.jobId = jid ∧ st.seq = seq), m)
  | .modify rid b f => (m.setSession i ((m.session i).modify rid b f)).map (fun m' => ((), m'))
  | .modifyJob jid f => (m.setSession i ((m.session i).modifyJob jid f)).map (fun m' => ((), m'))
  | .setStep st => add (.updateStep st)
  | .addRuntime r => add (.insertRuntime r)
  | .addJob j => add (.insertJob j)
  | .addStep st => add (.insertStep st)
  | .addEvent ev => add (.insertEvent ev)
  | .addBridge b => add (.insertBridge b)
  | .flush =>
      let ws := (m.session i).pending m.clock
      if m.blocked i ws then none
      else if m.duplicate ws then
        (m.setSession i {}).map (fun m' => (.error ⟨.integrityError, "duplicate key value"⟩, m'))
      else (m.setSession i ((m.session i).flush m.clock)).map (fun m' => (.ok (), m'))
  | .commit =>
      (m.setSession i { m.session i with txn := [] }).map
        (fun m' => ((), { m' with db := m.db.applyAll m.clock (m.session i).txn }))
  | .close => (m.setSession i {}).map (fun m' => ((), m'))
where
  add (x : Write) : Option (Unit × Machine O) :=
    (m.setSession i { m.session i with new := (m.session i).new ++ [x] }).map (fun m' => ((), m'))

/-- Time stands still, random bytes are 0 and identifiers are numbered. -/
def answerSys (orc : Oracle O) (m : Machine O) : (c : SysCall) → Option (SysAns c × Machine O)
  | .now => some (m.clock, m)
  | .sleep _ => some ((), m)
  | .polls _ => some ((1 : Nat), m)
  | .randbelow (n + 1) => some ((0 : Fin (n + 1)), m)
  | .randbelow 0 => none
  | .uuid4 =>
      let u : Uuid := ⟨BitVec.ofNat 128 (m.uuids.length + 1)⟩
      if u ∈ m.uuids then none else some (u, { m with uuids := u :: m.uuids })
  | .tokenUrlsafe _ => some ("token", m)
  | .ipNeigh ip => some (orc.neigh m.remote ip, m)
  | .guestExec v => some (orc.guest m.remote v, m)
  | .leaseInventory => some (.ok [], m)

def answer (orc : Oracle O) (i : Nat) (m : Machine O) : (e : Eff) → Option (Ans e × Machine O)
  | .pve c => (orc.pve m.remote c).map (fun x => (x.1, { m with remote := x.2 }))
  | .kea c => (orc.kea m.remote c).map (fun x => (x.1, { m with remote := x.2 }))
  | .db c => m.answerDb i c
  | .sys c => m.answerSys orc c

variable {π : O → R} {m m' : Machine O} {i : Nat}

theorem setSession_world {s : Session} (h : m.setSession i s = some m') :
    m'.world π = (m.world π).setSession i s := by
  unfold setSession at h
  split at h
  next hi =>
      cases h
      have hf : (fun j => ((m.sessions.set i s)[j]?).getD {}) = Function.update m.session i s := by
        funext j
        by_cases hj : j = i
        · subst hj
          simp [hi]
        · simp [session, Function.update_of_ne hj, List.getElem?_set_ne (Ne.symm hj)]
      exact congrArg (fun f => (⟨m.db, f, m.clock, m.uuids, π m.remote⟩ : World R)) hf
  · cases h

theorem map_setSession {α : Type} {s : Session} {x a : α}
    (h : (m.setSession i s).map (fun m' => (x, m')) = some (a, m')) :
    a = x ∧ m'.world π = (m.world π).setSession i s := by
  obtain ⟨m₁, hm, he⟩ := Option.map_eq_some_iff.mp h
  cases he
  exact ⟨rfl, setSession_world hm⟩

theorem conflicting_iff (x y : Write) : conflicting x y = true ↔ x.conflicts y := by
  cases x <;> cases y <;> simp [conflicting, Write.conflicts]

theorem not_blocked {ws : List Write} (h : ¬ m.blocked i ws = true) :
    ¬ (m.world π).blocked i ws := by
  rintro ⟨j, hj, x, hx, y, hy, hc⟩
  refine h (List.any_eq_true.mpr ⟨j, List.mem_range.mpr ?_, ?_⟩)
  · by_contra hlen
    have hnone : m.sessions[j]? = none := List.getElem?_eq_none (Nat.le_of_not_lt hlen)
    have hy' : y ∈ (m.session j).txn := hy
    rw [session, hnone] at hy'
    cases hy'
  · have hany : (m.session j).txn.any (conflicting x) = true :=
      List.any_eq_true.mpr ⟨y, hy, (conflicting_iff x y).mpr hc⟩
    simpa [hj] using ⟨x, hx, by simpa using hany⟩

theorem duplicate_iff (ws : List Write) : m.duplicate ws = true ↔ m.db.duplicate ws := by
  unfold duplicate Db.duplicate
  rw [List.any_eq_true]
  constructor
  · rintro ⟨x, hx, ht⟩
    cases x with
    | insertJob j => exact ⟨j, hx, by simpa [takenKey] using ht⟩
    | updateRuntime | updateJob | updateStep | insertRuntime | insertStep | insertEvent
    | insertBridge => cases ht
  · rintro ⟨j, hj, hk⟩
    exact ⟨.insertJob j, hj, by simpa [takenKey] using hk⟩

theorem answerDb_step {c : DbCall} {a : DbAns c} (h : m.answerDb i c = some (a, m')) :
    (m.world π).dbStep i c a (m'.world π) := by
  cases c with
  | getRuntime rid =>
      simp only [World.dbStep]
      simp only [answerDb] at h
      have ho : ((m.world π).sessions i).obj? rid = (m.session i).obj? rid := rfl
      have hv : ((m.world π).view i).runtime? rid = (m.view i).runtime? rid := rfl
      rw [ho, hv]
      cases hi : (m.session i).obj? rid with
      | some o =>
          rw [hi] at h
          cases h
          exact ⟨rfl, rfl⟩
      | none =>
          rw [hi] at h
          cases hr : (m.view i).runtime? rid with
          | some r =>
              rw [hr] at h
              exact map_setSession h
          | none =>
              rw [hr] at h
              cases h
              exact ⟨rfl, rfl⟩
  | getJob jid =>
      simp only [World.dbStep]
      simp only [answerDb] at h
      have ho : ((m.world π).sessions i).job? jid = (m.session i).job? jid := rfl
      have hv : ((m.world π).view i).job? jid = (m.view i).job? jid := rfl
      rw [ho, hv]
      cases hi : (m.session i).job? jid with
      | some o =>
          rw [hi] at h
          cases h
          exact ⟨rfl, rfl⟩
      | none =>
          rw [hi] at h
          cases hr : (m.view i).job? jid with
          | some r =>
              rw [hr] at h
              exact map_setSession h
          | none =>
              rw [hr] at h
              cases h
              exact ⟨rfl, rfl⟩
  | findJob q =>
      simp only [World.dbStep]
      simp only [answerDb] at h
      have hv : ((m.world π).view i).jobs = (m.view i).jobs := rfl
      rw [hv]
      cases hr : (m.view i).jobs.find? (fun j => decide (j.requestId = q)) with
      | some j =>
          rw [hr] at h
          exact map_setSession h
      | none =>
          rw [hr] at h
          cases h
          exact ⟨rfl, rfl⟩
  | selectRuntimes q => exact map_setSession h
  | placedNodes => cases h; exact ⟨rfl, rfl⟩
  | findStep jid seq => cases h; exact ⟨rfl, rfl⟩
  | modify rid b f => exact (map_setSession h).2
  | modifyJob jid f => exact (map_setSession h).2
  | setStep st => exact (map_setSession h).2
  | addRuntime r => exact (map_setSession h).2
  | addJob j => exact (map_setSession h).2
  | addStep st => exact (map_setSession h).2
  | addEvent ev => exact (map_setSession h).2
  | addBridge b => exact (map_setSession h).2
  | close => exact (map_setSession h).2
  | flush =>
      simp only [answerDb] at h
      split at h
      · cases h
      next hb =>
          split at h
          next hd =>
              obtain ⟨rfl, hw⟩ := map_setSession h
              exact ⟨not_blocked hb, (duplicate_iff _).mp hd, rfl, hw⟩
          next hd =>
              obtain ⟨rfl, hw⟩ := map_setSession h
              exact ⟨not_blocked hb, fun hdup => hd ((duplicate_iff _).mpr hdup), hw⟩
  | commit =>
      obtain ⟨m₁, hm, he⟩ := Option.map_eq_some_iff.mp h
      cases he
      refine ⟨m.clock, Int.le_refl _, ?_⟩
      have hw := setSession_world (π := π) hm
      have hc : m₁.clock = m.clock := congrArg World.clock hw
      have hdb :=
        congrArg (fun w : World R => { w with db := m.db.applyAll m.clock (m.session i).txn }) hw
      exact hdb

theorem answerSys_step {orc : Oracle O} {rem : Remote R} (ho : orc.Follows π rem) {c : SysCall}
    {a : SysAns c}
    (h : m.answerSys orc c = some (a, m')) : (m.world π).sysStep rem c a (m'.world π) := by
  cases c with
  | now => cases h; exact ⟨Int.le_refl _, rfl⟩
  | sleep | polls | tokenUrlsafe | guestExec | leaseInventory => cases h; rfl
  | randbelow n =>
      cases n with
      | zero => cases h
      | succ n => cases h; rfl
  | uuid4 =>
      simp only [answerSys] at h
      split at h
      · cases h
      next hu => cases h; exact ⟨hu, rfl⟩
  | ipNeigh ip => cases h; exact ⟨ho.neigh m.remote ip, rfl⟩

theorem answer_step {orc : Oracle O} {rem : Remote R} (ho : orc.Follows π rem) (i : Nat)
    (m : Machine O) (e : Eff)
    (a : Ans e) (m' : Machine O) (h : answer orc i m e = some (a, m')) :
    World.step rem i (m.world π) e a (m'.world π) := by
  cases e with
  | pve c =>
      obtain ⟨x, hx, he⟩ := Option.map_eq_some_iff.mp h
      cases he
      exact ⟨π x.2, ho.pve m.remote c x.1 x.2 hx, rfl⟩
  | kea c =>
      obtain ⟨x, hx, he⟩ := Option.map_eq_some_iff.mp h
      cases he
      exact ⟨π x.2, ho.kea m.remote c x.1 x.2 hx, rfl⟩
  | db c => exact answerDb_step h
  | sys c => exact answerSys_step ho h

end Machine

end ServerManager.Replay
