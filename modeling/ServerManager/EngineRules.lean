import ServerManager.RecoveryEngine
import ServerManager.DesiredState

namespace ServerManager.EngineRules

open Interaction PyJson FleetDb Fleet Registry RecoveryEngine DesiredState
open Effects (PyExc)

def Attempt (eventType : String) : Prop := eventType = vmStart ∨ eventType = serviceRestart

instance (eventType : String) : Decidable (Attempt eventType) := inferInstanceAs (Decidable (_ ∨ _))

def plain : Stmt → Prop
  | .insertEvent .. => False
  | _ => True

def still : Eff → Prop
  | .sql s => plain s
  | .orm s => plain s
  | .pve (.power _ _ .start) => False
  | .restart _ => False
  | _ => True

def calm : Eff → Prop
  | .sql s => plain s
  | .orm s => plain s
  | .commit => False
  | .pve (.power _ _ .start) => False
  | .restart _ => False
  | _ => True

theorem calm.still {e : Eff} (h : calm e) : still e := by
  cases e with
  | sql s => exact h
  | orm s => exact h
  | pve r => cases r with
    | current node vmid => trivial
    | power node vmid action => cases action with
      | start => exact h
      | shutdown => trivial
  | restart ip => exact h
  | _ => trivial

theorem only_vmStatus {φ : Eff → Prop} {ip : String}
    (h : ∀ node vmid, nodeOf ip = .ok (node, vmid) → φ (.pve (.current node vmid))) :
    Only φ (vmStatus ip) := by
  unfold vmStatus
  cases hn : nodeOf ip with
  | error x => trivial
  | ok p =>
      refine only_call (h p.1 p.2 hn) fun a => ?_
      exact (only_orRaise _).bind fun d => only_orRaise _

theorem only_vmPower {φ : Eff → Prop} {ip : String} {action : PowerAction}
    (h : ∀ node vmid, nodeOf ip = .ok (node, vmid) → φ (.pve (.power node vmid action))) :
    Only φ (vmPower ip action) := by
  unfold vmPower
  cases hn : nodeOf ip with
  | error x => trivial
  | ok p =>
      refine only_call (h p.1 p.2 hn) fun a => ?_
      exact (only_orRaise _).bind fun _ => only_pure _

theorem only_probeOk {φ : Eff → Prop} (ip : String) (hm : φ (.getModels ip))
    (hc : ∀ m, φ (.completion ip m)) :
    Only φ (probeOk ip) :=
  (only_probeHost ip hm hc).bind fun _ => only_pure _

theorem only_recentCount {φ : Eff → Prop} {cutover : Bool} {ip t : String} {m : Nat}
    (hc : φ .connect)
    (hs : φ (.sql (.countEvents ip t m))) (ho : φ (.orm (.countEvents ip t m))) (hx : φ .close) :
    Only φ (recentCount cutover ip t m) := by
  unfold recentCount
  cases cutover with
  | true =>
      rw [if_pos rfl]
      exact Only.tryCatch (only_call ho fun a => only_orRaise a) fun _ => only_pure _
  | false =>
      rw [if_neg Bool.false_ne_true]
      refine (only_pg hc).bind fun b => ?_
      split
      · exact only_closing (only_execute hs) hx
      · exact only_pure _

theorem only_audit {φ : Eff → Prop} {cutover : Bool} {ip t : String} {d : Json}
    (hf : ∀ b, φ (.auditFile ip t d b))
    (ho : φ (.orm (.insertEvent ip t (dumps d)))) (hs : φ (.sql (.insertEvent ip t (dumps d))))
    (hc : φ .connect ∧ φ .commit ∧ φ .rollback ∧ φ .close) : Only φ (audit cutover ip t d) := by
  refine only_call (hf false) fun _ => ?_
  unfold insertAudit
  cases cutover with
  | true =>
      rw [if_pos rfl]
      exact Only.tryCatch (only_call ho fun a => only_orRaise a) fun _ =>
        only_call (hf true) fun _ => trivial
  | false =>
      rw [if_neg Bool.false_ne_true]
      refine (only_pg hc.1).bind fun b => ?_
      split
      · refine only_closing (Only.tryCatch ?_ fun _ => only_rollback hc.2.2.1) hc.2.2.2
        exact (only_execute hs).bind fun _ => only_commit hc.2.1
      · exact only_pure _

theorem only_readHosts {φ : Eff → Prop} (hc : φ .connect) (hs : φ (.sql .tickHosts))
    (hx : φ .close) :
    Only φ readHosts := by
  refine (only_pg hc).bind fun b => ?_
  split
  · exact only_closing ((only_execute hs).bind fun _ => only_pure _) hx
  · exact only_pure _

theorem still_sync (cutover : Bool) : Only still (syncRegistry cutover) := by
  refine (only_syncRegistry cutover).mono fun e he => ?_
  have hplain : ∀ s, RegistryPass.onRegistry s → plain s := fun s hs => by
    cases s with
    | insertEvent ip t d => exact hs
    | _ => trivial
  cases e with
  | sql s => exact hplain s he
  | orm s => exact hplain s he
  | pve r => exact he.elim
  | restart ip => exact he.elim
  | _ => trivial

def polls (ip : String) : Eff → Prop
  | .sleep _ => True
  | .pve (.current node vmid) => nodeOf ip = .ok (node, vmid)
  | .getModels i => i = ip
  | .completion i _ => i = ip
  | _ => False

theorem polls.still {ip : String} {e : Eff} (h : polls ip e) : still e := by
  cases e with
  | sleep n => trivial
  | getModels i => trivial
  | completion i m => trivial
  | pve r => cases r with
    | current node vmid => trivial
    | power node vmid action => exact h.elim
  | _ => exact h.elim

/-- A property that the engine's programs for one host have when their parts do. -/
structure Rules (cutover : Bool) (ip : String) (S : (α : Type) → Svc α → Prop) : Prop where
  pure : ∀ {α : Type} (a : α), S α (pure a)
  bind : ∀ {α β : Type} {p : Svc α} {f : α → Svc β}, S α p → (∀ a, S β (f a)) → S β (p >>= f)
  polls : ∀ {α : Type} {p : Svc α}, Only (polls ip) p → S α p
  audit : ∀ {t : String}, ¬ Attempt t → ∀ d, S Unit (audit cutover ip t d)

namespace Rules

variable {cutover : Bool} {ip : String} {S : (α : Type) → Svc α → Prop}

theorem sleep (h : Rules cutover ip S) {α : Type} {n : Nat} {k : Unit → Svc α}
    (hk : ∀ u, S α (k u)) :
    S α (.call (.sleep n) k) :=
  h.bind (p := .call (.sleep n) .ret) (h.polls (only_call trivial fun _ => trivial)) hk

theorem vmStatus (h : Rules cutover ip S) : S Json (vmStatus ip) :=
  h.polls (only_vmStatus fun _ _ hn => hn)

theorem probeOk (h : Rules cutover ip S) : S Bool (probeOk ip) :=
  h.polls (only_probeOk ip rfl fun _ => rfl)

theorem awaitVm (h : Rules cutover ip S) (n : Nat) : S Unit (awaitVm cutover ip n) := by
  induction n with
  | zero => exact h.pure ()
  | succ n ih =>
      refine h.sleep fun _ => h.bind h.vmStatus fun st => ?_
      split
      · refine h.bind h.probeOk fun b => ?_
        split
        · exact h.audit (by decide) _
        · exact ih
      · exact ih

theorem awaitService (h : Rules cutover ip S) (n : Nat) : S Unit (awaitService cutover ip n) := by
  induction n with
  | zero => exact h.pure ()
  | succ n ih =>
      refine h.sleep fun _ => h.bind h.probeOk fun b => ?_
      split
      · exact h.audit (by decide) _
      · exact ih

theorem start (h : Rules cutover ip S) (hcount : ∀ t m, S Nat (recentCount cutover ip t m))
    (haudit : ∀ t d, S Unit (RecoveryEngine.audit cutover ip t d))
    (hstart : S Bool (vmPower ip .start)) (desired : String) :
    S Unit (recoverVmStart cutover ip desired) := by
  refine h.bind (hcount vmStart 30) fun n => ?_
  split
  · exact haudit _ _
  · refine h.bind (hcount vmStart 30) fun k => h.bind (haudit _ _) fun _ => h.bind hstart fun _ =>
      ?_
    exact h.awaitVm 40

theorem service (h : Rules cutover ip S) (hcount : ∀ t m, S Nat (recentCount cutover ip t m))
    (haudit : ∀ t d, S Unit (RecoveryEngine.audit cutover ip t d))
    (hrestart : S Unit (controlRestart ip)) :
    S Unit (recoverService cutover ip) := by
  have hagain : S Unit (restartService cutover ip) :=
    h.bind (hcount serviceRestart 30) fun k => h.bind (haudit _ _) fun _ => h.bind hrestart fun _ =>
      h.awaitService 60
  refine h.bind (hcount serviceRestart 30) fun n => ?_
  split
  · exact haudit _ _
  · refine h.bind (hcount serviceRestart 3) fun last => ?_
    split
    · refine h.bind (hcount serviceRestart 3) fun again => ?_
      split
      · exact h.pure ()
      · exact hagain
    · exact hagain

theorem hostTurn {row : HostRow} (h : Rules cutover row.guestIp S) (summary : List HostSummary)
    (hstart : row.managementMode = "MANAGED" → row.desiredPowerState ≠ "STOPPED_INTENTIONAL" →
      S Unit (recoverVmStart cutover row.guestIp row.desiredPowerState))
    (hservice : S Unit (recoverService cutover row.guestIp)) :
    S Unit (hostTurn cutover summary row) := by
  refine h.bind h.vmStatus fun vmst => ?_
  split
  next hm =>
    unfold enforce
    split
    · split
      · exact h.audit (by decide) _
      · exact h.pure ()
    next hd =>
      split
      · exact h.bind (h.audit (by decide) _) fun _ => hstart hm hd
      · split
        · split
          · exact h.audit (by decide) _
          · exact h.bind (h.audit (by decide) _) fun _ => hservice
        · exact h.pure ()
  · exact h.pure ()

theorem turns (h : ∀ ip, Rules cutover ip S) (summary : List HostSummary) {rows : List HostRow}
    (hstart : ∀ row ∈ rows, row.managementMode = "MANAGED" →
    row.desiredPowerState ≠ "STOPPED_INTENTIONAL" →
      S Unit (recoverVmStart cutover row.guestIp row.desiredPowerState))
    (hservice : ∀ row ∈ rows, S Unit (recoverService cutover row.guestIp)) :
    S Unit (turns cutover summary rows) := by
  induction rows with
  | nil => exact (h "").pure ()
  | cons row rows ih =>
      refine (h row.guestIp).bind ((h row.guestIp).hostTurn summary (hstart row List.mem_cons_self)
        (hservice row List.mem_cons_self)) fun _ => ?_
      exact ih (fun r hr => hstart r (List.mem_cons_of_mem _ hr)) fun r hr =>
        hservice r (List.mem_cons_of_mem _ hr)

theorem ticks (h : ∀ ip, Rules cutover ip S) (hsync : S SyncResult (syncRegistry cutover))
    (hread : S (Option (List HostRow)) readHosts) (hguard : ∀ p, S Unit p → S Unit (guarded p))
    (hstart : ∀ ip desired, S Unit (recoverVmStart cutover ip desired))
    (hservice : ∀ ip, S Unit (recoverService cutover ip)) (n : Nat) : S Unit (ticks cutover n) := by
  induction n with
  | zero => exact (h "").pure ()
  | succ n ih =>
      refine (h "").bind (hguard _ ((h "").bind hsync fun s => ?_)) fun _ => ih
      cases s with
      | error text => exact (h "").pure ()
      | hosts summary =>
          refine (h "").bind hread fun rows => ?_
          cases rows with
          | none => exact (h "").pure ()
          | some rows => exact turns h summary (fun _ _ _ _ => hstart _ _) fun _ _ => hservice _

end Rules

end ServerManager.EngineRules
