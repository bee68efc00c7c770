import ServerManager.EngineRules
import ServerManager.Interleaving
import ServerManager.RecoveryAudit

namespace ServerManager.IntentionalStops

open Interaction Interleaving PyJson FleetDb Fleet Registry RecoveryEngine EngineRules DesiredState
  HostsApi
open Effects (PyExc)

/-- Nobody has asked for the host to be off or left alone. -/
def Startable (db : Db) (ip : String) : Prop :=
  ∀ h ∈ db.hosts, h.guestIp = ip → h.desiredPowerState ≠ "STOPPED_INTENTIONAL" ∧
    h.managementMode ≠ "UNMANAGED"

/-- `stopped` remembers the hosts that have ceased to be startable since process
0, the engine, has read the rows, and have not become startable again. -/
structure Shared where
  db : Db
  txns : Nat → Txn := fun _ => .closed
  now : Int := 0
  stopped : String → Prop := fun _ => False

def readsRows : Nat → Eff → Bool
  | 0, .sql .tickHosts => true
  | _, _ => false

def Stops (before after : Db) (ip : String) : Prop := Startable before ip ∧ ¬ Startable after ip

def Resumes (before after : Db) (ip : String) : Prop := ¬ Startable before ip ∧ Startable after ip

def stoppedAfter (i : Nat) (e : Eff) (before after : Db) (stopped : String → Prop) (ip : String) :
    Prop :=
  readsRows i e = false ∧ (Stops before after ip ∨ (stopped ip ∧ ¬ Resumes before after ip))

/-- What a process sees of the shared state: its own transaction. -/
def Shared.world (s : Shared) (i : Nat) : World := { db := s.db, txn := s.txns i, now := s.now }

def shared (drv : Driver) (i : Nat) (s : Shared) (e : Eff) (a : Ans e) (s' : Shared) : Prop :=
  ∃ net fault now w, s.now ≤ now ∧ answer drv net fault now (s.world i) e = (a, w) ∧
    s' = { db := w.db, txns := Function.update s.txns i w.txn, now := w.now
           stopped := stoppedAfter i e s.db w.db s.stopped }

def rowsRead (rows : List HostRow) (ip : String) : Prop :=
  ∃ h ∈ rows, h.guestIp = ip ∧ h.managementMode = "MANAGED" ∧
    h.desiredPowerState ≠ "STOPPED_INTENTIONAL"

/-- The hosts that the last rows allow it to start; other processes have no such view. -/
def view (g : Option (String → Prop)) (e : Eff) (a : Ans e) (g' : Option (String → Prop)) : Prop :=
  match g, e, a with
  | some _, .sql .tickHosts, .ok rows => g' = some (rowsRead rows)
  | some _, .sql .tickHosts, .error _ => g' = some (fun _ => False)
  | _, _, _ => g' = g

def Due (g : Option (String → Prop)) : Eff → Prop
  | .pve (.power node vmid .start) =>
      ∀ read, g = some read → ∃ ip, nodeOf ip = .ok (node, vmid) ∧ read ip
  | .sql (.updateHost ..) => g = none
  | _ => True

/-- Calls that read no rows, change none and start only these hosts. -/
def within (read : String → Prop) : Eff → Prop
  | .pve (.power node vmid .start) => ∃ ip, nodeOf ip = .ok (node, vmid) ∧ read ip
  | .sql .tickHosts => False
  | .sql (.updateHost ..) => False
  | _ => True

theorem within.due {read : String → Prop} {e : Eff} (h : within read e) : Due (some read) e := by
  cases e with
  | pve r => cases r with
    | current node vmid => trivial
    | power node vmid action => cases action with
      | shutdown => trivial
      | start =>
          intro read' hr
          cases hr
          exact h
  | sql s => cases s with
    | updateHost ip c v => exact h.elim
    | _ => trivial
  | _ => trivial

theorem within.view {read : String → Prop} {e : Eff} {a : Ans e} {g' : Option (String → Prop)}
    (h : within read e)
    (hv : view (some read) e a g') : g' = some read := by
  cases e with
  | sql s => cases s with
    | tickHosts => exact h.elim
    | _ => exact hv
  | _ => exact hv

section Programs

variable {cutover : Bool} {read : String → Prop}

theorem polls_within {ip : String} {e : Eff} (h : polls ip e) : within read e := by
  cases e with
  | pve r => cases r with
    | current node vmid => trivial
    | power node vmid action => exact h.elim
  | sql s => exact h.elim
  | _ => trivial

theorem within_audit (ip t : String) (d : Json) : Only (within read) (audit cutover ip t d) :=
  only_audit (fun _ => trivial) trivial trivial ⟨trivial, trivial, trivial, trivial⟩

theorem within_count (ip t : String) (m : Nat) : Only (within read) (recentCount cutover ip t m) :=
  only_recentCount trivial trivial trivial trivial

theorem within_rules (cutover : Bool) (read : String → Prop) (ip : String) :
    Rules cutover ip (fun _ p => Only (within read) p) where
  pure _ := trivial
  bind hp hf := hp.bind hf
  polls h := h.mono fun _ he => polls_within he
  audit _ d := within_audit ip _ d

theorem recoverVmStart_within {ip : String} (hip : read ip) (desired : String) :
    Only (within read) (recoverVmStart cutover ip desired) :=
  (within_rules cutover read ip).start (within_count ip) (within_audit ip)
    (only_vmPower fun _ _ hn => ⟨ip, hn, hip⟩) desired

theorem recoverService_within (ip : String) : Only (within read) (recoverService cutover ip) :=
  (within_rules cutover read ip).service (within_count ip) (within_audit ip)
    (only_call trivial fun _ => only_pure ())

theorem turns_within (summary : List HostSummary) (rows : List HostRow) :
    Only (within (rowsRead rows)) (turns cutover summary rows) :=
  Rules.turns (within_rules cutover _) summary
    (fun row hr hm hd => recoverVmStart_within ⟨row, hr, rfl, hm, hd⟩ _) fun row _ =>
    recoverService_within row.guestIp

/-- Whatever rows it has read before, a program of the engine starts only hosts that it has read as
startable. -/
def Careful {α : Type} (p : Svc α) : Prop :=
  ∀ read, Sat view Due (fun g _ => g.isSome) (fun g _ => g.isSome) p (some read)

theorem within_sat {α : Type} {p : Svc α} (h : Only (within read) p) :
    Sat view Due (fun g _ => g = some read) (fun g _ => g = some read) p (some read) := by
  refine (h.keeps (I := (· = some read)) ?_ rfl).weaken ?_
  · rintro g e a g' he rfl hv
    exact he.view hv
  · rintro g e ⟨he, rfl⟩
    exact he.due

theorem within_keeps {α : Type} {p : Svc α} (h : Only (within read) p) :
    Sat view Due (fun g _ => g.isSome) (fun g _ => g.isSome) p (some read) := by
  refine (within_sat h).mono ?_ ?_
  · rintro g a rfl
    rfl
  · rintro g x rfl
    rfl

theorem within_sync (cutover : Bool) (read : String → Prop) :
    Only (within read) (syncRegistry cutover) := by
  refine (only_syncRegistry cutover).mono fun e he => ?_
  cases e with
  | sql s => cases s with
    | tickHosts => exact he.elim
    | updateHost ip c v => exact he.elim
    | _ => trivial
  | pve r => exact he.elim
  | _ => trivial

theorem readHosts_sat (read : String → Prop) :
    Sat view Due (fun g rows => g.isSome ∧ ∀ hs, rows = some hs → g = some (rowsRead hs))
      (fun g _ => g.isSome)
      readHosts (some read) := by
  refine ⟨trivial, fun b g hg => ?_⟩
  cases hg
  cases b with
  | false => exact ⟨rfl, nofun⟩
  | true =>
      refine ⟨trivial, fun a g hg => ?_⟩
      cases a with
      | error x =>
          cases hg
          refine ⟨trivial, fun _ g hg => ?_⟩
          cases hg
          rfl
      | ok rows =>
          cases hg
          refine ⟨trivial, fun _ g hg => ?_⟩
          cases hg
          refine ⟨rfl, fun hs he => ?_⟩
          cases he
          rfl

theorem tick_careful (cutover : Bool) : Careful (tick cutover) := by
  intro read
  have hsync := (within_sat (within_sync cutover read)).mono (fun _ _ hg => hg)
    fun g (_ : PyExc) (hg : g = some read) => (by rw [hg]; rfl : g.isSome = true)
  refine hsync.seq fun g s hg => ?_
  subst hg
  cases s with
  | error text => rfl
  | hosts summary =>
      refine (readHosts_sat read).seq fun g rows hg => ?_
      obtain ⟨hg, hrows⟩ := hg
      cases rows with
      | none => exact hg
      | some rows =>
          rw [hrows rows rfl]
          exact within_keeps (turns_within summary rows)

theorem guarded_careful {p : Svc Unit} (h : Careful p) : Careful (guarded p) := by
  intro read
  exact (sat_tryCatch _ _ _).mpr ((h read).mono (fun _ _ hg => hg) fun _ _ hg => hg)

theorem Careful.then {α β : Type} {p : Svc α} {f : α → Svc β} (h : Careful p)
    (hf : ∀ a, Careful (f a)) :
    Careful (p >>= f) := by
  intro read
  refine (h read).seq fun g a hg => ?_
  obtain ⟨read', rfl⟩ := Option.isSome_iff_exists.mp hg
  exact hf a read'

theorem ticks_careful (cutover : Bool) (n : Nat) : Careful (ticks cutover n) := by
  induction n with
  | zero => exact fun read => rfl
  | succ n ih => exact (guarded_careful (tick_careful cutover)).then fun _ => ih

theorem main_careful (cutover : Bool) (n : Nat) : Careful (RecoveryEngine.main cutover n) := by
  refine (guarded_careful ?_).then fun _ => ticks_careful cutover n
  exact Careful.then (fun read => within_keeps (within_sync cutover read)) fun _ read => rfl

end Programs

theorem effect_hosts {s : Stmt} (hs : ∀ ip c v, s ≠ .updateHost ip c v) (drv : Driver) (now : Int)
    (db : Db) :
    (effect drv now s db).hosts = db.hosts := by
  cases s with
  | updateHost ip c v => exact absurd rfl (hs ip c v)
  | insertEvent ip t d => rfl
  | tickHosts => rfl
  | _ => exact (effect_beside (by trivial) now db).hosts

theorem startable_of_read {drv : Driver} {now : Int} {db db' : Db} {rows : List HostRow}
    (h : exec drv now db .tickHosts = .ok (rows, db')) {ip : String} (hr : rowsRead rows ip) :
    Startable db ip := by
  obtain ⟨hrows, -⟩ := Prod.mk.inj (Except.ok.inj h)
  subst hrows
  obtain ⟨h, hmem, rfl, hm, hd⟩ := hr
  intro h' hh' hip
  have hh : h ∈ db.hosts := (List.mem_insertionSort _).mp hmem
  rw [List.inj_on_of_nodup_map db.ipKey hh' hh hip, hm]
  exact ⟨hd, by decide⟩

theorem startable_congr {db db' : Db} (h : db'.hosts = db.hosts) (ip : String) : Startable db' ip ↔
    Startable db ip := by
  unfold Startable
  rw [h]

abbrev Parties := Conf Shared Eff Ans PyExc Unit

def SameHosts (db db' : Db) : Prop := db'.hosts = db.hosts

/-- What the engine has read is startable or has been stopped, and its transaction changes no
host. -/
def Watched (c : Parties) (g : Nat → Option (String → Prop)) : Prop :=
  (∃ read, g 0 = some read ∧ ∀ ip, read ip → Startable c.world.db ip ∨ c.world.stopped ip) ∧
    (∀ ip, c.world.stopped ip → ¬ Startable c.world.db ip) ∧ Pending SameHosts (c.world.world 0) ∧
    ∀ i, i ≠ 0 → g i = none

theorem not_startable_of_stopped {i : Nat} {e : Eff} {db db' : Db} {stopped : String → Prop}
    {ip : String}
    (h : stopped ip → ¬ Startable db ip) (hs : stoppedAfter i e db db' stopped ip) :
    ¬ Startable db' ip := by
  obtain ⟨-, ⟨-, hn⟩ | ⟨hst, hr⟩⟩ := hs
  · exact hn
  · exact fun ha => hr ⟨h hst, ha⟩

theorem stopped_or_startable {i : Nat} {e : Eff} {db db' : Db} {stopped : String → Prop}
    {ip : String}
    (hr : readsRows i e = false) (h : Startable db ip ∨ stopped ip) :
    Startable db' ip ∨ stoppedAfter i e db db' stopped ip := by
  by_cases ha : Startable db' ip
  · exact .inl ha
  · right
    rcases h with hb | hs
    · exact ⟨hr, .inl ⟨hb, ha⟩⟩
    · exact ⟨hr, .inr ⟨hs, fun hres => ha hres.2⟩⟩

theorem read_startable {drv : Driver} {net : Net} {fault : Option PyExc} {now : Int} {w w' : World}
    {rows : List HostRow}
    (h : answer drv net fault now w (.sql .tickHosts) = (.ok rows, w')) (hp : Pending SameHosts w)
    {ip : String}
    (hr : rowsRead rows ip) : Startable w'.db ip := by
  unfold Fleet.answer at h
  cases ht : w.txn with
  | closed =>
      rw [ht] at h
      cases h
  | aborted =>
      rw [ht] at h
      cases h
  | live pending =>
      rw [ht] at h
      cases fault with
      | some x => cases h
      | none =>
          cases h
          exact (startable_congr (hp pending ht w.db) ip).mp
            (@startable_of_read drv now _ _ _ rfl ip hr)

theorem readsRows_eq {i : Nat} {e : Eff} (h : readsRows i e = true) : i = 0 ∧
    e = .sql .tickHosts := by
  unfold readsRows at h
  split at h
  · exact ⟨rfl, rfl⟩
  · cases h

theorem view_other {e : Eff} {a : Ans e} {read : String → Prop} (h : readsRows 0 e = false) :
    view (some read) e a (some read) := by
  unfold view
  split
  · cases h
  · cases h
  · rfl

theorem unwatched (p : Svc Unit) : Sat view Due (fun _ _ => True) (fun _ _ => True) p none := by
  induction p with
  | ret a => trivial
  | raise x => trivial
  | call e k ih =>
      refine ⟨?_, fun a g hg => ?_⟩
      · unfold Due
        split
        · nofun
        · rfl
        · trivial
      · cases hg
        exact ih a

theorem watched_step {drv : Driver} {c d : Parties} {g : Nat → Option (String → Prop)} {i : Nat} {e : Eff} {a : Ans e}
    (h : Watched c g) (hdue : Due (g i) e) (hs : Step (shared drv) c i ⟨e, a⟩ d) :
    ∃ g', view (g i) e a g' ∧ Watched d (Function.update g i g') := by
  obtain ⟨⟨read, hg, hread⟩, hstopped, hpend, hother⟩ := h
  obtain ⟨net, fault, now, w, -, hans, hd⟩ := hs.world
  have hnext : ∀ ip, d.world.stopped ip → ¬ Startable d.world.db ip := by
    rw [hd]
    exact fun ip => not_startable_of_stopped (hstopped ip)
  have hpend' : Pending SameHosts (d.world.world 0) := by
    by_cases hi : i = 0
    · subst hi
      have hsame :=
        hpend.answer (R := SameHosts) (e := e) (fun _ => rfl) (fun hab hbc => Eq.trans hbc hab) drv
          net fault now fun s he db => by
        refine effect_hosts (fun ip k v hu => ?_) drv now db
        rw [he, hu, hg] at hdue
        cases hdue
      rw [hans] at hsame
      rw [hd]
      exact fun pending hp => hsame pending (by simpa [Shared.world] using hp)
    · rw [hd]
      exact fun pending hp => hpend pending (by simpa [Shared.world, Function.update_of_ne (Ne.symm hi)] using hp)
  by_cases hi : i = 0
  · subst hi
    have hnone : ∀ g' j, j ≠ 0 → Function.update g 0 g' j = none := fun g' j hj => by
      rw [Function.update_of_ne hj]
      exact hother j hj
    cases hr : readsRows 0 e with
    | false =>
        refine ⟨some read, ?_, ⟨read, Function.update_self _ _ _, fun ip hip => ?_⟩, hnext, hpend',
          hnone _⟩
        · rw [hg]
          exact view_other hr
        · rw [hd]
          exact stopped_or_startable hr (hread ip hip)
    | true =>
        obtain ⟨-, rfl⟩ := readsRows_eq hr
        cases a with
        | error x =>
            refine ⟨some fun _ => False, ?_, ⟨_, Function.update_self _ _ _,
              fun ip hip => hip.elim⟩, hnext, hpend', hnone _⟩
            rw [hg]
            rfl
        | ok rows =>
            refine ⟨some (rowsRead rows), ?_,
              ⟨_, Function.update_self _ _ _, fun ip hip => .inl ?_⟩, hnext, hpend', hnone _⟩
            · rw [hg]
              rfl
            · rw [hd]
              exact read_startable hans hpend hip
  · have hgi := hother i hi
    refine ⟨none, ?_, ⟨read, ?_, fun ip hip => ?_⟩, hnext, hpend', fun j hj => ?_⟩
    · rw [hgi]
      rfl
    · rw [Function.update_of_ne (Ne.symm hi)]
      exact hg
    · rw [hd]
      refine stopped_or_startable ?_ (hread ip hip)
      cases hr : readsRows i e with
      | false => rfl
      | true => exact absurd (readsRows_eq hr).1 hi
    · by_cases hij : j = i
      · rw [hij, Function.update_self]
      · rw [Function.update_of_ne hij]
        exact hother j hj

def watching (drv : Driver) : Protocol (ε := PyExc) (α := Unit) (shared drv) (fun _ _ _ => True)
    (Option (String → Prop)) where
  inv := Watched
  view := view
  G := Due
  keeps h hdue _ hs := watched_step h hdue hs

theorem watching_start {cutover : Bool} {n : Nat} {progs : Nat → Svc Unit} {db : Db} {now : Int}
    (drv : Driver)
    (h : progs 0 = RecoveryEngine.main cutover n) :
    (watching drv).Verified (Interleaving.start { db := db, now := now } progs)
      (fun i => if i = 0 then some fun _ => False else none) := by
  refine ⟨⟨⟨_, rfl, fun ip hip => hip.elim⟩, fun ip hip => hip.elim, nofun, fun i hi => if_neg hi⟩,
    fun i => ?_⟩
  by_cases hi : i = 0
  · subst hi
    change Sat view Due _ _ (progs 0) (some fun _ => False)
    rw [h]
    exact (main_careful cutover n _).mono (fun _ _ _ => trivial) fun _ _ _ => trivial
  · change Sat view Due _ _ (progs i) (if i = 0 then _ else none)
    rw [if_neg hi]
    exact unwatched (progs i)

/-- Whatever the other processes do, a host that the engine starts is one that
nobody wants stopped, exactly when that has not changed since it read the rows. -/
theorem starts_intended_iff (drv : Driver) (cutover : Bool) (n : Nat) (progs : Nat → Svc Unit)
    (db : Db) (now : Int)
    (c d : Parties) (ip node : String) (vmid : Nat) (a : Option Json)
    (hengine : progs 0 = RecoveryEngine.main cutover n)
    (hr : Reach (shared drv) (fun _ _ _ => True) (Interleaving.start { db := db, now := now } progs)
    c)
    (hs : Step (shared drv) c 0 ⟨.pve (.power node vmid .start), a⟩ d)
    (hip : nodeOf ip = .ok (node, vmid)) :
    Startable c.world.db ip ↔ ¬ c.world.stopped ip := by
  obtain ⟨g, ⟨⟨read, hg, hread⟩, hstopped, -, -⟩, hv⟩ :=
    (watching drv).reach (watching_start drv hengine) hr
  have hdue : Due (g 0) (.pve (.power node vmid .start)) := by
    cases hs with
    | call hc hw =>
        have hsat := hv 0
        rw [hc] at hsat
        exact hsat.1
  obtain ⟨ip', hip', hr'⟩ := hdue read hg
  cases nodeOf_inj hip hip'
  constructor
  · exact fun hst hstop => hstopped ip hstop hst
  · exact (hread ip hr').resolve_right

def silently (p : Svc Reply) : Svc Unit := do
  let _ ← p
  pure ()

def Operator (cutover : Bool) (p : Svc Unit) : Prop :=
  ∃ ip req, p = silently (setDesiredState cutover ip req) ∨ p = silently (powerOff cutover ip req)

def engineAndStop (i : Nat) : Svc Unit :=
  if i = 0 then RecoveryEngine.main false 1 else silently
    (setDesiredState false "10.0.20.162" stopRequest)

def answers (i : Nat) (s : Shared) (e : Eff) : Option (Ans e × Shared) :=
  let (a, w) := answer plainDriver RecoveryAudit.stoppedNet none s.now (s.world i) e
  some (a, { db := w.db, txns := Function.update s.txns i w.txn, now := w.now
             stopped := stoppedAfter i e s.db w.db s.stopped })

abbrev Played := Board Shared Eff Ans PyExc Unit

def opening : Played :=
  ⟨{ db := RegistryGate.servedDb "new" }, [⟨engineAndStop 0, []⟩, ⟨engineAndStop 1, []⟩]⟩

def shown (b : Played) : Parties := b.conf id ⟨engineAndStop 1, []⟩

theorem shown_opening : shown opening = Interleaving.start
    { db := RegistryGate.servedDb "new" } engineAndStop := by
  refine congrArg (Conf.mk _) (funext fun i => ?_)
  match i with
  | 0 => rfl
  | 1 => rfl
  | i + 2 => rfl

theorem answers_step (i : Nat) (s : Shared) (e : Eff) (a : Ans e) (s' : Shared)
    (h : answers i s e = some (a, s')) :
    shared plainDriver i s e a s' := by
  obtain ⟨ha, hs⟩ := Prod.mk.inj (Option.some.inj h)
  refine ⟨RecoveryAudit.stoppedNet, none, s.now, _, le_rfl, Prod.ext ha rfl, hs.symm⟩

def startsVm : Eff → Bool
  | .pve (.power "miam00112" 401 .start) => true
  | _ => false

theorem startsVm_eq {e : Eff} (h : startsVm e = true) :
    e = .pve (.power "miam00112" 401 .start) := by
  unfold startsVm at h
  split at h
  · rfl
  · cases h

/-- The request commits right after the engine has read the rows. -/
def interrupted : Played :=
  opening.play answers (List.replicate 21 0 ++ List.replicate 5 1 ++ List.replicate 17 0)

def undisturbed : Played := opening.play answers (List.replicate 38 0)

theorem interrupted_starts :
    (opening.follows answers (fun _ _ => true)
    (List.replicate 21 0 ++ List.replicate 5 1 ++ List.replicate 17 0) &&
      interrupted.offers answers 0 startsVm &&
      (interrupted.state.db.hosts.map HostRow.desiredPowerState == ["STOPPED_INTENTIONAL"])) = true := by
  decide +kernel

theorem shown_reach {is : List Nat} (h : opening.follows answers (fun _ _ => true) is = true) :
    Reach (shared plainDriver) (fun _ _ _ => True)
      (Interleaving.start { db := RegistryGate.servedDb "new" } engineAndStop)
      (shown (opening.play answers is)) := by
  rw [← shown_opening]
  exact Board.follows_reach ⟨engineAndStop 1, []⟩ answers_step (fun _ _ _ _ => trivial) h

/-- The engine starts a host that is to stay stopped: it decides by the row it has read and the VM
as it is now. -/
theorem start_after_stop : ¬ ∀ (drv : Driver) (cutover : Bool) (n : Nat) (progs : Nat →
    Svc Unit) (db : Db) (now : Int)
    (c d : Parties) (ip node : String) (vmid : Nat) (a : Option Json),
    progs 0 = RecoveryEngine.main cutover n → (∀ i, i ≠ 0 → Operator cutover (progs i)) →
      Reach (shared drv) (fun _ _ _ => True) (Interleaving.start { db := db, now := now } progs) c →
        Step (shared drv) c 0 ⟨.pve (.power node vmid .start), a⟩ d → nodeOf ip = .ok (node, vmid) →
          Startable c.world.db ip := by
  intro hall
  obtain ⟨hab, hd⟩ := Bool.and_eq_true_iff.mp interrupted_starts
  obtain ⟨hf, hs⟩ := Bool.and_eq_true_iff.mp hab
  obtain ⟨e, a, hk, hstep⟩ := Board.offers_step ⟨engineAndStop 1, []⟩ answers_step hs
  cases startsVm_eq hk
  have hstart := hall plainDriver false 1 engineAndStop _ 0 _ _ "10.0.20.162" _ _ a rfl
    (fun i hi => ⟨"10.0.20.162", stopRequest, .inl (if_neg hi)⟩) (shown_reach hf) hstep rfl
  obtain ⟨h, hmem, hh⟩ :=
    List.mem_map.mp (beq_iff_eq.mp hd ▸ List.mem_singleton_self "STOPPED_INTENTIONAL")
  have hips : interrupted.state.db.hosts.map HostRow.guestIp = ["10.0.20.162"] := rfl
  have hip : h.guestIp ∈ ["10.0.20.162"] := hips ▸ List.mem_map_of_mem hmem
  exact (hstart h hmem (List.mem_singleton.mp hip)).1 hh

theorem undisturbed_starts :
    (opening.follows answers (fun _ _ => true) (List.replicate 38 0) &&
    undisturbed.offers answers 0 startsVm) = true := by
  decide +kernel

theorem starts_intended_undisturbed : ∃ c : Parties,
    Reach (shared plainDriver) (fun _ _ _ => True)
      (Interleaving.start { db := RegistryGate.servedDb "new" } engineAndStop) c ∧
      (Startable c.world.db "10.0.20.162" ↔ ¬ c.world.stopped "10.0.20.162") := by
  obtain ⟨hf, hs⟩ := Bool.and_eq_true_iff.mp undisturbed_starts
  obtain ⟨e, a, hk, hstep⟩ := Board.offers_step ⟨engineAndStop 1, []⟩ answers_step hs
  cases startsVm_eq hk
  exact ⟨_, shown_reach hf, starts_intended_iff plainDriver false 1 engineAndStop _ 0 _ _ _ _ _ a
    rfl (shown_reach hf) hstep rfl⟩

end ServerManager.IntentionalStops
