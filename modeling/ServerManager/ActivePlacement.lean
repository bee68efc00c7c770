import ServerManager.Interleaving
import Mathlib.Algebra.Order.Field.Rat

namespace ServerManager.ActivePlacement

open Interaction Interleaving

inductive Eff
  | clock
  | cacheGet (physicalHost : String)
  | cachePut (physicalHost : String) (ip : Option String) (ts : ℚ)
  | cachePop (physicalHost : String)
  | readRow (physicalHost : String)
  | commitRow (physicalHost guestIp : String)
  deriving DecidableEq

/-- How a commit ends; it can have happened although an error comes back. -/
inductive Committed
  | done
  | unavailable
  | failed (error : String)

/-- `readRow` without an answer is a database that cannot be read. -/
@[reducible] def Ans : Eff → Type
  | .clock => ℚ
  | .cacheGet _ => Option (Option String × ℚ)
  | .cachePut .. => Unit
  | .cachePop _ => Unit
  | .readRow _ => Option (Option String)
  | .commitRow .. => Committed

inductive Result
  | ip (value : Option String)
  | ok (physicalHost activeHostIp : String)
  | error (text : String)
  deriving DecidableEq

abbrev Svc := Prog Eff Ans Empty

def cacheTtl : ℚ := 30

def fill (physicalHost : String) (fallback : Option String) (now : ℚ) : Svc Result :=
  .call (.readRow physicalHost) fun row =>
    let ip := row.join <|> fallback
    .call (.cachePut physicalHost ip now) fun _ => .ret (.ip ip)

def lookUp (physicalHost : String) (fallback : Option String) (now : ℚ) : Svc Result :=
  .call (.cacheGet physicalHost) fun hit =>
    match hit with
    | some (ip, ts) => if now - ts < cacheTtl then .ret (.ip ip) else fill physicalHost fallback now
    | none => fill physicalHost fallback now

def activeIpFor (physicalHost : String) (fallback : Option String) : Svc Result :=
  .call .clock fun now => lookUp physicalHost fallback now

/-- What remains of `set_active` after the commit. -/
def forget (physicalHost guestIp : String) : Svc Result :=
  .call (.cachePop physicalHost) fun _ => .ret (.ok physicalHost guestIp)

def setActive (physicalHost guestIp : String) : Svc Result :=
  .call (.commitRow physicalHost guestIp) fun c =>
    match c with
    | .done => forget physicalHost guestIp
    | .unavailable => .ret (.error "pg unavailable")
    | .failed text => .ret (.error text)

/-- `last` is the call that committed a host's row, and `settled` says that it
has also taken the host out of the cache; the code has neither. -/
structure World where
  table : String → Option String
  cache : String → Option (Option String × ℚ)
  last : String → Option Nat
  settled : String → Bool

def World.fresh (table : String → Option String) : World :=
  ⟨table, fun _ => none, fun _ => none, fun _ => false⟩

def World.put (w : World) (h : String) (ip : Option String) (ts : ℚ) : World :=
  { w with cache := Function.update w.cache h (some (ip, ts)) }

def World.pop (w : World) (i : Nat) (h : String) : World :=
  { w with
    cache := Function.update w.cache h none
    settled := if w.last h = some i then Function.update w.settled h true else w.settled }

def World.commit (w : World) (i : Nat) (h ip : String) : World :=
  { w with
    table := Function.update w.table h (some ip)
    last := Function.update w.last h (some i)
    settled := Function.update w.settled h false }

def step (i : Nat) (w : World) : (e : Eff) → Ans e → World → Prop
  | .clock, _, w' => w' = w
  | .cacheGet h, hit, w' => hit = w.cache h ∧ w' = w
  | .cachePut h ip ts, _, w' => w' = w.put h ip ts
  | .cachePop h, _, w' => w' = w.pop i h
  | .readRow h, row, w' => (row = none ∨ row = some (w.table h)) ∧ w' = w
  | .commitRow h ip, .done, w' => w' = w.commit i h ip
  | .commitRow _ _, .unavailable, w' => w' = w
  | .commitRow h ip, .failed _, w' => w' = w ∨ w' = w.commit i h ip

abbrev Parties := Conf World Eff Ans Empty Result

inductive Request
  | activeIpFor (physicalHost : String) (fallback : Option String)
  | setActive (physicalHost guestIp : String)

def Request.prog : Request → Svc Result
  | .activeIpFor h fallback => ActivePlacement.activeIpFor h fallback
  | .setActive h ip => ActivePlacement.setActive h ip

def begin (table : String → Option String) (calls : Nat → Request) : Parties :=
  start (World.fresh table) (fun i => (calls i).prog)

/-- No row of the host is committed. -/
def NoCommit (h : String) (_ : Parties) (_ : Nat) (ev : Event Eff Ans) : Prop :=
  ∀ ip, ev.1 ≠ .commitRow h ip

/-- What is stored in the cache is what the table has, unless the call that
wrote the row is yet to take the host out of the cache. -/
def InTime (c : Parties) (_ : Nat) (ev : Event Eff Ans) : Prop :=
  ∀ h ip ts, ev.1 = .cachePut h ip ts → c.world.settled h = true → ip = c.world.table h

def Clean (w : World) : Prop := ∀ h, w.settled h = true → ∀ e ∈ w.cache h, e.1 = w.table h

theorem Clean.commit {w : World} (hw : Clean w) (i : Nat) (k ip : String) :
    Clean (w.commit i k ip) := by
  intro h hs e he
  by_cases hk : h = k
  · subst hk
    have hno : (w.commit i h ip).settled h = false := Function.update_self ..
    rw [hno] at hs
    cases hs
  · have hset : (w.commit i k ip).settled h = w.settled h := Function.update_of_ne hk ..
    have htab : (w.commit i k ip).table h = w.table h := Function.update_of_ne hk ..
    rw [htab]
    exact hw h (hset ▸ hs) e he

theorem Clean.pop {w : World} (hw : Clean w) (i : Nat) (k : String) : Clean (w.pop i k) := by
  intro h hs e he
  by_cases hk : h = k
  · subst hk
    have hnone : (w.pop i h).cache h = none := Function.update_self ..
    rw [hnone] at he
    cases he
  · have hcache : (w.pop i k).cache h = w.cache h := Function.update_of_ne hk ..
    rw [hcache] at he
    refine hw h ?_ e he
    have hset : (w.pop i k).settled h = w.settled h := by
      show (if w.last k = some i then Function.update w.settled k true else w.settled) h =
        w.settled h
      split
      · exact Function.update_of_ne hk ..
      · rfl
    exact hset ▸ hs

theorem Clean.put {w : World} (hw : Clean w) {k : String} {ip : Option String} {ts : ℚ}
    (hput : w.settled k = true → ip = w.table k) : Clean (w.put k ip ts) := by
  intro h hs e he
  by_cases hk : h = k
  · subst hk
    have hcache : (w.put h ip ts).cache h = some (ip, ts) := Function.update_self ..
    rw [hcache] at he
    obtain rfl := Option.some.inj he
    exact hput hs
  · have hcache : (w.put k ip ts).cache h = w.cache h := Function.update_of_ne hk ..
    rw [hcache] at he
    exact hw h hs e he

theorem Clean.next {c d : Parties} {i : Nat} {ev : Event Eff Ans} (hw : Clean c.world)
    (hp : InTime c i ev)
    (hs : Step step c i ev d) : Clean d.world := by
  obtain ⟨e, a⟩ := ev
  have hmove := hs.world
  cases e with
  | clock => exact (show d.world = c.world from hmove) ▸ hw
  | cacheGet h => exact hmove.2 ▸ hw
  | readRow h => exact hmove.2 ▸ hw
  | cachePut h ip ts =>
      exact (show d.world = c.world.put h ip ts from hmove) ▸ hw.put (hp h ip ts rfl)
  | cachePop h => exact (show d.world = c.world.pop i h from hmove) ▸ hw.pop i h
  | commitRow h ip =>
      cases a with
      | done => exact (show d.world = c.world.commit i h ip from hmove) ▸ hw.commit i h ip
      | unavailable => exact (show d.world = c.world from hmove) ▸ hw
      | failed text =>
          rcases (show d.world = c.world ∨ d.world = c.world.commit i h ip from hmove) with hd | hd
          · exact hd ▸ hw
          · exact hd ▸ hw.commit i h ip

theorem Clean.reach {c d : Parties} (hw : Clean c.world) (hr : Reach step InTime c d) :
    Clean d.world := by
  induction hr with
  | refl => exact hw
  | tail _ hp hs ih => exact ih.next hp hs

/-- Where `set_active` is while its row is the last of the host. -/
structure Writer (s : Nat) (h ip : String) (c : Parties) : Prop where
  prog : (c.procs s).prog = setActive h ip ∨ (c.procs s).prog = forget h ip ∨
    (c.procs s).prog = .ret (.ok h ip) ∨
    ∃ text, (c.procs s).prog = .ret (.error text)
  waits : (c.procs s).prog = setActive h ip → c.world.last h ≠ some s
  row : c.world.last h = some s → c.world.table h = some ip
  settled : c.world.last h = some s → (c.procs s).prog = .ret (.ok h ip) → c.world.settled h = true

theorem commit_last (w : World) (i : Nat) (h ip : String) : (w.commit i h ip).last h = some i :=
  Function.update_self ..

theorem commit_of_ne (w : World) (i : Nat) {h k : String} (ip : String) (hk : h ≠ k) :
    (w.commit i k ip).last h = w.last h ∧ (w.commit i k ip).table h = w.table h ∧
    (w.commit i k ip).settled h = w.settled h :=
  ⟨Function.update_of_ne hk .., Function.update_of_ne hk .., Function.update_of_ne hk ..⟩

theorem pop_settled (w : World) (i : Nat) (k : String) {h : String} (hs : w.settled h = true) :
    (w.pop i k).settled h = true := by
  show (if w.last k = some i then Function.update w.settled k true else w.settled) h = true
  split
  · by_cases hk : h = k
    · rw [hk]
      exact Function.update_self ..
    · exact (Function.update_of_ne hk ..).trans hs
  · exact hs

theorem step_other {i s : Nat} (hi : i ≠ s) {w w' : World} {e : Eff} {a : Ans e}
    (hs : step i w e a w') (h : String)
    (hl : w'.last h = some s) :
    w.last h = some s ∧ w'.table h = w.table h ∧ (w.settled h = true → w'.settled h = true) := by
  have hcommit : ∀ k ip, w' = w.commit i k ip → w.last h = some s ∧ w'.table h = w.table h ∧
      (w.settled h = true → w'.settled h = true) := by
    rintro k ip rfl
    by_cases hk : h = k
    · subst hk
      rw [commit_last] at hl
      exact absurd (Option.some.inj hl) hi
    · obtain ⟨h₁, h₂, h₃⟩ := commit_of_ne w i ip hk
      rw [h₁] at hl
      exact ⟨hl, h₂, fun hset => h₃.trans hset⟩
  cases e with
  | clock =>
      obtain rfl : w' = w := hs
      exact ⟨hl, rfl, id⟩
  | cacheGet k =>
      obtain rfl : w' = w := hs.2
      exact ⟨hl, rfl, id⟩
  | readRow k =>
      obtain rfl : w' = w := hs.2
      exact ⟨hl, rfl, id⟩
  | cachePut k ip ts =>
      obtain rfl : w' = w.put k ip ts := hs
      exact ⟨hl, rfl, id⟩
  | cachePop k =>
      obtain rfl : w' = w.pop i k := hs
      exact ⟨hl, rfl, pop_settled w i k⟩
  | commitRow k ip =>
      cases a with
      | done => exact hcommit k ip hs
      | unavailable =>
          obtain rfl : w' = w := hs
          exact ⟨hl, rfl, id⟩
      | failed text =>
          rcases (show w' = w ∨ w' = w.commit i k ip from hs) with rfl | hw
          · exact ⟨hl, rfl, id⟩
          · exact hcommit k ip hw

theorem Writer.next {s : Nat} {h ip : String} {c d : Parties} {i : Nat} {ev : Event Eff Ans}
    (hw : Writer s h ip c)
    (hs : Step step c i ev d) : Writer s h ip d := by
  by_cases hi : i = s
  · subst hi
    cases hs with
    | @call e k a w hc hmove =>
        have hself : (Function.update c.procs i ⟨k a, (c.procs i).trace ++ [⟨e, a⟩]⟩ i).prog =
            k a := by
          rw [Function.update_self]
        rcases hw.prog with hp | hp | hp | ⟨text, hp⟩
        · -- the commit
          have hcall := hc.symm.trans hp
          unfold setActive at hcall
          injection hcall with he hk
          subst he
          have hcont := congrFun (eq_of_heq hk) a
          have herror : ∀ text, (Function.update c.procs i ⟨k a, (c.procs i).trace ++ [⟨_, a⟩]⟩
              i).prog = .ret (.error text) →
              w = c.world ∨ w = c.world.commit i h ip →
                Writer i h ip ⟨w, Function.update c.procs i
                ⟨k a, (c.procs i).trace ++ [⟨_, a⟩]⟩⟩ := by
            intro text hr hw'
            refine ⟨.inr (.inr (.inr ⟨text, hr⟩)), fun hp' => absurd (hr.symm.trans hp') nofun,
              fun hl => ?_,
              fun _ hp' => absurd (hr.symm.trans hp') nofun⟩
            rcases hw' with rfl | rfl
            · exact absurd hl (hw.waits hp)
            · exact Function.update_self ..
          cases a with
          | done =>
              have hself := hself.trans hcont
              obtain rfl : w = c.world.commit i h ip := hmove
              refine ⟨.inr (.inl hself), fun hp' => ?_, fun _ => Function.update_self ..,
                fun _ hp' => ?_⟩
              · exact absurd (hself.symm.trans hp') nofun
              · exact absurd (hself.symm.trans hp') nofun
          | unavailable => exact herror "pg unavailable" (hself.trans hcont) (.inl hmove)
          | failed text => exact herror text (hself.trans hcont) hmove
        · -- the cache
          have hcall := hc.symm.trans hp
          unfold forget at hcall
          injection hcall with he hk
          subst he
          have hself := hself.trans (congrFun (eq_of_heq hk) a)
          obtain rfl : w = c.world.pop i h := hmove
          refine ⟨.inr (.inr (.inl hself)), fun hp' => absurd (hself.symm.trans hp') nofun, hw.row,
            fun hl _ => ?_⟩
          have hl' : c.world.last h = some i := hl
          show (if c.world.last h = some i then Function.update c.world.settled h true
            else c.world.settled) h = true
          rw [if_pos hl']
          exact Function.update_self ..
        · exact absurd (hc.symm.trans hp) nofun
        · exact absurd (hc.symm.trans hp) nofun
  · have hproc : d.procs s = c.procs s := hs.proc_other (Ne.symm hi)
    have hmove := hs.world
    refine ⟨?_, fun hp hl => ?_, fun hl => ?_, fun hl hp => ?_⟩
    · rw [hproc]
      exact hw.prog
    · rw [hproc] at hp
      exact hw.waits hp (step_other hi hmove h hl).1
    · obtain ⟨hl', ht, -⟩ := step_other hi hmove h hl
      exact ht.trans (hw.row hl')
    · rw [hproc] at hp
      obtain ⟨hl', -, hset⟩ := step_other hi hmove h hl
      exact hset (hw.settled hl' hp)

/-- Where `active_ip_for` is while no row of the host is committed. -/
structure Reader (r : Nat) (h : String) (fallback : Option String) (ip : String) (c : Parties) :
    Prop where
  settled : c.world.settled h = true
  row : c.world.table h = some ip
  prog : (c.procs r).prog = activeIpFor h fallback ∨
    (∃ now, (c.procs r).prog = lookUp h fallback now) ∨
    (∃ now, (c.procs r).prog = fill h fallback now) ∨
    (∃ v now, (c.procs r).prog = .call (.cachePut h v now) fun _ => .ret (.ip v)) ∨
    (c.procs r).prog = .ret (.ip (some ip))

theorem step_quiet {i : Nat} {w w' : World} {e : Eff} {a : Ans e} (hs : step i w e a w')
    {h : String}
    (hq : ∀ ip, e ≠ .commitRow h ip) (hset : w.settled h = true) : w'.settled h = true ∧
    w'.table h = w.table h := by
  have hcommit : ∀ k ip, e = .commitRow k ip → w' = w.commit i k ip → w'.settled h = true ∧
      w'.table h = w.table h := by
    rintro k ip rfl rfl
    have hk : h ≠ k := fun he => hq ip (he ▸ rfl)
    obtain ⟨-, ht, hs'⟩ := commit_of_ne w i ip hk
    exact ⟨hs'.trans hset, ht⟩
  cases e with
  | clock =>
      obtain rfl : w' = w := hs
      exact ⟨hset, rfl⟩
  | cacheGet k =>
      obtain rfl : w' = w := hs.2
      exact ⟨hset, rfl⟩
  | readRow k =>
      obtain rfl : w' = w := hs.2
      exact ⟨hset, rfl⟩
  | cachePut k ip ts =>
      obtain rfl : w' = w.put k ip ts := hs
      exact ⟨hset, rfl⟩
  | cachePop k =>
      obtain rfl : w' = w.pop i k := hs
      exact ⟨pop_settled w i k hset, rfl⟩
  | commitRow k ip =>
      cases a with
      | done => exact hcommit k ip rfl hs
      | unavailable =>
          obtain rfl : w' = w := hs
          exact ⟨hset, rfl⟩
      | failed text =>
          rcases (show w' = w ∨ w' = w.commit i k ip from hs) with rfl | hw
          · exact ⟨hset, rfl⟩
          · exact hcommit k ip rfl hw

theorem Reader.next {r : Nat} {h : String} {fallback : Option String} {ip : String} {c d : Parties}
    {i : Nat}
    {ev : Event Eff Ans} (hr : Reader r h fallback ip c) (hclean : Clean c.world)
    (hp : InTime c i ev) (hq : NoCommit h c i ev)
    (hs : Step step c i ev d) : Reader r h fallback ip d := by
  obtain ⟨hset, htab⟩ := step_quiet hs.world hq hr.settled
  refine ⟨hset, htab.trans hr.row, ?_⟩
  by_cases hi : i = r
  · subst hi
    cases hs with
    | @call e k a w hc hmove =>
        simp only [Function.update_self]
        rcases hr.prog with hp' | ⟨now, hp'⟩ | ⟨now, hp'⟩ | ⟨v, now, hp'⟩ | hp'
        · have hcall := hc.symm.trans hp'
          unfold activeIpFor at hcall
          injection hcall with he hk
          subst he
          exact .inr (.inl ⟨a, congrFun (eq_of_heq hk) a⟩)
        · have hcall := hc.symm.trans hp'
          unfold lookUp at hcall
          injection hcall with he hk
          subst he
          have hcont := congrFun (eq_of_heq hk) a
          obtain ⟨hhit, -⟩ := (show a = c.world.cache h ∧ w = c.world from hmove)
          cases a with
          | none => exact .inr (.inr (.inl ⟨now, hcont⟩))
          | some hit =>
              obtain ⟨v, ts⟩ := hit
              by_cases hfresh : now - ts < cacheTtl
              · -- a fresh entry is the row
                have hv : v = some ip := (hclean h hr.settled (v, ts) hhit.symm).trans hr.row
                have hret := hcont.trans (if_pos hfresh)
                exact .inr (.inr (.inr (.inr (hret.trans
                  (congrArg (fun v => Prog.ret (Result.ip v)) hv)))))
              · exact .inr (.inr (.inl ⟨now, hcont.trans (if_neg hfresh)⟩))
        · have hcall := hc.symm.trans hp'
          unfold fill at hcall
          injection hcall with he hk
          subst he
          exact .inr (.inr (.inr (.inl ⟨_, now, congrFun (eq_of_heq hk) a⟩)))
        · have hcall := hc.symm.trans hp'
          injection hcall with he hk
          subst he
          have hv : v = some ip := (hp h v now rfl hr.settled).trans hr.row
          have hret := congrFun (eq_of_heq hk) a
          rw [hv] at hret
          exact .inr (.inr (.inr (.inr hret)))
        · exact absurd (hc.symm.trans hp') nofun
  · rw [hs.proc_other (Ne.symm hi)]
    exact hr.prog

theorem Writer.begin {calls : Nat → Request} {s : Nat} {h ip : String}
    (hs : calls s = .setActive h ip)
    (table : String → Option String) : Writer s h ip (begin table calls) := by
  have hprog : ((ActivePlacement.begin table calls).procs s).prog = setActive h ip :=
    congrArg Request.prog hs
  exact ⟨.inl hprog, fun _ => nofun, nofun, nofun⟩

theorem Clean.begin (table : String → Option String) (calls : Nat → Request) :
    Clean (begin table calls).world := nofun

theorem prog_of_fresh {table : String → Option String} {calls : Nat → Request} {c : Parties}
    {r : Nat}
    (hc : Reach step InTime (begin table calls) c) (hnew : (c.procs r).trace = []) :
    (c.procs r).prog = (calls r).prog := by
  induction hc with
  | refl => rfl
  | @tail c d i ev _ _ hs ih =>
      by_cases hi : i = r
      · subst hi
        rw [hs.trace_self] at hnew
        exact absurd hnew (List.append_ne_nil_of_right_ne_nil _ (List.cons_ne_nil _ _))
      · rw [hs.proc_other (Ne.symm hi)] at hnew ⊢
        exact ih hnew

/-- When stores are in time, a call that starts after `set_active` has returned
and ends before another one commits gives its address. -/
theorem reads_own_write (table : String → Option String) (calls : Nat → Request) {c d : Parties}
    {s r : Nat} {h ip : String}
    {fallback v : Option String} (hc : Reach step InTime (begin table calls) c)
    (hs : calls s = .setActive h ip)
    (hok : (c.procs s).prog = .ret (.ok h ip)) (hlast : c.world.last h = some s)
    (hr : calls r = .activeIpFor h fallback) (hnew : (c.procs r).trace = [])
    (hd : Reach step (fun c i ev => InTime c i ev ∧ NoCommit h c i ev) c d)
    (hv : (d.procs r).prog = .ret (.ip v)) :
    v = some ip := by
  have hwriter : Writer s h ip c := by
    have hinv : ∀ c, Reach step InTime (begin table calls) c → Writer s h ip c := by
      intro c hc
      induction hc with
      | refl => exact Writer.begin hs table
      | tail _ _ hstep ih => exact ih.next hstep
    exact hinv c hc
  have hreader : Reader r h fallback ip c := by
    refine ⟨hwriter.settled hlast hok, hwriter.row hlast, .inl ?_⟩
    rw [prog_of_fresh hc hnew, hr]
    rfl
  have hinv : ∀ d, Reach step (fun c i ev => InTime c i ev ∧ NoCommit h c i ev) c d →
      Reader r h fallback ip d ∧ Clean d.world := by
    intro d hd
    induction hd with
    | refl => exact ⟨hreader, (Clean.begin table calls).reach hc⟩
    | tail _ hp hstep ih => exact ⟨ih.1.next ih.2 hp.1 hp.2 hstep, ih.2.next hp.1 hstep⟩
  obtain ⟨hread, -⟩ := hinv d hd
  rcases hread.prog with hp | ⟨now, hp⟩ | ⟨now, hp⟩ | ⟨u, now, hp⟩ | hp
  · exact absurd (hv.symm.trans hp) nofun
  · exact absurd (hv.symm.trans hp) nofun
  · exact absurd (hv.symm.trans hp) nofun
  · exact absurd (hv.symm.trans hp) nofun
  · injection hv.symm.trans hp with he
    exact Result.ip.inj he

/-- The clock stands still and the database always answers. -/
def oracle (i : Nat) (w : World) : (e : Eff) → Option (Ans e × World)
  | .clock => some ((0 : ℚ), w)
  | .cacheGet h => some (w.cache h, w)
  | .cachePut h ip ts => some ((), w.put h ip ts)
  | .cachePop h => some ((), w.pop i h)
  | .readRow h => some (some (w.table h), w)
  | .commitRow h ip => some (.done, w.commit i h ip)

theorem oracle_step (i : Nat) (w : World) (e : Eff) (a : Ans e) (w' : World)
    (h : oracle i w e = some (a, w')) : step i w e a w' := by
  cases e with
  | clock => exact (Prod.mk.inj (Option.some.inj h)).2.symm
  | cacheGet k =>
      exact ⟨(Prod.mk.inj (Option.some.inj h)).1.symm, (Prod.mk.inj (Option.some.inj h)).2.symm⟩
  | cachePut k ip ts => exact (Prod.mk.inj (Option.some.inj h)).2.symm
  | cachePop k => exact (Prod.mk.inj (Option.some.inj h)).2.symm
  | readRow k =>
      exact ⟨.inr (Prod.mk.inj (Option.some.inj h)).1.symm,
        (Prod.mk.inj (Option.some.inj h)).2.symm⟩
  | commitRow k ip =>
      obtain ⟨rfl, hw⟩ := Prod.mk.inj (Option.some.inj h)
      exact hw.symm

def promoted (h : String) : Option String := if h = "MIAM-00111" then some "10.0.20.168" else none

def threeCalls (i : Nat) : Request :=
  if i = 1 then .setActive "MIAM-00111" "10.0.20.161" else .activeIpFor "MIAM-00111" none

abbrev Played := Board World Eff Ans Empty Result

def opening : Played :=
  ⟨World.fresh promoted, [⟨(threeCalls 0).prog, []⟩, ⟨(threeCalls 1).prog, []⟩,
    ⟨(threeCalls 2).prog, []⟩]⟩

def shown (b : Played) : Parties := b.conf id ⟨(threeCalls 3).prog, []⟩

theorem shown_opening : shown opening = begin promoted threeCalls := by
  refine congrArg (Conf.mk _) (funext fun i => ?_)
  match i with
  | 0 => rfl
  | 1 => rfl
  | 2 => rfl
  | i + 3 => rfl

def resultOf : Svc Result → Option Result
  | .ret r => some r
  | _ => none

theorem resultOf_eq {p : Svc Result} {r : Result} (h : resultOf p = some r) : p = .ret r := by
  cases p with
  | ret a => exact congrArg Prog.ret (Option.some.inj h)
  | raise x => cases h
  | call e k => cases h

/-- The first reader reads the old row and stores it when the change is over. -/
def overtaken : List Nat := [0, 0, 0, 1, 1, 0]

theorem stale_after_write : ¬ ∀ (table : String → Option String) (calls : Nat → Request) (c d :
    Parties) (s r : Nat) (h ip : String)
    (fallback v : Option String), Reach step (fun _ _ _ => True) (begin table calls) c →
    calls s = .setActive h ip →
      (c.procs s).prog = .ret (.ok h ip) → c.world.last h = some s →
        calls r = .activeIpFor h fallback →
        (c.procs r).trace = [] → Reach step (NoCommit h) c d → (d.procs r).prog = .ret (.ip v) →
          v = some ip := by
  intro hall
  have hf : opening.follows oracle (fun _ _ => true) overtaken = true := by decide +kernel
  have hg : (opening.play oracle overtaken).follows oracle
      (fun _ e => match e with | .commitRow .. => false | _ => true) [2, 2] = true := by
    decide +kernel
  have hc : Reach step (fun _ _ _ => True) (begin promoted threeCalls)
      (shown (opening.play oracle overtaken)) := by
    rw [← shown_opening]
    exact Board.follows_reach _ oracle_step (fun _ _ _ _ => trivial) hf
  have hd : Reach step (NoCommit "MIAM-00111") (shown (opening.play oracle overtaken))
      (shown ((opening.play oracle overtaken).play oracle [2, 2])) := by
    refine Board.follows_reach _ oracle_step (fun c i ev hk ip he => ?_) hg
    rw [he] at hk
    cases hk
  have hstale :=
    hall promoted threeCalls _ _ 1 2 "MIAM-00111" "10.0.20.161" none (some "10.0.20.168") hc rfl rfl
      (by decide +kernel)
    rfl rfl hd (resultOf_eq (by decide +kernel))
  exact absurd hstale (by decide)

def after : Played := opening.play oracle [1, 1]

def storing (e : Eff) : Bool := e == .cachePut "MIAM-00111" (some "10.0.20.161") 0

theorem after_reach : Reach step (fun c i ev => InTime c i ev ∧ NoCommit "MIAM-00111" c i ev)
    (shown after)
    (shown ((after.play oracle [2, 2, 2]).play oracle [2])) := by
  have hf :
      after.follows oracle (fun _ e =>
      match e with | .commitRow .. => false | .cachePut .. => false | _ => true) [2, 2, 2] = true := by
    decide +kernel
  have hr : Reach step (fun c i ev => InTime c i ev ∧ NoCommit "MIAM-00111" c i ev) (shown after)
      (shown (after.play oracle [2, 2, 2])) := by
    refine Board.follows_reach _ oracle_step (fun c i ev hk =>
      ⟨fun h ip ts he => ?_, fun ip he => ?_⟩) hf
    · rw [he] at hk
      cases hk
    · rw [he] at hk
      cases hk
  obtain ⟨e, a, hk, hs⟩ := Board.offers_step ⟨(threeCalls 3).prog, []⟩ oracle_step
    (show (after.play oracle [2, 2, 2]).offers oracle 2 storing = true by decide +kernel)
  obtain rfl := beq_iff_eq.mp hk
  refine .tail hr ⟨fun h ip ts he _ => ?_, fun ip he => by cases he⟩ hs
  cases he
  decide +kernel

theorem reads_own_write_after : ∃ v, ((shown ((after.play oracle [2, 2, 2]).play oracle [2])).procs
    2).prog = .ret (.ip v) ∧
    v = some "10.0.20.161" := by
  have hc : Reach step InTime (begin promoted threeCalls) (shown after) := by
    rw [← shown_opening]
    refine Board.follows_reach _ oracle_step (fun c i ev hk h ip ts he => ?_)
      (show opening.follows oracle (fun _ e => match e with | .cachePut .. => false | _ => true)
        [1, 1] = true by decide +kernel)
    rw [he] at hk
    cases hk
  have hv : ((shown ((after.play oracle [2, 2, 2]).play oracle [2])).procs 2).prog =
      .ret (.ip (some "10.0.20.161")) :=
    resultOf_eq (by decide +kernel)
  exact ⟨_, hv, reads_own_write promoted threeCalls hc (s := 1) rfl
    (resultOf_eq (by decide +kernel)) (by decide +kernel)
    (r := 2) rfl rfl after_reach hv⟩

end ServerManager.ActivePlacement
