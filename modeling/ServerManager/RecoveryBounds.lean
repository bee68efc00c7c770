import ServerManager.EngineRules
import ServerManager.SlidingWindow
import Mathlib.Algebra.Order.Group.Int

namespace ServerManager.RecoveryBounds

open Interaction PyJson FleetDb Fleet Registry RecoveryEngine EngineRules SlidingWindow
open Effects (PyExc)

/-- What other processes commit between two calls: any rows, and events that are no attempts. -/
structure Outside (w w' : World) : Prop where
  txn : w'.txn = w.txn
  now : w'.now = w.now
  events : ∃ evs, w'.db.events = w.db.events ++ evs ∧ ∀ ev ∈ evs, ¬ Attempt ev.eventType

/-- One call of the engine: the hosts and the Proxmox API answer anything, any
operation on the database may fail, and its time does not go back. -/
def Live (drv : Driver) (w : World) (e : Eff) (a : Ans e) (w' : World) : Prop :=
  ∃ w₁ net fault now, Outside w w₁ ∧ w.now ≤ now ∧ answer drv net fault now w₁ e = (a, w')

def window : Int := 30 * minute

def attempts (ip eventType : String) (events : List RecoveryEvent) : List Int :=
  (events.filter (fun ev => ev.ip == ip && ev.eventType == eventType)).map (·.createdAt)

theorem attempts_append (ip eventType : String) (events events' : List RecoveryEvent) :
    attempts ip eventType (events ++ events') = attempts ip eventType events ++
      attempts ip eventType events' := by
  unfold attempts
  rw [List.filter_append, List.map_append]

theorem recent_eq (db : Db) (ip eventType : String) (since : Int) :
    db.recent ip eventType since = (attempts ip eventType db.events).countP
      (fun x => since < x) := by
  unfold Db.recent attempts
  rw [List.countP_map, List.countP_filter]
  refine List.countP_congr fun ev _ => ?_
  simp only [Function.comp, Bool.and_eq_true]
  tauto

theorem attempts_other {ip eventType : String} {events : List RecoveryEvent}
    (h : ∀ ev ∈ events, ¬ (ev.ip = ip ∧ ev.eventType = eventType)) :
    attempts ip eventType events = [] := by
  unfold attempts
  rw [List.map_eq_nil_iff, List.filter_eq_nil_iff]
  intro ev hev hk
  exact h ev hev (by simpa using hk)

/-- Some time that is not after `t` saw fewer attempts in the window up to it than are allowed. -/
def Room (events : List RecoveryEvent) (ip eventType : String) (t : Int) : Prop :=
  ∃ s ≤ t, (attempts ip eventType events).countP (fun x => s - window < x) < 2

theorem Room.later {events : List RecoveryEvent} {ip eventType : String} {t t' : Int}
    (h : Room events ip eventType t)
    (ht : t ≤ t') : Room events ip eventType t' := by
  obtain ⟨s, hs, hc⟩ := h
  exact ⟨s, hs.trans ht, hc⟩

theorem Room.append {events evs : List RecoveryEvent} {ip eventType : String} {t : Int}
    (h : Room events ip eventType t) (ha : Attempt eventType)
    (hevs : ∀ ev ∈ evs, ¬ Attempt ev.eventType) :
    Room (events ++ evs) ip eventType t := by
  have hnone : attempts ip eventType evs = [] :=
    attempts_other fun ev hev hk => hevs ev hev (hk.2 ▸ ha)
  unfold Room
  rw [attempts_append, hnone, List.append_nil]
  exact h

/-- The attempts respect the limits. -/
def Bounded (events : List RecoveryEvent) : Prop :=
  ∀ ip eventType, Attempt eventType → Limited 2 window (attempts ip eventType events)

theorem Bounded.nil : Bounded [] := fun _ _ _ => Limited.nil

theorem Bounded.append_other {events evs : List RecoveryEvent} (h : Bounded events)
    (hevs : ∀ ev ∈ evs, ¬ Attempt ev.eventType) : Bounded (events ++ evs) := by
  intro ip eventType ha
  have hnone : attempts ip eventType evs = [] :=
    attempts_other fun ev hev hk => hevs ev hev (hk.2 ▸ ha)
  rw [attempts_append, hnone, List.append_nil]
  exact h ip eventType ha

theorem Bounded.append_attempt {base events : List RecoveryEvent} {ev : RecoveryEvent}
    (h : Bounded events)
    (hroom : Attempt ev.eventType → Room (base ++ events) ev.ip ev.eventType ev.createdAt) :
    Bounded (events ++ [ev]) := by
  intro ip eventType ha
  rw [attempts_append]
  by_cases hev : ev.ip = ip ∧ ev.eventType = eventType
  · obtain ⟨rfl, rfl⟩ := hev
    obtain ⟨s, hs, hc⟩ := hroom ha
    have hone : attempts ev.ip ev.eventType [ev] = [ev.createdAt] := by simp [attempts]
    rw [attempts_append, List.countP_append] at hc
    rw [hone]
    exact (h ev.ip ev.eventType ha).append (Nat.lt_of_le_of_lt (Nat.le_add_left _ _) hc) hs
  · have hnone : attempts ip eventType [ev] = [] := attempts_other fun ev' hev' => by
      rw [List.mem_singleton.mp hev']
      exact hev
    rw [hnone, List.append_nil]
    exact h ip eventType ha

/-- A rule for a table of events: what it keeps, and when there is room for one more
event. Room is not lost while time passes and other processes add events that are no attempts. -/
structure Ledger where
  kept : List RecoveryEvent → Prop
  room : List RecoveryEvent → String → String → Int → Prop
  free : ∀ {events ip t s}, ¬ Attempt t → room events ip t s
  later : ∀ {events ip t s s'}, room events ip t s → s ≤ s' → room events ip t s'
  beside : ∀ {events evs ip t s}, room events ip t s → (∀ ev ∈ evs, ¬ Attempt ev.eventType) →
    room (events ++ evs) ip t s
  other : ∀ {events evs}, kept events → (∀ ev ∈ evs, ¬ Attempt ev.eventType) → kept (events ++ evs)
  more : ∀ {base events ev}, kept events → room (base ++ events) ev.ip ev.eventType ev.createdAt →
    kept (events ++ [ev])

def limits : Ledger where
  kept := Bounded
  room events ip t s := Attempt t → Room events ip t s
  free h ha := absurd ha h
  later h hs ha := (h ha).later hs
  beside h hevs ha := (h ha).append ha hevs
  other h hevs := h.append_other hevs
  more h hroom := h.append_attempt hroom

/-- The transaction will add `evs` when it commits. -/
def Adds (pending : Db → Db) (evs : List RecoveryEvent) : Prop :=
  ∀ db, (pending db).events = db.events ++ evs

theorem exec_events {drv : Driver} {now : Int} {db db' : Db} {s : Stmt} {rows : s.Rows}
    (hs : ∀ ip t d, s ≠ .insertEvent ip t d) (h : exec drv now db s = .ok (rows, db')) :
    db'.events = db.events := by
  cases s with
  | insertEvent ip t d => exact absurd rfl (hs ip t d)
  | updateHost ip c v =>
      obtain ⟨-, rfl⟩ := Prod.mk.inj (Except.ok.inj h)
      rfl
  | upsertModel name hid engine url limit health routable =>
      exact (RegistryPass.exec_beside (by trivial) h).events
  | markHost hid health => exact (RegistryPass.exec_beside (by trivial) h).events
  | deleteAliases => exact (RegistryPass.exec_beside (by trivial) h).events
  | insertAlias name target health url routable =>
      exact (RegistryPass.exec_beside (by trivial) h).events
  | _ =>
      obtain ⟨-, rfl⟩ := Prod.mk.inj (Except.ok.inj h)
      rfl

theorem effect_events (drv : Driver) (now : Int) {s : Stmt} (hs : ∀ ip t d, s ≠ .insertEvent ip t d)
    (db : Db) :
    (effect drv now s db).events = db.events := by
  unfold Fleet.effect
  split
  next r hr =>
    obtain ⟨rows, db'⟩ := r
    exact exec_events hs hr
  · rfl

/-- What has been committed on top of the first events, and what the open transaction adds to it. -/
structure Books (L : Ledger) (base : List RecoveryEvent) (w : World) : Prop where
  kept : ∃ new, w.db.events = base ++ new ∧ L.kept new
  txn : ∀ pending, w.txn = .live pending → Adds pending [] ∨ ∃ ev, Adds pending [ev] ∧
    L.room w.db.events ev.ip ev.eventType ev.createdAt

def Idle (w : World) : Prop := Pending (fun d d' => d'.events = d.events ++ []) w

/-- The promise at a call: an event is written when there is room for it, in a transaction of its
own. -/
def Written (L : Ledger) (w : World) : Eff → Prop
  | .sql (.insertEvent ip t _) => Idle w ∧ L.room w.db.events ip t w.now
  | .orm (.insertEvent ip t _) => Idle w ∧ L.room w.db.events ip t w.now
  | _ => True

variable {L : Ledger}

theorem Books.outside {base : List RecoveryEvent} {w w' : World} (h : Books L base w)
    (ho : Outside w w') :
    Books L base w' := by
  obtain ⟨evs, he, hevs⟩ := ho.events
  refine ⟨?_, fun pending hp => ?_⟩
  · obtain ⟨new, hnew, hb⟩ := h.kept
    refine ⟨new ++ evs, ?_, L.other hb hevs⟩
    rw [he, hnew, List.append_assoc]
  · rw [ho.txn] at hp
    rcases h.txn pending hp with hno | ⟨ev, hadd, hroom⟩
    · exact .inl hno
    · refine .inr ⟨ev, hadd, ?_⟩
      rw [he]
      exact L.beside hroom hevs

theorem Idle.outside {w w' : World} (h : Idle w) (ho : Outside w w') : Idle w' :=
  fun pending hp => h pending (ho.txn ▸ hp)

theorem Written.outside {w w' : World} {e : Eff} (h : Written L w e) (ho : Outside w w') :
    Written L w' e := by
  obtain ⟨evs, he, hevs⟩ := ho.events
  have hroom : ∀ ip t, L.room w.db.events ip t w.now → L.room w'.db.events ip t w'.now := by
    intro ip t hr
    rw [he, ho.now]
    exact L.beside hr hevs
  cases e with
  | sql s =>
      cases s with
      | insertEvent ip t d => exact ⟨h.1.outside ho, hroom ip t h.2⟩
      | _ => trivial
  | orm s =>
      cases s with
      | insertEvent ip t d => exact ⟨h.1.outside ho, hroom ip t h.2⟩
      | _ => trivial
  | _ => trivial

theorem Books.closed {base : List RecoveryEvent} {w w' : World} (h : Books L base w)
    (hdb : w'.db = w.db)
    (ht : ∀ pending, w'.txn ≠ .live pending) : Books L base w' where
  kept := hdb ▸ h.kept
  txn pending hp := absurd hp (ht pending)

theorem Books.opened {base : List RecoveryEvent} {w w' : World} (h : Books L base w)
    (hdb : w'.db = w.db)
    (ht : w'.txn = .live id) : Books L base w' where
  kept := hdb ▸ h.kept
  txn pending hp := by
    rw [ht] at hp
    cases hp
    exact .inl fun db => (List.append_nil _).symm

theorem Books.more {base : List RecoveryEvent} {w : World} (h : Books L base w)
    {events : List RecoveryEvent}
    {ev : RecoveryEvent} (he : events = w.db.events ++ [ev])
    (hroom : L.room w.db.events ev.ip ev.eventType ev.createdAt) :
    ∃ new, events = base ++ new ∧ L.kept new := by
  obtain ⟨new, hnew, hb⟩ := h.kept
  rw [hnew] at he hroom
  exact ⟨new ++ [ev], by rw [he, List.append_assoc], L.more hb hroom⟩

theorem Books.commit {base : List RecoveryEvent} {w w' : World} {pending : Db → Db}
    (h : Books L base w)
    (hw : w.txn = .live pending) (hdb : w'.db = pending w.db) (ht : w'.txn = .live id) :
    Books L base w' := by
  have hid : ∀ p, w'.txn = .live p → Adds p [] ∨ ∃ ev, Adds p [ev] ∧
      L.room w'.db.events ev.ip ev.eventType ev.createdAt := by
    intro p hp
    rw [ht] at hp
    cases hp
    exact .inl fun db => (List.append_nil _).symm
  rcases h.txn pending hw with hno | ⟨ev, hadd, hroom⟩
  · have he : w'.db.events = w.db.events := by rw [hdb, hno, List.append_nil]
    exact ⟨he ▸ h.kept, hid⟩
  · exact ⟨h.more (by rw [hdb, hadd]) hroom, hid⟩

theorem Books.added {base : List RecoveryEvent} {w w' : World} {ip t d : String} {now : Int}
    (h : Books L base w)
    (hw : Idle w ∧ L.room w.db.events ip t w.now) (hn : w.now ≤ now)
    (hdb : w'.db = w.db.insertEvent ⟨ip, t, d, now⟩) (ht : w'.txn = w.txn) : Books L base w' where
  kept := @Books.more _ _ _ h _ ⟨ip, t, d, now⟩ (congrArg Db.events hdb) (L.later hw.2 hn)
  txn pending hp := .inl (hw.1 pending (ht ▸ hp))

theorem Books.answer {base : List RecoveryEvent} {w : World} {e : Eff} (h : Books L base w)
    (drv : Driver) (net : Net)
    (fault : Option PyExc) {now : Int} (hw : Written L w e) (hn : w.now ≤ now) :
    Books L base (answer drv net fault now w e).2 := by
  unfold Fleet.answer
  cases e with
  | connect =>
      cases fault with
      | none => exact h.opened rfl rfl
      | some x => exact ⟨h.kept, h.txn⟩
  | sql s =>
      cases ht : w.txn with
      | closed => exact h.closed rfl (by simp only; nofun)
      | aborted => exact h.closed rfl (by simp only; nofun)
      | live pending =>
          cases fault with
          | some x => exact h.closed rfl nofun
          | none =>
              simp only
              cases hx : exec drv now (pending w.db) s with
              | error x => exact h.closed rfl nofun
              | ok r =>
                  refine ⟨h.kept, fun p hp => ?_⟩
                  cases hp
                  by_cases hs : ∃ ip t d, s = .insertEvent ip t d
                  · obtain ⟨ip, t, d, rfl⟩ := hs
                    right
                    refine ⟨⟨ip, t, d, now⟩, fun db => ?_, L.later hw.2 hn⟩
                    have hno : (pending db).events = db.events := by
                      rw [hw.1 pending ht db, List.append_nil]
                    exact congrArg (· ++ _) hno
                  · have hs' : ∀ ip t d, s ≠ .insertEvent ip t d :=
                      fun ip t d he => hs ⟨ip, t, d, he⟩
                    have hkeep : ∀ db, (effect drv now s (pending db)).events =
                        (pending db).events :=
                      fun db => effect_events drv now hs' (pending db)
                    rcases h.txn pending ht with hno | ⟨ev, hadd, hroom⟩
                    · exact .inl fun db => (hkeep db).trans (hno db)
                    · exact .inr ⟨ev, fun db => (hkeep db).trans (hadd db), hroom⟩
  | commit =>
      cases ht : w.txn with
      | closed => exact h.closed rfl (by simp only; nofun)
      | aborted =>
          cases fault with
          | none => exact h.opened rfl rfl
          | some x => exact h.closed rfl nofun
      | live pending =>
          cases fault with
          | none => exact h.commit ht rfl rfl
          | some x => exact h.closed rfl nofun
  | rollback =>
      cases ht : w.txn with
      | closed => exact h.closed rfl (by simp only; nofun)
      | aborted =>
          cases fault with
          | none => exact h.opened rfl rfl
          | some x => exact h.closed rfl nofun
      | live pending =>
          cases fault with
          | none => exact h.opened rfl rfl
          | some x => exact h.closed rfl nofun
  | close => exact h.closed rfl nofun
  | orm s =>
      cases fault with
      | some x => exact ⟨h.kept, h.txn⟩
      | none =>
          simp only
          cases hx : exec drv now w.db s with
          | error x => exact ⟨h.kept, h.txn⟩
          | ok r =>
              obtain ⟨rows, db'⟩ := r
              by_cases hs : ∃ ip t d, s = .insertEvent ip t d
              · obtain ⟨ip, t, d, rfl⟩ := hs
                obtain ⟨-, rfl⟩ := Prod.mk.inj (Except.ok.inj hx)
                exact h.added hw hn rfl rfl
              · have he := exec_events (fun ip t d he => hs ⟨ip, t, d, he⟩) hx
                refine ⟨?_, ?_⟩
                · exact he ▸ h.kept
                · intro pending hp
                  simp only [he]
                  exact h.txn pending hp
  | getModels ip => exact h
  | completion ip m => exact h
  | pve r => exact h
  | restart ip => exact h
  | sleep n => exact h
  | auditFile ip t d b => exact h

def Within (drv : Driver) (T : World → (e : Eff) → Ans e → World → Prop) : Prop :=
  ∀ w e a w', T w e a w' → Live drv w e a w'

theorem books_run {drv : Driver} {T : World → (e : Eff) → Ans e → World → Prop} (hT : Within drv T)
    {α : Type}
    {Q : World → α → Prop} {X : World → PyExc → Prop} {base : List RecoveryEvent} {w w' : World}
    {p q : Svc α}
    {tr : Trace Eff Ans} (hx : Exec T w p tr w' q) (h : Sat T (Written L) Q X p w)
    (hb : Books L base w) :
    Books L base w' := by
  induction hx with
  | refl => exact hb
  | call hs _ ih =>
      refine ih (h.2 _ _ hs) ?_
      obtain ⟨w₁, net, fault, now, ho, hn, ha⟩ := hT _ _ _ _ hs
      have hb' := (hb.outside ho).answer drv net fault (h.1.outside ho) (ho.now ▸ hn)
      rw [ha] at hb'
      exact hb'

theorem still_sql {e : Eff} (h : still e) : ∀ s, e = .sql s → plain s := by
  rintro s rfl
  exact h

theorem plain_ne {s : Stmt} (h : plain s) : ∀ ip t d, s ≠ .insertEvent ip t d := by
  rintro ip t d rfl
  exact h

theorem still_written {e : Eff} (h : still e) (w : World) : Written L w e := by
  cases e with
  | sql s =>
      cases s with
      | insertEvent ip t d => exact h.elim
      | _ => trivial
  | orm s =>
      cases s with
      | insertEvent ip t d => exact h.elim
      | _ => trivial
  | _ => trivial

theorem calm_answer (drv : Driver) (net : Net) (fault : Option PyExc) {now : Int} {w : World}
    {e : Eff} (he : calm e)
    (hn : w.now ≤ now) :
    (answer drv net fault now w e).2.db.events = w.db.events ∧
    w.now ≤ (answer drv net fault now w e).2.now := by
  unfold Fleet.answer
  cases e with
  | connect =>
      cases fault with
      | none => exact ⟨rfl, hn⟩
      | some x => exact ⟨rfl, hn⟩
  | sql s =>
      cases w.txn with
      | closed => exact ⟨rfl, hn⟩
      | aborted => exact ⟨rfl, hn⟩
      | live pending =>
          cases fault with
          | some x => exact ⟨rfl, hn⟩
          | none =>
              simp only
              cases exec drv now (pending w.db) s with
              | error x => exact ⟨rfl, hn⟩
              | ok r => exact ⟨rfl, hn⟩
  | commit => exact he.elim
  | rollback =>
      cases w.txn with
      | closed => exact ⟨rfl, hn⟩
      | aborted =>
          cases fault with
          | none => exact ⟨rfl, hn⟩
          | some x => exact ⟨rfl, hn⟩
      | live pending =>
          cases fault with
          | none => exact ⟨rfl, hn⟩
          | some x => exact ⟨rfl, hn⟩
  | close => exact ⟨rfl, le_rfl⟩
  | orm s =>
      cases fault with
      | some x => exact ⟨rfl, hn⟩
      | none =>
          simp only
          cases hx : exec drv now w.db s with
          | error x => exact ⟨rfl, hn⟩
          | ok r =>
              obtain ⟨rows, db'⟩ := r
              exact ⟨exec_events (plain_ne he) hx, hn⟩
  | getModels ip => exact ⟨rfl, le_rfl⟩
  | completion ip m => exact ⟨rfl, le_rfl⟩
  | pve r => exact ⟨rfl, le_rfl⟩
  | restart ip => exact ⟨rfl, le_rfl⟩
  | sleep n => exact ⟨rfl, le_rfl⟩
  | auditFile ip t d b => exact ⟨rfl, le_rfl⟩

theorem Idle.live {drv : Driver} {w w' : World} {e : Eff} {a : Ans e} (h : Idle w)
    (hs : Live drv w e a w')
    (he : ∀ s, e = .sql s → plain s) : Idle w' := by
  obtain ⟨w₁, net, fault, now, ho, -, ha⟩ := hs
  have hstmt : ∀ s, e = .sql s → ∀ d, (effect drv now s d).events = d.events ++ [] :=
    fun s hs d => by
    rw [effect_events drv now (plain_ne (he s hs)), List.append_nil]
  have hi :=
    Pending.answer (fun d => (List.append_nil _).symm)
      (fun hab hbc => by rw [hbc, hab, List.append_nil])
    (h.outside ho) drv net fault now hstmt
  rw [ha] at hi
  exact hi

theorem room_live {drv : Driver} {w w' : World} {e : Eff} {a : Ans e} {ip t : String}
    (h : L.room w.db.events ip t w.now)
    (hs : Live drv w e a w') (he : calm e) : L.room w'.db.events ip t w'.now := by
  obtain ⟨w₁, net, fault, now, ho, hn, ha⟩ := hs
  obtain ⟨evs, hevs, hother⟩ := ho.events
  have hc := calm_answer drv net fault (w := w₁) he (ho.now ▸ hn)
  rw [ha] at hc
  rw [hc.1, hevs]
  exact L.later (L.beside h hother) (ho.now ▸ hc.2)

theorem closed_idle {drv : Driver} {w w' : World} {a : Ans .close} (hs : Live drv w .close a w') :
    Idle w' := by
  obtain ⟨w₁, net, fault, now, ho, -, ha⟩ := hs
  obtain ⟨-, rfl⟩ := Prod.mk.inj ha
  exact nofun

section Programs

variable {drv : Driver} {T : World → (e : Eff) → Ans e → World → Prop} {cutover : Bool} {α β : Type}

/-- A program that starts and ends with no event in an open transaction, whether it returns or
raises. -/
def Sound (L : Ledger) (T : World → (e : Eff) → Ans e → World → Prop) (p : Svc α) : Prop :=
  ∀ w, Idle w → Sat T (Written L) (fun w _ => Idle w) (fun w _ => Idle w) p w

theorem Sound.bind {p : Svc α} {f : α → Svc β} (h : Sound L T p) (hf : ∀ a, Sound L T (f a)) :
    Sound L T (p >>= f) :=
  fun w hw => (h w hw).seq fun w a hi => hf a w hi

theorem Sound.pure (a : α) : Sound L T (pure a : Svc α) := fun _ hw => hw

theorem Sound.of_only (hT : Within drv T) {p : Svc α} (h : Only still p) : Sound L T p :=
  fun _ hw =>
  (h.keeps (T := T) (fun _ _ _ _ he hi hs => hi.live (hT _ _ _ _ hs) (still_sql he)) hw).weaken
    fun w _ he => still_written he.1 w

theorem Sound.tryCatch {p : Svc α} {f : PyExc → Svc α} (h : Sound L T p)
    (hf : ∀ x, Sound L T (f x)) :
    Sound L T (tryCatch p f) :=
  fun w hw => (sat_tryCatch p f w).mpr ((h w hw).mono (fun _ _ hi => hi) fun w x hi => hf x w hi)

theorem closing_sat {Q : World → α → Prop} {X : World → PyExc → Prop} {p : Svc α} {w : World}
    (h : Sat T (Written L) (fun w a => ∀ w' u, T w .close u w' → Q w' a)
      (fun w x => ∀ w' u, T w .close u w' → X w' x) p w) : Sat T (Written L) Q X (closing p) w := by
  refine (sat_bind _ _ w).mpr ((sat_tryCatch _ _ w).mpr
    (h.mono (fun w a ha => ?_) fun w x hx => ?_))
  · exact ⟨trivial, fun u w' hs => ha w' u hs⟩
  · exact ⟨trivial, fun u w' hs => hx w' u hs⟩

theorem closing_idle (hT : Within drv T) {p : Svc α} {w : World}
    (h : Sat T (Written L) (fun _ _ => True) (fun _ _ => True) p w) :
    Sat T (Written L) (fun w _ => Idle w) (fun w _ => Idle w) (closing p) w :=
  closing_sat (h.mono (fun _ _ _ _ _ hs => closed_idle (hT _ _ _ _ hs)) fun _ _ _ _ _ hs =>
    closed_idle (hT _ _ _ _ hs))

theorem insertAudit_sat (hT : Within drv T) {ip t : String} (d : Json) {w : World} (hi : Idle w)
    (hroom : L.room w.db.events ip t w.now) :
    Sat T (Written L) (fun w _ => Idle w) (fun w _ => Idle w) (insertAudit cutover ip t d) w := by
  unfold insertAudit
  cases cutover with
  | true =>
      rw [if_pos rfl, sat_tryCatch]
      refine ⟨⟨hi, hroom⟩, fun a w₁ hs => ?_⟩
      have hi₁ : Idle w₁ := hi.live (hT _ _ _ _ hs) nofun
      cases a with
      | ok u => exact hi₁
      | error x => exact ⟨trivial, fun u w₂ hs => hi₁.live (hT _ _ _ _ hs) nofun⟩
  | false =>
      rw [if_neg Bool.false_ne_true, sat_bind]
      refine ⟨trivial, fun b w₁ hs => ?_⟩
      have hi₁ : Idle w₁ := hi.live (hT _ _ _ _ hs) nofun
      have hroom₁ : L.room w₁.db.events ip t w₁.now := room_live hroom (hT _ _ _ _ hs) trivial
      cases b with
      | false => exact hi₁
      | true =>
          refine closing_idle hT ((sat_tryCatch _ _ w₁).mpr
            ((sat_bind _ _ w₁).mpr ⟨⟨hi₁, hroom₁⟩, fun a w₂ _ => ?_⟩))
          cases a with
          | error x => exact ⟨trivial, fun a _ _ => by cases a <;> trivial⟩
          | ok u =>
              refine ⟨trivial, fun a w₃ _ => ?_⟩
              cases a with
              | error x => exact ⟨trivial, fun a _ _ => by cases a <;> trivial⟩
              | ok u => trivial

theorem audit_sat (hT : Within drv T) {ip t : String} (d : Json) {w : World} (hi : Idle w)
    (hroom : L.room w.db.events ip t w.now) :
    Sat T (Written L) (fun w _ => Idle w) (fun w _ => Idle w) (audit cutover ip t d) w :=
  ⟨trivial, fun _ _ hs => insertAudit_sat hT d (hi.live (hT _ _ _ _ hs) nofun)
    (room_live hroom (hT _ _ _ _ hs) trivial)⟩

theorem audit_sound (hT : Within drv T) {t : String} (ht : ¬ Attempt t) (ip : String) (d : Json) :
    Sound L T (audit cutover ip t d) :=
  fun _ hw => audit_sat hT d hw (L.free ht)

theorem counted {ip t : String} {m : Nat} {w w' : World} {n : Nat} (hi : Idle w)
    (hs : Live drv w (.sql (.countEvents ip t m)) (.ok n) w' ∨
    Live drv w (.orm (.countEvents ip t m)) (.ok n) w') :
    n = (attempts ip t w'.db.events).countP (fun x => w'.now - m * minute < x) := by
  rcases hs with ⟨w₁, net, fault, now, ho, -, ha⟩ | ⟨w₁, net, fault, now, ho, -, ha⟩
  · have hi₁ := hi.outside ho
    revert ha
    unfold Fleet.answer
    cases ht : w₁.txn with
    | closed => exact fun ha => by cases ha
    | aborted => exact fun ha => by cases ha
    | live pending =>
        cases fault with
        | some x => exact fun ha => by cases ha
        | none =>
            intro ha
            cases ha
            rw [recent_eq, hi₁ pending ht, List.append_nil]
  · revert ha
    unfold Fleet.answer
    cases fault with
    | some x => exact fun ha => by cases ha
    | none =>
        intro ha
        cases ha
        exact recent_eq _ _ _ _

/-- A count and what it shows: `R` holds of the number that a statement gives, and of 99. -/
theorem recentCount_sat (hT : Within drv T) {R : World → Nat → Prop} {ip t : String} {m : Nat}
    {w : World} (hi : Idle w)
    (hcount : ∀ w w' n, Idle w → (T w (.sql (.countEvents ip t m)) (.ok n) w' ∨
    T w (.orm (.countEvents ip t m)) (.ok n) w') →
      R w' n) (hclose : ∀ w w' n u, T w .close u w' → R w n → R w' n) (hnone : ∀ w, R w 99) :
    Sat T (Written L) (fun w n => Idle w ∧ R w n) (fun w _ => Idle w) (recentCount cutover ip t m)
      w := by
  unfold recentCount
  cases cutover with
  | true =>
      rw [if_pos rfl, sat_tryCatch]
      refine ⟨trivial, fun a w₁ hs => ?_⟩
      have hi₁ : Idle w₁ := hi.live (hT _ _ _ _ hs) nofun
      cases a with
      | error x => exact ⟨hi₁, hnone w₁⟩
      | ok n => exact ⟨hi₁, hcount w w₁ n hi (.inr hs)⟩
  | false =>
      rw [if_neg Bool.false_ne_true, sat_bind]
      refine ⟨trivial, fun b w₁ hs => ?_⟩
      have hi₁ : Idle w₁ := hi.live (hT _ _ _ _ hs) nofun
      cases b with
      | false => exact ⟨hi₁, hnone w₁⟩
      | true =>
          refine closing_sat ⟨trivial, fun a w₂ hs => ?_⟩
          cases a with
          | error x => exact fun w₃ u hs => closed_idle (hT _ _ _ _ hs)
          | ok n =>
              intro w₃ u hs'
              exact ⟨closed_idle (hT _ _ _ _ hs'),
                hclose w₂ w₃ n u hs' (hcount w₁ w₂ n hi₁ (.inl hs))⟩

theorem recount_sat (hT : Within drv T) {ip t : String} {w : World} (m : Nat) (hi : Idle w)
    (hroom : L.room w.db.events ip t w.now) :
    Sat T (Written L) (fun w _ => Idle w ∧ L.room w.db.events ip t w.now) (fun w _ => Idle w)
      (recentCount cutover ip t m) w := by
  have honly : Only calm (recentCount cutover ip t m) :=
    only_recentCount trivial trivial trivial trivial
  have hkeeps := honly.keeps (T := T) (I := fun w => Idle w ∧ L.room w.db.events ip t w.now)
    (fun w e a w' he hI hs => ⟨hI.1.live (hT _ _ _ _ hs) (still_sql he.still),
    room_live hI.2 (hT _ _ _ _ hs) he⟩) ⟨hi, hroom⟩
  exact (hkeeps.weaken fun w e he => still_written he.1.still w).mono (fun _ _ h => h) fun _ _ h =>
    h.1

theorem sound_rules (L : Ledger) (hT : Within drv T) (cutover : Bool) (ip : String) :
    Rules cutover ip (fun _ p => Sound L T p) where
  pure a := Sound.pure a
  bind hp hf := hp.bind hf
  polls h := .of_only hT (h.mono fun _ he => he.still)
  audit ht d := audit_sound hT ht ip d

theorem vmPower_sound (hT : Within drv T) (ip : String) (action : PowerAction) :
    Sound L T (vmPower ip action) := by
  have hraise : ∀ {α : Type} (x : Except PyExc α), Sound L T (orRaise x) :=
    fun x => .of_only hT (DesiredState.only_orRaise x)
  refine (hraise _).bind fun p => Sound.bind (fun w hw =>
    ⟨trivial, fun a w' hs => hw.live (hT _ _ _ _ hs) nofun⟩) fun a => ?_
  exact (hraise _).bind fun d => Sound.pure _

theorem recoverVmStart_sound (hT : Within drv T) {ip : String} (desired : String)
    (hcount : ∀ w, Idle w → Sat T (Written L)
    (fun w n => Idle w ∧ (n < 2 → L.room w.db.events ip vmStart w.now))
      (fun w _ => Idle w) (recentCount cutover ip vmStart 30) w) : Sound L T (recoverVmStart cutover ip desired) := by
  intro w hw
  refine (hcount w hw).seq fun w n hn => ?_
  split
  · exact audit_sound hT (by decide) ip _ w hn.1
  next hlt =>
    refine (recount_sat hT 30 hn.1 (hn.2 (Nat.lt_of_not_le hlt))).seq fun w k hk => ?_
    refine (audit_sat hT _ hk.1 hk.2).seq fun w u hi => ?_
    exact (vmPower_sound hT ip .start).bind (fun _ => (sound_rules L hT cutover ip).awaitVm 40) w hi

theorem restartService_sat (hT : Within drv T) {ip : String} {w : World} (hi : Idle w)
    (hroom : L.room w.db.events ip serviceRestart w.now) :
    Sat T (Written L) (fun w _ => Idle w) (fun w _ => Idle w) (restartService cutover ip) w := by
  refine (recount_sat hT 30 hi hroom).seq fun w k hk => ?_
  refine (audit_sat hT _ hk.1 hk.2).seq fun w u hi => ?_
  exact ⟨trivial, fun _ w' hs => (sound_rules L hT cutover ip).awaitService 60 w'
    (hi.live (hT _ _ _ _ hs) nofun)⟩

theorem ticks_sound (hT : Within drv T) (hstart : ∀ ip desired,
    Sound L T (recoverVmStart cutover ip desired))
    (hservice : ∀ ip, Sound L T (recoverService cutover ip)) (n : Nat) :
    Sound L T (ticks cutover n) :=
  Rules.ticks (sound_rules L hT cutover) (.of_only hT (still_sync cutover))
    (.of_only hT (only_readHosts trivial trivial trivial))
    (fun _ hp => hp.tryCatch fun _ => Sound.pure ()) hstart hservice n

theorem run_books (hT : Within drv T) (hstart : ∀ ip desired,
    Sound L T (recoverVmStart cutover ip desired))
    (hservice : ∀ ip, Sound L T (recoverService cutover ip)) {n : Nat} {w w' : World}
    {tr : Trace Eff Ans} {q : Svc Unit}
    {base new : List RecoveryEvent} (hw : w.txn = .closed) (hbase : w.db.events = base ++ new)
    (hnew : L.kept new)
    (hx : Exec T w (ticks cutover n) tr w' q) : ∃ new, w'.db.events = base ++ new ∧ L.kept new := by
  have hno : ∀ pending, w.txn ≠ .live pending := fun pending hp => by
    rw [hw] at hp
    cases hp
  have hidle : Idle w := fun pending hp => absurd hp (hno pending)
  have hbooks : Books L base w := ⟨⟨new, hbase, hnew⟩, fun pending hp => absurd hp (hno pending)⟩
  exact (books_run hT hx (ticks_sound hT hstart hservice n w hidle) hbooks).kept

end Programs

section Limits

variable {drv : Driver} {cutover : Bool}

theorem live_within (drv : Driver) : Within drv (Live drv) := fun _ _ _ _ h => h

theorem attempts_sat {ip t : String} (w : World) (hi : Idle w) :
    Sat (Live drv) (Written limits) (fun w n => Idle w ∧
      (n < 2 → limits.room w.db.events ip t w.now)) (fun w _ => Idle w)
      (recentCount cutover ip t 30) w := by
  apply recentCount_sat (live_within drv) hi
  · intro w w' n hi hs hn ha
    rw [counted hi hs] at hn
    exact ⟨w'.now, le_rfl, hn⟩
  · intro w w' n u hs hroom hn
    exact room_live (hroom hn) hs trivial
  · intro w hn
    exact absurd hn (by decide)

theorem recoverService_sound (ip : String) : Sound limits (Live drv)
    (recoverService cutover ip) := by
  intro w hw
  have hT := live_within drv
  refine (attempts_sat w hw).seq fun w n hn => ?_
  split
  · exact audit_sound hT (by decide) ip _ w hn.1
  next hlt =>
    refine (recount_sat hT 3 hn.1 (hn.2 (Nat.lt_of_not_le hlt))).seq fun w k hk => ?_
    split
    · refine (recount_sat hT 3 hk.1 hk.2).seq fun w m hm => ?_
      split
      · exact hm.1
      · exact restartService_sat hT hm.1 hm.2
    · exact restartService_sat hT hk.1 hk.2

theorem run_limits {n : Nat} {w w' : World} {tr : Trace Eff Ans} {q : Svc Unit}
    {base new : List RecoveryEvent}
    (hw : w.txn = .closed) (hbase : w.db.events = base ++ new) (hnew : Bounded new)
    (hx : Exec (Live drv) w (ticks cutover n) tr w' q) : ∃ new, w'.db.events = base ++ new ∧
    Bounded new :=
  run_books (L := limits) (live_within drv) (fun _ desired =>
    recoverVmStart_sound (live_within drv) desired attempts_sat)
    recoverService_sound hw hbase hnew hx

end Limits

end ServerManager.RecoveryBounds
