import ServerManager.EngineRules

namespace ServerManager.HostSlices

open Interaction PyJson FleetDb Fleet Registry
open Effects (PyExc)

def stmtAbout (h : HostRow) : Stmt → Bool
  | .hostFlags hid => hid == h.hostId
  | .upsertModel _ hid .. => hid == h.hostId
  | .markHost hid _ => hid == h.hostId
  | .insertEvent ip .. => ip == h.guestIp
  | .countEvents ip .. => ip == h.guestIp
  | _ => false

def vmOf : PveReq → String × Nat
  | .current node vmid => (node, vmid)
  | .power node vmid _ => (node, vmid)

def about (h : HostRow) : Eff → Bool
  | .sql s => stmtAbout h s
  | .orm s => stmtAbout h s
  | .getModels ip => ip == h.guestIp
  | .completion ip _ => ip == h.guestIp
  | .pve r =>
      match nodeOf h.guestIp with
      | .ok vm => vm == vmOf r
      | .error _ => false
  | .restart ip => ip == h.guestIp
  | .auditFile ip .. => ip == h.guestIp
  | _ => false

def own (h : HostRow) (past : Trace Eff Ans) : Trace Eff Ans := past.filter (fun ev => about h ev.1)

theorem about_unique {db : Db} {g h : HostRow} (hg : g ∈ db.hosts) (hh : h ∈ db.hosts) {e : Eff}
    (ag : about g e = true) (ah : about h e = true) : g = h := by
  have hid : g.hostId = h.hostId → g = h := fun he => List.inj_on_of_nodup_map db.hostKey hg hh he
  have hip : g.guestIp = h.guestIp → g = h := fun he => List.inj_on_of_nodup_map db.ipKey hg hh he
  have hstmt : ∀ s, stmtAbout g s = true → stmtAbout h s = true → g = h := by
    intro s hs hs'
    cases s with
    | hostFlags i => exact hid ((beq_iff_eq.mp hs).symm.trans (beq_iff_eq.mp hs'))
    | upsertModel n i => exact hid ((beq_iff_eq.mp hs).symm.trans (beq_iff_eq.mp hs'))
    | markHost i t => exact hid ((beq_iff_eq.mp hs).symm.trans (beq_iff_eq.mp hs'))
    | insertEvent i t d => exact hip ((beq_iff_eq.mp hs).symm.trans (beq_iff_eq.mp hs'))
    | countEvents i t m => exact hip ((beq_iff_eq.mp hs).symm.trans (beq_iff_eq.mp hs'))
    | _ => cases hs
  cases e with
  | sql s => exact hstmt s ag ah
  | orm s => exact hstmt s ag ah
  | getModels ip => exact hip ((beq_iff_eq.mp ag).symm.trans (beq_iff_eq.mp ah))
  | completion ip m => exact hip ((beq_iff_eq.mp ag).symm.trans (beq_iff_eq.mp ah))
  | restart ip => exact hip ((beq_iff_eq.mp ag).symm.trans (beq_iff_eq.mp ah))
  | auditFile ip t d b => exact hip ((beq_iff_eq.mp ag).symm.trans (beq_iff_eq.mp ah))
  | pve r =>
      have hvm : ∀ {k : HostRow}, about k (.pve r) = true → nodeOf k.guestIp = .ok (vmOf r) := by
        intro k hk
        unfold about at hk
        cases hn : nodeOf k.guestIp with
        | error x =>
            rw [hn] at hk
            cases hk
        | ok vm =>
            rw [hn] at hk
            rw [beq_iff_eq.mp hk]
      exact hip (nodeOf_inj (hvm ag) (hvm ah))
  | _ => cases ag

def rowsOf (h : HostRow) (models : List ModelRow) : List ModelRow :=
  models.filter (fun r => r.hostId == some h.hostId)

structure Slice (h : HostRow) (d d' : Db) : Prop where
  row : d.host h.hostId = d'.host h.hostId
  models : rowsOf h d.models = rowsOf h d'.models
  events : d.events.filter (fun ev => ev.ip == h.guestIp) =
    d'.events.filter (fun ev => ev.ip == h.guestIp)

theorem Slice.rfl {h : HostRow} {d : Db} : Slice h d d := ⟨Eq.refl _, Eq.refl _, Eq.refl _⟩

theorem Slice.trans {h : HostRow} {a b c : Db} (hab : Slice h a b) (hbc : Slice h b c) :
    Slice h a c :=
  ⟨hab.row.trans hbc.row, hab.models.trans hbc.models, hab.events.trans hbc.events⟩

theorem Slice.symm {h : HostRow} {a b : Db} (hab : Slice h a b) : Slice h b a :=
  ⟨hab.row.symm, hab.models.symm, hab.events.symm⟩

theorem mem_ids_iff (d : Db) (hid : Int) : hid ∈ d.hosts.map HostRow.hostId ↔
    (d.host hid).isSome := by
  simp [Db.host, List.find?_isSome]

theorem rowsOf_map {h : HostRow} {f : ModelRow → ModelRow} (hf : ∀ r, (f r).hostId = r.hostId)
    (models : List ModelRow) :
    rowsOf h (models.map f) = (rowsOf h models).map f := by
  unfold rowsOf
  rw [List.filter_map]
  congr 1
  refine List.filter_congr fun r _ => ?_
  simp only [Function.comp, hf]

theorem rowsOf_map_other {h : HostRow} {f : ModelRow → ModelRow} (hf : ∀ r, (f r).hostId = r.hostId)
    (hs : ∀ r, r.hostId = some h.hostId → f r = r) (models : List ModelRow) :
    rowsOf h (models.map f) = rowsOf h models := by
  rw [rowsOf_map hf]
  refine (List.map_congr_left fun r hr => ?_).trans (List.map_id _)
  exact hs r (beq_iff_eq.mp (List.mem_filter.mp hr).2)

theorem rowsOf_snoc {h : HostRow} {new : ModelRow} (models : List ModelRow) :
    rowsOf h (models ++ [new]) = rowsOf h models ++ if new.hostId = some h.hostId then [new]
      else [] := by
  unfold rowsOf
  rw [List.filter_append]
  congr 1
  by_cases hn : new.hostId = some h.hostId
  · simp [hn]
  · simp [hn]

theorem upsert_keeps (r new : ModelRow) (hid : Int) :
    (if r.at new.logicalModelName hid then r.refresh new else r).hostId = r.hostId := by
  split <;> rfl

theorem rowsOf_upsert {h : HostRow} {new : ModelRow} (hnew : new.hostId = some h.hostId)
    (models : List ModelRow) :
    rowsOf h (upsertRows models new h.hostId) = upsertRows (rowsOf h models) new h.hostId := by
  have hany : models.any (·.at new.logicalModelName h.hostId) =
      (rowsOf h models).any (·.at new.logicalModelName h.hostId) := by
    rw [Bool.eq_iff_iff, List.any_eq_true, List.any_eq_true]
    constructor
    · rintro ⟨r, hr, ha⟩
      exact ⟨r, List.mem_filter.mpr ⟨hr, beq_iff_eq.mpr (ModelRow.at_iff.mp ha).2⟩, ha⟩
    · rintro ⟨r, hr, ha⟩
      exact ⟨r, (List.mem_filter.mp hr).1, ha⟩
  unfold upsertRows
  rw [← hany]
  split
  · exact rowsOf_map (fun r => upsert_keeps r new _) models
  · rw [rowsOf_snoc, if_pos hnew]

theorem rowsOf_upsert_other {h : HostRow} {new : ModelRow} {hid : Int} (hne : hid ≠ h.hostId)
    (hnew : new.hostId = some hid)
    (models : List ModelRow) : rowsOf h (upsertRows models new hid) = rowsOf h models := by
  unfold upsertRows
  split
  · refine rowsOf_map_other (fun r => upsert_keeps r new hid) (fun r hr => ?_) models
    refine if_neg fun ha => hne ?_
    exact Option.some.inj ((ModelRow.at_iff.mp ha).2.symm.trans hr)
  · rw [rowsOf_snoc, if_neg (fun hn => hne (Option.some.inj (hnew.symm.trans hn))), List.append_nil]

theorem mark_keeps (r : ModelRow) (hid : Int) (health : String) :
    (if r.hostId == some hid then { r with health := some health, routable := some false }
    else r).hostId = r.hostId := by
  split <;> rfl

theorem rowsOf_mark {h : HostRow} (health : String) (models : List ModelRow) :
    rowsOf h (markRows models h.hostId health) = markRows (rowsOf h models) h.hostId health :=
  rowsOf_map (fun r => mark_keeps r _ health) models

theorem rowsOf_mark_other {h : HostRow} {hid : Int} (hne : hid ≠ h.hostId) (health : String)
    (models : List ModelRow) :
    rowsOf h (markRows models hid health) = rowsOf h models := by
  refine rowsOf_map_other (fun r => mark_keeps r hid health) (fun r hr => ?_) models
  refine if_neg fun hb => hne ?_
  exact Option.some.inj ((beq_iff_eq.mp hb).symm.trans hr)

theorem recent_eq {h : HostRow} {d d' : Db}
    (he : d.events.filter (fun ev => ev.ip == h.guestIp) =
    d'.events.filter (fun ev => ev.ip == h.guestIp)) (t : String)
    (since : Int) : d.recent h.guestIp t since = d'.recent h.guestIp t since := by
  have hown : ∀ c : Db, c.recent h.guestIp t since =
      (c.events.filter (fun ev => ev.ip == h.guestIp)).countP
        (fun ev => ev.eventType == t && decide (since < ev.createdAt)) := by
    intro c
    rw [List.countP_filter]
    refine List.countP_congr fun ev _ => ?_
    simp only [Bool.and_assoc, Bool.and_eq_true]
    tauto
  rw [hown, hown, he]

theorem events_insert (h : HostRow) (d : Db) (ev : RecoveryEvent) :
    (d.insertEvent ev).events.filter (fun ev => ev.ip == h.guestIp) =
      d.events.filter (fun ev => ev.ip == h.guestIp) ++ if ev.ip = h.guestIp then [ev] else [] := by
  change (d.events ++ [ev]).filter _ = _
  rw [List.filter_append]
  congr 1
  by_cases he : ev.ip = h.guestIp
  · simp [he]
  · simp [he]

/-- A statement about a host cannot serve two databases with one slice apart. -/
def Agree (h : HostRow) {s : Stmt} : Except PyExc (s.Rows × Db) → Except PyExc (s.Rows × Db) → Prop
  | .ok r, .ok r' => r.1 = r'.1 ∧ Slice h r.2 r'.2
  | .error x, .error x' => x = x'
  | _, _ => False

theorem exec_upsertModel (drv : Driver) (now : Int) (d : Db) (name limit : Json) (hid : Int)
    (engine url health : String)
    (routable : Bool) :
    (∃ n l, drv.text name = .ok n ∧ drv.int limit = .ok l ∧
    ∃ href : hid ∈ d.hosts.map HostRow.hostId,
      exec drv now d (.upsertModel name hid engine url limit health routable) =
        .ok ((), d.upsert (Db.modelFor n hid engine url l health routable) hid rfl href)) ∨
    ∃ x, (∀ d' : Db, ((d'.host hid).isSome = (d.host hid).isSome) →
      exec drv now d' (.upsertModel name hid engine url limit health routable) = .error x) := by
  simp only [exec, bind, Except.bind]
  cases drv.text name with
  | error x => exact .inr ⟨x, fun _ _ => rfl⟩
  | ok n => cases drv.int limit with
    | error x => exact .inr ⟨x, fun _ _ => rfl⟩
    | ok l =>
        by_cases href : hid ∈ d.hosts.map HostRow.hostId
        · left
          refine ⟨n, l, rfl, rfl, href, ?_⟩
          simp only [dif_pos href]
          rfl
        · right
          refine ⟨foreignKeyViolation hid, fun d' hd => ?_⟩
          have hno : hid ∉ d'.hosts.map HostRow.hostId := by
            rw [mem_ids_iff, hd, ← mem_ids_iff]
            exact href
          simp only [dif_neg hno]

theorem exec_own {h : HostRow} {s : Stmt} (hs : stmtAbout h s = true) (drv : Driver) (now : Int)
    {d d' : Db}
    (hd : Slice h d d') : Agree h (exec drv now d s) (exec drv now d' s) := by
  cases s with
  | hostFlags hid =>
      have hid' : hid = h.hostId := beq_iff_eq.mp hs
      subst hid'
      exact ⟨congrArg (Option.map _) hd.row, hd⟩
  | upsertModel name hid engine url limit health routable =>
      have hid' : hid = h.hostId := beq_iff_eq.mp hs
      subst hid'
      rcases exec_upsertModel drv now d name limit h.hostId engine url health routable with
        ⟨n, l, hn, hl, href, hx⟩ | ⟨x, hx⟩
      · rcases exec_upsertModel drv now d' name limit h.hostId engine url health routable with
          ⟨n', l', hn', hl', href', hx'⟩ | ⟨x', hx'⟩
        · rw [hx, hx']
          cases hn.symm.trans hn'
          cases hl.symm.trans hl'
          refine ⟨rfl, hd.row, ?_, hd.events⟩
          exact (rowsOf_upsert rfl _).trans ((congrArg (upsertRows · _ _) hd.models).trans
            (rowsOf_upsert rfl _).symm)
        · have hbad := hx' d (by rw [hd.row])
          rw [hx] at hbad
          cases hbad
      · rw [hx d rfl, hx d' (by rw [hd.row])]
        exact rfl
  | markHost hid health =>
      have hid' : hid = h.hostId := beq_iff_eq.mp hs
      subst hid'
      refine ⟨rfl, hd.row, ?_, hd.events⟩
      exact (rowsOf_mark _ _).trans ((congrArg (markRows · _ _) hd.models).trans
        (rowsOf_mark _ _).symm)
  | insertEvent ip t detail =>
      refine ⟨rfl, hd.row, hd.models, ?_⟩
      exact (events_insert h d _).trans ((congrArg (· ++ _) hd.events).trans
        (events_insert h d' _).symm)
  | countEvents ip t m =>
      have hip : ip = h.guestIp := beq_iff_eq.mp hs
      subst hip
      exact ⟨recent_eq hd.events t _, hd⟩
  | _ => cases hs

def aside (h : HostRow) : Stmt → Prop
  | .updateHost .. => False
  | .deleteAliases => False
  | s => stmtAbout h s = false

theorem exec_aside {h : HostRow} {s : Stmt} (hs : aside h s) {drv : Driver} {now : Int} {d : Db}
    {r : s.Rows × Db}
    (hx : exec drv now d s = .ok r) : Slice h d r.2 := by
  cases s with
  | updateHost ip c v => exact hs.elim
  | deleteAliases => exact hs.elim
  | upsertModel name hid engine url limit health routable =>
      have hne : hid ≠ h.hostId := by simpa [aside, stmtAbout] using hs
      rcases exec_upsertModel drv now d name limit hid engine url health routable with ⟨n, l, -, -,
        href, he⟩ | ⟨x, he⟩
      · rw [he] at hx
        cases hx
        exact ⟨rfl, (rowsOf_upsert_other hne rfl _).symm, rfl⟩
      · rw [he d rfl] at hx
        cases hx
  | markHost hid health =>
      have hne : hid ≠ h.hostId := by simpa [aside, stmtAbout] using hs
      cases hx
      exact ⟨rfl, (rowsOf_mark_other hne _ _).symm, rfl⟩
  | insertAlias name target health url routable =>
      cases hx
      refine ⟨rfl, ?_, rfl⟩
      change _ = rowsOf h (d.models ++ [_])
      rw [rowsOf_snoc, if_neg nofun, List.append_nil]
  | insertEvent ip t detail =>
      have hne : ip ≠ h.guestIp := by simpa [aside, stmtAbout] using hs
      cases hx
      refine ⟨rfl, rfl, ?_⟩
      rw [events_insert, if_neg hne, List.append_nil]
  | _ =>
      cases hx
      exact Slice.rfl

theorem exec_deleteAliases {h : HostRow} (drv : Driver) (now : Int) {d d' : Db}
    (hd : Slice h d d') :
    Agree h (exec drv now d .deleteAliases) (exec drv now d' .deleteAliases) := by
  refine ⟨rfl, hd.row, ?_, hd.events⟩
  have hcomm : ∀ c : Db, rowsOf h (c.models.filter (fun r => r.isAlias != some true)) =
      (rowsOf h c.models).filter (fun r => r.isAlias != some true) :=
        fun c => List.filter_comm _ _ _
  exact (hcomm d).trans ((congrArg (List.filter _) hd.models).trans (hcomm d').symm)

/-- The answers to the next call about a host, the error that ends it when it is
a statement, and its time. -/
structure Outcome where
  models : Except PyExc (Nat × Except PyExc Json)
  completion : Except PyExc Nat
  pve : Option Json
  fault : Option PyExc
  now : Int

abbrev Oracle := String → Trace Eff Ans → Outcome

abbrev State := World × Trace Eff Ans

def Outcome.net (o : Outcome) : Net where
  models _ := o.models
  completion _ _ := o.completion
  pve _ := o.pve

def quiet (now : Int) : Outcome where
  models := .ok (200, .ok .null)
  completion := .ok 200
  pve := none
  fault := none
  now := now

def ownerOf (hosts : List HostRow) (e : Eff) : Option HostRow := hosts.find? (about · e)

def outcome (oracle : Oracle) (hosts : List HostRow) (s : State) (e : Eff) : Outcome :=
  match ownerOf hosts e with
  | some h => oracle h.guestIp (own h s.2)
  | none => quiet s.1.now

def serve (drv : Driver) (oracle : Oracle) (hosts : List HostRow) (s : State) (e : Eff) :
    Ans e × State :=
  let o := outcome oracle hosts s e
  let r := answer drv o.net o.fault o.now s.1 e
  (r.1, (r.2, s.2 ++ [⟨e, r.1⟩]))

theorem ownerOf_eq {db : Db} {h : HostRow} (hh : h ∈ db.hosts) {e : Eff} (he : about h e = true) :
    ownerOf db.hosts e = some h := by
  cases ho : ownerOf db.hosts e with
  | none => exact absurd he (List.find?_eq_none.mp ho h hh)
  | some g =>
      have hg : about g e = true := List.find?_some (p := (about · e)) ho
      rw [about_unique (List.mem_of_find?_eq_some ho) hh hg he]

inductive Alike (h : HostRow) : Txn → Txn → Prop
  | closed : Alike h .closed .closed
  | aborted : Alike h .aborted .aborted
  | live {p p' : Db → Db} : (∀ d d', Slice h d d' → Slice h (p d) (p' d')) →
      Alike h (.live p) (.live p')

structure Same (h : HostRow) (s t : State) : Prop where
  own : own h s.2 = own h t.2
  db : Slice h s.1.db t.1.db
  txn : Alike h s.1.txn t.1.txn

theorem Alike.symm {h : HostRow} {x y : Txn} (hxy : Alike h x y) : Alike h y x := by
  cases hxy with
  | closed => exact .closed
  | aborted => exact .aborted
  | live hp => exact .live fun d d' hd => (hp d' d hd.symm).symm

theorem Alike.trans {h : HostRow} {x y z : Txn} (hxy : Alike h x y) (hyz : Alike h y z) :
    Alike h x z := by
  cases hxy with
  | closed => exact hyz
  | aborted => exact hyz
  | live hp =>
      cases hyz with
      | live hq => exact .live fun d d' hd => (hp d d' hd).trans (hq d' d' Slice.rfl)

theorem Same.symm {h : HostRow} {s t : State} (hst : Same h s t) : Same h t s :=
  ⟨hst.own.symm, hst.db.symm, hst.txn.symm⟩

theorem effect_agree {h : HostRow} {s : Stmt} {drv : Driver} {now now' : Int}
    (hs : ∀ d d', Slice h d d' → Agree h (exec drv now d s) (exec drv now' d' s)) {d d' : Db}
    (hd : Slice h d d') :
    Slice h (effect drv now s d) (effect drv now' s d') := by
  have ha := hs d d' hd
  unfold Fleet.effect
  revert ha
  rcases exec drv now d s with x | r
  · rcases exec drv now' d' s with x' | r'
    · exact fun _ => hd
    · exact False.elim
  · rcases exec drv now' d' s with x' | r'
    · exact False.elim
    · exact fun ha => ha.2

theorem answer_same {h : HostRow} {drv : Driver} {net : Net} {fault : Option PyExc} {now now' : Int}
    {w w' : World} {e : Eff}
    (hs : ∀ s, e = .sql s ∨ e = .orm s → ∀ d d', Slice h d d' →
    Agree h (exec drv now d s) (exec drv now' d' s))
    (hd : Slice h w.db w'.db) (ht : Alike h w.txn w'.txn) :
    (answer drv net fault now w e).1 = (answer drv net fault now' w' e).1 ∧
      Slice h (answer drv net fault now w e).2.db (answer drv net fault now' w' e).2.db ∧
        Alike h (answer drv net fault now w e).2.txn (answer drv net fault now' w' e).2.txn := by
  have hid : Alike h (.live id) (.live id) := .live fun _ _ hd => hd
  cases w with
  | mk db txn ops t =>
  cases w' with
  | mk db' txn' ops' t' =>
  simp only at hd ht
  unfold Fleet.answer
  cases e with
  | connect => cases fault with
    | none => exact ⟨rfl, hd, hid⟩
    | some x => exact ⟨rfl, hd, ht⟩
  | sql s =>
      have hs' := hs s (.inl rfl)
      cases ht with
      | closed => exact ⟨rfl, hd, .closed⟩
      | aborted => exact ⟨rfl, hd, .aborted⟩
      | @live p p' hp =>
          cases fault with
          | some x => exact ⟨rfl, hd, .aborted⟩
          | none =>
              have ha := hs' (p db) (p' db') (hp db db' hd)
              simp only
              revert ha
              rcases exec drv now (p db) s with x | r
              · rcases exec drv now' (p' db') s with x' | r'
                · intro ha
                  cases ha
                  exact ⟨rfl, hd, .aborted⟩
                · exact False.elim
              · rcases exec drv now' (p' db') s with x' | r'
                · exact False.elim
                · intro ha
                  refine ⟨congrArg Except.ok ha.1, hd, .live fun d d' hdd => ?_⟩
                  exact effect_agree hs' (hp d d' hdd)
  | commit =>
      cases ht with
      | closed => exact ⟨rfl, hd, .closed⟩
      | aborted => cases fault with
        | none => exact ⟨rfl, hd, hid⟩
        | some x => exact ⟨rfl, hd, .aborted⟩
      | @live p p' hp => cases fault with
        | none => exact ⟨rfl, hp _ _ hd, hid⟩
        | some x => exact ⟨rfl, hd, .aborted⟩
  | rollback =>
      cases ht with
      | closed => exact ⟨rfl, hd, .closed⟩
      | aborted => cases fault with
        | none => exact ⟨rfl, hd, hid⟩
        | some x => exact ⟨rfl, hd, .aborted⟩
      | live hp => cases fault with
        | none => exact ⟨rfl, hd, hid⟩
        | some x => exact ⟨rfl, hd, .aborted⟩
  | close => exact ⟨rfl, hd, .closed⟩
  | orm s =>
      cases fault with
      | some x => exact ⟨rfl, hd, ht⟩
      | none =>
          have ha := hs s (.inr rfl) db db' hd
          simp only
          revert ha
          rcases exec drv now db s with x | r
          · rcases exec drv now' db' s with x' | r'
            · intro ha
              cases ha
              exact ⟨rfl, hd, ht⟩
            · exact False.elim
          · rcases exec drv now' db' s with x' | r'
            · exact False.elim
            · intro ha
              exact ⟨congrArg Except.ok ha.1, ha.2, ht⟩
  | getModels ip => exact ⟨rfl, hd, ht⟩
  | completion ip m => exact ⟨rfl, hd, ht⟩
  | pve r => exact ⟨rfl, hd, ht⟩
  | restart ip => exact ⟨rfl, hd, ht⟩
  | sleep n => exact ⟨rfl, hd, ht⟩
  | auditFile ip t d b => exact ⟨rfl, hd, ht⟩

def link : Eff → Prop
  | .connect => True
  | .commit => True
  | .rollback => True
  | .close => True
  | .sleep _ => True
  | _ => False

theorem link_owner {e : Eff} (he : link e) (hosts : List HostRow) : ownerOf hosts e = none := by
  refine List.find?_eq_none.mpr fun h _ => ?_
  cases e with
  | sql s => exact he.elim
  | orm s => exact he.elim
  | getModels ip => exact he.elim
  | completion ip m => exact he.elim
  | pve r => exact he.elim
  | restart ip => exact he.elim
  | auditFile ip t d b => exact he.elim
  | _ => nofun

theorem own_snoc (h : HostRow) (past : Trace Eff Ans) (ev : Event Eff Ans) :
    own h (past ++ [ev]) = own h past ++ if about h ev.1 then [ev] else [] := by
  unfold own
  rw [List.filter_append]
  congr 1
  by_cases he : about h ev.1 = true
  · simp [he]
  · simp [he]

theorem tell_of_answer {h : HostRow} {drv : Driver} {oracle : Oracle} {db db' : Db} {s t : State}
    {e : Eff}
    (hnet : (outcome oracle db.hosts s e).net = (outcome oracle db'.hosts t e).net)
    (hfault : (outcome oracle db.hosts s e).fault = (outcome oracle db'.hosts t e).fault)
    (hs : ∀ st, e = .sql st ∨ e = .orm st → ∀ d d', Slice h d d' →
      Agree h (exec drv (outcome oracle db.hosts s e).now d st) (exec drv (outcome oracle db'.hosts t e).now d' st))
    (hst : Same h s t) :
    (serve drv oracle db.hosts s e).1 = (serve drv oracle db'.hosts t e).1 ∧
      Same h (serve drv oracle db.hosts s e).2 (serve drv oracle db'.hosts t e).2 := by
  unfold serve
  have ha :=
    @answer_same h drv (outcome oracle db'.hosts t e).net (outcome oracle db'.hosts t e).fault _ _ _
      _ e hs hst.db hst.txn
  simp only [hnet, hfault]
  obtain ⟨ha, hd, ht⟩ := ha
  refine ⟨ha, ?_, hd, ht⟩
  simp only [own_snoc, ha, hst.own]

theorem tell_same {h : HostRow} {drv : Driver} {oracle : Oracle} {db db' : Db} (hh : h ∈ db.hosts)
    (hh' : h ∈ db'.hosts)
    {s t : State} {e : Eff} (he : about h e = true ∨ link e) (hst : Same h s t) :
    (serve drv oracle db.hosts s e).1 = (serve drv oracle db'.hosts t e).1 ∧
      Same h (serve drv oracle db.hosts s e).2 (serve drv oracle db'.hosts t e).2 := by
  rcases he with he | he
  · have ho : outcome oracle db.hosts s e = outcome oracle db'.hosts t e := by
      unfold outcome
      rw [ownerOf_eq hh he, ownerOf_eq hh' he]
      exact congrArg (oracle h.guestIp) hst.own
    refine tell_of_answer (by rw [ho]) (by rw [ho]) (fun st hs d d' hd => ?_) hst
    rw [ho]
    rcases hs with rfl | rfl
    · exact exec_own he drv _ hd
    · exact exec_own he drv _ hd
  · have ho : ∀ (hosts : List HostRow) (s : State), outcome oracle hosts s e = quiet s.1.now :=
      fun hosts s => by
      unfold outcome
      rw [link_owner he hosts]
    refine tell_of_answer (by rw [ho, ho]; rfl) (by rw [ho, ho]; rfl) (fun st hs => ?_) hst
    rcases hs with rfl | rfl
    · exact he.elim
    · exact he.elim

def beside (h : HostRow) : Eff → Prop
  | .sql s => aside h s
  | .orm s => aside h s
  | e => about h e = false

theorem beside.about {h : HostRow} {e : Eff} (he : beside h e) : about h e = false := by
  have hstmt : ∀ s, aside h s → stmtAbout h s = false := fun s hs => by
    cases s with
    | updateHost ip c v => rfl
    | deleteAliases => rfl
    | _ => exact hs
  cases e with
  | sql s => exact hstmt s he
  | orm s => exact hstmt s he
  | _ => exact he

theorem effect_aside {h : HostRow} {s : Stmt} (hs : aside h s) (drv : Driver) (now : Int) (d : Db) :
    Slice h d (effect drv now s d) := by
  unfold Fleet.effect
  split
  next r hr => exact exec_aside hs hr
  · exact Slice.rfl

theorem own_beside {h : HostRow} {e : Eff} (he : beside h e) (drv : Driver) (oracle : Oracle)
    (hosts : List HostRow) (s : State) :
    own h (serve drv oracle hosts s e).2.2 = own h s.2 := by
  unfold serve
  rw [own_snoc, he.about]
  exact List.append_nil _

structure Kept (h : HostRow) (s₀ s : State) : Prop where
  own : own h s.2 = own h s₀.2
  db : Slice h s₀.1.db s.1.db
  txn : Pending (Slice h) s.1

theorem Kept.serve {h : HostRow} {s₀ s : State} {e : Eff} (hk : Kept h s₀ s) (he : beside h e)
    (drv : Driver) (oracle : Oracle)
    (hosts : List HostRow) : Kept h s₀ (serve drv oracle hosts s e).2 := by
  refine ⟨(own_beside he drv oracle hosts s).trans hk.own, ?_, ?_⟩
  · refine hk.txn.committed (R := Slice h) Slice.trans hk.db drv _ _ _ fun st hs d => ?_
    rw [hs] at he
    exact effect_aside he drv _ d
  · refine hk.txn.answer (R := Slice h) (fun _ => Slice.rfl) Slice.trans drv _ _ _ fun st hs d => ?_
    rw [hs] at he
    exact effect_aside he drv _ d

def sends (h : HostRow) : Eff → Prop
  | .sql s => aside h s
  | .orm s => aside h s
  | .getModels ip => (ip == h.guestIp) = false
  | .completion ip _ => (ip == h.guestIp) = false
  | _ => False

theorem sends.beside {h : HostRow} {e : Eff} (he : sends h e) : beside h e := by
  cases e with
  | sql s => exact he
  | orm s => exact he
  | getModels ip => exact he
  | completion ip m => exact he
  | _ => exact he.elim

structure Near (h : HostRow) (s t : State) : Prop where
  own : own h s.2 = own h t.2
  db : Slice h s.1.db t.1.db
  txn : t.1.txn = .aborted ∨ Alike h s.1.txn t.1.txn

theorem Alike.after {h : HostRow} {x : Txn} {p q : Db → Db} (hx : Alike h x (.live p))
    (hq : ∀ d, Slice h (p d) (q d)) :
    Alike h x (.live q) := by
  cases hx with
  | live hp => exact .live fun d d' hd => (hp d d' hd).trans (hq d')

theorem answer_near {h : HostRow} {w₀ w : World} {e : Eff} (he : sends h e)
    (hd : Slice h w₀.db w.db)
    (ht : w.txn = .aborted ∨ Alike h w₀.txn w.txn) (drv : Driver) (net : Net) (fault : Option PyExc)
    (now : Int) :
    Slice h w₀.db (answer drv net fault now w e).2.db ∧
      ((answer drv net fault now w e).2.txn = .aborted ∨
        Alike h w₀.txn (answer drv net fault now w e).2.txn) := by
  cases w with
  | mk db txn ops t =>
  simp only at hd ht
  unfold Fleet.answer
  cases e with
  | sql s => cases txn with
    | closed => exact ⟨hd, ht⟩
    | aborted => exact ⟨hd, .inl rfl⟩
    | live p => cases fault with
      | some x => exact ⟨hd, .inl rfl⟩
      | none =>
          simp only
          cases exec drv now (p db) s with
          | error x => exact ⟨hd, .inl rfl⟩
          | ok r =>
              exact ⟨hd, .inr ((ht.resolve_left nofun).after fun d => effect_aside he drv _ (p d))⟩
  | orm s => cases fault with
    | some x => exact ⟨hd, ht⟩
    | none =>
        simp only
        cases hx : exec drv now db s with
        | error x => exact ⟨hd, ht⟩
        | ok r => exact ⟨hd.trans (exec_aside he hx), ht⟩
  | getModels ip => exact ⟨hd, ht⟩
  | completion ip m => exact ⟨hd, ht⟩
  | _ => exact he.elim

theorem Near.serve {h : HostRow} {s t : State} {e : Eff} (hn : Near h s t) (he : sends h e)
    (drv : Driver) (oracle : Oracle)
    (hosts : List HostRow) : Near h s (serve drv oracle hosts t e).2 := by
  obtain ⟨hd, ht⟩ :=
    answer_near he hn.db hn.txn drv (outcome oracle hosts t e).net (outcome oracle hosts t e).fault
    (outcome oracle hosts t e).now
  exact ⟨hn.own.trans (own_beside he.beside drv oracle hosts t).symm, hd, ht⟩

end ServerManager.HostSlices
