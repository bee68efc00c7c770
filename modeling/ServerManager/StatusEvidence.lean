import ServerManager.EngineRules
import ServerManager.Outcomes

namespace ServerManager.StatusEvidence

open Interaction Outcomes PyJson FleetDb Fleet Registry RecoveryEngine EngineRules
open Effects (PyExc)

abbrev EffTrace := Trace Eff Ans

def Tells (a : Option Json) (status : String) : Prop :=
  ∃ fs ds, a = some (.obj fs) ∧ Dict.get? fs "data" = some (.obj ds) ∧
    Dict.get? ds "status" = some (.str status)

/-- Something with which `vm_status` raises. -/
def Malformed (a : Option Json) : Prop :=
  (∃ v, a = some v ∧ v.truthy = true ∧ ∀ fs, v ≠ .obj fs) ∨
    ∃ fs v, a = some (.obj fs) ∧ Dict.get? fs "data" = some v ∧ v.truthy = true ∧ ∀ ds, v ≠ .obj ds

/-- The power state is another one than `running`. -/
def Down (a : Option Json) : Prop := ∃ status, Tells a status ∧ status ≠ "running"

def statusAnswer (node : String) (vmid : Nat) : Event Eff Ans → Option (Option Json)
  | ⟨.pve (.current n i), a⟩ => if n = node ∧ i = vmid then some a else none
  | _ => none

def lastStatus (node : String) (vmid : Nat) (tr : EffTrace) : Option (Option Json) :=
  (tr.filterMap (statusAnswer node vmid)).getLast?

/-- The events of an outage and of an attempt to recover from it. -/
def Blames (eventType : String) : Prop := eventType = "outage_detected" ∨ eventType = vmStart

instance (eventType : String) : Decidable (Blames eventType) := inferInstanceAs (Decidable (_ ∨ _))

def SeenDown (before : EffTrace) (node : String) (vmid : Nat) : Prop :=
  ∃ a, lastStatus node vmid before = some a ∧ Down a

def HostDown (before : EffTrace) (ip : String) : Prop :=
  ∃ node vmid, nodeOf ip = .ok (node, vmid) ∧ SeenDown before node vmid

/-- A start, an outage or an attempt has the VM seen down. -/
def Backed (before : EffTrace) : Eff → Prop
  | .pve (.power node vmid .start) => SeenDown before node vmid
  | .auditFile ip t _ _ => Blames t → HostDown before ip
  | .sql (.insertEvent ip t _) => Blames t → HostDown before ip
  | .orm (.insertEvent ip t _) => Blames t → HostDown before ip
  | _ => True

def EvidencedAfter (seen tr : EffTrace) : Prop :=
  ∀ before ev after, tr = before ++ ev :: after → Backed (seen ++ before) ev.1

def Evidenced (tr : EffTrace) : Prop := EvidencedAfter [] tr

def isWait : Event Eff Ans → Bool
  | ⟨.sleep _, _⟩ => true
  | _ => false

/-- The answers with which the tick looks at its hosts: those that no wait
precedes. After a wait a recovery polls the VM. -/
def looksFrom : Bool → EffTrace → List (Option Json)
  | _, [] => []
  | waited, ⟨.pve (.current _ _), a⟩ :: tr =>
      if waited then looksFrom false tr else a :: looksFrom false tr
  | _, ev :: tr => looksFrom (isWait ev) tr

def looks (tr : EffTrace) : List (Option Json) := looksFrom false tr

def rowsAnswer : Event Eff Ans → List HostRow
  | ⟨.sql .tickHosts, .ok rows⟩ => rows
  | _ => []

def rowsRead (tr : EffTrace) : List HostRow := tr.flatMap rowsAnswer

/-- What `vm_status` reads in the answer. -/
def pveStatus (a : Option Json) : Except PyExc Json := do
  let data ← dictGet ((a.getD .null).orElse (.obj [])) "data"
  dictGet (data.orElse (.obj [])) "status"

theorem get?_truthy {fs : Dict} {key : String} {v : Json} (h : Dict.get? fs key = some v) :
    (Json.obj fs).truthy = true := by
  cases fs with
  | nil => cases h
  | cons p fs => rfl

/-- `(v or {}).get(key)`. -/
theorem dictGet_cases (v : Json) (key : String) :
    (v.truthy = false ∧ dictGet (v.orElse (.obj [])) key = .ok .null) ∨
      (∃ fs, v = .obj fs ∧ v.truthy = true ∧ dictGet (v.orElse (.obj [])) key =
        .ok ((Dict.get? fs key).getD .null)) ∨
        v.truthy = true ∧ (∀ fs, v ≠ .obj fs) ∧ ∃ x,
          dictGet (v.orElse (.obj [])) key = .error x := by
  cases ht : v.truthy with
  | false => exact .inl ⟨rfl, by simp [Json.orElse, ht, dictGet, Dict.get?]⟩
  | true =>
      have he : v.orElse (.obj []) = v := if_pos ht
      rw [he]
      cases v with
      | obj fs => exact .inr (.inl ⟨fs, rfl, rfl, rfl⟩)
      | null | bool _ | int _ | float _ | str _ | arr _ =>
          exact .inr (.inr ⟨rfl, fun _ h => Json.noConfusion h, _, rfl⟩)

theorem pveStatus_tells {a : Option Json} {status : String} (h : Tells a status) :
    pveStatus a = .ok (.str status) := by
  obtain ⟨fs, ds, rfl, hdata, hstatus⟩ := h
  unfold pveStatus
  simp only [Option.getD_some, Json.orElse, get?_truthy hdata, if_true, dictGet, hdata]
  simp only [bind, Except.bind, get?_truthy hstatus, if_true, hstatus, Option.getD_some]

/-- What is read in the `data` of an answer that is an object. -/
theorem data_cases (fs : Dict) :
    (∃ x, dictGet (((Dict.get? fs "data").getD .null).orElse (.obj [])) "status" = .error x ∧
    Malformed (some (.obj fs))) ∨
      (∃ status, dictGet (((Dict.get? fs "data").getD .null).orElse (.obj [])) "status" =
        .ok (.str status) ∧
        Tells (some (.obj fs)) status) ∨
      ∃ v, dictGet (((Dict.get? fs "data").getD .null).orElse (.obj [])) "status" = .ok v ∧
        (∀ status, v ≠ .str status) ∧
        ¬ Malformed (some (.obj fs)) := by
  have hdata : ∀ {v}, Dict.get? fs "data" = some v → (Dict.get? fs "data").getD .null = v :=
    fun h => by rw [h]; rfl
  rcases dictGet_cases ((Dict.get? fs "data").getD .null) "status" with ⟨ht, hd⟩ | ⟨ds, hobj, ht,
    hd⟩ | ⟨ht, hno, x, hd⟩
  · rw [hd]
    refine .inr (.inr ⟨.null, rfl, fun _ h => Json.noConfusion h, ?_⟩)
    rintro (⟨v, hv, -, hno⟩ | ⟨fs', v, hfs, hv, htrue, -⟩)
    · exact hno fs (Option.some.inj hv).symm
    · cases hfs
      rw [hdata hv] at ht
      exact Bool.noConfusion (ht.symm.trans htrue)
  · have hget : Dict.get? fs "data" = some (.obj ds) := by
      cases hg : Dict.get? fs "data" with
      | none =>
          rw [hg] at hobj
          cases hobj
      | some v =>
          rw [hg] at hobj
          exact congrArg some hobj
    have hgood : ¬ Malformed (some (.obj fs)) := by
      rintro (⟨v, hv, -, hno⟩ | ⟨fs', v, hfs, hv, -, hno⟩)
      · exact hno fs (Option.some.inj hv).symm
      · cases hfs
        rw [hget] at hv
        exact hno ds (Option.some.inj hv).symm
    rw [hd]
    cases hs : Dict.get? ds "status" with
    | none => exact .inr (.inr ⟨.null, rfl, fun _ h => Json.noConfusion h, hgood⟩)
    | some v =>
        cases v with
        | str status => exact .inr (.inl ⟨status, rfl, fs, ds, rfl, hget, hs⟩)
        | null | bool _ | int _ | float _ | obj _ | arr _ =>
            exact .inr (.inr ⟨_, rfl, fun _ h => Json.noConfusion h, hgood⟩)
  · rw [hd]
    refine .inl ⟨x, rfl, .inr ?_⟩
    cases hg : Dict.get? fs "data" with
    | none =>
        rw [hg] at ht
        cases ht
    | some v =>
        rw [hdata hg] at ht hno
        exact ⟨fs, v, rfl, hg, ht, hno⟩

theorem pveStatus_cases (a : Option Json) :
    (∃ x, pveStatus a = .error x ∧ Malformed a) ∨
    (∃ status, pveStatus a = .ok (.str status) ∧ Tells a status) ∨
      ∃ v, pveStatus a = .ok v ∧ (∀ status, v ≠ .str status) ∧ ¬ Malformed a := by
  unfold pveStatus
  rcases dictGet_cases (a.getD .null) "data" with ⟨ht, hd⟩ | ⟨fs, ha, ht, hd⟩ | ⟨ht, hno, x, hd⟩
  · rw [hd]
    refine .inr (.inr ⟨.null, rfl, fun _ h => Json.noConfusion h, ?_⟩)
    rintro (⟨v, rfl, hv, -⟩ | ⟨fs, v, rfl, hv, -⟩)
    · exact Bool.noConfusion (ht.symm.trans hv)
    · exact Bool.noConfusion (ht.symm.trans (get?_truthy hv))
  · have hsome : a = some (.obj fs) := by
      cases a with
      | none => cases ha
      | some v => exact congrArg some ha
    subst hsome
    rw [hd]
    exact data_cases fs
  · rw [hd]
    refine .inl ⟨x, rfl, .inl ?_⟩
    cases a with
    | none => cases ht
    | some v => exact ⟨v, rfl, ht, hno⟩

theorem down_iff {a : Option Json} {v : Json} (h : pveStatus a = .ok v)
    (hv : v.isStr "running" = false) :
    Down a ↔ (∃ status, Tells a status) ∨ Malformed a := by
  constructor
  · rintro ⟨status, hs, -⟩
    exact .inl ⟨status, hs⟩
  · rintro (⟨status, hs⟩ | hm)
    · have heq := (pveStatus_tells hs).symm.trans h
      cases heq
      exact ⟨status, hs, by simpa [Json.isStr] using hv⟩
    · rcases pveStatus_cases a with ⟨x, hx, -⟩ | ⟨status, hs, ht⟩ | ⟨w, -, -, hno⟩
      · rw [hx] at h
        cases h
      · rw [hs] at h
        cases h
        exact ⟨status, ht, by simpa [Json.isStr] using hv⟩
      · exact absurd hm hno

/-- A status that is read as `running` is told, and one that cannot be read is malformed. -/
theorem readable_of_running {a : Option Json}
    (h : ∀ v, pveStatus a = .ok v → v.isStr "running" = true) :
    (∃ status, Tells a status) ∨ Malformed a := by
  rcases pveStatus_cases a with ⟨x, -, hm⟩ | ⟨status, -, ht⟩ | ⟨v, hv, hno, -⟩
  · exact .inr hm
  · exact .inl ⟨status, ht⟩
  · have hrun := h v hv
    cases v with
    | str status => exact absurd rfl (hno status)
    | null | bool _ | int _ | float _ | obj _ | arr _ => cases hrun

def waitsFrom : Bool → EffTrace → Bool
  | waited, [] => waited
  | _, ev :: tr => waitsFrom (isWait ev) tr

theorem waitsFrom_append (w : Bool) (a b : EffTrace) :
    waitsFrom w (a ++ b) = waitsFrom (waitsFrom w a) b := by
  induction a generalizing w with
  | nil => rfl
  | cons ev a ih => exact ih _

theorem looksFrom_append (w : Bool) (a b : EffTrace) :
    looksFrom w (a ++ b) = looksFrom w a ++ looksFrom (waitsFrom w a) b := by
  induction a generalizing w with
  | nil => rfl
  | cons ev a ih =>
      obtain ⟨e, x⟩ := ev
      cases e with
      | pve r =>
          cases r with
          | current node vmid =>
              cases w with
              | true => exact ih false
              | false => exact congrArg (x :: ·) (ih false)
          | power node vmid action => exact ih _
      | _ => exact ih _

/-- Calls that look at no host, start none and blame none, apart from polls after a wait. -/
def harmless : Eff → Prop
  | .pve (.power _ _ .start) => False
  | .auditFile _ t _ _ => ¬ Blames t
  | .sql .tickHosts => False
  | .sql (.insertEvent _ t _) => ¬ Blames t
  | .orm (.insertEvent _ t _) => ¬ Blames t
  | _ => True

structure Idle (tr : EffTrace) : Prop where
  looks : looks tr = []
  waits : waitsFrom false tr = false
  harmless : ∀ ev ∈ tr, harmless ev.1

theorem idle_joins : Joins Idle where
  nil := ⟨rfl, rfl, fun _ h => absurd h List.not_mem_nil⟩
  append {a b} ha hb := by
    constructor
    · rw [looks, looksFrom_append, ha.waits, ← looks, ← looks, ha.looks, hb.looks, List.append_nil]
    · rw [waitsFrom_append, ha.waits, hb.waits]
    · intro ev hev
      rcases List.mem_append.mp hev with h | h
      · exact ha.harmless ev h
      · exact hb.harmless ev h

def blind : Eff → Prop
  | .pve (.current ..) => False
  | .sleep _ => False
  | _ => True

theorem blind_looks {tr : EffTrace} (h : ∀ ev ∈ tr, blind ev.1) (w : Bool) :
    looksFrom w tr = [] := by
  induction tr generalizing w with
  | nil => rfl
  | cons ev tr ih =>
      obtain ⟨e, x⟩ := ev
      have htail := ih fun ev hev => h ev (List.mem_cons_of_mem _ hev)
      have hhead := h _ List.mem_cons_self
      cases e with
      | pve r => cases r with
        | current node vmid => exact hhead.elim
        | power node vmid action => exact htail _
      | _ => exact htail _

theorem blind_waits {tr : EffTrace} (h : ∀ ev ∈ tr, blind ev.1) : waitsFrom false tr = false := by
  induction tr with
  | nil => rfl
  | cons ev tr ih =>
      obtain ⟨e, x⟩ := ev
      have htail := ih fun ev hev => h ev (List.mem_cons_of_mem _ hev)
      have hhead := h _ List.mem_cons_self
      cases e with
      | sleep n => exact hhead.elim
      | _ => exact htail

def plainly (e : Eff) : Prop := blind e ∧ harmless e

theorem idle_of_plainly {tr : EffTrace} (h : ∀ ev ∈ tr, plainly ev.1) : Idle tr :=
  ⟨blind_looks (fun ev hev => (h ev hev).1) false, blind_waits fun ev hev => (h ev hev).1,
    fun ev hev => (h ev hev).2⟩

theorem harmless.backed {e : Eff} (h : harmless e) (before : EffTrace) : Backed before e := by
  cases e with
  | sql s => cases s with
    | insertEvent ip t d => exact fun hb => absurd hb h
    | _ => trivial
  | orm s => cases s with
    | insertEvent ip t d => exact fun hb => absurd hb h
    | _ => trivial
  | pve r => cases r with
    | current node vmid => trivial
    | power node vmid action => cases action with
      | start => exact h.elim
      | shutdown => trivial
  | auditFile ip t d b => exact fun hb => absurd hb h
  | _ => trivial

theorem evidencedAfter_nil (seen : EffTrace) : EvidencedAfter seen [] := by
  intro before ev after h
  cases before <;> cases h

theorem evidencedAfter_cons {seen tr : EffTrace} {ev : Event Eff Ans} :
    EvidencedAfter seen (ev :: tr) ↔ Backed seen ev.1 ∧ EvidencedAfter (seen ++ [ev]) tr := by
  constructor
  · intro h
    refine ⟨?_, fun before ev' after htr => ?_⟩
    · have hfirst := h [] ev tr rfl
      rwa [List.append_nil] at hfirst
    · have hlater := h (ev :: before) ev' after (congrArg (ev :: ·) htr)
      rwa [List.append_assoc]
  · rintro ⟨hev, htr⟩ before ev' after h
    cases before with
    | nil =>
        cases h
        rwa [List.append_nil]
    | cons ev'' before =>
        obtain ⟨rfl, hrest⟩ := List.cons.inj h
        have hlater := htr before ev' after hrest
        rwa [List.append_assoc] at hlater

theorem evidencedAfter_append {seen a b : EffTrace} :
    EvidencedAfter seen (a ++ b) ↔ EvidencedAfter seen a ∧ EvidencedAfter (seen ++ a) b := by
  induction a generalizing seen with
  | nil =>
      rw [List.append_nil]
      exact ⟨fun h => ⟨evidencedAfter_nil seen, h⟩, fun h => h.2⟩
  | cons ev a ih =>
      rw [List.cons_append, evidencedAfter_cons, evidencedAfter_cons, ih, List.append_assoc,
        and_assoc]
      exact Iff.rfl

theorem evidenced_of_harmless {seen tr : EffTrace} (h : ∀ ev ∈ tr, harmless ev.1) :
    EvidencedAfter seen tr := by
  rintro before ev after rfl
  exact (h ev (List.mem_append_right _ List.mem_cons_self)).backed _

theorem rowsRead_append (a b : EffTrace) : rowsRead (a ++ b) = rowsRead a ++ rowsRead b :=
  List.flatMap_append

theorem rowsRead_harmless {tr : EffTrace} (h : ∀ ev ∈ tr, harmless ev.1) : rowsRead tr = [] := by
  apply List.flatMap_eq_nil_iff.mpr
  rintro ⟨e, a⟩ hev
  cases e with
  | sql s => cases s with
    | tickHosts => exact (h _ hev).elim
    | _ => rfl
  | _ => rfl

theorem idle_audit {cutover : Bool} {ip t : String} (ht : ¬ Blames t) (d : Json) :
    Leaves Idle (audit cutover ip t d) :=
  leaves_of_only (φ := plainly) (only_audit (fun _ => ⟨trivial, ht⟩) ⟨trivial, ht⟩ ⟨trivial, ht⟩
    ⟨⟨trivial, trivial⟩, ⟨trivial, trivial⟩, ⟨trivial, trivial⟩, ⟨trivial, trivial⟩⟩) fun _ => idle_of_plainly

theorem idle_recentCount (cutover : Bool) (ip t : String) (m : Nat) :
    Leaves Idle (recentCount cutover ip t m) :=
  leaves_of_only (φ := plainly) (only_recentCount ⟨trivial, trivial⟩ ⟨trivial, trivial⟩
    ⟨trivial, trivial⟩ ⟨trivial, trivial⟩) fun _ => idle_of_plainly

theorem idle_sync (cutover : Bool) : Leaves Idle (syncRegistry cutover) := by
  have hplain : ∀ s, RegistryPass.onRegistry s → plainly (.sql s) ∧ plainly (.orm s) := by
    intro s hs
    cases s with
    | insertEvent ip t d => exact hs.elim
    | tickHosts => exact hs.elim
    | _ => exact ⟨⟨trivial, trivial⟩, trivial, trivial⟩
  refine leaves_of_only (DesiredState.only_sync cutover) fun tr h => idle_of_plainly fun ev hev =>
    ?_
  obtain ⟨e, a⟩ := ev
  have he := h _ hev
  cases e with
  | sql s => exact (hplain s he).1
  | orm s => exact (hplain s he).2
  | pve r => exact he.elim
  | restart ip => exact he.elim
  | sleep n => exact he.elim
  | auditFile ip t d b => exact he.elim
  | _ => exact ⟨trivial, trivial⟩

theorem finishes_orRaise {α : Type} (x : Except PyExc α) (tr : EffTrace) (o : Except PyExc α) :
    Finishes (orRaise x) tr o ↔ tr = [] ∧ o = x := by
  cases x <;> exact Iff.rfl

theorem vmStatus_finishes {ip : String} {tr : EffTrace} {o : Except PyExc Json}
    (h : Finishes (vmStatus ip) tr o) :
    (∃ x, nodeOf ip = .error x ∧ tr = [] ∧ o = .error x) ∨
      ∃ node vmid a, nodeOf ip = .ok (node, vmid) ∧ tr = [⟨.pve (.current node vmid), a⟩] ∧
        o = pveStatus a := by
  unfold vmStatus at h
  cases hn : nodeOf ip with
  | error x =>
      rw [hn] at h
      obtain ⟨rfl, rfl⟩ := h
      exact .inl ⟨x, rfl, rfl, rfl⟩
  | ok p =>
      rw [hn] at h
      obtain ⟨node, vmid⟩ := p
      obtain ⟨a, tr', rfl, h⟩ := h
      change Finishes (orRaise (dictGet ((Option.getD a .null).orElse (.obj [])) "data") >>=
        fun data =>
        orRaise (dictGet (data.orElse (.obj [])) "status")) tr' o at h
      have hread : tr' = [] ∧ o = pveStatus a := by
        rcases (finishes_bind _ _ _ _).mp h with ⟨data, t₁, t₂, rfl, hdata, hstatus⟩ | ⟨x, hdata,
          rfl⟩
        · obtain ⟨rfl, hd⟩ := (finishes_orRaise _ _ _).mp hdata
          obtain ⟨rfl, hs⟩ := (finishes_orRaise _ _ _).mp hstatus
          refine ⟨rfl, ?_⟩
          rw [pveStatus, ← hd, hs]
          rfl
        · obtain ⟨rfl, hd⟩ := (finishes_orRaise _ _ _).mp hdata
          refine ⟨rfl, ?_⟩
          rw [pveStatus, ← hd]
          rfl
      obtain ⟨rfl, rfl⟩ := hread
      exact .inr ⟨node, vmid, a, rfl, rfl, rfl⟩

theorem Idle.polled {tr : EffTrace} (h : Idle tr) (seconds : Nat) (u : Unit) (node : String)
    (vmid : Nat) (a : Option Json) :
    Idle (⟨.sleep seconds, u⟩ :: ⟨.pve (.current node vmid), a⟩ :: tr) := by
  refine ⟨h.looks, h.waits, fun ev hev => ?_⟩
  rcases List.mem_cons.mp hev with rfl | hev
  · trivial
  · rcases List.mem_cons.mp hev with rfl | hev
    · trivial
    · exact h.harmless ev hev

theorem probeOk_finishes {ip : String} {tr : EffTrace} {o : Except PyExc Bool}
    (h : Finishes (probeOk ip) tr o) :
    (∃ a rest, tr = ⟨.getModels ip, a⟩ :: rest) ∧ ∀ ev ∈ tr, plainly ev.1 := by
  constructor
  · obtain ⟨a, rest, rfl, -⟩ := h
    exact ⟨a, rest, rfl⟩
  · have honly : Only plainly (probeOk ip) :=
      only_probeOk ip ⟨trivial, trivial⟩ fun _ => ⟨trivial, trivial⟩
    exact honly.of_mem ((finishes_iff _ _ _).mp h)

theorem idle_probeOk (ip : String) : Leaves Idle (probeOk ip) :=
  fun _ _ h => idle_of_plainly (probeOk_finishes h).2

theorem idle_awaitVm {cutover : Bool} {ip : String} {p : String × Nat} (hn : nodeOf ip = .ok p)
    (n : Nat) :
    Leaves Idle (awaitVm cutover ip n) := by
  induction n with
  | zero => exact Leaves.pure idle_joins ()
  | succ n ih =>
      rintro tr o ⟨u, tr', rfl, h⟩
      rcases (finishes_bind _ _ _ _).mp h with ⟨st, t₁, t₂, rfl, hst, hrest⟩ | ⟨x, hst, rfl⟩
      · have hidle : Idle t₂ := by
          split at hrest
          · refine Leaves.bind idle_joins (idle_probeOk ip) (fun b => ?_) t₂ o hrest
            split
            · exact idle_audit (by decide) _
            · exact ih
          · exact ih t₂ o hrest
        rcases vmStatus_finishes hst with ⟨x, hx, -⟩ | ⟨node, vmid, a, -, rfl, -⟩
        · rw [hn] at hx
          cases hx
        · exact hidle.polled 15 u node vmid a
      · rcases vmStatus_finishes hst with ⟨y, hy, -⟩ | ⟨node, vmid, a, -, rfl, -⟩
        · rw [hn] at hy
          cases hy
        · exact idle_joins.nil.polled 15 u node vmid a

theorem idle_awaitService (cutover : Bool) (ip : String) (n : Nat) :
    Leaves Idle (awaitService cutover ip n) := by
  induction n with
  | zero => exact Leaves.pure idle_joins ()
  | succ n ih =>
      have hafter : ∀ (u : Unit) {t : EffTrace} {o : Except PyExc Bool}, Finishes (probeOk ip) t o →
          Idle (⟨.sleep 10, u⟩ :: t) := by
        intro u t o h
        obtain ⟨⟨a, rest, rfl⟩, hp⟩ := probeOk_finishes h
        have hrest := idle_of_plainly fun ev hev => hp ev (List.mem_cons_of_mem _ hev)
        refine ⟨hrest.looks, hrest.waits, fun ev hev => ?_⟩
        rcases List.mem_cons.mp hev with rfl | hev
        · trivial
        · exact (hp ev hev).2
      rintro tr o ⟨u, tr', rfl, h⟩
      rcases (finishes_bind _ _ _ _).mp h with ⟨b, t₁, t₂, rfl, hp, hrest⟩ | ⟨x, hp, rfl⟩
      · refine idle_joins.append (hafter u hp) ?_
        split at hrest
        · exact idle_audit (by decide) _ t₂ o hrest
        · exact ih t₂ o hrest
      · exact hafter u hp

theorem idle_recoverService (cutover : Bool) (ip : String) :
    Leaves Idle (recoverService cutover ip) := by
  have hrestart : Leaves Idle (controlRestart ip) := by
    refine leaves_of_only (φ := plainly) ?_ fun _ => idle_of_plainly
    exact only_call ⟨trivial, trivial⟩ fun _ => trivial
  have hagain : Leaves Idle (restartService cutover ip) := by
    refine Leaves.bind idle_joins (idle_recentCount _ _ _ _) fun k => ?_
    refine Leaves.bind idle_joins (idle_audit (by decide) _) fun _ => ?_
    exact Leaves.bind idle_joins hrestart fun _ => idle_awaitService cutover ip 60
  refine Leaves.bind idle_joins (idle_recentCount _ _ _ _) fun n => ?_
  split
  · exact idle_audit (by decide) _
  · refine Leaves.bind idle_joins (idle_recentCount _ _ _ _) fun last => ?_
    split
    · refine Leaves.bind idle_joins (idle_recentCount _ _ _ _) fun again => ?_
      split
      · exact Leaves.pure idle_joins ()
      · exact hagain
    · exact hagain

def own (ip : String) : Eff → Prop
  | .pve (.power node vmid _) => nodeOf ip = .ok (node, vmid)
  | .pve (.current ..) => False
  | .sleep _ => False
  | .auditFile i _ _ _ => i = ip
  | .sql .tickHosts => False
  | .sql (.insertEvent i _ _) => i = ip
  | .orm (.insertEvent i _ _) => i = ip
  | _ => True

theorem own.blind {ip : String} {e : Eff} (h : own ip e) : blind e := by
  cases e with
  | pve r => cases r with
    | current node vmid => exact h.elim
    | power node vmid action => trivial
  | sleep n => exact h.elim
  | _ => trivial

def Recovers (ip : String) (tr : EffTrace) : Prop :=
  ∃ a b, tr = a ++ b ∧ (∀ ev ∈ a, own ip ev.1) ∧ Idle b

theorem Recovers.looks {ip : String} {tr : EffTrace} (h : Recovers ip tr) :
    looks tr = [] ∧ waitsFrom false tr = false ∧ rowsRead tr = [] := by
  obtain ⟨a, b, rfl, ha, hb⟩ := h
  have hblind : ∀ ev ∈ a, blind ev.1 := fun ev hev => (ha ev hev).blind
  refine ⟨?_, ?_, ?_⟩
  · rw [StatusEvidence.looks, looksFrom_append, blind_looks hblind, blind_waits hblind]
    exact hb.looks
  · rw [waitsFrom_append, blind_waits hblind, hb.waits]
  · rw [rowsRead_append, rowsRead_harmless hb.harmless, List.append_nil]
    apply List.flatMap_eq_nil_iff.mpr
    rintro ⟨e, x⟩ hev
    cases e with
    | sql s => cases s with
      | tickHosts => exact (ha _ hev).elim
      | _ => rfl
    | _ => rfl

theorem recovers_of_idle {ip : String} {tr : EffTrace} (h : Idle tr) : Recovers ip tr :=
  ⟨[], tr, rfl, fun _ h => absurd h List.not_mem_nil, h⟩

theorem recovers_of_only {α : Type} {ip : String} {p : Svc α} (h : Only (own ip) p) :
    Leaves (Recovers ip) p :=
  leaves_of_only h fun tr htr => ⟨tr, [], (List.append_nil tr).symm, htr, idle_joins.nil⟩

theorem recovers_bind {α β : Type} {ip : String} {p : Svc α} {f : α → Svc β} (hp : Only (own ip) p)
    (hf : ∀ a, Leaves (Recovers ip) (f a)) : Leaves (Recovers ip) (p >>= f) := by
  intro tr o h
  rcases (finishes_bind _ _ _ _).mp h with ⟨x, t₁, t₂, rfl, h₁, h₂⟩ | ⟨x, h₁, -⟩
  · obtain ⟨a, b, rfl, ha, hb⟩ := hf x t₂ o h₂
    refine ⟨t₁ ++ a, b, (List.append_assoc t₁ a b).symm, fun ev hev => ?_, hb⟩
    rcases List.mem_append.mp hev with hev | hev
    · exact hp.of_mem ((finishes_iff _ _ _).mp h₁) ev hev
    · exact ha ev hev
  · exact recovers_of_only hp tr _ h₁

theorem own_audit (cutover : Bool) (ip t : String) (d : Json) :
    Only (own ip) (audit cutover ip t d) :=
  only_audit (fun _ => rfl) rfl rfl ⟨trivial, trivial, trivial, trivial⟩

theorem own_recentCount (cutover : Bool) (ip t : String) (m : Nat) :
    Only (own ip) (recentCount cutover ip t m) :=
  only_recentCount trivial trivial trivial trivial

theorem recoverVmStart_recovers {cutover : Bool} {ip : String} {p : String × Nat}
    (hn : nodeOf ip = .ok p) (desired : String) :
    Leaves (Recovers ip) (recoverVmStart cutover ip desired) := by
  refine recovers_bind (own_recentCount _ _ _ _) fun n => ?_
  split
  · exact recovers_of_only (own_audit _ _ _ _)
  · refine recovers_bind (own_recentCount _ _ _ _) fun k =>
      recovers_bind (own_audit _ _ _ _) fun _ => ?_
    refine recovers_bind (only_vmPower fun node vmid h => h) fun _ tr o h => ?_
    exact recovers_of_idle (idle_awaitVm hn 40 tr o h)

/-- A managed host that is to run, with another power state than `running` read. -/
def Outage (row : HostRow) (a : Option Json) : Prop :=
  row.managementMode = "MANAGED" ∧ row.desiredPowerState ≠ "STOPPED_INTENTIONAL" ∧
    ∃ v, pveStatus a = .ok v ∧ v.isStr "running" = false

def Outcome (row : HostRow) (a : Option Json) (tr : EffTrace) : Prop :=
  ¬ Outage row a ∧ Idle tr ∨
    Outage row a ∧ Recovers row.guestIp tr ∧ ∃ d rest,
      tr = ⟨.auditFile row.guestIp "outage_detected" d false, ()⟩ :: rest

theorem audit_first {cutover : Bool} {ip t : String} {d : Json} {tr : EffTrace}
    {o : Except PyExc Unit}
    (h : Finishes (audit cutover ip t d) tr o) : ∃ rest,
    tr = ⟨.auditFile ip t d false, ()⟩ :: rest := by
  obtain ⟨u, rest, rfl, -⟩ := h
  exact ⟨rest, rfl⟩

theorem enforce_outcome {cutover : Bool} {row : HostRow} {a : Option Json} {v : Json}
    {state : Option String} {p : String × Nat}
    {tr : EffTrace} {o : Except PyExc Unit} (hn : nodeOf row.guestIp = .ok p)
    (hm : row.managementMode = "MANAGED")
    (hv : pveStatus a = .ok v) (h : Finishes (enforce cutover row v state) tr o) :
    Outcome row a tr := by
  unfold enforce at h
  split at h
  next hd =>
    refine .inl ⟨fun ho => ho.2.1 hd, ?_⟩
    split at h
    · exact idle_audit (by decide) _ tr o h
    · exact Leaves.pure idle_joins () tr o h
  next hd =>
    split at h
    next hrun =>
      refine .inr ⟨⟨hm, hd, v, hv, hrun⟩, ?_, ?_⟩
      · exact recovers_bind (own_audit _ _ _ _) (fun _ => recoverVmStart_recovers hn _) tr o h
      · rcases (finishes_bind _ _ _ _).mp h with ⟨u, t₁, t₂, rfl, h₁, -⟩ | ⟨x, h₁, -⟩
        · obtain ⟨rest, rfl⟩ := audit_first h₁
          exact ⟨_, rest ++ t₂, rfl⟩
        · obtain ⟨rest, rfl⟩ := audit_first h₁
          exact ⟨_, rest, rfl⟩
    next hrun =>
      have hno : ¬ Outage row a := by
        rintro ⟨-, -, w, hw, hwrun⟩
        rw [hv] at hw
        cases hw
        exact hrun hwrun
      refine .inl ⟨hno, ?_⟩
      split at h
      · split at h
        · exact idle_audit (by decide) _ tr o h
        · exact Leaves.bind idle_joins (idle_audit (by decide) _) (fun _ => idle_recoverService _ _)
            tr o h
      · exact Leaves.pure idle_joins () tr o h

theorem hostTurn_finishes {cutover : Bool} {summary : List HostSummary} {row : HostRow}
    {tr : EffTrace} {o : Except PyExc Unit}
    (h : Finishes (hostTurn cutover summary row) tr o) :
    (tr = [] ∧ ∃ x, o = .error x) ∨ ∃ node vmid a rest, nodeOf row.guestIp = .ok (node, vmid) ∧
      tr = ⟨.pve (.current node vmid), a⟩ :: rest ∧ Outcome row a rest := by
  rcases (finishes_bind _ _ _ _).mp h with ⟨v, t₁, t₂, rfl, hst, hrest⟩ | ⟨x, hst, rfl⟩
  · rcases vmStatus_finishes hst with ⟨x, -, -, hx⟩ | ⟨node, vmid, a, hn, rfl, hv⟩
    · cases hx
    · refine .inr ⟨node, vmid, a, t₂, hn, rfl, ?_⟩
      split at hrest
      next hm => exact enforce_outcome hn hm hv.symm hrest
      next hm => exact .inl ⟨fun ho => hm ho.1, Leaves.pure idle_joins () t₂ o hrest⟩
  · rcases vmStatus_finishes hst with ⟨y, -, rfl, -⟩ | ⟨node, vmid, a, hn, rfl, hv⟩
    · exact .inl ⟨rfl, x, rfl⟩
    · refine .inr ⟨node, vmid, a, [], hn, rfl, .inl ⟨?_, idle_joins.nil⟩⟩
      rintro ⟨-, -, v, hv', -⟩
      rw [hv'] at hv
      cases hv

theorem lastStatus_own {seen pre : EffTrace} {node : String} {vmid : Nat} {a : Option Json}
    {ip : String}
    (h : ∀ ev ∈ pre, own ip ev.1) : lastStatus node vmid
    (seen ++ ⟨.pve (.current node vmid), a⟩ :: pre) = some a := by
  have hnone : pre.filterMap (statusAnswer node vmid) = [] := by
    apply List.filterMap_eq_nil_iff.mpr
    rintro ⟨e, x⟩ hev
    cases e with
    | pve r => cases r with
      | current n i => exact (h _ hev).elim
      | power n i action => rfl
    | _ => rfl
  have hself : statusAnswer node vmid ⟨.pve (.current node vmid), a⟩ = some a := if_pos ⟨rfl, rfl⟩
  rw [lastStatus, List.filterMap_append, List.filterMap_cons_some hself, hnone,
    List.getLast?_append]
  rfl

theorem own.backed {ip : String} {e : Eff} {before : EffTrace} {node : String} {vmid : Nat}
    (h : own ip e)
    (hn : nodeOf ip = .ok (node, vmid)) (hs : SeenDown before node vmid) : Backed before e := by
  have hdown : HostDown before ip := ⟨node, vmid, hn, hs⟩
  cases e with
  | pve r => cases r with
    | current n i => trivial
    | power n i action => cases action with
      | start =>
          have hp := hn.symm.trans h
          cases hp
          exact hs
      | shutdown => trivial
  | auditFile i t d b =>
      cases h
      exact fun _ => hdown
  | sql s => cases s with
    | insertEvent i t d =>
        cases h
        exact fun _ => hdown
    | _ => trivial
  | orm s => cases s with
    | insertEvent i t d =>
        cases h
        exact fun _ => hdown
    | _ => trivial
  | _ => trivial

/-- The turn of a host is evidenced exactly if its look was readable, where it had to be. -/
def Readable (row : HostRow) (a : Option Json) : Prop :=
  row.managementMode = "MANAGED" → row.desiredPowerState ≠ "STOPPED_INTENTIONAL" →
    (∃ status, Tells a status) ∨ Malformed a

theorem outcome_evidenced {row : HostRow} {a : Option Json} {tr seen : EffTrace} {node : String}
    {vmid : Nat}
    (hn : nodeOf row.guestIp = .ok (node, vmid)) (h : Outcome row a tr) :
    EvidencedAfter seen (⟨.pve (.current node vmid), a⟩ :: tr) ↔ Readable row a := by
  rw [evidencedAfter_cons]
  rcases h with ⟨hno, hidle⟩ | ⟨⟨hm, hd, v, hv, hrun⟩, ⟨t, b, htr, hown, hidle⟩, d, rest, hfirst⟩
  · refine iff_of_true ⟨trivial, evidenced_of_harmless hidle.harmless⟩ fun hm hd =>
      readable_of_running fun v hv => ?_
    cases hrun : v.isStr "running" with
    | true => rfl
    | false => exact absurd ⟨hm, hd, v, hv, hrun⟩ hno
  · have hdown : Down a ↔ Readable row a := by
      rw [down_iff hv hrun]
      exact ⟨fun h _ _ => h, fun h => h hm hd⟩
    rw [← hdown]
    constructor
    · rintro ⟨-, h⟩
      obtain ⟨n, i, hn', a', ha', hdown'⟩ := h [] _ rest hfirst (.inl rfl)
      cases hn.symm.trans hn'
      have hown : ∀ ev ∈ ([] : EffTrace), own row.guestIp ev.1 :=
        fun ev hev => absurd hev List.not_mem_nil
      rw [List.append_nil, lastStatus_own hown] at ha'
      cases ha'
      exact hdown'
    · intro hdown'
      refine ⟨trivial, ?_⟩
      rw [htr, evidencedAfter_append]
      refine ⟨?_, evidenced_of_harmless hidle.harmless⟩
      rintro before ev after rfl
      refine (hown ev (List.mem_append_right _ List.mem_cons_self)).backed hn ⟨a, ?_, hdown'⟩
      rw [List.append_assoc]
      exact lastStatus_own fun ev hev => hown ev (List.mem_append_left _ hev)

theorem Outcome.looks {row : HostRow} {a : Option Json} {tr : EffTrace} (h : Outcome row a tr) :
    looks tr = [] ∧ waitsFrom false tr = false ∧ rowsRead tr = [] := by
  rcases h with ⟨-, hidle⟩ | ⟨-, hrec, -⟩
  · exact ⟨hidle.looks, hidle.waits, rowsRead_harmless hidle.harmless⟩
  · exact hrec.looks

theorem turns_evidenced {cutover : Bool} {summary : List HostSummary} {rows : List HostRow}
    {tr : EffTrace}
    {o : Except PyExc Unit} (h : Finishes (turns cutover summary rows) tr o) : rowsRead tr = [] ∧
      ∀ seen, EvidencedAfter seen tr ↔ ∀ row a, (row, a) ∈ rows.zip (looks tr) →
        Readable row a := by
  induction rows generalizing tr o with
  | nil =>
      obtain ⟨rfl, -⟩ := h
      exact ⟨rfl, fun seen => iff_of_true (evidencedAfter_nil seen) fun _ _ hmem =>
        absurd hmem List.not_mem_nil⟩
  | cons row rows ih =>
      rcases (finishes_bind _ _ _ _).mp h with ⟨u, t₁, t₂, rfl, hturn, hrest⟩ | ⟨x, hturn, rfl⟩
      · rcases hostTurn_finishes hturn with ⟨-, x, hx⟩ | ⟨node, vmid, a, rest, hn, rfl, hout⟩
        · cases hx
        · obtain ⟨hlooks, hwaits, hrows⟩ := hout.looks
          obtain ⟨hrows', hev⟩ := ih hrest
          have hzip : looks (⟨.pve (.current node vmid), a⟩ :: rest ++ t₂) = a :: looks t₂ := by
            rw [looks, looksFrom_append]
            change a :: looksFrom false rest ++ looksFrom (waitsFrom false rest) t₂ = _
            rw [hwaits, ← StatusEvidence.looks, hlooks]
            rfl
          refine ⟨?_, fun seen => ?_⟩
          · rw [rowsRead_append, hrows', List.append_nil]
            exact hrows
          · rw [evidencedAfter_append, outcome_evidenced hn hout, hev, hzip, List.zip_cons_cons]
            constructor
            · rintro ⟨hfirst, hlater⟩ row' a' hmem
              rcases List.mem_cons.mp hmem with heq | hmem
              · cases heq
                exact hfirst
              · exact hlater row' a' hmem
            · intro hall
              exact ⟨hall row a List.mem_cons_self,
                fun row' a' hmem => hall row' a' (List.mem_cons_of_mem _ hmem)⟩
      · rcases hostTurn_finishes hturn with ⟨rfl, -⟩ | ⟨node, vmid, a, rest, hn, rfl, hout⟩
        · refine ⟨rfl, fun seen => iff_of_true (evidencedAfter_nil seen) fun _ _ hmem => ?_⟩
          exact absurd hmem List.not_mem_nil
        · obtain ⟨hlooks, -, hrows⟩ := hout.looks
          refine ⟨hrows, fun seen => ?_⟩
          have hzip : looks (⟨.pve (.current node vmid), a⟩ :: rest) = [a] :=
            congrArg (a :: ·) hlooks
          rw [outcome_evidenced hn hout, hzip, List.zip_cons_cons, List.zip_nil_right]
          constructor
          · intro hfirst row' a' hmem
            cases List.mem_singleton.mp hmem
            exact hfirst
          · intro hall
            exact hall row a List.mem_cons_self

theorem readHosts_finishes {tr : EffTrace} {o : Except PyExc (Option (List HostRow))}
    (h : Finishes readHosts tr o) :
    (∀ ev ∈ tr, blind ev.1) ∧ (∀ seen, EvidencedAfter seen tr) ∧
    (∀ rows, o = .ok (some rows) → rowsRead tr = rows) := by
  have honly : Only (fun e => blind e ∧ ∀ seen, Backed seen e) readHosts :=
    only_readHosts ⟨trivial, fun _ => trivial⟩ ⟨trivial, fun _ => trivial⟩
      ⟨trivial, fun _ => trivial⟩
  have hall := honly.of_mem ((finishes_iff _ _ _).mp h)
  refine ⟨fun ev hev => (hall ev hev).1, ?_, ?_⟩
  · rintro seen before ev after rfl
    exact (hall ev (List.mem_append_right _ List.mem_cons_self)).2 _
  · rintro rows rfl
    obtain ⟨b, t₁, rfl, h⟩ := h
    cases b with
    | false =>
        obtain ⟨rfl, h⟩ := h
        cases h
    | true =>
        obtain ⟨x, t₂, rfl, h⟩ := h
        cases x with
        | error x =>
            obtain ⟨u, t₃, rfl, h⟩ := h
            cases h.2
        | ok rows' =>
            obtain ⟨u, t₃, rfl, h⟩ := h
            obtain ⟨rfl, h⟩ := h
            cases h
            exact List.append_nil rows

theorem idle_evidenced {tr rest : EffTrace} (h : Idle tr) :
    Evidenced (tr ++ rest) ↔ EvidencedAfter tr rest := by
  rw [Evidenced, evidencedAfter_append, List.nil_append]
  exact and_iff_right (evidenced_of_harmless h.harmless)

theorem blind_append {tr rest : EffTrace} (h : ∀ ev ∈ tr, blind ev.1) :
    looks (tr ++ rest) = looks rest := by
  rw [looks, looksFrom_append, blind_looks h, blind_waits h]
  rfl

theorem tick_evidenced_iff (cutover : Bool) (tr : EffTrace) (o : Except PyExc Unit)
    (h : Exec anything () (tick cutover) tr () (finished o)) :
    Evidenced tr ↔ ∀ row a, (row, a) ∈ (rowsRead tr).zip (looks tr) → Readable row a := by
  have hfin := (finishes_iff _ _ _).mpr h
  have hquiet : ∀ {t : EffTrace}, (∀ seen, EvidencedAfter seen t) → looks t = [] →
      (Evidenced t ↔ ∀ row a, (row, a) ∈ (rowsRead t).zip (looks t) → Readable row a) := by
    intro t hev hlooks
    rw [hlooks, List.zip_nil_right]
    exact iff_of_true (hev []) fun _ _ hmem => absurd hmem List.not_mem_nil
  rcases (finishes_bind _ _ _ _).mp hfin with ⟨s, t₁, t₂, rfl, hs, hrest⟩ | ⟨x, hs, -⟩
  · have hidle := idle_sync cutover t₁ _ hs
    cases s with
    | error text =>
        obtain ⟨rfl, -⟩ := hrest
        rw [List.append_nil]
        exact hquiet (fun seen => evidenced_of_harmless hidle.harmless) hidle.looks
    | hosts summary =>
        have hlooks : looks (t₁ ++ t₂) = looks t₂ := by
          rw [looks, looksFrom_append, hidle.waits, ← looks, ← looks, hidle.looks]
          rfl
        rw [idle_evidenced hidle, rowsRead_append, rowsRead_harmless hidle.harmless,
          List.nil_append, hlooks]
        rcases (finishes_bind _ _ _ _).mp hrest with ⟨rows, t, t', rfl, hread, hturns⟩ | ⟨x, hread,
          rfl⟩
        · obtain ⟨hblind, hev, hrows⟩ := readHosts_finishes hread
          rw [evidencedAfter_append, and_iff_right (hev t₁), rowsRead_append, blind_append hblind]
          cases rows with
          | none =>
              obtain ⟨rfl, -⟩ := hturns
              refine iff_of_true (evidencedAfter_nil _) fun row a hmem => ?_
              rw [looks, looksFrom, List.zip_nil_right] at hmem
              exact absurd hmem List.not_mem_nil
          | some rows =>
              obtain ⟨hnone, hevd⟩ := turns_evidenced hturns
              rw [hrows rows rfl, hnone, List.append_nil]
              exact hevd _
        · obtain ⟨hblind, hev, -⟩ := readHosts_finishes hread
          refine iff_of_true (hev t₁) fun row a hmem => ?_
          rw [looks, blind_looks hblind, List.zip_nil_right] at hmem
          exact absurd hmem List.not_mem_nil
  · have hidle := idle_sync cutover tr _ hs
    exact hquiet (fun seen => evidenced_of_harmless hidle.harmless) hidle.looks

def qwenRow : HostRow :=
  { hostId := 1, guestIp := "10.0.20.162", name := "qwen", desiredPowerState := "RUNNING", managementMode := "MANAGED"
    desiredServiceState := "SERVING" }

def statusText (status : String) : Json := .obj [("data", .obj [("status", .str status)])]

def modelsText : Json := .obj [("data", .arr [.obj [("id", .str "qwen")]])]

def outageDetail (v : Json) : Json := .obj [("vm_status", v), ("desired", .str "RUNNING")]

def startDetail : Json := .obj [("reason", .str "unexpected stop"), ("attempt", attempt 0)]

def successDetail : Json := .obj [("method", .str "vm_start")]

def auditEvents (eventType : String) (detail : Json) : EffTrace :=
  [⟨.auditFile "10.0.20.162" eventType detail false, ()⟩,
    ⟨.orm (.insertEvent "10.0.20.162" eventType (dumps detail)), (.ok () : Except PyExc Unit)⟩]

def counted (n : Nat) : Event Eff Ans :=
  ⟨.orm (.countEvents "10.0.20.162" vmStart 30), (.ok n : Except PyExc Nat)⟩

def beforeOutage (a : Option Json) : EffTrace :=
  [⟨.connect, true⟩, ⟨.sql .hostInventory, (.ok [] : Except PyExc (List (Int × String × String)))⟩,
    ⟨.sql .aliasSetting, (.ok none : Except PyExc (Option String))⟩,
      ⟨.orm .deleteAliases, (.ok () : Except PyExc Unit)⟩,
    ⟨.commit, (.ok () : Except PyExc Unit)⟩, ⟨.close, ()⟩,
    ⟨.connect, true⟩, ⟨.sql .tickHosts, (.ok [qwenRow] : Except PyExc (List HostRow))⟩,
      ⟨.close, ()⟩,
    ⟨.pve (.current "miam00112" 401), a⟩]

def beforeStart (a : Option Json) (v : Json) : EffTrace :=
  beforeOutage a ++ (auditEvents "outage_detected" (outageDetail v) ++
    ([counted 0, counted 0] ++ auditEvents vmStart startDetail))

def afterStart : EffTrace :=
  [⟨.sleep 15, ()⟩, ⟨.pve (.current "miam00112" 401), some (statusText "running")⟩,
    ⟨.getModels "10.0.20.162", (.ok (200, .ok modelsText) :
      Except PyExc (Nat × Except PyExc Json))⟩,
    ⟨.completion "10.0.20.162" (.str "qwen"), (.ok 200 : Except PyExc Nat)⟩] ++ auditEvents "recovery_success" successDetail

def started : Event Eff Ans := ⟨.pve (.power "miam00112" 401 .start), (none : Option Json)⟩

/-- The status answer `a`, read as `v`, and what the tick makes of it. -/
def incident (a : Option Json) (v : Json) : EffTrace := beforeStart a v ++ started :: afterStart

theorem incident_unread : Finishes (tick true) (incident none .null) (.ok ()) := by
  repeat refine ⟨_, _, rfl, ?_⟩
  exact ⟨rfl, rfl⟩

theorem incident_stopped : Finishes (tick true)
    (incident (some (statusText "stopped")) (.str "stopped")) (.ok ()) := by
  repeat refine ⟨_, _, rfl, ?_⟩
  exact ⟨rfl, rfl⟩

theorem stopped_tick_evidenced : Evidenced (incident (some (statusText "stopped"))
    (.str "stopped")) := by
  apply (tick_evidenced_iff true _ (.ok ()) ((finishes_iff _ _ _).mp incident_stopped)).mpr
  intro row a hmem _ _
  cases List.mem_singleton.mp hmem
  exact .inl ⟨"stopped", _, _, rfl, rfl, rfl⟩

/-- A VM that is running is started: its first status answer is none. -/
theorem unread_tick_starts : Exec anything () (tick true) (incident none .null) ()
    (finished (.ok ())) ∧
    ¬ Evidenced (incident none .null) := by
  refine ⟨(finishes_iff _ _ _).mp incident_unread, fun h => ?_⟩
  obtain ⟨a, ha, status, ⟨fs, ds, hfs, -⟩, -⟩ : SeenDown ([] ++ beforeStart none .null) "miam00112" 401 :=
    h (beforeStart none .null) started afterStart rfl
  cases ha
  cases hfs

end ServerManager.StatusEvidence
