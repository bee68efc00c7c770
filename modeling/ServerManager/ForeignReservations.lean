import ServerManager.Calls
import ServerManager.Kea

namespace ServerManager.ForeignReservations

open Interaction PyText Effects Config SandboxNetwork Calls Kea

/-- The table is well formed and its foreign reservations are exactly `F`. -/
structure Inv (F : List KeaRow) (k : Table) : Prop where
  wf : k.Wf
  kept : ∀ r ∈ F, r ∈ k.rows
  only : ∀ r ∈ k.rows, tagged r = false → r ∈ F
  untagged : ∀ r ∈ F, tagged r = false

def Safe (F : List KeaRow) (u : String) : Prop := ∀ r ∈ F, r.uuid ≠ some u

def Guard (F : List KeaRow) : Eff → Prop
  | .kea (.delReservation u) => Safe F u
  | .kea (.addReservation _ _ _ _ description) => startsWith description subnetDescriptionTag = true
  | _ => True

variable {F : List KeaRow} {k k' : Table}

theorem Inv.remove (h : Inv F k) {u : String} (hu : Safe F u) : Inv F (k.remove u) where
  wf := h.wf.remove u
  kept r hr := Table.mem_remove.mpr ⟨h.kept r hr, hu r hr⟩
  only r hr := h.only r (Table.mem_remove.mp hr).1
  untagged := h.untagged

theorem Inv.add (h : Inv F k) {u ip hw hostname description : String} (hu : u ∉ k.used)
    (hip : ∀ r ∈ k.rows, r.ipAddress ≠ some ip)
    (ht : startsWith description subnetDescriptionTag = true) :
    Inv F (k.add u ip hw hostname description) where
  wf := h.wf.add hu hip
  kept r hr := Table.mem_add.mpr (.inl (h.kept r hr))
  only r hr hn := by
    rcases Table.mem_add.mp hr with hr | rfl
    · exact h.only r hr hn
    · have hn' : startsWith description subnetDescriptionTag = false := hn
      rw [ht] at hn'
      cases hn'
  untagged := h.untagged

theorem Inv.call (h : Inv F k) {c : KeaCall} {a : KeaAns c} (hg : Guard F (.kea c))
    (hc : k.call c a k') :
    Inv F k' := by
  cases c with
  | searchReservation => rw [hc.1]; exact h
  | searchLeases | searchSubnet | reconfigure => rw [show k' = k from hc]; exact h
  | addReservation subnet ip hw hostname description =>
      rcases hc with ⟨rfl, -⟩ | ⟨u, hu, hip, -, rfl⟩
      · exact h
      · exact h.add hu hip hg
  | delReservation u =>
      rcases hc with rfl | ⟨rfl, -⟩
      · exact h.remove hg
      · exact h

theorem Inv.step (h : Inv F k) {e : Eff} {a : Ans e} (hg : Guard F e) (hs : Kea.step k e a k') :
    Inv F k' := by
  cases e with
  | kea c => exact h.call hg hs
  | pve | db | sys => rw [show k' = k from hs]; exact h

variable {rows : List KeaRow}

theorem Inv.safe (h : Inv F k) (hp : rows.Perm k.rows) {r : KeaRow} {u : String} (hr : r ∈ rows)
    (ht : tagged r = true) (hu : r.uuid = some u) : Safe F u := by
  intro f hf he
  have heq := h.wf.uuids f (h.kept f hf) r (hp.mem_iff.mp hr) (he.trans hu.symm)
  subst heq
  have hn := h.untagged f hf
  rw [ht] at hn
  cases hn

theorem Inv.address (h : Inv F k) (hp : rows.Perm k.rows) {p : Pool} {x : String × Option String}
    (hx : Candidate p rows x) : ∀ f ∈ F, f.ipAddress ≠ some x.1 := by
  intro f hf he
  have hfr : f ∈ rows := hp.mem_iff.mpr (h.kept f hf)
  cases hu : x.2 with
  | none => exact not_mem_of_reservedAt_none hx.ne_empty (hx.free hu) f hfr he
  | some u =>
      obtain ⟨r, hr, ht, -⟩ := hx.reused u hu
      obtain ⟨hm, hip⟩ := reservedAt_mem hr
      have heq := h.wf.addresses f (hp.mem_iff.mp hfr) r (hp.mem_iff.mp hm) x.1 he hip
      subst heq
      have hn := h.untagged f hf
      rw [ht] at hn
      cases hn

def Good (F : List KeaRow) (x : String × Option String) : Prop :=
  (∀ f ∈ F, f.ipAddress ≠ some x.1) ∧ ∀ u, x.2 = some u → Safe F u

theorem Inv.good (h : Inv F k) (hp : rows.Perm k.rows) {p : Pool} {x : String × Option String}
    (hx : Candidate p rows x) : Good F x := by
  refine ⟨h.address hp hx, fun u hu => ?_⟩
  obtain ⟨r, hr, ht, hru⟩ := hx.reused u hu
  exact h.safe hp (reservedAt_mem hr).1 ht hru

def kept (F : List KeaRow) (k : Table) (e : Eff) (a : Ans e) (k' : Table) : Prop :=
  Kea.step k e a k' ∧ Inv F k ∧ Inv F k'

theorem search_sat {Q : Table → List KeaRow → Prop}
    (hQ : ∀ rows k, Inv F k → rows.Perm k.rows → Q k rows) :
    Sat (kept F) (fun _ e => Guard F e) Q (fun _ _ => True) searchReservation k := by
  refine sat_searchReservation.mpr ⟨trivial, ?_⟩
  rintro (x | rows) k' ⟨hs, -, hi⟩
  · exact trivial
  · have hk : k' = k := hs.1
    subst hk
    exact hQ rows k' hi (hs.2 rows rfl)

theorem allocate_sat (p : Pool) :
    Sat (kept F) (fun _ e => Guard F e) (fun _ x => Good F x) (fun _ _ => True) (allocate p) k := by
  refine Sat.seq (search_sat (Q := fun _ rows => ∃ k, Inv F k ∧ rows.Perm k.rows)
    fun rows k hi hp => ⟨k, hi, hp⟩) fun k₁ rows hrows => ?_
  obtain ⟨k₂, hi, hp⟩ := hrows
  refine Sat.seq (Q := fun _ _ => True) ?_ fun k₃ leased _ => ?_
  · refine Sat.seq (Q := fun _ _ => True) (sat_searchLeases.mpr ⟨trivial, ?_⟩) fun _ _ _ => trivial
    rintro (x | x) k' - <;> exact trivial
  · refine (allocateLoop_sat (I := fun _ => True) (fun _ _ _ => trivial)
      (fun _ _ _ _ _ _ => trivial)
      p.addresses (fun _ hi => hi) none trivial).mono (fun _ x hx => hi.good hp hx.2) fun _ _ _ => trivial

theorem reservationText_tagged (workUid agentName hostname : String) :
    startsWith (reservationText workUid agentName hostname) subnetDescriptionTag = true := by
  simp only [startsWith, reservationText, String.toList_append, List.append_assoc,
    List.isPrefixOf_iff_prefix]
  exact List.prefix_append _ _

theorem only_sat {α : Type} {p : Py α} (h : Only (Guard F) p) :
    Sat (kept F) (fun _ e => Guard F e) (fun _ _ => True) (fun _ _ => True) p k :=
  (h.keeps (I := fun _ => True) (fun _ _ _ _ _ _ _ => trivial) trivial).weaken fun _ _ he => he.1

theorem release_sat (ip : String) :
    Sat (kept F) (fun _ e => Guard F e) (fun _ _ => True) (fun _ _ => True) (release ip) k := by
  refine Sat.seq (search_sat (Q := fun _ rows => ∃ k, Inv F k ∧ rows.Perm k.rows)
    fun rows k hi hp => ⟨k, hi, hp⟩) fun k₁ rows hrows => ?_
  obtain ⟨k₂, hi, hp⟩ := hrows
  unfold networkError
  split
  · exact trivial
  next r hr =>
      dsimp only
      split
      · exact trivial
      next ht =>
          split
          next u hu =>
              have hs := hi.safe hp (reservedAt_mem hr).1 (by simpa [tagged] using ht) hu
              exact only_sat (only_deleteReservation u hs trivial)
          · exact trivial

inductive Op
  | allocate (p : Pool)
  | reserveForMac (ip mac hostname workUid agentName : String) (existing : Option String)
  | verifyReserved (ip : String)
  | release (ip : String)

/-- The operation, and what it hands out: only an allocation does. -/
def Op.prog (cfg : Settings) : Op → Py (Option (String × Option String))
  | .allocate p => do
      let x ← SandboxNetwork.allocate p
      pure (some x)
  | .reserveForMac ip mac hostname workUid agentName existing => do
      let _ ← SandboxNetwork.reserveForMac cfg ip mac hostname workUid agentName existing
      pure none
  | .verifyReserved ip => do
      SandboxNetwork.verifyReserved ip
      pure none
  | .release ip => do
      SandboxNetwork.release ip
      pure none

/-- A uuid that is passed on comes from an earlier allocation. -/
def Op.allowed (given : List (String × Option String)) : Op → Prop
  | .reserveForMac _ _ _ _ _ (some u) => ∃ ip, (ip, some u) ∈ given
  | _ => True

def handedOut : Py (Option (String × Option String)) → List (String × Option String)
  | .ret (some x) => [x]
  | _ => []

/-- Tables and allocations after any sequence of operations; the last one may
have returned, raised or been cut off anywhere. -/
inductive Run (cfg : Settings) (k₀ : Table) : Table → List (String × Option String) → Prop
  | start : Run cfg k₀ k₀ []
  | op {k k' : Table} {given : List (String × Option String)} {o : Op} {tr : PyTrace}
      {q : Py (Option (String × Option String))} :
      Run cfg k₀ k given → o.allowed given → Exec Kea.step k (o.prog cfg) tr k' q →
        Run cfg k₀ k' (handedOut q ++ given)

variable {cfg : Settings}

theorem op_sat {o : Op} {given : List (String × Option String)} (ha : o.allowed given)
    (hg : ∀ x ∈ given, Good F x) :
    Sat (kept F) (fun _ e => Guard F e) (fun _ x => ∀ y, x = some y → Good F y) (fun _ _ => True)
      (o.prog cfg) k := by
  cases o with
  | allocate p =>
      refine Sat.seq (allocate_sat p) fun _ x hx y hy => ?_
      cases hy
      exact hx
  | reserveForMac ip mac hostname workUid agentName existing =>
      refine Sat.seq (only_sat ?_) fun _ x _ => nofun
      refine only_reserveForMac cfg ip mac hostname workUid agentName existing trivial trivial
        trivial ?_ ?_
      · rintro u rfl
        obtain ⟨ip', hm⟩ := ha
        exact (hg _ hm).2 u rfl
      · exact fun _ => reservationText_tagged workUid agentName hostname
  | verifyReserved ip =>
      exact Sat.seq (only_sat (only_verifyReserved ip trivial)) fun _ x _ => nofun
  | release ip => exact Sat.seq (release_sat ip) fun _ x _ => nofun

theorem op_keeps (hk : Inv F k) {o : Op} {given : List (String × Option String)}
    (ha : o.allowed given)
    (hg : ∀ x ∈ given, Good F x) {tr : PyTrace} {q : Py (Option (String × Option String))}
    (hx : Exec Kea.step k (o.prog cfg) tr k' q) : Inv F k' ∧ ∀ x ∈ handedOut q, Good F x := by
  have hs := (Sat.invariant (fun _ _ _ _ hi hg hst => hi.step hg hst) hk (op_sat ha hg)).exec hx
  cases q with
  | ret a =>
      refine ⟨hs.2, fun x hm => ?_⟩
      cases a with
      | none => cases hm
      | some y =>
          rw [handedOut, List.mem_singleton] at hm
          exact hs.1 x (congrArg some hm.symm)
  | raise x => exact ⟨hs.2, nofun⟩
  | call e c => exact ⟨hs.1.2, nofun⟩

theorem run_keeps {k₀ : Table} (hk : Inv F k₀) {given : List (String × Option String)}
    (h : Run cfg k₀ k given) : Inv F k ∧ ∀ x ∈ given, Good F x := by
  induction h with
  | start => exact ⟨hk, nofun⟩
  | op _ ha hx ih =>
      obtain ⟨hi, hn⟩ := op_keeps ih.1 ha ih.2 hx
      refine ⟨hi, fun x hm => ?_⟩
      rcases List.mem_append.mp hm with hm | hm
      · exact hn x hm
      · exact ih.2 x hm

/-- Along every sequence of operations each reservation without the tag stays
in Kea's table as it was, and no address it holds is ever allocated. -/
theorem foreign_reservations_untouched {k₀ : Table} (hk : k₀.Wf)
    {given : List (String × Option String)}
    (h : Run cfg k₀ k given) {r : KeaRow} (hr : r ∈ k₀.rows) (ht : tagged r = false) :
    r ∈ k.rows ∧ ∀ x ∈ given, r.ipAddress ≠ some x.1 := by
  have hinv : Inv (k₀.rows.filter (fun r => !tagged r)) k₀ :=
    { wf := hk
      kept := fun r hr => (List.mem_filter.mp hr).1
      only := fun r hr hn => List.mem_filter.mpr ⟨hr, by simp [hn]⟩
      untagged := fun r hr => by simpa using (List.mem_filter.mp hr).2 }
  have hm : r ∈ k₀.rows.filter (fun r => !tagged r) := List.mem_filter.mpr ⟨hr, by simp [ht]⟩
  obtain ⟨hi, hg⟩ := run_keeps hinv h
  exact ⟨hi.kept r hm, fun x hx => (hg x hx).1 r hm⟩

def printer : KeaRow :=
  ⟨some "r0", some "10.0.20.222", some "00:11:22:33:44:55", some "printer", some "office"⟩

def office : Table where
  rows :=
    [printer, ⟨some "r1", some "10.0.20.223", some "bc:24:11:00:00:01", none,
    some "ACMS_SANDBOX: stale"⟩]
  used := ["r0", "r1"]

def sandboxPool : Pool := ⟨0x0A0014DE, 0x0A0014F9⟩

def allocation : PyTrace × Table × Py (Option (String × Option String)) :=
  play Table.answer 40 office ((Op.allocate sandboxPool).prog {})

def takeover : PyTrace × Table × Py (Option (String × Option String)) :=
  play Table.answer 40 allocation.2.1
    ((Op.reserveForMac "10.0.20.223" "BC:24:11:AA:BB:CC" "sbx-1" "work-1" "agent-1"
    (some "r1")).prog {})

theorem office_wf : office.Wf where
  used := by decide
  uuids := by decide
  addresses r hr r' hr' ip h h' := by
    have hu : ∀ r ∈ office.rows, ∀ r' ∈ office.rows, r.ipAddress = r'.ipAddress → r = r' := by
      decide
    exact hu r hr r' hr' (h.trans h'.symm)

theorem allocation_given : handedOut allocation.2.2 = [("10.0.20.223", some "r1")] := by
  decide +kernel

theorem office_printer_untouched :
    printer ∈ takeover.2.1.rows ∧
      ∀ x ∈ handedOut takeover.2.2 ++ (handedOut allocation.2.2 ++ []),
        printer.ipAddress ≠ some x.1 := by
  have hstep : ∀ (t : Table) (e : Eff) (a : Ans e) (t' : Table), t.answer e = some (a, t') →
      Kea.step t e a t' :=
    fun _ _ _ _ h => answer_step h
  have h₁ : Run {} office allocation.2.1 (handedOut allocation.2.2 ++ []) :=
    .op (o := .allocate sandboxPool) .start trivial
      (play_exec id Table.answer hstep 40 office ((Op.allocate sandboxPool).prog {}))
  have hallowed : (Op.reserveForMac "10.0.20.223" "BC:24:11:AA:BB:CC" "sbx-1" "work-1" "agent-1"
      (some "r1")).allowed (handedOut allocation.2.2 ++ []) := by
    rw [allocation_given]
    exact ⟨"10.0.20.223", List.mem_singleton_self _⟩
  have h₂ := Run.op h₁ hallowed (play_exec id Table.answer hstep 40 allocation.2.1 _)
  exact foreign_reservations_untouched office_wf h₂ List.mem_cons_self (by decide)

end ServerManager.ForeignReservations
