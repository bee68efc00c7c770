import Mathlib.Algebra.GroupWithZero.Nat
import Mathlib.Order.Bounds.Basic
import ServerManager.Kea

namespace ServerManager.Allocation

open Interaction Effects SandboxNetwork Kea

theorem dot_not_mem (n : Nat) : '.' ∉ (toString n).toList := by
  intro h
  have hd : '.'.isDigit = true :=
    Nat.isDigit_of_mem_toDigits (b := 10) (n := n) (by decide) (by decide) (by simpa using h)
  exact absurd hd (by decide)

theorem digits_inj {m n : Nat} (h : (toString m).toList = (toString n).toList) : m = n := by
  have hd : Nat.toDigits 10 m = Nat.toDigits 10 n := by simpa using h
  have hv := congrArg (fun ds => Nat.ofDigitChars 10 ds 0) hd
  simpa using hv

theorem split_dot {a a' b b' : List Char} (ha : '.' ∉ a) (ha' : '.' ∉ a')
    (h : a ++ '.' :: b = a' ++ '.' :: b') :
    a = a' ∧ b = b' := by
  induction a generalizing a' with
  | nil =>
      cases a' with
      | nil => simpa using h
      | cons c a' =>
          obtain ⟨rfl, -⟩ := List.cons.inj h
          exact absurd List.mem_cons_self ha'
  | cons c a ih =>
      cases a' with
      | nil =>
          obtain ⟨rfl, -⟩ := List.cons.inj h
          exact absurd List.mem_cons_self ha
      | cons c' a' =>
          obtain ⟨rfl, ht⟩ := List.cons.inj h
          simp only [List.mem_cons, not_or] at ha ha'
          obtain ⟨rfl, rfl⟩ := ih ha.2 ha'.2 ht
          exact ⟨rfl, rfl⟩

theorem ipText_inj {m n : Nat} (hm : m < 2 ^ 32) (hn : n < 2 ^ 32) (h : ipText m = ipText n) :
    m = n := by
  have hl := congrArg String.toList h
  simp only [ipText, String.toList_append, List.append_assoc] at hl
  obtain ⟨h₁, hl⟩ := split_dot (dot_not_mem _) (dot_not_mem _) hl
  obtain ⟨h₂, hl⟩ := split_dot (dot_not_mem _) (dot_not_mem _) hl
  obtain ⟨h₃, hl⟩ := split_dot (dot_not_mem _) (dot_not_mem _) hl
  have h₁ := digits_inj h₁
  have h₂ := digits_inj h₂
  have h₃ := digits_inj h₃
  have h₄ := digits_inj (by simpa using hl)
  omega

/-- The reservation table, the leases and the hosts that are alive, all of
them fixed while an allocation runs. -/
structure Network where
  rows : List KeaRow
  leases : List KeaLease
  live : String → Bool
  /-- An address has at most one reservation. -/
  single : ∀ r ∈ rows, ∀ r' ∈ rows, ∀ ip, r.ipAddress = some ip → r'.ipAddress = some ip → r = r'
  uuids : ∀ r ∈ rows, ∃ u, r.uuid = some u

namespace Network

variable (net : Network)

def foreign (ip : String) : Prop := ∃ r ∈ net.rows, r.ipAddress = some ip ∧ tagged r = false

/-- The address has a tagged reservation with this uuid. -/
def own (ip u : String) : Prop :=
  ∃ r ∈ net.rows, r.ipAddress = some ip ∧ tagged r = true ∧ r.uuid = some u

def leased (ip : String) : Prop := ∃ l ∈ net.leases, l.state = some 0 ∧ l.address = some ip

def free (p : Pool) : Set Nat :=
  fun n => p.first ≤ n ∧ n ≤ p.last ∧ ¬ net.foreign (ipText n) ∧ ¬ net.leased (ipText n) ∧
    net.live (ipText n) = false

/-- The lowest free address with the uuid of its own reservation; no address
where none is free. -/
structure Allocates (p : Pool) (q : Py (String × Option String)) : Prop where
  lowest : ∀ n, IsLeast (net.free p) n →
    ∃ uuid, q = .ret (ipText n, uuid) ∧ ∀ u, uuid = some u ↔ net.own (ipText n) u
  exhausted : net.free p = ∅ → ∃ msg, q = networkError msg

def step : Unit → (e : Eff) → Ans e → Unit → Prop
  | _, .kea .searchReservation, a, _ => a = .ok net.rows
  | _, .kea .searchLeases, a, _ => a = .ok net.leases
  | _, .sys (.ipNeigh ip), out, _ => Option.any answersAlive out = net.live ip
  | _, _, _, _ => True

theorem foreign_iff (n : Nat) : net.foreign (ipText n) ↔
    (reservedAt net.rows (ipText n)).any (fun r => !tagged r) := by
  rw [Option.any_eq_true]
  constructor
  · rintro ⟨r, hr, hip, ht⟩
    cases h : reservedAt net.rows (ipText n) with
    | none => exact absurd hip (not_mem_of_reservedAt_none (ipText_ne_empty n) h r hr)
    | some r' =>
        obtain ⟨hr', hip'⟩ := reservedAt_mem h
        cases net.single r hr r' hr' _ hip hip'
        exact ⟨r, rfl, by simpa using ht⟩
  · rintro ⟨r, hr, ht⟩
    obtain ⟨hm, hip⟩ := reservedAt_mem hr
    exact ⟨r, hm, hip, by simpa using ht⟩

theorem own_iff (n : Nat) (u : String) :
    net.own (ipText n) u ↔ ∃ r, reservedAt net.rows (ipText n) = some r ∧ tagged r = true ∧
      r.uuid = some u := by
  constructor
  · rintro ⟨r, hr, hip, ht, hu⟩
    cases h : reservedAt net.rows (ipText n) with
    | none => exact absurd hip (not_mem_of_reservedAt_none (ipText_ne_empty n) h r hr)
    | some r' =>
        obtain ⟨hr', hip'⟩ := reservedAt_mem h
        cases net.single r hr r' hr' _ hip hip'
        exact ⟨r, rfl, ht, hu⟩
  · rintro ⟨r, hr, ht, hu⟩
    obtain ⟨hm, hip⟩ := reservedAt_mem hr
    exact ⟨r, hm, hip, ht, hu⟩

def leasedIps : List String :=
  net.leases.filterMap (fun r => if r.state = some 0 then r.address.filter (· != "") else none)

theorem leased_iff (n : Nat) : net.leased (ipText n) ↔
    net.leasedIps.contains (ipText n) = true := by
  rw [List.contains_iff_mem]
  simp only [leasedIps, List.mem_filterMap]
  constructor
  · rintro ⟨l, hl, hs, ha⟩
    refine ⟨l, hl, ?_⟩
    simp [hs, ha, ipText_ne_empty]
  · rintro ⟨l, hl, h⟩
    split at h
    next hs =>
        simp only [Option.filter_eq_some_iff] at h
        exact ⟨l, hl, hs, h.1⟩
    · cases h

def candidate (n : Nat) : Bool :=
  !(reservedAt net.rows (ipText n)).any (fun r => !tagged r) && !net.leasedIps.contains (ipText n)

/-- The addresses of the pool that the loop considers, lowest first. -/
def candidates (p : Pool) : List Nat := p.addresses.filter net.candidate

theorem mem_addresses {p : Pool} {n : Nat} : n ∈ p.addresses ↔ p.first ≤ n ∧ n ≤ p.last := by
  simp only [Pool.addresses, List.mem_range'_1]
  omega

theorem mem_free {p : Pool} {n : Nat} : n ∈ net.free p ↔
    n ∈ net.candidates p ∧ net.live (ipText n) = false := by
  have hc : net.candidate n = true ↔ ¬ net.foreign (ipText n) ∧ ¬ net.leased (ipText n) := by
    rw [net.foreign_iff, net.leased_iff]
    simp [candidate]
  rw [candidates, List.mem_filter, mem_addresses, hc]
  constructor
  · rintro ⟨h₁, h₂, h₃, h₄, h₅⟩
    exact ⟨⟨⟨h₁, h₂⟩, h₃, h₄⟩, h₅⟩
  · rintro ⟨⟨⟨h₁, h₂⟩, h₃, h₄⟩, h₅⟩
    exact ⟨h₁, h₂, h₃, h₄, h₅⟩

def handOut (n : Nat) : String × Option String :=
  (ipText n, (reservedAt net.rows (ipText n)).bind (·.uuid))

def settle : Option Nat → Py (String × Option String)
  | some n => .ret (net.handOut n)
  | none => networkError "sandbox DHCP pool exhausted (fail-closed; no general-pool borrow)"

variable {net}

theorem handOut_tagged {n : Nat} {r : KeaRow} {u : String}
    (hr : reservedAt net.rows (ipText n) = some r)
    (hu : r.uuid = some u) : net.handOut n = (ipText n, some u) := by
  simp [handOut, hr, hu]

theorem handOut_free {n : Nat} (hr : reservedAt net.rows (ipText n) = none) :
    net.handOut n = (ipText n, none) := by
  simp [handOut, hr]

theorem uuid_of {n : Nat} {r : KeaRow} (hr : reservedAt net.rows (ipText n) = some r) : ∃ u,
    r.uuid = some u :=
  net.uuids r (reservedAt_mem hr).1

variable {p : Pool}

theorem loop_skip {i : Nat} (hc : net.candidate i = false) (is : List Nat)
    (alive : Option (List String)) :
    allocateLoop p net.rows net.leasedIps (i :: is) alive =
      allocateLoop p net.rows net.leasedIps is alive := by
  rw [allocateLoop]
  cases hr : reservedAt net.rows (ipText i) with
  | some r =>
      cases ht : tagged r with
      | false => simp [ht]
      | true =>
          have hl : ipText i ∈ net.leasedIps := by simpa [candidate, hr, ht] using hc
          simp [ht, hl]
  | none =>
      have hl : ipText i ∈ net.leasedIps := by simpa [candidate, hr] using hc
      simp [hl]

def probes (net : Network) (p : Pool) (i : Nat) : List String :=
  if (reservedAt net.rows (ipText i)).isSome then probeSet p net.rows else [ipText i]

theorem loop_candidate {i : Nat} (hc : net.candidate i = true) (is : List Nat)
    (alive : Option (List String)) :
    allocateLoop p net.rows net.leasedIps (i :: is) alive =
      (aliveOr alive (net.probes p i) >>= fun known =>
        if known.contains (ipText i) then allocateLoop p net.rows net.leasedIps is (some known)
        else .ret (net.handOut i)) := by
  rw [allocateLoop]
  cases hr : reservedAt net.rows (ipText i) with
  | some r =>
      obtain ⟨u, hu⟩ := uuid_of hr
      have hc' : tagged r = true ∧ ipText i ∉ net.leasedIps := by simpa [candidate, hr] using hc
      simp only [probes, hr, hc'.1, hc'.2, hu, handOut_tagged hr hu, List.contains_eq_mem,
        decide_false, Bool.not_true,
        Bool.false_eq_true, if_false, Option.isSome_some, if_true]
      rfl
  | none =>
      have hc' : ipText i ∉ net.leasedIps := by simpa [candidate, hr] using hc
      simp only [probes, hr, hc', handOut_free hr, List.contains_eq_mem, decide_false,
        Bool.false_eq_true, if_false,
        Option.isSome_none]
      rfl

theorem loop_known (known : List String) (is : List Nat) :
    allocateLoop p net.rows net.leasedIps is (some known) =
      net.settle ((is.filter net.candidate).find? (fun n => !known.contains (ipText n))) := by
  induction is with
  | nil => rfl
  | cons i is ih =>
      cases hc : net.candidate i with
      | false => rw [loop_skip hc, ih, List.filter_cons_of_neg (by simp [hc])]
      | true =>
          rw [loop_candidate hc, List.filter_cons_of_pos hc]
          change (if known.contains (ipText i)
            then allocateLoop p net.rows net.leasedIps is (some known)
            else .ret (net.handOut i)) = _
          cases hk : known.contains (ipText i) with
          | true => rw [if_pos rfl, ih, List.find?_cons_of_neg (by simpa using hk)]
          | false =>
              rw [List.find?_cons_of_pos (by simpa using hk)]
              rfl

/-- How the loop ends: the first candidate decides what is probed for all of them. -/
def outcome (net : Network) : List Nat → Py (String × Option String)
  | [] => net.settle none
  | n :: ns =>
      if (reservedAt net.rows (ipText n)).isSome
        then net.settle ((n :: ns).find? (fun m => !net.live (ipText m)))
      else if net.live (ipText n) then net.settle ns.head?
      else net.settle (some n)

/-- The run ends as `r` does. -/
abbrev EndsAs (net : Network) (r p : Py (String × Option String)) : Prop :=
  Sat net.step (fun _ _ => True) (fun _ x => r = .ret x) (fun _ x => r = .raise x) p ()

theorem endsAs_settle (o : Option Nat) : net.EndsAs (net.settle o) (net.settle o) := by
  cases o with
  | none => exact rfl
  | some n => exact rfl

theorem aliveIps_live (ips : List String) :
    Sat net.step (fun _ _ => True) (fun _ known => known = ips.filter net.live) (fun _ _ => False)
      (aliveIps ips) () := by
  induction ips with
  | nil => exact rfl
  | cons ip ips ih =>
      refine (sat_bind _ _ _).mpr ((sat_ipNeigh ip).mpr ⟨trivial, fun out _ ho => ?_⟩)
      have ho' : Option.any answersAlive out = net.live ip := ho
      refine Sat.seq ih fun _ known hk => ?_
      simp [hk, ho', List.filter_cons]

theorem mem_probeSet {n : Nat} (hn : n ∈ p.addresses) (hc : net.candidate n = true) :
    ipText n ∈ probeSet p net.rows := by
  refine List.mem_filter.mpr ⟨List.mem_map_of_mem hn, ?_⟩
  cases hr : reservedAt net.rows (ipText n) with
  | none => simp
  | some r =>
      have ht : tagged r = true ∧ ipText n ∉ net.leasedIps := by simpa [candidate, hr] using hc
      simp [smOwned, hr, ht.1]

theorem probed {n : Nat} (hn : n ∈ p.addresses) (hc : net.candidate n = true) :
    ((probeSet p net.rows).filter net.live).contains (ipText n) = net.live (ipText n) := by
  rw [Bool.eq_iff_iff, List.contains_iff_mem, List.mem_filter]
  exact ⟨fun h => h.2, fun h => ⟨mem_probeSet hn hc, h⟩⟩

theorem find?_congr {α : Type} {f g : α → Bool} {xs : List α} (h : ∀ x ∈ xs, f x = g x) :
    xs.find? f = xs.find? g := by
  induction xs with
  | nil => rfl
  | cons x xs ih =>
      simp [List.find?_cons, h x List.mem_cons_self, ih fun y hy => h y (List.mem_cons_of_mem _ hy)]

theorem probed_alone {i : Nat} {ns : List Nat} (hne : ∀ n ∈ ns, ipText n ≠ ipText i) :
    (i :: ns).find? (fun n => !([ipText i].filter net.live).contains (ipText n)) =
      if net.live (ipText i) then ns.head? else some i := by
  cases hl : net.live (ipText i) with
  | false => simp [hl]
  | true =>
      cases ns with
      | nil => simp [hl]
      | cons n ns => simp [hl, hne n List.mem_cons_self]

theorem loop_ends {is : List Nat} (his : ∀ i ∈ is, i ∈ p.addresses)
    (hinj : is.Pairwise (fun m n => ipText n ≠ ipText m)) :
    net.EndsAs (net.outcome (is.filter net.candidate))
      (allocateLoop p net.rows net.leasedIps is none) := by
  induction is with
  | nil => exact rfl
  | cons i is ih =>
      obtain ⟨hi, hinj⟩ := List.pairwise_cons.mp hinj
      cases hc : net.candidate i with
      | false =>
          rw [loop_skip hc, List.filter_cons_of_neg (by simp [hc])]
          exact ih (fun j hj => his j (List.mem_cons_of_mem _ hj)) hinj
      | true =>
          rw [loop_candidate hc]
          refine (sat_bind _ _ _).mpr ((aliveIps_live _).mono (fun _ known hk => ?_) fun _ _ h =>
            h.elim)
          -- with the set known, the rest of the loop only asks it
          have hloop :=
            (loop_candidate hc is (some known)).symm.trans (loop_known (p := p) known (i :: is))
          change (if known.contains (ipText i)
            then allocateLoop p net.rows net.leasedIps is (some known)
            else .ret (net.handOut i)) = _ at hloop
          have hsettled : net.settle ((i :: is.filter net.candidate).find?
              (fun n => !known.contains (ipText n))) =
              net.outcome (i :: is.filter net.candidate) := by
            rw [hk, outcome, probes]
            cases (reservedAt net.rows (ipText i)).isSome with
            | true =>
                have hlive : ∀ n ∈ i :: is.filter net.candidate,
                    (!((probeSet p net.rows).filter net.live).contains (ipText n)) =
                      !net.live (ipText n) := by
                  intro n hn
                  rw [← List.filter_cons_of_pos hc] at hn
                  obtain ⟨hn, hcn⟩ := List.mem_filter.mp hn
                  rw [probed (his n hn) hcn]
                exact congrArg net.settle (find?_congr hlive)
            | false =>
                have hne : ∀ n ∈ is.filter net.candidate, ipText n ≠ ipText i :=
                  fun n hn => hi n (List.mem_of_mem_filter hn)
                have halone : _ = if net.live (ipText i) then _ else some i := probed_alone hne
                cases hl : net.live (ipText i) with
                | true => simpa [hl] using congrArg net.settle halone
                | false => simp [hl]
          rw [hloop, List.filter_cons_of_pos hc, hsettled, ← hsettled]
          exact endsAs_settle _

theorem addresses_inj (hp : p.last < 2 ^ 32) :
    p.addresses.Pairwise (fun m n => ipText n ≠ ipText m) := by
  refine List.Pairwise.imp_of_mem ?_ (List.pairwise_lt_range' (s := p.first)
    (n := p.last + 1 - p.first))
  intro m n hm hn hlt h
  have hm' := (mem_addresses.mp hm).2
  have hn' := (mem_addresses.mp hn).2
  have := ipText_inj (by omega) (by omega) h
  omega

theorem allocate_ends (hp : p.last < 2 ^ 32) :
    net.EndsAs (net.outcome (net.candidates p)) (allocate p) := by
  unfold allocate activeLeaseIps
  refine (sat_bind _ _ _).mpr (sat_searchReservation.mpr ⟨trivial, fun a _ ha => ?_⟩)
  rw [show a = .ok net.rows from ha]
  refine (sat_bind _ _ _).mpr ((sat_bind _ _ _).mpr
    (sat_searchLeases.mpr ⟨trivial, fun a _ ha => ?_⟩))
  rw [show a = .ok net.leases from ha]
  exact loop_ends (fun i hi => hi) (addresses_inj hp)

def lowest (net : Network) (p : Pool) : Option Nat :=
  (net.candidates p).find? (fun n => !net.live (ipText n))

theorem lowest_least {n : Nat} (h : net.lowest p = some n) : IsLeast (net.free p) n := by
  have hsort : (net.candidates p).Pairwise (· < ·) := List.Pairwise.filter _ List.pairwise_lt_range'
  obtain ⟨hlive, before, after, hsplit, hbefore⟩ := List.find?_eq_some_iff_append.mp h
  have hn : n ∈ net.candidates p := by simp [hsplit]
  refine ⟨net.mem_free.mpr ⟨hn, by simpa using hlive⟩, fun m hm => ?_⟩
  obtain ⟨hm, hml⟩ := net.mem_free.mp hm
  rw [hsplit, List.mem_append, List.mem_cons] at hm
  rw [hsplit, List.pairwise_append] at hsort
  rcases hm with hm | rfl | hm
  · have := hbefore m hm
    simp [hml] at this
  · exact le_refl m
  · exact le_of_lt ((List.pairwise_cons.mp hsort.2.1).1 m hm)

theorem lowest_none (h : net.lowest p = none) : net.free p = ∅ := by
  rw [Set.eq_empty_iff_forall_notMem]
  intro m hm
  obtain ⟨hm, hl⟩ := net.mem_free.mp hm
  have := List.find?_eq_none.mp h m hm
  simp [hl] at this

theorem handOut_own {n : Nat} (hc : net.candidate n = true) :
    ∀ u, (net.handOut n).2 = some u ↔ net.own (ipText n) u := by
  intro u
  rw [net.own_iff]
  cases hr : reservedAt net.rows (ipText n) with
  | none => simp [handOut, hr]
  | some r =>
      have ht : tagged r = true ∧ ipText n ∉ net.leasedIps := by simpa [candidate, hr] using hc
      simp [handOut, hr, ht.1]

theorem candidate_lt (hp : p.last < 2 ^ 32) {n : Nat} (hn : n ∈ net.candidates p) : n < 2 ^ 32 := by
  have := (mem_addresses.mp (List.mem_of_mem_filter hn)).2
  omega

theorem allocates_settle (hp : p.last < 2 ^ 32) {o : Option Nat}
    (ho : ∀ m, o = some m → m ∈ net.candidates p) :
    net.Allocates p (net.settle o) ↔ o = net.lowest p := by
  constructor
  · intro h
    cases hl : net.lowest p with
    | none =>
        obtain ⟨msg, hmsg⟩ := h.exhausted (lowest_none hl)
        cases o with
        | none => rfl
        | some m => cases hmsg
    | some n =>
        obtain ⟨uuid, hret, -⟩ := h.lowest n (lowest_least hl)
        cases o with
        | none => cases hret
        | some m =>
            have hpair : net.handOut m = (ipText n, uuid) := by
              injection hret
            have hip : ipText m = ipText n := congrArg Prod.fst hpair
            have hn := net.mem_free.mp (lowest_least hl).1
            rw [ipText_inj (candidate_lt hp (ho m rfl)) (candidate_lt hp hn.1) hip]
  · rintro rfl
    cases hl : net.lowest p with
    | none =>
        refine ⟨fun n hn => ?_, fun _ => ⟨_, rfl⟩⟩
        rw [lowest_none hl] at hn
        exact hn.1.elim
    | some n =>
        have hleast := lowest_least hl
        refine ⟨fun m hm => ?_, fun he => ?_⟩
        · rw [hm.unique hleast]
          have hc := (List.mem_filter.mp (net.mem_free.mp hleast.1).1).2
          exact ⟨(net.handOut n).2, rfl, handOut_own hc⟩
        · have hn := hleast.1
          rw [he] at hn
          exact hn.elim

theorem outcome_allocates (hp : p.last < 2 ^ 32) :
    net.Allocates p (net.outcome (net.candidates p)) ↔ ∀ n m ns, net.candidates p = n :: m :: ns →
      (∃ u, net.own (ipText n) u) ∨ net.live (ipText n) = false ∨ net.live (ipText m) = false := by
  cases hcs : net.candidates p with
  | nil =>
      have hnone : none = net.lowest p := by rw [lowest, hcs]; rfl
      exact iff_of_true ((allocates_settle hp fun m hm => by cases hm).2 hnone) fun n m ns he => by
        cases he
  | cons n ns =>
      have hmem : ∀ m ∈ n :: ns, m ∈ net.candidates p := fun m hm => hcs ▸ hm
      have hn := hmem n List.mem_cons_self
      have hown : (reservedAt net.rows (ipText n)).isSome = true ↔ ∃ u, net.own (ipText n) u := by
        simp only [← handOut_own (List.mem_filter.mp hn).2]
        cases hr : reservedAt net.rows (ipText n) with
        | none => simp [handOut, hr]
        | some r =>
            obtain ⟨u, hu⟩ := uuid_of hr
            simp [handOut, hr, hu]
      have hlow : net.lowest p = (n :: ns).find? (fun m => !net.live (ipText m)) := by
        rw [lowest, hcs]
      rw [outcome]
      by_cases hr : (reservedAt net.rows (ipText n)).isSome = true
      · rw [if_pos hr, ← hlow]
        have ho : ∀ m, net.lowest p = some m → m ∈ net.candidates p :=
          fun m hm => List.mem_of_find?_eq_some hm
        refine iff_of_true ((allocates_settle hp ho).2 rfl) fun n' m ns' he => .inl ?_
        cases he
        exact hown.1 hr
      · rw [if_neg hr]
        cases hl : net.live (ipText n) with
        | false =>
            have ho : ∀ m, some n = some m → m ∈ net.candidates p := fun m hm => by
              cases hm; exact hn
            refine iff_of_true ((allocates_settle hp ho).2 ?_) fun n' m ns' he => .inr (.inl ?_)
            · rw [hlow, List.find?_cons_of_pos (by simp [hl])]
            · cases he
              exact hl
        | true =>
            rw [if_pos rfl, allocates_settle hp fun m hm =>
              hmem m (List.mem_cons_of_mem _ (List.mem_of_mem_head? hm)),
              hlow, List.find?_cons_of_neg (by simp [hl])]
            cases ns with
            | nil => exact iff_of_true rfl fun n' m ns' he => by cases he
            | cons m ns =>
                -- the second candidate is handed out unprobed
                constructor
                · intro h n' m' ns' he
                  cases he
                  have hm := List.find?_some h.symm
                  exact .inr (.inr (by simpa using hm))
                · intro h
                  rcases h n m ns rfl with hu | hl' | hm
                  · exact absurd (hown.2 hu) hr
                  · rw [hl] at hl'
                    cases hl'
                  · rw [List.find?_cons_of_pos (by simp [hm])]
                    rfl

theorem run_outcome (hp : p.last < 2 ^ 32) {tr : PyTrace} {q : Py (String × Option String)}
    (hx : Exec net.step () (allocate p) tr () q) (hq : ∀ e k, q ≠ .call e k) :
    net.outcome (net.candidates p) = q := by
  have h := (allocate_ends hp).exec hx
  cases q with
  | ret x => exact h
  | raise x => exact h
  | call e k => exact absurd rfl (hq e k)

/-- The allocation finds the lowest free address unless its first candidate has
no reservation and is alive, and the second is alive too. -/
theorem allocates_iff (hp : p.last < 2 ^ 32) {tr : PyTrace} {q : Py (String × Option String)}
    (hx : Exec net.step () (allocate p) tr () q) (hq : ∀ e k, q ≠ .call e k) :
    net.Allocates p q ↔ ∀ n m ns, net.candidates p = n :: m :: ns →
      (∃ u, net.own (ipText n) u) ∨ net.live (ipText n) = false ∨ net.live (ipText m) = false := by
  rw [← run_outcome hp hx hq]
  exact outcome_allocates hp

end Network

def neighbours (hosts : List String) : Network where
  rows := []
  leases := []
  live ip := hosts.contains ip
  single := fun _ hr => absurd hr List.not_mem_nil
  uuids := fun _ hr => absurd hr List.not_mem_nil

def pool : Pool := ⟨167777502, 167777504⟩

def answer (hosts : List String) (_ : Unit) : (e : Eff) → Option (Ans e × Unit)
  | .kea .searchReservation => some (Except.ok [], ())
  | .kea .searchLeases => some (Except.ok [], ())
  | .sys (.ipNeigh ip) => some ((if hosts.contains ip then some "lladdr" else none), ())
  | _ => none

theorem answer_step (hosts : List String) (t : Unit) (e : Eff) (a : Ans e) (t' : Unit)
    (h : answer hosts t e = some (a, t')) : (neighbours hosts).step () e a () := by
  cases e with
  | pve c => cases h
  | db c => cases h
  | kea c =>
      cases c with
      | searchReservation | searchLeases =>
          cases h
          rfl
      | searchSubnet | addReservation | delReservation | reconfigure => cases h
  | sys c =>
      cases c with
      | ipNeigh ip =>
          cases h
          change Option.any answersAlive (if hosts.contains ip then some "lladdr" else none) =
            hosts.contains ip
          cases hosts.contains ip with
          | true => decide
          | false => rfl
      | now | sleep | polls | randbelow | uuid4 | tokenUrlsafe | guestExec | leaseInventory =>
          cases h

theorem run (hosts : List String) (n : Nat) :
    Exec (neighbours hosts).step () (allocate pool) (play (answer hosts) n () (allocate pool)).1 ()
      (play (answer hosts) n () (allocate pool)).2.2 :=
  play_exec (fun _ => ()) (answer hosts) (fun t e a t' h => answer_step hosts t e a t' h) n ()
    (allocate pool)

/-- With the first two addresses alive, the second is handed out. -/
theorem second_unprobed :
    ¬ ∀ (net : Network) (p : Pool) (tr : PyTrace) (q : Py (String × Option String)),
      p.last < 2 ^ 32 →
      Exec net.step () (allocate p) tr () q → (∀ e k, q ≠ .call e k) → net.Allocates p q := by
  intro h
  have hend : (play (answer ["10.0.20.222", "10.0.20.223"]) 3 () (allocate pool)).2.2.ended =
      true := by decide +kernel
  have hall :=
    h _ pool _ _ (by decide) (run ["10.0.20.222", "10.0.20.223"] 3) (Prog.ended_ne_call hend)
  rw [← Network.run_outcome (by decide) (run _ 3) (Prog.ended_ne_call hend)] at hall
  have hcs : (neighbours ["10.0.20.222", "10.0.20.223"]).candidates pool =
      [167777502, 167777503, 167777504] := by
    decide +kernel
  rcases (Network.outcome_allocates (by decide)).1 hall _ _ _ hcs with ⟨u, r, hr, -⟩ | hl | hl
  · cases hr
  · exact absurd hl (by decide +kernel)
  · exact absurd hl (by decide +kernel)

/-- With only the first alive, the second is the right answer. -/
theorem second_allocated :
    (neighbours ["10.0.20.222"]).Allocates pool
    (play (answer ["10.0.20.222"]) 3 () (allocate pool)).2.2 := by
  have hend : (play (answer ["10.0.20.222"]) 3 () (allocate pool)).2.2.ended = true := by
    decide +kernel
  refine (Network.allocates_iff (by decide) (run ["10.0.20.222"] 3) (Prog.ended_ne_call hend)).2
    fun n m ns hcs => .inr (.inr ?_)
  have hcs' : (neighbours ["10.0.20.222"]).candidates pool = [167777502, 167777503, 167777504] := by
    decide +kernel
  rw [hcs'] at hcs
  cases hcs
  decide +kernel

end ServerManager.Allocation
