import ServerManager.Storage
import ServerManager.SandboxNetwork

namespace ServerManager.Kea

open Interaction Effects Storage SandboxNetwork

/-- Kea's reservation table and every uuid it has ever given out. -/
structure Table where
  rows : List KeaRow
  used : List String

namespace Table

/-- Every reservation has a uuid of its own and an address of its own. -/
structure Wf (k : Table) : Prop where
  used : ∀ r ∈ k.rows, ∃ u ∈ k.used, r.uuid = some u
  uuids : ∀ r ∈ k.rows, ∀ r' ∈ k.rows, r.uuid = r'.uuid → r = r'
  addresses : ∀ r ∈ k.rows, ∀ r' ∈ k.rows, ∀ ip, r.ipAddress = some ip → r'.ipAddress = some ip →
    r = r'

def add (k : Table) (u ip hw hostname description : String) : Table where
  rows := k.rows ++ [⟨some u, some ip, some hw, some hostname, some description⟩]
  used := u :: k.used

def remove (k : Table) (u : String) : Table :=
  { k with rows := k.rows.filter (fun r => r.uuid ≠ some u) }

/-- Kea's answers. A search lists the whole table, in any order; an address has
one reservation at most, uuids are never used again, and a change whose answer
is not the confirmation may have been made or not. -/
def call (k : Table) : (c : KeaCall) → KeaAns c → Table → Prop
  | .searchReservation, a, k' => k' = k ∧ ∀ rows, a = .ok rows → rows.Perm k.rows
  | .addReservation _ ip hw hostname description, a, k' =>
      (k' = k ∧ ∀ u, a ≠ .ok (some "saved", some u)) ∨
        ∃ u, u ∉ k.used ∧ (∀ r ∈ k.rows, r.ipAddress ≠ some ip) ∧
          (∀ v, a = .ok (some "saved", some v) → v = u) ∧ k' = k.add u ip hw hostname description
  | .delReservation u, a, k' => k' = k.remove u ∨ (k' = k ∧ a ≠ .ok (some "deleted"))
  | _, _, k' => k' = k

theorem mem_remove {k : Table} {u : String} {r : KeaRow} :
    r ∈ (k.remove u).rows ↔ r ∈ k.rows ∧ r.uuid ≠ some u := by
  simp [remove]

theorem mem_add {k : Table} {u ip hw hostname description : String} {r : KeaRow} :
    r ∈ (k.add u ip hw hostname description).rows ↔
      r ∈ k.rows ∨ r = ⟨some u, some ip, some hw, some hostname, some description⟩ := by
  simp [add]

theorem Wf.remove {k : Table} (h : k.Wf) (u : String) : (k.remove u).Wf where
  used r hr := h.used r (mem_remove.mp hr).1
  uuids r hr r' hr' := h.uuids r (mem_remove.mp hr).1 r' (mem_remove.mp hr').1
  addresses r hr r' hr' := h.addresses r (mem_remove.mp hr).1 r' (mem_remove.mp hr').1

theorem Wf.add {k : Table} (h : k.Wf) {u ip hw hostname description : String} (hu : u ∉ k.used)
    (hip : ∀ r ∈ k.rows, r.ipAddress ≠ some ip) : (k.add u ip hw hostname description).Wf where
  used r hr := by
    rcases mem_add.mp hr with hr | rfl
    · obtain ⟨v, hv, he⟩ := h.used r hr
      exact ⟨v, List.mem_cons_of_mem _ hv, he⟩
    · exact ⟨u, List.mem_cons_self, rfl⟩
  uuids r hr r' hr' he := by
    have hfresh : ∀ x ∈ k.rows, x.uuid ≠ some u := by
      intro x hx hxu
      obtain ⟨v, hv, hxv⟩ := h.used x hx
      rw [hxu] at hxv
      cases hxv
      exact hu hv
    rcases mem_add.mp hr with hr | rfl
    · rcases mem_add.mp hr' with hr' | rfl
      · exact h.uuids r hr r' hr' he
      · exact absurd he (hfresh r hr)
    · rcases mem_add.mp hr' with hr' | rfl
      · exact absurd he.symm (hfresh r' hr')
      · rfl
  addresses r hr r' hr' a ha ha' := by
    rcases mem_add.mp hr with hr | rfl
    · rcases mem_add.mp hr' with hr' | rfl
      · exact h.addresses r hr r' hr' a ha ha'
      · cases ha'
        exact absurd ha (hip r hr)
    · cases ha
      rcases mem_add.mp hr' with hr' | rfl
      · exact absurd ha' (hip r' hr')
      · rfl

theorem Wf.call {k k' : Table} (h : k.Wf) {c : KeaCall} {a : KeaAns c} (hc : k.call c a k') :
    k'.Wf := by
  cases c with
  | searchReservation => rw [hc.1]; exact h
  | searchLeases | searchSubnet | reconfigure => rw [show k' = k from hc]; exact h
  | addReservation subnet ip hw hostname description =>
      rcases hc with ⟨rfl, -⟩ | ⟨u, hu, hip, -, rfl⟩
      · exact h
      · exact h.add hu hip
  | delReservation u =>
      rcases hc with rfl | ⟨rfl, -⟩
      · exact h.remove u
      · exact h

end Table

/-- Kea beside a Proxmox and a network that may answer anything. -/
def remote : Remote Table where
  pve k _ _ k' := k' = k
  kea := Table.call
  neigh _ _ _ := True

/-- The calls of one process, as far as they concern Kea. -/
def step (k : Table) : (e : Eff) → Ans e → Table → Prop
  | .kea c, a, k' => k.call c a k'
  | _, _, k' => k' = k

/-- A Kea that does what it is asked: it refuses an address that is taken and
has neither leases nor live hosts. -/
def Table.answer (k : Table) : (e : Eff) → Option (Ans e × Table)
  | .kea .searchReservation => some (.ok k.rows, k)
  | .kea .searchLeases => some (.ok [], k)
  | .kea .searchSubnet => some (.ok [⟨some "sandbox-subnet", none⟩], k)
  | .kea (.addReservation _ ip hw hostname description) =>
      let u := s!"r{k.used.length}"
      if u ∉ k.used ∧ ∀ r ∈ k.rows, r.ipAddress ≠ some ip then
        some (.ok (some "saved", some u), k.add u ip hw hostname description)
      else some (.ok (some "failed", none), k)
  | .kea (.delReservation u) => some (.ok (some "deleted"), k.remove u)
  | .kea .reconfigure => some (.ok (some "ok"), k)
  | .sys (.ipNeigh _) => some (none, k)
  | _ => none

theorem answer_step {k k' : Table} {e : Eff} {a : Ans e} (h : k.answer e = some (a, k')) :
    step k e a k' := by
  unfold Table.answer at h
  split at h
  · cases h
    exact ⟨rfl, fun rows hr => by cases hr; exact .refl _⟩
  · cases h; rfl
  · cases h; rfl
  next ip hw hostname description =>
      dsimp only at h
      split at h
      next hfree =>
          cases h
          refine .inr ⟨_, hfree.1, hfree.2, fun v hv => ?_, rfl⟩
          cases hv
          rfl
      next =>
          cases h
          refine .inl ⟨rfl, fun u hu => ?_⟩
          have hsnd := congrArg Prod.snd (Except.ok.inj hu)
          cases hsnd
  · cases h
    exact .inl rfl
  · cases h; rfl
  · cases h; rfl
  · cases h

theorem reservedAt_mem {rows : List KeaRow} {ip : String} {r : KeaRow}
    (h : reservedAt rows ip = some r) :
    r ∈ rows ∧ r.ipAddress = some ip := by
  unfold reservedAt at h
  split at h
  · cases h
  · have hm := List.mem_of_find?_eq_some h
    have hp := List.find?_some h
    exact ⟨List.mem_reverse.mp hm, by simpa using hp⟩

theorem not_mem_of_reservedAt_none {rows : List KeaRow} {ip : String} (hne : ip ≠ "")
    (h : reservedAt rows ip = none) : ∀ r ∈ rows, r.ipAddress ≠ some ip := by
  intro r hr he
  unfold reservedAt at h
  rw [if_neg hne] at h
  have hn := List.find?_eq_none.mp h r (List.mem_reverse.mpr hr)
  exact hn (by simpa using he)

theorem ipText_ne_empty (n : Nat) : ipText n ≠ "" := by
  intro h
  have hl := congrArg String.toList h
  unfold ipText at hl
  simp at hl

/-- What an allocation returns, for the rows it has read: an address of the
pool without a reservation, or with a tagged one and its uuid. -/
structure Candidate (p : Pool) (rows : List KeaRow) (x : String × Option String) : Prop where
  pool : x.1 ∈ p.addresses.map ipText
  free : x.2 = none → reservedAt rows x.1 = none
  reused : ∀ u, x.2 = some u → ∃ r, reservedAt rows x.1 = some r ∧ tagged r = true ∧ r.uuid = some u

theorem Candidate.ne_empty {p : Pool} {rows : List KeaRow} {x : String × Option String}
    (h : Candidate p rows x) : x.1 ≠ "" := by
  obtain ⟨n, -, hn⟩ := List.mem_map.mp h.pool
  rw [← hn]
  exact ipText_ne_empty n

section Allocate

variable {S : Type} {step : S → (e : Eff) → Ans e → S → Prop} {G : S → Eff → Prop} {s : S}
  {p : Pool} {rows : List KeaRow} {leased : List String}

theorem aliveIps_sat {I : S → Prop} (hG : ∀ s ip, I s → G s (.sys (.ipNeigh ip)))
    (hI : ∀ s ip a s', I s → step s (.sys (.ipNeigh ip)) a s' → I s') (ips : List String)
    (hs : I s) :
    Sat step G (fun s _ => I s) (fun s _ => I s) (aliveIps ips) s := by
  induction ips generalizing s with
  | nil => exact hs
  | cons ip ips ih =>
      refine (sat_bind _ _ _).mpr ((sat_ipNeigh ip).mpr ⟨hG s ip hs, fun out s' hst => ?_⟩)
      exact Sat.seq (ih (hI s ip out s' hs hst)) fun s _ hs => hs

theorem aliveOr_sat {I : S → Prop} (hG : ∀ s ip, I s → G s (.sys (.ipNeigh ip)))
    (hI : ∀ s ip a s', I s → step s (.sys (.ipNeigh ip)) a s' → I s') (alive : Option (List String))
    (ips : List String) (hs : I s) : Sat step G (fun s _ => I s) (fun s _ => I s)
    (aliveOr alive ips) s := by
  cases alive with
  | some known => exact hs
  | none => exact aliveIps_sat hG hI ips hs

theorem allocateLoop_sat {I : S → Prop} (hG : ∀ s ip, I s → G s (.sys (.ipNeigh ip)))
    (hI : ∀ s ip a s', I s → step s (.sys (.ipNeigh ip)) a s' → I s') (is : List Nat)
    (his : ∀ i ∈ is, i ∈ p.addresses) (alive : Option (List String)) (hs : I s) :
    Sat step G (fun s x => I s ∧ Candidate p rows x) (fun s _ => I s)
      (allocateLoop p rows leased is alive) s := by
  induction is generalizing s alive with
  | nil => exact hs
  | cons i is ih =>
      have hin : ipText i ∈ p.addresses.map ipText := List.mem_map_of_mem (his i List.mem_cons_self)
      have ih' := fun alive {s} => ih (s := s) (fun j hj => his j (List.mem_cons_of_mem _ hj)) alive
      rw [allocateLoop]
      split
      next r hr =>
          split
          · exact ih' alive hs
          next ht =>
              split
              · exact ih' alive hs
              · refine Sat.seq (aliveOr_sat hG hI alive _ hs) fun s known hs => ?_
                split
                · exact ih' (some known) hs
                · split
                  next u hu =>
                      refine ⟨hs, hin, nofun, fun v hv => ?_⟩
                      cases hv
                      exact ⟨r, hr, by simpa using ht, hu⟩
                  · exact hs
      next hr =>
          split
          · exact ih' alive hs
          · refine Sat.seq (aliveOr_sat hG hI alive _ hs) fun s known hs => ?_
            split
            · exact ih' (some known) hs
            · exact ⟨hs, hin, fun _ => hr, nofun⟩

end Allocate

end ServerManager.Kea
