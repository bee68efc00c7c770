import ServerManager.Presets

namespace ServerManager.PresetRows

open PyJson Presets RecencyList

structure Entry where
  id : Int
  name : String
  content : String

def entryOf (p : Preset) : Entry := ⟨p.id, p.friendlyName, p.content⟩

def entries (s : Store) (ip : String) : List Entry := (s.listed ip).map entryOf

/-- After `n` requests. -/
structure Inv (sha256 : String → String) (n : Nat) (s : Store) : Prop where
  ids : (s.rows.map (·.id)).Nodup
  fresh : ∀ p ∈ s.rows, p.id < s.next
  engine : ∀ p ∈ s.rows, p.engine = engineForIp p.scopeKey
  hash : ∀ p ∈ s.rows, p.contentHash = sha256 p.content
  orders : ∀ ip, ((s.ofHost ip).map (·.sortOrder)).Nodup
  contents : ∀ ip, ((s.ofHost ip).map (·.content)).Nodup
  range : ∀ p ∈ s.rows, p.deleted = false → -(n : Int) ≤ p.sortOrder ∧ p.sortOrder ≤ n
  few : ∀ ip, (s.ofHost ip).length ≤ n

variable {sha256 : String → String} {idOf : Json → Except Answer (Option Int)} {n m : Nat}
  {s s' : Store} {ip : String} {L : List Preset}

theorem mem_ofHost {p : Preset} : p ∈ s.ofHost ip ↔
    p ∈ s.rows ∧ p.scopeKey = ip ∧ p.deleted = false := by
  simp [Store.ofHost]

theorem precedes_refines : Refines (·.sortOrder) precedes := by
  refine ⟨fun a b c => ?_, fun a b => ?_, fun a b => ?_, fun a b => ?_⟩
  · simp only [precedes, Bool.or_eq_true, Bool.and_eq_true, decide_eq_true_eq, beq_iff_eq]
    omega
  · simp only [precedes, Bool.or_eq_true, Bool.and_eq_true, decide_eq_true_eq, beq_iff_eq]
    omega
  · simp only [precedes, Bool.or_eq_true, Bool.and_eq_true, decide_eq_true_eq, beq_iff_eq]
    omega
  · simp only [precedes, Bool.or_eq_true, Bool.and_eq_true, decide_eq_true_eq, beq_iff_eq]
    omega

theorem active_eq (he : ∀ p ∈ s.rows, p.engine = engineForIp p.scopeKey) (ip : String) :
    s.active ip = s.ofHost ip := by
  apply List.filter_congr
  intro p hp
  by_cases hk : p.scopeKey = ip
  · simp [hk, he p hp]
  · simp [hk]

theorem Inv.listed_perm (h : Inv sha256 n s) (ip : String) : (s.listed ip).Perm (s.ofHost ip) := by
  rw [← active_eq h.engine]
  exact List.mergeSort_perm _ _

theorem Inv.listed_ranked (h : Inv sha256 n s) (ip : String) :
    Ranked (·.sortOrder) (s.listed ip) := by
  rw [Store.listed, active_eq h.engine]
  exact ranked_mergeSort precedes_refines (h.orders ip)

theorem Inv.host_ids (h : Inv sha256 n s) (ip : String) : ((s.ofHost ip).map (·.id)).Nodup :=
  h.ids.sublist (List.filter_sublist.map _)

theorem Inv.listed_ids (h : Inv sha256 n s) (ip : String) : ((s.listed ip).map (·.id)).Nodup :=
  ((h.listed_perm ip).map _).nodup_iff.mpr (h.host_ids ip)

theorem Inv.entry_ids (h : Inv sha256 n s) (ip : String) : ((entries s ip).map Entry.id).Nodup := by
  rw [entries, List.map_map]
  exact h.listed_ids ip

theorem Inv.entry_contents (h : Inv sha256 n s) (ip : String) :
    ((entries s ip).map Entry.content).Nodup := by
  rw [entries, List.map_map]
  exact ((h.listed_perm ip).map _).nodup_iff.mpr (h.contents ip)

theorem Inv.same (h : Inv sha256 n s) {p q : Preset} (hp : p ∈ s.rows) (hq : q ∈ s.rows)
    (hpq : p.id = q.id) : p = q :=
  List.inj_on_of_nodup_map h.ids hp hq hpq

theorem Inv.mono (h : Inv sha256 n s) (hm : n ≤ m) : Inv sha256 m s := by
  refine ⟨h.ids, h.fresh, h.engine, h.hash, h.orders, h.contents, fun p hp hd => ?_,
    fun ip => Nat.le_trans (h.few ip) hm⟩
  have hr := h.range p hp hd
  omega

theorem listed_eq (he : ∀ p ∈ s.rows, p.engine = engineForIp p.scopeKey) (hp : L.Perm (s.ofHost ip))
    (hr : Ranked (·.sortOrder) L) : s.listed ip = L := by
  rw [Store.listed, active_eq he]
  exact hr.mergeSort_eq precedes_refines hp

theorem entries_congr (he : ∀ p ∈ s.rows, p.engine = engineForIp p.scopeKey)
    (he' : ∀ p ∈ s'.rows, p.engine = engineForIp p.scopeKey) (h : s'.ofHost ip = s.ofHost ip) :
    entries s' ip = entries s ip := by
  rw [entries, entries, Store.listed, Store.listed, active_eq he, active_eq he', h]

variable {c : Preset → Bool} {f : Preset → Preset}

def core (p : Preset) : Int × String × String × String × String × Bool :=
  (p.id, p.scopeKey, p.engine, p.content, p.contentHash, p.deleted)

def Keeps (f : Preset → Preset) : Prop := ∀ p, core (f p) = core p

theorem Keeps.id (h : Keeps f) (p : Preset) : (f p).id = p.id := congrArg (·.1) (h p)

theorem Keeps.scopeKey (h : Keeps f) (p : Preset) : (f p).scopeKey = p.scopeKey :=
  congrArg (·.2.1) (h p)

theorem Keeps.engine (h : Keeps f) (p : Preset) : (f p).engine = p.engine :=
  congrArg (·.2.2.1) (h p)

theorem Keeps.content (h : Keeps f) (p : Preset) : (f p).content = p.content :=
  congrArg (·.2.2.2.1) (h p)

theorem Keeps.contentHash (h : Keeps f) (p : Preset) : (f p).contentHash = p.contentHash :=
  congrArg (·.2.2.2.2.1) (h p)

theorem Keeps.deleted (h : Keeps f) (p : Preset) : (f p).deleted = p.deleted :=
  congrArg (·.2.2.2.2.2) (h p)

def change (c : Preset → Bool) (f : Preset → Preset) (p : Preset) : Preset := if c p then f p else p

theorem Keeps.change (h : Keeps f) (c : Preset → Bool) : Keeps (change c f) := by
  intro p
  rw [PresetRows.change]
  split
  · exact h p
  · rfl

theorem update_rows : (s.update c f).rows = s.rows.map (change c f) := rfl

theorem ofHost_map (hf : Keeps f) (rows : List Preset) (next next' : Int) (ip : String) :
    Store.ofHost ⟨rows.map f, next⟩ ip = (Store.ofHost ⟨rows, next'⟩ ip).map f := by
  rw [Store.ofHost, Store.ofHost, List.filter_map]
  congr 1
  apply List.filter_congr
  intro p _
  simp [hf.scopeKey, hf.deleted]

theorem Inv.map (h : Inv sha256 n s) (hf : Keeps f)
    (hL : ∀ ip, (((s.ofHost ip).map f).map (·.sortOrder)).Nodup)
    (hr : ∀ p ∈ s.rows, p.deleted = false → -(m : Int) ≤ (f p).sortOrder ∧ (f p).sortOrder ≤ m)
    (hm : n ≤ m) :
    Inv sha256 m ⟨s.rows.map f, s.next⟩ := by
  have hhost : ∀ ip, Store.ofHost ⟨s.rows.map f, s.next⟩ ip = (s.ofHost ip).map f :=
    ofHost_map hf s.rows s.next s.next
  refine ⟨?_, ?_, ?_, ?_, fun ip => ?_, fun ip => ?_, ?_, fun ip => ?_⟩
  · rw [List.map_map]
    have hid : (fun p : Preset => p.id) ∘ f = fun p => p.id := funext hf.id
    rw [hid]
    exact h.ids
  · intro p hp
    obtain ⟨q, hq, rfl⟩ := List.mem_map.mp hp
    rw [hf.id]
    exact h.fresh q hq
  · intro p hp
    obtain ⟨q, hq, rfl⟩ := List.mem_map.mp hp
    rw [hf.engine, hf.scopeKey]
    exact h.engine q hq
  · intro p hp
    obtain ⟨q, hq, rfl⟩ := List.mem_map.mp hp
    rw [hf.contentHash, hf.content]
    exact h.hash q hq
  · rw [hhost]
    exact hL ip
  · rw [hhost, List.map_map]
    have hc : (fun p : Preset => p.content) ∘ f = fun p => p.content := funext hf.content
    rw [hc]
    exact h.contents ip
  · intro p hp hd
    obtain ⟨q, hq, rfl⟩ := List.mem_map.mp hp
    rw [hf.deleted] at hd
    exact hr q hq hd
  · rw [hhost, List.length_map]
    exact Nat.le_trans (h.few ip) hm

/-- A step that gives the host the list `l` and leaves the other hosts theirs. -/
structure Turns (sha256 : String → String) (n : Nat) (s : Store) (ip : String) (l : List Entry)
    (s' : Store) : Prop where
  inv : Inv sha256 n s'
  here : entries s' ip = l
  others : ∀ ip', ip' ≠ ip → entries s' ip' = entries s ip'

theorem Turns.mono {l : List Entry} (h : Turns sha256 n s ip l s') (hm : n ≤ m) :
    Turns sha256 m s ip l s' :=
  ⟨h.inv.mono hm, h.here, h.others⟩

theorem Turns.refl (h : Inv sha256 n s) (ip : String) : Turns sha256 n s ip (entries s ip) s :=
  ⟨h, rfl, fun _ _ => rfl⟩

theorem Turns.trans {s'' : Store} {l l' : List Entry} (h : Turns sha256 n s ip l s')
    (h' : Turns sha256 m s' ip l' s'') :
    Turns sha256 m s ip l' s'' :=
  ⟨h'.inv, h'.here, fun ip' hne => (h'.others ip' hne).trans (h.others ip' hne)⟩

theorem Inv.turns (h : Inv sha256 n s) (hf : Keeps f) (hp : L.Perm ((s.ofHost ip).map f))
    (hL : Ranked (·.sortOrder) L)
    (ho : ∀ p ∈ s.rows, p.deleted = false → p.scopeKey ≠ ip → f p = p)
    (hr : ∀ p ∈ s.rows, p.deleted = false → -(m : Int) ≤ (f p).sortOrder ∧ (f p).sortOrder ≤ m)
    (hm : n ≤ m) :
    Turns sha256 m s ip (L.map entryOf) ⟨s.rows.map f, s.next⟩ := by
  have hhost : ∀ ip, Store.ofHost ⟨s.rows.map f, s.next⟩ ip = (s.ofHost ip).map f :=
    ofHost_map hf s.rows s.next s.next
  have hother : ∀ ip', ip' ≠ ip → (s.ofHost ip').map f = s.ofHost ip' := by
    intro ip' hne
    have hsame : (s.ofHost ip').map f = (s.ofHost ip').map fun p => p := by
      apply List.map_congr_left
      intro p hp
      obtain ⟨hrow, hkey, hdel⟩ := mem_ofHost.mp hp
      exact ho p hrow hdel (hkey ▸ hne)
    rw [hsame, List.map_id']
  have hinv : Inv sha256 m ⟨s.rows.map f, s.next⟩ := by
    refine h.map hf (fun ip' => ?_) hr hm
    by_cases hip : ip' = ip
    · rw [hip]
      exact (hp.map _).nodup_iff.mp hL.nodup
    · rw [hother ip' hip]
      exact h.orders ip'
  refine ⟨hinv, ?_, fun ip' hne => ?_⟩
  · rw [entries, listed_eq hinv.engine ((hhost ip).symm ▸ hp) hL]
  · exact entries_congr h.engine hinv.engine ((hhost ip').trans (hother ip' hne))

theorem Inv.mem_listed (h : Inv sha256 n s) {p : Preset} : p ∈ s.listed ip ↔
    p ∈ s.rows ∧ p.scopeKey = ip ∧ p.deleted = false := by
  rw [(h.listed_perm ip).mem_iff]
  exact mem_ofHost

theorem Inv.mem_entry_ids (h : Inv sha256 n s) {pid : Int} :
    pid ∈ (entries s ip).map Entry.id ↔ ∃ p ∈ s.rows, p.id = pid ∧ p.scopeKey = ip ∧
      p.deleted = false := by
  rw [entries, List.map_map]
  constructor
  · intro hm
    obtain ⟨p, hp, rfl⟩ := List.mem_map.mp hm
    obtain ⟨hrow, hkey, hdel⟩ := h.mem_listed.mp hp
    exact ⟨p, hrow, rfl, hkey, hdel⟩
  · rintro ⟨p, hrow, rfl, hkey, hdel⟩
    exact List.mem_map.mpr ⟨p, h.mem_listed.mpr ⟨hrow, hkey, hdel⟩, rfl⟩

theorem Inv.entries_fresh (h : Inv sha256 n s) (gap : Nat) : ∀ ip, ∀ e ∈ entries s ip,
    e.id ≠ s.next + gap := by
  intro ip e he
  obtain ⟨p, hp, rfl⟩ := List.mem_map.mp he
  have hlt := h.fresh p (h.mem_listed.mp hp).1
  change p.id ≠ s.next + gap
  omega

theorem get?_some {pid : Int} {p : Preset} (h : s.get? ip pid = some p) :
    p ∈ s.rows ∧ p.id = pid ∧ p.scopeKey = ip ∧ p.deleted = false := by
  have hc := List.find?_some h
  simp only [Bool.and_eq_true, decide_eq_true_eq, Bool.not_eq_true'] at hc
  exact ⟨List.mem_of_find?_eq_some h, hc.1.1, hc.1.2, hc.2⟩

def keyed (ip : String) (pid : Int) (p : Preset) : Bool :=
  p.id = pid && p.scopeKey = ip && !p.deleted

theorem get?_isSome (h : Inv sha256 n s) (pid : Int) : (s.get? ip pid).isSome = true ↔
    pid ∈ (entries s ip).map Entry.id := by
  rw [h.mem_entry_ids, Store.get?, List.find?_isSome]
  simp [and_assoc]

/-- Where there is an error it is one for the client, and `P` holds. -/
def Errs {α : Type} (P : Prop) (x : Except Answer α) : Prop :=
  ∀ a, x = .error a → (∃ status text, a = .error status text) ∧ P

section Errors

variable {α β : Type} {P Q : Prop} {x : Except Answer α}

theorem Errs.ok (y : α) : Errs P (.ok y : Except Answer α) := fun _ h => by cases h

theorem Errs.error (hP : P) (status : Nat) (text : String) :
    Errs P (.error (.error status text) : Except Answer α) := by
  intro a h
  cases h
  exact ⟨⟨status, text, rfl⟩, hP⟩

theorem Errs.imp (h : Errs P x) (hPQ : P → Q) : Errs Q x := fun a ha => (h a ha).imp_right hPQ

theorem Errs.bind {f : α → Except Answer β} (h : Errs P x) (hf : ∀ y, x = .ok y → Errs P (f y)) :
    Errs P (x >>= f) := by
  intro a ha
  cases x with
  | error a' =>
      cases ha
      exact h _ rfl
  | ok y => exact hf y rfl a ha

theorem ok_of_bind {f : α → Except Answer β} {z : β} (h : (x >>= f) = .ok z) : ∃ y, x = .ok y ∧
    f y = .ok z := by
  cases x with
  | error a => cases h
  | ok y => exact ⟨y, rfl, h⟩

end Errors

def renamed (name : String) (p : Preset) : Preset := { p with friendlyName := name }

def touched (env : Env) (top : Int) (p : Preset) : Preset :=
  { p with lastUsedAt := some env.now, useCount := p.useCount + 1, sortOrder := top }

theorem renamed_keeps (name : String) : Keeps (renamed name) := fun _ => rfl

theorem touched_keeps (env : Env) (top : Int) : Keeps (touched env top) := fun _ => rfl

theorem renames_turns (h : Inv sha256 n s) (pid : Int) (name : String) :
    Turns sha256 n s ip ((entries s ip).map (fun e => if e.id = pid then { e with name := name }
      else e))
      (s.update (keyed ip pid) (renamed name)) := by
  have hf : Keeps (change (keyed ip pid) (renamed name)) := (renamed_keeps name).change _
  have horder : ∀ p, (change (keyed ip pid) (renamed name) p).sortOrder = p.sortOrder := by
    intro p
    rw [change]
    split
    · rfl
    · rfl
  have hlist : ((s.listed ip).map (change (keyed ip pid) (renamed name))).map entryOf =
      (entries s ip).map (fun e => if e.id = pid then { e with name := name } else e) := by
    rw [entries, List.map_map, List.map_map]
    apply List.map_congr_left
    intro p hp
    obtain ⟨-, hkey, hdel⟩ := h.mem_listed.mp hp
    by_cases hid : p.id = pid
    · simp [change, keyed, hid, hkey, hdel, entryOf, renamed]
    · simp [change, keyed, hid, entryOf]
  rw [← hlist]
  apply h.turns hf ((h.listed_perm ip).map _)
    (ranked_map _ (fun p _ => horder p) (h.listed_ranked ip)) _ _ (Nat.le_refl n)
  · intro p _ _ hne
    simp [change, keyed, hne]
  · intro p hp hd
    rw [horder]
    exact h.range p hp hd

theorem reused_turns (h : Inv sha256 n s) {old : Preset} (hold : old ∈ s.rows)
    (hkey : old.scopeKey = ip)
    (hdel : old.deleted = false) (name : String) (named : Bool) :
    ∃ q ∈ (if named then s.update (fun p => p.id = old.id) (renamed name) else s).rows,
      q.id = old.id ∧ q.scopeKey = ip ∧
      q.deleted = false ∧ q.content = old.content ∧
      Turns sha256 n s ip ((entries s ip).map
        (fun e => if named && e.id = old.id then { e with name := name } else e))
        (if named then s.update (fun p => p.id = old.id) (renamed name) else s) := by
  cases named with
  | false =>
      refine ⟨old, hold, rfl, hkey, hdel, rfl, ?_⟩
      have hsame : (entries s ip).map (fun e => if false && e.id =
          old.id then { e with name := name } else e) = entries s ip := by
        simp
      rw [hsame]
      exact Turns.refl h ip
  | true =>
      have hrows : s.update (fun p => p.id = old.id) (renamed name) =
          s.update (keyed ip old.id) (renamed name) := by
        rw [Store.update, Store.update]
        congr 1
        apply List.map_congr_left
        intro p hp
        by_cases hid : p.id = old.id
        · have hsame := h.same hp hold hid
          simp [keyed, hsame, hkey, hdel]
        · simp [keyed, hid]
      refine ⟨renamed name old, List.mem_map.mpr ⟨old, hold, by simp⟩, rfl, hkey, hdel, rfl, ?_⟩
      have hturns : Turns sha256 n s ip _ _ := renames_turns h old.id name
      simp only [Bool.true_and, decide_eq_true_eq, if_true]
      rw [hrows]
      exact hturns

theorem find_content (h : Inv sha256 n s) {old : Preset} (hold : old ∈ s.rows)
    (hkey : old.scopeKey = ip)
    (hdel : old.deleted = false) : (entries s ip).find? (fun e => e.content = old.content) =
    some (entryOf old) := by
  have hmem : entryOf old ∈ entries s ip :=
    List.mem_map_of_mem (h.mem_listed.mpr ⟨hold, hkey, hdel⟩)
  exact find_key (h.entry_contents ip) hmem

/-- `MIN(sort_order)` is below all sort orders of the host. -/
theorem minOrder_le {rows : List Preset} {p : Preset} (hp : p ∈ rows) :
    ∃ lo, minOrder rows = some lo ∧ (∃ q ∈ rows, q.sortOrder = lo) ∧ ∀ q ∈ rows,
      lo ≤ q.sortOrder := by
  have hsome : (rows.map (·.sortOrder)).min?.isSome :=
    List.isSome_min?_of_mem (List.mem_map_of_mem hp)
  obtain ⟨lo, hlo⟩ := Option.isSome_iff_exists.mp hsome
  obtain ⟨hmem, hle⟩ := List.min?_eq_some_iff.mp hlo
  exact ⟨lo, hlo, List.mem_map.mp hmem, fun q hq => hle _ (List.mem_map_of_mem hq)⟩

theorem int4_ok {k : Int} (h : -2147483648 ≤ k) (h' : k ≤ 2147483647) : int4 k = .ok k :=
  if_pos ⟨h, h'⟩

theorem int4_errs {k : Int} (hlo : -(n : Int) - 1 ≤ k) (hhi : k ≤ n) :
    Errs (2147483647 ≤ n) (int4 k) := by
  intro a ha
  rw [int4] at ha
  split at ha
  · cases ha
  · cases ha
    refine ⟨⟨_, _, rfl⟩, ?_⟩
    omega

theorem int4_eq {k t : Int} (h : int4 k = .ok t) : t = k := by
  rw [int4] at h
  split at h
  · cases h
    rfl
  · cases h

theorem touched_turns (h : Inv sha256 n s) {q : Preset} (hq : q ∈ s.rows) (hkey : q.scopeKey = ip)
    (hdel : q.deleted = false)
    {lo : Int} (hlo : ∀ p ∈ s.ofHost ip, lo ≤ p.sortOrder) (hrange : -(n : Int) ≤ lo ∧ lo ≤ n)
    (env : Env) :
    Turns sha256 (n + 1) s ip (toFront Entry.id q.id (entries s ip))
      (s.update (fun p => p.id = q.id && !p.deleted) (touched env (lo - 1))) := by
  have hf : Keeps (change (fun p => p.id = q.id && !p.deleted) (touched env (lo - 1))) :=
    (touched_keeps env _).change _
  have hother : ∀ p : Preset, p.id ≠ q.id → change (fun p => p.id = q.id && !p.deleted)
      (touched env (lo - 1)) p = p := by
    intro p hne
    simp [change, hne]
  have hfront : ∀ p ∈ s.rows, p.id = q.id →
      (change (fun p => p.id = q.id && !p.deleted) (touched env (lo - 1)) p).sortOrder =
        lo - 1 := by
    intro p hp hid
    rw [h.same hp hq hid]
    simp [change, hdel, touched]
  have hentry : ∀ p, entryOf (change (fun p => p.id = q.id && !p.deleted) (touched env (lo - 1))
      p) = entryOf p := by
    intro p
    rw [change]
    split
    · rfl
    · rfl
  generalize hg : change (fun p => p.id = q.id && !p.deleted) (touched env (lo - 1)) =
    g at hf hother hfront hentry
  have hids : (((s.listed ip).map g).map (·.id)).Nodup := by
    rw [List.map_map]
    have hid : (fun p : Preset => p.id) ∘ g = fun p => p.id := funext hf.id
    rw [hid]
    exact h.listed_ids ip
  have hrest : Ranked (·.sortOrder) (((s.listed ip).map g).filter (fun p => p.id ≠ q.id)) := by
    have hfilter : ((s.listed ip).map g).filter (fun p => p.id ≠ q.id) =
        ((s.listed ip).filter (fun p => p.id ≠ q.id)).map g := by
      rw [List.filter_map]
      congr 1
      apply List.filter_congr
      intro p _
      simp [hf.id]
    rw [hfilter]
    refine ranked_map _ (fun p hp => ?_) ((h.listed_ranked ip).filter _)
    rw [hother p (by simpa using (List.mem_filter.mp hp).2)]
  have hlow : ∀ a ∈ (s.listed ip).map g, a.id = q.id → ∀ b ∈ (s.listed ip).map g, b.id ≠ q.id →
      a.sortOrder < b.sortOrder := by
    intro a ha hid b hb hne
    obtain ⟨p, hp, rfl⟩ := List.mem_map.mp ha
    obtain ⟨p', hp', rfl⟩ := List.mem_map.mp hb
    rw [hf.id] at hid hne
    have hle := hlo p' ((h.listed_perm ip).subset hp')
    rw [hfront p (h.mem_listed.mp hp).1 hid, hother p' hne]
    omega
  have hlist : (toFront (·.id) q.id ((s.listed ip).map g)).map entryOf =
      toFront Entry.id q.id (entries s ip) := by
    have hsame : ((s.listed ip).map g).map entryOf = entries s ip := by
      rw [List.map_map, entries]
      exact List.map_congr_left fun p _ => hentry p
    have hfront' : toFront Entry.id q.id (((s.listed ip).map g).map entryOf) =
      (toFront (·.id) q.id ((s.listed ip).map g)).map entryOf := toFront_map entryOf fun _ _ => rfl
    rw [← hfront', hsame]
  have hperm : (toFront (·.id) q.id ((s.listed ip).map g)).Perm ((s.ofHost ip).map g) :=
    (toFront_perm _ _ _).trans ((h.listed_perm ip).map g)
  have hturns :=
    h.turns (m := n + 1) hf hperm (ranked_toFront hids hrest hlow) ?_ ?_ (Nat.le_succ n)
  · rw [hlist, ← hg] at hturns
    exact hturns
  · intro p hp hd hne
    exact hother p fun hid => hne (by rw [h.same hp hq hid]; exact hkey)
  · intro p hp hd
    by_cases hid : p.id = q.id
    · rw [hfront p hp hid]
      omega
    · rw [hother p hid]
      have hr := h.range p hp hd
      omega

theorem touchPreset_turns (h : Inv sha256 n s) {q : Preset} (hq : q ∈ s.rows)
    (hkey : q.scopeKey = ip)
    (hdel : q.deleted = false) (env : Env) : Errs (2147483647 ≤ n) (touchPreset s q.id env) ∧
      ∀ s', touchPreset s q.id env = .ok s' →
        Turns sha256 (n + 1) s ip (toFront Entry.id q.id (entries s ip)) s' := by
  have hfind : s.rows.find? (fun p => p.id = q.id) = some q := find_key h.ids hq
  obtain ⟨lo, hmin, ⟨p, hp, rfl⟩, hle⟩ := minOrder_le (mem_ofHost.mpr ⟨hq, hkey, hdel⟩)
  have hrange := h.range p (mem_ofHost.mp hp).1 (mem_ofHost.mp hp).2.2
  have hany : s.rows.any (fun p => p.id = q.id && !p.deleted) = true :=
    List.any_eq_true.mpr ⟨q, hq, by simp [hdel]⟩
  have htouch : touchPreset s q.id env = int4 (p.sortOrder - 1) >>= fun top =>
      pure (s.update (fun p => p.id = q.id && !p.deleted) (touched env top)) := by
    rw [touchPreset, if_pos hany, hfind, Option.bind_some, hkey, hmin]
    rfl
  rw [htouch]
  refine ⟨(int4_errs (by omega) (by omega)).bind fun top _ => Errs.ok _, fun s' hs' => ?_⟩
  obtain ⟨top, htop, hup⟩ := ok_of_bind hs'
  cases hup
  rw [int4_eq htop]
  exact touched_turns h hq hkey hdel hle hrange env

theorem ofHost_insert {new : Preset} (hd : new.deleted = false) (next : Int) (ip : String) :
    Store.ofHost ⟨s.rows ++ [new], next⟩ ip = if new.scopeKey = ip then s.ofHost ip ++ [new]
      else s.ofHost ip := by
  rw [Store.ofHost, List.filter_append]
  by_cases hk : new.scopeKey = ip
  · simp [hk, hd, Store.ofHost]
  · simp [hk, Store.ofHost]

theorem inserted_turns (h : Inv sha256 n s) {new : Preset} {gap : Nat} (hid : new.id = s.next + gap)
    (hkey : new.scopeKey = ip) (hengine : new.engine = engineForIp ip)
    (hhash : new.contentHash = sha256 new.content)
    (hdel : new.deleted = false) (hrange : -(n + 1 : Int) ≤ new.sortOrder ∧ new.sortOrder ≤ n + 1)
    (htop : ∀ p ∈ s.ofHost ip, new.sortOrder < p.sortOrder)
    (hnew : ∀ p ∈ s.ofHost ip, p.content ≠ new.content) :
    Turns sha256 (n + 1) s ip (entryOf new :: entries s ip)
      ⟨s.rows ++ [new], s.next + gap + 1⟩ := by
  have hhost := ofHost_insert (s := s) hdel (s.next + gap + 1)
  have hhere : Store.ofHost ⟨s.rows ++ [new], s.next + gap + 1⟩ ip = s.ofHost ip ++ [new] := by
    rw [hhost, if_pos hkey]
  have hothers : ∀ ip', ip' ≠ ip → Store.ofHost ⟨s.rows ++ [new], s.next + gap + 1⟩ ip' =
      s.ofHost ip' := by
    intro ip' hne
    rw [hhost, if_neg fun hk => hne (hk.symm.trans hkey)]
  have hranked : Ranked (·.sortOrder) (new :: s.listed ip) :=
    ranked_cons (h.listed_ranked ip) fun p hp => htop p ((h.listed_perm ip).subset hp)
  have hperm : (new :: s.listed ip).Perm (s.ofHost ip ++ [new]) :=
    ((h.listed_perm ip).cons new).trans (List.perm_append_singleton new (s.ofHost ip)).symm
  have hrows : ∀ {P : Preset → Prop}, (∀ p ∈ s.rows, P p) → P new → ∀ p ∈ s.rows ++ [new], P p := by
    intro P hold hone p hp
    rcases List.mem_append.mp hp with hp | hp
    · exact hold p hp
    · rw [List.mem_singleton.mp hp]
      exact hone
  have hengines : ∀ p ∈ s.rows ++ [new], p.engine = engineForIp p.scopeKey :=
    hrows h.engine (hengine.trans (by rw [hkey]))
  have hinv : Inv sha256 (n + 1) ⟨s.rows ++ [new], s.next + gap + 1⟩ := by
    refine ⟨?_, ?_, hengines, hrows h.hash hhash, fun ip' => ?_, fun ip' => ?_, ?_, fun ip' => ?_⟩
    · rw [List.map_append]
      refine List.Nodup.append h.ids (List.nodup_singleton _) fun x hx hx' => ?_
      obtain ⟨p, hp, rfl⟩ := List.mem_map.mp hx
      have hpid : p.id = new.id := List.mem_singleton.mp hx'
      have hlt := h.fresh p hp
      omega
    · exact hrows (fun p hp => by
        have hlt := h.fresh p hp
        change p.id < s.next + gap + 1
        omega) (by
          change new.id < s.next + gap + 1
          omega)
    · by_cases hip : ip' = ip
      · rw [hip, hhere]
        exact (hperm.map _).nodup_iff.mp hranked.nodup
      · rw [hothers ip' hip]
        exact h.orders ip'
    · by_cases hip : ip' = ip
      · rw [hip, hhere, List.map_append]
        refine List.Nodup.append (h.contents ip) (List.nodup_singleton _) fun x hx hx' => ?_
        obtain ⟨p, hp, rfl⟩ := List.mem_map.mp hx
        exact hnew p hp (List.mem_singleton.mp hx')
      · rw [hothers ip' hip]
        exact h.contents ip'
    · refine hrows (fun p hp hd => ?_) fun _ => hrange
      have hr := h.range p hp hd
      omega
    · by_cases hip : ip' = ip
      · rw [hip, hhere, List.length_append]
        exact Nat.succ_le_succ (h.few ip)
      · rw [hothers ip' hip]
        exact Nat.le_succ_of_le (h.few ip')
  refine ⟨hinv, ?_, fun ip' hne => entries_congr h.engine hengines (hothers ip' hne)⟩
  rw [entries, listed_eq hengines (hhere.symm ▸ hperm) hranked]
  rfl

def removed (p : Preset) : Preset := { p with deleted := true }

theorem ofHost_remove (pid : Int) (ip' : String) : (s.update (keyed ip pid) removed).ofHost ip' =
    if ip' = ip then (s.ofHost ip').filter (fun p => p.id ≠ pid) else s.ofHost ip' := by
  have hcond : ∀ p, (decide ((change (keyed ip pid) removed p).scopeKey = ip') &&
      !(change (keyed ip pid) removed p).deleted) =
      (decide (p.scopeKey = ip') && !p.deleted && !keyed ip pid p) := by
    intro p
    by_cases hc : keyed ip pid p = true
    · simp [change, hc, removed]
    · simp [change, hc]
  have hkept : (s.update (keyed ip pid) removed).ofHost ip' =
      s.rows.filter (fun p => decide (p.scopeKey = ip') && !p.deleted && !keyed ip pid p) := by
    rw [Store.ofHost, update_rows, List.filter_map]
    have hfilter : s.rows.filter ((fun p : Preset => decide (p.scopeKey = ip') &&
        !p.deleted) ∘ change (keyed ip pid) removed) =
        s.rows.filter (fun p => decide (p.scopeKey = ip') && !p.deleted && !keyed ip pid p) :=
      List.filter_congr fun p _ => hcond p
    rw [hfilter]
    have hsame : (s.rows.filter (fun p => decide (p.scopeKey = ip') && !p.deleted &&
        !keyed ip pid p)).map
        (change (keyed ip pid) removed) =
        (s.rows.filter (fun p => decide (p.scopeKey = ip') && !p.deleted && !keyed ip pid p)).map
          fun p => p := by
      apply List.map_congr_left
      intro p hp
      have hc : keyed ip pid p = false := by
        have hp' := (List.mem_filter.mp hp).2
        simp only [Bool.and_eq_true, Bool.not_eq_true'] at hp'
        exact hp'.2
      rw [change, hc]
      rfl
    rw [hsame, List.map_id']
  rw [hkept, Store.ofHost]
  by_cases hip : ip' = ip
  · rw [if_pos hip, List.filter_filter]
    apply List.filter_congr
    intro p _
    by_cases hk : p.scopeKey = ip
    · cases hdel : p.deleted
      · simp [keyed, hip, hk, hdel]
      · simp
    · simp [hip, hk]
  · rw [if_neg hip]
    apply List.filter_congr
    intro p _
    by_cases hk : p.scopeKey = ip'
    · simp [keyed, hk, hip]
    · simp [hk]

theorem removed_turns (h : Inv sha256 n s) (pid : Int) :
    Turns sha256 n s ip ((entries s ip).filter (fun e => e.id ≠ pid))
      (s.update (keyed ip pid) removed) := by
  have hhere : (s.update (keyed ip pid) removed).ofHost ip =
      (s.ofHost ip).filter (fun p => p.id ≠ pid) := by
    rw [ofHost_remove, if_pos rfl]
  have hothers : ∀ ip', ip' ≠ ip → (s.update (keyed ip pid) removed).ofHost ip' = s.ofHost ip' := by
    intro ip' hne
    rw [ofHost_remove, if_neg hne]
  have hsub : ∀ ip', ((s.update (keyed ip pid) removed).ofHost ip').Sublist (s.ofHost ip') := by
    intro ip'
    by_cases hip : ip' = ip
    · rw [hip, hhere]
      exact List.filter_sublist
    · rw [hothers ip' hip]
  have hrow : ∀ p ∈ (s.update (keyed ip pid) removed).rows, ∃ q ∈ s.rows, p = q ∨
      p = removed q := by
    intro p hp
    obtain ⟨q, hq, rfl⟩ := List.mem_map.mp hp
    refine ⟨q, hq, ?_⟩
    by_cases hc : keyed ip pid q = true
    · exact .inr (if_pos hc)
    · exact .inl (if_neg hc)
  have hengines : ∀ p ∈ (s.update (keyed ip pid) removed).rows,
      p.engine = engineForIp p.scopeKey := by
    intro p hp
    obtain ⟨q, hq, rfl | rfl⟩ := hrow p hp
    · exact h.engine _ hq
    · exact h.engine q hq
  have hinv : Inv sha256 n (s.update (keyed ip pid) removed) := by
    refine ⟨?_, fun p hp => ?_, hengines, fun p hp => ?_, fun ip' => ?_, fun ip' => ?_,
      fun p hp hd => ?_, fun ip' => ?_⟩
    · have hid : (fun p : Preset => p.id) ∘ change (keyed ip pid) removed = fun p => p.id := by
        funext p
        rw [Function.comp_apply, change]
        split
        · rfl
        · rfl
      rw [update_rows, List.map_map, hid]
      exact h.ids
    · obtain ⟨q, hq, rfl | rfl⟩ := hrow p hp
      · exact h.fresh _ hq
      · exact h.fresh q hq
    · obtain ⟨q, hq, rfl | rfl⟩ := hrow p hp
      · exact h.hash _ hq
      · exact h.hash q hq
    · exact (h.orders ip').sublist ((hsub ip').map _)
    · exact (h.contents ip').sublist ((hsub ip').map _)
    · obtain ⟨q, hq, rfl | rfl⟩ := hrow p hp
      · exact h.range _ hq hd
      · cases hd
    · exact Nat.le_trans (hsub ip').length_le (h.few ip')
  have hperm : ((s.listed ip).filter (fun p => p.id ≠ pid)).Perm
      ((s.update (keyed ip pid) removed).ofHost ip) := by
    rw [hhere]
    exact (h.listed_perm ip).filter _
  refine ⟨hinv, ?_, fun ip' hne => entries_congr h.engine hengines (hothers ip' hne)⟩
  rw [entries, listed_eq hengines hperm ((h.listed_ranked ip).filter _), entries, List.filter_map]
  rfl

def placed (i : Nat) (p : Preset) : Preset := { p with sortOrder := i }

/-- The place that the ids of a request, counted from `i`, give a row. -/
def placedBy (ip : String) (order : List Int) (i : Nat) (p : Preset) : Preset :=
  if p.id ∈ order ∧ p.scopeKey = ip ∧ p.deleted = false then placed (i + order.idxOf p.id) p else p

theorem placedBy_keeps (ip : String) (order : List Int) (i : Nat) :
    Keeps (placedBy ip order i) := by
  intro p
  rw [placedBy]
  split
  · rfl
  · rfl

theorem placedBy_cons {pid : Int} {order : List Int} (hn : pid ∉ order) (i : Nat) (p : Preset) :
    placedBy ip order (i + 1) (change (keyed ip pid) (placed i) p) =
      placedBy ip (pid :: order) i p := by
  by_cases hc : keyed ip pid p = true
  · have hc' := hc
    simp only [keyed, Bool.and_eq_true, decide_eq_true_eq, Bool.not_eq_true'] at hc'
    obtain ⟨⟨rfl, hk⟩, hd⟩ := hc'
    have hout : (placed i p).id ∉ order := hn
    rw [change, if_pos hc, placedBy, if_neg fun h => hout h.1, placedBy,
      if_pos ⟨List.mem_cons_self, hk, hd⟩]
    simp
  · rw [change, if_neg hc]
    by_cases hp : p.id ∈ order ∧ p.scopeKey = ip ∧ p.deleted = false
    · have hne : p.id ≠ pid := fun he => hn (he ▸ hp.1)
      rw [placedBy, if_pos hp, placedBy, if_pos ⟨List.mem_cons_of_mem _ hp.1, hp.2⟩,
        List.idxOf_cons_ne _ hne.symm]
      congr 1
      omega
    · have hp' : ¬ (p.id ∈ pid :: order ∧ p.scopeKey = ip ∧ p.deleted = false) := by
        rintro ⟨hm, hk, hd⟩
        rcases List.mem_cons.mp hm with he | hm
        · exact hc (by simp [keyed, he, hk, hd])
        · exact hp ⟨hm, hk, hd⟩
      rw [placedBy, if_neg hp, placedBy, if_neg hp']

def Literal (idOf : Json → Except Answer (Option Int)) : Prop :=
  ∀ k : Int, idOf (.int k) = .ok (some k)

theorem reorderFrom_spec (ip : String) (hid : Literal idOf) {order : List Int} (hn : order.Nodup)
    (i : Nat) (s : Store) :
    (∀ s', reorderFrom idOf ip i s (order.map Json.int) = .ok s' →
    s' = ⟨s.rows.map (placedBy ip order i), s.next⟩) ∧
      ∀ a, reorderFrom idOf ip i s (order.map Json.int) = .error a →
        (∃ status text, a = .error status text) ∧ 2147483647 < i + order.length := by
  induction order generalizing i s with
  | nil =>
      have hsame : s.rows.map (placedBy ip [] i) = s.rows.map fun p => p :=
        List.map_congr_left fun p _ => if_neg fun h => absurd h.1 List.not_mem_nil
      rw [hsame, List.map_id']
      refine ⟨fun s' h => ?_, fun a h => ?_⟩
      · cases h
        rfl
      · cases h
  | cons pid order ih =>
      obtain ⟨hnot, hrest⟩ := List.nodup_cons.mp hn
      have hrows : (s.update (keyed ip pid) (placed i)).rows.map (placedBy ip order (i + 1)) =
          s.rows.map (placedBy ip (pid :: order) i) := by
        rw [update_rows, List.map_map]
        exact List.map_congr_left fun p _ => placedBy_cons hnot i p
      have hstep : reorderFrom idOf ip i s ((pid :: order).map Json.int) = int4 i >>= fun place =>
          reorderFrom idOf ip (i + 1) (s.update (keyed ip pid)
            (fun p => { p with sortOrder := place })) (order.map Json.int) := by
        have hcond : (fun p : Preset => some p.id = some pid && p.scopeKey = ip && !p.deleted) =
            keyed ip pid := by
          funext p
          simp [keyed]
        rw [← hcond, List.map_cons, reorderFrom, hid]
        rfl
      rw [hstep]
      by_cases hi : (i : Int) ≤ 2147483647
      · have hlater := ih hrest (i + 1) (s.update (keyed ip pid) (placed i))
        rw [hrows] at hlater
        rw [int4_ok (by omega) hi]
        refine ⟨hlater.1, fun a ha => ?_⟩
        obtain ⟨herr, hlen⟩ := hlater.2 a ha
        refine ⟨herr, ?_⟩
        rw [List.length_cons]
        omega
      · rw [int4, if_neg fun h => hi h.2]
        refine ⟨fun s' h => (by cases h), fun a ha => ?_⟩
        cases ha
        refine ⟨⟨_, _, rfl⟩, ?_⟩
        rw [List.length_cons]
        omega

theorem placed_turns (h : Inv sha256 n s) {order : List Int}
    (hp : order.Perm ((entries s ip).map Entry.id)) :
    Turns sha256 n s ip (arrange Entry.id order (entries s ip))
      ⟨s.rows.map (placedBy ip order 0), s.next⟩ := by
  have hids : ((s.listed ip).map (·.id)).Nodup := h.listed_ids ip
  have hp' : order.Perm ((s.listed ip).map (·.id)) := by
    rw [entries, List.map_map] at hp
    exact hp
  have hf := placedBy_keeps ip order 0
  have hmap : ((s.listed ip).map (placedBy ip order 0)).map (·.id) = (s.listed ip).map (·.id) := by
    rw [List.map_map]
    exact List.map_congr_left fun p _ => hf.id p
  have horder : ∀ p ∈ s.rows, p.scopeKey = ip → p.deleted = false →
      (placedBy ip order 0 p).sortOrder = 0 + order.idxOf (placedBy ip order 0 p).id := by
    intro p hrow hk hd
    have hin : p.id ∈ order :=
      hp'.symm.subset (List.mem_map_of_mem (h.mem_listed.mpr ⟨hrow, hk, hd⟩))
    rw [hf.id, placedBy, if_pos ⟨hin, hk, hd⟩]
    simp [placed]
  have hranked : Ranked (·.sortOrder) (arrange (·.id) order
      ((s.listed ip).map (placedBy ip order 0))) := by
    refine ranked_arrange (c := 0) (hmap.symm ▸ hids) (hmap.symm ▸ hp') fun p hpm => ?_
    obtain ⟨q, hq, rfl⟩ := List.mem_map.mp hpm
    obtain ⟨hrow, hk, hd⟩ := h.mem_listed.mp hq
    exact horder q hrow hk hd
  have hperm : (arrange (·.id) order ((s.listed ip).map (placedBy ip order 0))).Perm
      ((s.ofHost ip).map (placedBy ip order 0)) :=
    (arrange_perm (hmap.symm ▸ hids) (hmap.symm ▸ hp')).trans ((h.listed_perm ip).map _)
  have hlist : (arrange (·.id) order ((s.listed ip).map (placedBy ip order 0))).map entryOf =
      arrange Entry.id order (entries s ip) := by
    have hsame : ((s.listed ip).map (placedBy ip order 0)).map entryOf = entries s ip := by
      rw [List.map_map, entries]
      refine List.map_congr_left fun p _ => ?_
      rw [Function.comp_apply, placedBy]
      split
      · rfl
      · rfl
    have harr : arrange Entry.id order (((s.listed ip).map (placedBy ip order 0)).map entryOf) =
      (arrange (·.id) order ((s.listed ip).map (placedBy ip order 0))).map entryOf :=
        arrange_map entryOf fun _ => rfl
    rw [← harr, hsame]
  rw [← hlist]
  apply h.turns hf hperm hranked _ _ (Nat.le_refl n)
  · intro p _ _ hne
    exact if_neg fun hc => hne hc.2.1
  · intro p hrow hd
    by_cases hk : p.scopeKey = ip
    · have hin : p.id ∈ order :=
        hp'.symm.subset (List.mem_map_of_mem (h.mem_listed.mpr ⟨hrow, hk, hd⟩))
      have hlt : order.idxOf p.id < order.length := List.idxOf_lt_length_of_mem hin
      have hlen : order.length = (s.ofHost ip).length := by
        rw [hp'.length_eq, List.length_map, (h.listed_perm ip).length_eq]
      have hfew := h.few ip
      rw [horder p hrow hk hd, hf.id]
      omega
    · rw [placedBy, if_neg fun hc => hk hc.2.1]
      exact h.range p hrow hd

end ServerManager.PresetRows
