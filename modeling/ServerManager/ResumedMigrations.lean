import ServerManager.MigrationCover

namespace ServerManager.ResumedMigrations

open Interaction Migrations MigrationCover

variable {D S : Type}

/-- A ledger row without its time, and without the `--git-sha` of its run where
that is not compared. -/
def entry (shas : Bool) (row : LedgerRow) : String × String × Option String :=
  (row.version, row.checksum, if shas then row.gitSha else none)

structure Alike (shas : Bool) (b b' : Image D S) : Prop where
  data : b.contents.data = b'.contents.data
  settings : b.contents.settings = b'.contents.settings
  ledger : b.contents.ledger.map (entry shas) = b'.contents.ledger.map (entry shas)
  done : b.done = b'.done

/-- The SQL leaves its transaction open, the ledger and the settings of the
session as they are, and depends on nothing that is not compared. -/
structure Confined (shas : Bool) (f : File D S) : Prop where
  transactional : f.transactional
  ledger : ∀ c, (f.run c).ledger = c.ledger
  settings : ∀ c, (f.run c).settings = c.settings
  data : ∀ c c', c.data = c'.data → c.settings = c'.settings →
    c.ledger.map (entry shas) = c'.ledger.map (entry shas) → (f.run c).data = (f.run c').data

def versions (b : Image D S) : List String := b.contents.ledger.map (·.version)

def pending (ms : List (File D S)) (b : Image D S) : List (File D S) :=
  ms.filter (fun m => m.version ∉ versions b)

def record (gitSha : Option String) (b : Image D S) (f : File D S) : Image D S :=
  (b.execute f).insert (f.row gitSha)

def after (gitSha : Option String) (b : Image D S) (l : List (File D S)) : Image D S :=
  l.foldl (record gitSha) b

variable {shas : Bool} {gitSha gitSha' : Option String} {b b' b'' : Image D S} {f m : File D S}
  {ms l all : List (File D S)}

theorem Alike.refl (b : Image D S) : Alike shas b b := ⟨rfl, rfl, rfl, rfl⟩

theorem Alike.symm (h : Alike shas b b') : Alike shas b' b :=
  ⟨h.data.symm, h.settings.symm, h.ledger.symm, h.done.symm⟩

theorem Alike.trans (h : Alike shas b b') (h' : Alike shas b' b'') : Alike shas b b'' :=
  ⟨h.data.trans h'.data, h.settings.trans h'.settings, h.ledger.trans h'.ledger,
    h.done.trans h'.done⟩

theorem Alike.versions (h : Alike shas b b') : versions b = versions b' := by
  have hv := congrArg (List.map Prod.fst) h.ledger
  rw [List.map_map, List.map_map] at hv
  exact hv

theorem entry_row (hs : shas = true → gitSha = gitSha') (f : File D S) :
    entry shas (f.row gitSha) = entry shas (f.row gitSha') := by
  cases shas with
  | false => rfl
  | true => rw [hs rfl]

theorem Alike.record (h : Alike shas b b') (hc : Confined shas f)
    (hs : shas = true → gitSha = gitSha') :
    Alike shas (record gitSha b f) (record gitSha' b' f) := by
  have hl : (f.run b.contents).ledger.map (entry shas) =
      (f.run b'.contents).ledger.map (entry shas) := by
    rw [hc.ledger, hc.ledger, h.ledger]
  refine ⟨hc.data _ _ h.data h.settings h.ledger, ?_, ?_, ?_⟩
  · change (f.run b.contents).settings = (f.run b'.contents).settings
    rw [hc.settings, hc.settings, h.settings]
  · change ((f.run b.contents).ledger ++ [f.row gitSha]).map (entry shas) =
      ((f.run b'.contents).ledger ++ [f.row gitSha']).map (entry shas)
    rw [List.map_append, List.map_append, hl, List.map_singleton, List.map_singleton, entry_row hs]
  · change b.done ++ [f] = b'.done ++ [f]
    rw [h.done]

theorem versions_record (hc : Confined shas f) :
    versions (record gitSha b f) = versions b ++ [f.version] := by
  change ((f.run b.contents).ledger ++ [f.row gitSha]).map (·.version) = _
  rw [hc.ledger, List.map_append]
  rfl

theorem after_append (l : List (File D S)) (f : File D S) :
    after gitSha b (l ++ [f]) = record gitSha (after gitSha b l) f := List.foldl_append

theorem after_done (l : List (File D S)) : (after gitSha b l).done = b.done ++ l := by
  induction l generalizing b with
  | nil => exact (List.append_nil _).symm
  | cons f l ih =>
      have h : (after gitSha (record gitSha b f) l).done = (b.done ++ [f]) ++ l := ih
      rw [List.append_assoc] at h
      exact h

theorem after_settings (hc : ∀ f ∈ l, Confined shas f) :
    (after gitSha b l).contents.settings = b.contents.settings := by
  induction l generalizing b with
  | nil => rfl
  | cons f l ih =>
      have h : (after gitSha (record gitSha b f) l).contents.settings =
          (f.run b.contents).settings :=
        ih fun f hf => hc f (List.mem_cons_of_mem _ hf)
      rw [(hc f List.mem_cons_self).settings] at h
      exact h

theorem pending_cons_of_not_mem (h : m.version ∉ versions b) :
    pending (m :: ms) b = m :: pending ms b := by
  simp [pending, h]

theorem pending_record (hc : Confined shas m) (hn : m.version ∉ ms.map File.version) :
    pending ms (record gitSha b m) = pending ms b := by
  refine List.filter_congr fun f hf => ?_
  have hne : f.version ≠ m.version := fun he => hn (he ▸ List.mem_map_of_mem hf)
  simp [versions_record hc, hne]

theorem pending_nil (h : ∀ m ∈ ms, m.version ∈ versions b) : pending ms b = [] := by
  simpa [pending] using h

theorem passedOver_iff {force : Bool} (hd : m.destructive = false) :
    passedOver force (b.contents.ledger.map LedgerRow.key) m = true ↔ m.version ∈ versions b := by
  simp [passedOver, hd, versions, LedgerRow.key]

/-- A set of files that can be applied in any number of runs. -/
structure Steady (shas : Bool) (ms : List (File D S)) : Prop where
  distinct : (ms.map File.version).Nodup
  plain : ∀ m ∈ ms, m.destructive = false
  confined : ∀ m ∈ ms, Confined shas m

theorem Steady.tail (h : Steady shas (m :: ms)) : Steady shas ms :=
  ⟨(List.nodup_cons.mp h.distinct).2, fun f hf => h.plain f (List.mem_cons_of_mem _ hf),
    fun f hf => h.confined f (List.mem_cons_of_mem _ hf)⟩

/-- The database has come some way from `b₀`; what is pending is still to come. -/
def Reached (shas : Bool) (gitSha : Option String) (b₀ : Image D S) (all : List (File D S))
    (b : Image D S) : Prop :=
  ∃ l, Alike shas b (after gitSha b₀ l) ∧ pending all b₀ = l ++ pending all b

/-- Within a run that has found the ledger of `b₁`. -/
structure Stage (shas : Bool) (gitSha : Option String) (b₀ b₁ : Image D S)
    (all ms : List (File D S)) (b : Image D S) :
    Prop where
  steady : Steady shas ms
  past : ∃ past, all = past ++ ms ∧ ∀ m ∈ past, m.version ∈ versions b
  fresh : ∀ m ∈ ms, m.version ∈ versions b ↔ m.version ∈ versions b₁
  reached : Reached shas gitSha b₀ all b

variable {force : Bool} {b₀ b₁ : Image D S} {sha : Option String}

theorem Stage.pending_eq (h : Stage shas gitSha b₀ b₁ all ms b) : pending all b = pending ms b := by
  obtain ⟨past, hall, hpast⟩ := h.past
  have hnil : pending past b = [] := pending_nil hpast
  rw [hall, pending, List.filter_append]
  rw [pending] at hnil
  rw [hnil, List.nil_append, pending]

theorem Stage.skip (h : Stage shas gitSha b₀ b₁ all (m :: ms) b) (hin : m.version ∈ versions b₁) :
    Stage shas gitSha b₀ b₁ all ms b := by
  obtain ⟨past, hall, hpast⟩ := h.past
  refine ⟨h.steady.tail, ⟨past ++ [m], by rw [hall]; simp, fun f hf => ?_⟩,
    fun f hf => h.fresh f (List.mem_cons_of_mem _ hf), h.reached⟩
  rcases List.mem_append.mp hf with hf | hf
  · exact hpast f hf
  · rw [List.mem_singleton.mp hf]
    exact (h.fresh m List.mem_cons_self).mpr hin

theorem Stage.one (h : Stage shas gitSha b₀ b₁ all (m :: ms) b) (hs : shas = true → sha = gitSha)
    (hn : m.version ∉ versions b) : Stage shas gitSha b₀ b₁ all ms (record sha b m) := by
  have hc := h.steady.confined m List.mem_cons_self
  have hm : m.version ∉ ms.map File.version := (List.nodup_cons.mp h.steady.distinct).1
  obtain ⟨past, hall, hpast⟩ := h.past
  obtain ⟨l, hal, hp⟩ := h.reached
  have hpast' : ∀ f ∈ past ++ [m], f.version ∈ versions (record sha b m) := by
    intro f hf
    rw [versions_record hc]
    rcases List.mem_append.mp hf with hf | hf
    · exact List.mem_append_left _ (hpast f hf)
    · rw [List.mem_singleton.mp hf]
      exact List.mem_append_right _ List.mem_cons_self
  have hall' : all = (past ++ [m]) ++ ms := by
    rw [hall, List.append_assoc, List.singleton_append]
  have hfresh : ∀ f ∈ ms, f.version ∈ versions (record sha b m) ↔ f.version ∈ versions b₁ := by
    intro f hf
    have hne : f.version ≠ m.version := fun he => hm (he ▸ List.mem_map_of_mem hf)
    rw [versions_record hc, ← h.fresh f (List.mem_cons_of_mem _ hf)]
    simp [hne]
  have hnil : pending (past ++ [m]) (record sha b m) = [] := pending_nil hpast'
  have hrest : pending all (record sha b m) = pending ms b := by
    rw [← pending_record hc hm, hall', pending, List.filter_append]
    rw [pending] at hnil
    rw [hnil, List.nil_append, pending]
  refine ⟨h.steady.tail, ⟨past ++ [m], hall', hpast'⟩, hfresh, l ++ [m], ?_, ?_⟩
  · rw [after_append]
    exact hal.record hc hs
  · rw [hp, h.pending_eq, pending_cons_of_not_mem hn, hrest, List.append_assoc,
      List.singleton_append]

theorem stage_kept (hs : shas = true → sha = gitSha) :
    Kept (Stage shas gitSha b₀ b₁ all) force sha (b₁.contents.ledger.map LedgerRow.key) := by
  refine ⟨fun m ms b h => (h.steady.confined m List.mem_cons_self).transactional,
    fun m ms b hp h => ?_,
    fun m ms b hp h hnew => ?_⟩
  · exact h.skip ((passedOver_iff (h.steady.plain m List.mem_cons_self)).mp hp)
  · have hv : m.version ∉ versions b := by
      have hl : (m.run b.contents).ledger = b.contents.ledger :=
        (h.steady.confined m List.mem_cons_self).ledger b.contents
      change m.version ∉ (m.run b.contents).ledger.map (·.version) at hnew
      rw [hl] at hnew
      exact hnew
    exact h.one hs hv

theorem Stage.waits (h : Stage shas gitSha b₀ b₁ all (m :: ms) b)
    (hp : passedOver force (b₁.contents.ledger.map LedgerRow.key) m = false) :
    m.version ∉ versions b ∧ ∃ rest, pending all b = m :: rest := by
  have hn : m.version ∉ versions b := by
    rw [h.fresh m List.mem_cons_self, ← passedOver_iff (h.steady.plain m List.mem_cons_self), hp]
    exact Bool.noConfusion
  refine ⟨hn, pending ms b, ?_⟩
  rw [h.pending_eq, pending_cons_of_not_mem hn]

structure Ran (shas : Bool) (gitSha : Option String) (b₀ : Image D S) (all : List (File D S))
    (tr : RunTrace D S)
    (ended : Prop) (b : Image D S) : Prop where
  reached : Reached shas gitSha b₀ all b
  finished : ended → pending all b = []
  failed : ∀ v, FailedAt v tr → ∃ m rest, m.version = v ∧ v ∉ versions b ∧ pending all b = m :: rest

variable {dir : List (File D S)} {init : S} {tr : RunTrace D S} {s : Server D S}
  {q : Script D S Nat}

theorem run_ran (hst : Steady shas (localMigrations dir)) (hs : shas = true → sha = gitSha)
    (h : Reached shas gitSha b₀ (localMigrations dir) (connected init b).saved)
    (hx : Exec step (connected init b) (apply dir force sha) tr s q) :
    Ran shas gitSha b₀ (localMigrations dir) tr (q = .ret 0) s.saved := by
  have hstart : Stage shas gitSha b₀ (connected init b).saved (localMigrations dir)
      (localMigrations dir)
      (connected init b).saved :=
    ⟨hst, ⟨[], rfl, fun _ hm => absurd hm List.not_mem_nil⟩, fun _ _ => Iff.rfl, h⟩
  have hkept : Kept (Stage shas gitSha b₀ (connected init b).saved (localMigrations dir)) force sha
      _ := stage_kept hs
  have hsat := (apply_sat hkept hstart).exec (hx.traced [])
  have hran : ∀ {ended : Prop}, Settled (Stage shas gitSha b₀ (connected init b).saved
      (localMigrations dir)) force
      ((connected init b).saved.contents.ledger.map LedgerRow.key) (s, [] ++ tr) →
        (ended → pending (localMigrations dir) s.saved = []) →
      Ran shas gitSha b₀ (localMigrations dir) tr ended s.saved := by
    intro ended hset hend
    obtain ⟨ms, hms⟩ := hset.kept
    refine ⟨hms.reached, hend, fun v hv => ?_⟩
    obtain ⟨m, ms, hmv, hp, hst⟩ := hset.failed v hv
    obtain ⟨hn, rest, hrest⟩ := hst.waits hp
    exact ⟨m, rest, hmv, hmv ▸ hn, hrest⟩
  cases q with
  | ret code =>
      refine hran hsat.2 fun hq => ?_
      have hcode : code = 0 := by
        cases hq
        rfl
      have hnil := (hsat.1 hcode).pending_eq
      rw [hnil]
      rfl
  | raise x => exact hran hsat fun hq => by cases hq
  | call e k => exact hran hsat.1 fun hq => by cases hq

def session (init : S) (b : Image D S) : Image D S := (connected init b).saved

theorem pending_session (init : S) (ms : List (File D S)) (b : Image D S) :
    pending ms (session init b) = pending ms b := rfl

theorem session_of_settings (h : b.contents.settings = init) : session init b = b := by
  subst h
  rfl

theorem Reached.renewed (hst : Steady shas all) (h : Reached shas gitSha (session init b₀) all b) :
    session init b = b := by
  obtain ⟨l, hal, hp⟩ := h
  have hl : ∀ f ∈ l, f ∈ all := by
    intro f hf
    have hm : f ∈ pending all (session init b₀) := hp ▸ List.mem_append_left _ hf
    exact (List.mem_filter.mp hm).1
  apply session_of_settings
  rw [hal.settings, after_settings fun f hf => hst.confined f (hl f hf)]
  rfl

/-- Runs on one directory, all given the same `--git-sha` if that is compared. -/
def Uniform (shas : Bool) (gitSha : Option String) (dir : List (File D S)) (rs : List (Run D S)) :
    Prop :=
  ∀ r ∈ rs, r.dir = dir ∧ (shas = true → r.gitSha = gitSha)

theorem history_reached {rs : List (Run D S)} (hst : Steady shas (localMigrations dir))
    (hu : Uniform shas gitSha dir rs)
    (h : History init b₀ rs b) : Reached shas gitSha (session init b₀) (localMigrations dir)
    (session init b) := by
  induction h with
  | nil => exact ⟨[], .refl _, rfl⟩
  | @snoc rs b r s _ hx ih =>
      have hpast := ih fun r' hr' => hu r' (List.mem_append_left _ hr')
      obtain ⟨hdir, hsha⟩ := hu r (List.mem_append_right _ List.mem_cons_self)
      rw [hdir] at hx
      have hran := (run_ran hst hsha hpast hx).reached
      rw [hran.renewed hst]
      exact hran

theorem history_snoc {rs : List (Run D S)} {r : Run D S} (h : History init b₀ (rs ++ [r]) b) :
    ∃ b' s, History init b₀ rs b' ∧
      Exec step (connected init b') (apply r.dir r.force r.gitSha) r.trace s r.result ∧
        b = s.saved := by
  generalize hl : rs ++ [r] = l at h
  cases h with
  | nil => simp at hl
  | @snoc rs' b' r' s h hx =>
      obtain ⟨rfl, hr⟩ := List.append_inj' hl rfl
      cases hr
      exact ⟨b', s, h, hx, rfl⟩

theorem last_ran {rs : List (Run D S)} {r : Run D S} (hst : Steady shas (localMigrations dir))
    (hu : Uniform shas gitSha dir (rs ++ [r])) (h : History init b₀ (rs ++ [r]) b) :
    Ran shas gitSha (session init b₀) (localMigrations dir) r.trace (r.result = .ret 0) b := by
  obtain ⟨b', s, hpast, hx, rfl⟩ := history_snoc h
  have hreached := history_reached hst (fun r' hr' => hu r' (List.mem_append_left _ hr')) hpast
  obtain ⟨hdir, hsha⟩ := hu r (List.mem_append_right _ List.mem_cons_self)
  rw [hdir] at hx
  exact run_ran hst hsha hreached hx

theorem run_unchanged (hst : Steady shas (localMigrations dir))
    (h : pending (localMigrations dir) b = [])
    (hs : (connected init b).saved = b) (hx :
    Exec step (connected init b) (apply dir force sha) tr s q) : s.saved = b := by
  have hin : ∀ m ∈ localMigrations dir, m.version ∈ versions b := by
    intro m hm
    by_contra hn
    have hmem : m ∈ pending (localMigrations dir) b := List.mem_filter.mpr ⟨hm, by simpa using hn⟩
    rw [h] at hmem
    exact absurd hmem List.not_mem_nil
  have hkept : Kept (fun ms b' => ms ⊆ localMigrations dir ∧ b' = b) force sha
      ((connected init b).saved.contents.ledger.map LedgerRow.key) := by
    refine ⟨fun m ms b' h => (hst.confined m (h.1 List.mem_cons_self)).transactional,
      fun m ms b' _ h => ⟨fun f hf => h.1 (List.mem_cons_of_mem _ hf), h.2⟩, fun m ms b' hp h hnew => ?_⟩
    have hm := h.1 List.mem_cons_self
    have hpassed : passedOver force (b.contents.ledger.map LedgerRow.key) m = true :=
      (passedOver_iff (hst.plain m hm)).mpr (hin m hm)
    rw [hs, hpassed] at hp
    cases hp
  have hsat := (apply_sat hkept ⟨List.Subset.refl _, hs⟩).exec (hx.traced [])
  cases q with
  | ret code =>
      obtain ⟨ms, -, hb⟩ := hsat.2.kept
      exact hb
  | raise x =>
      obtain ⟨ms, -, hb⟩ := hsat.kept
      exact hb
  | call e k =>
      obtain ⟨ms, -, hb⟩ := hsat.1.kept
      exact hb

def idle (b : Image D S) : Server D S := ⟨b, b, false⟩

theorem applyOne_exec (hc : Confined shas m) (hn : m.version ∉ versions b) :
    ∃ tr, Exec step (idle b) (applyOne sha m) tr (idle (record sha b m)) (.ret true) := by
  have hnew : m.version ∉ (b.execute m).contents.ledger.map (·.version) := by
    change m.version ∉ (m.run b.contents).ledger.map (·.version)
    rw [hc.ledger]
    exact hn
  have hexec : step (idle b) (.execute m) (.ok ()) ⟨b, b.execute m, false⟩ := fun _ => ⟨rfl, rfl⟩
  have hinsert : step ⟨b, b.execute m, false⟩ (.insert (m.row sha)) (.ok ())
      ⟨b, record sha b m, false⟩ :=
    ⟨rfl, hnew, rfl⟩
  have hcommit : step ⟨b, record sha b m, false⟩ .commit (.ok ()) (idle (record sha b m)) := rfl
  exact ⟨_, .call hexec (.call hinsert (.call hcommit (.refl _ _)))⟩

theorem applyLoop_exec {applied : List (String × String)} (hst : Steady shas ms)
    (happ : ∀ m ∈ ms, passedOver force applied m = true ↔ m.version ∈ versions b) :
    ∃ tr b', Exec step (idle b) (applyLoop force sha applied ms) tr (idle b') (.ret false) := by
  induction ms generalizing b with
  | nil => exact ⟨[], b, .refl _ _⟩
  | cons m ms ih =>
      by_cases hp : passedOver force applied m = true
      · obtain ⟨tr, b', hx⟩ := ih hst.tail fun f hf => happ f (List.mem_cons_of_mem _ hf)
        refine ⟨tr, b', ?_⟩
        rw [applyLoop, if_pos hp]
        exact hx
      · have hn : m.version ∉ versions b := fun h => hp ((happ m List.mem_cons_self).mpr h)
        have hc := hst.confined m List.mem_cons_self
        obtain ⟨tr, hone⟩ : ∃ tr, Exec step (idle b) (applyOne sha m) tr (idle (record sha b m)) (.ret true) :=
          applyOne_exec hc hn
        have hlater : ∀ f ∈ ms, passedOver force applied f = true ↔
            f.version ∈ versions (record sha b m) := by
          intro f hf
          have hne : f.version ≠ m.version := fun he =>
            (List.nodup_cons.mp hst.distinct).1 (he ▸ List.mem_map_of_mem hf)
          rw [versions_record hc, happ f (List.mem_cons_of_mem _ hf)]
          simp [hne]
        obtain ⟨tr', b', hx⟩ := ih hst.tail hlater
        have hread : step (idle b) (.read m) (.ok ()) (idle b) := rfl
        refine ⟨⟨.read m, .ok ()⟩ :: (tr ++ tr'), b', ?_⟩
        rw [applyLoop, if_neg hp]
        exact .call hread (hone.bind hx)

theorem apply_exec (hst : Steady shas (localMigrations dir)) (init : S) (b : Image D S) :
    ∃ tr s, Exec step (connected init b) (apply dir force sha) tr s (.ret 0) := by
  have happ : ∀ m ∈ localMigrations dir,
      passedOver force ((session init b).contents.ledger.map LedgerRow.key) m = true ↔
        m.version ∈ versions (session init b) :=
    fun m hm => passedOver_iff (hst.plain m hm)
  obtain ⟨tr, b', hx⟩ : ∃ tr b', Exec step (idle (session init b)) (applyLoop force sha _ (localMigrations dir)) tr
      (idle b') (.ret false) := applyLoop_exec hst happ
  have hensure : step (connected init b) .ensureLedger (.ok ()) (connected init b) := ⟨rfl, rfl⟩
  have hcommit : step (connected init b) .commit (.ok ()) (connected init b) := rfl
  have hrows : step (connected init b) .appliedVersions
      (.ok ((session init b).contents.ledger.map LedgerRow.key))
      (connected init b) := ⟨rfl, rfl, rfl⟩
  exact ⟨_, _, .call hensure (.call hcommit (.call hrows (hx.bind (.refl _ _))))⟩

/-- The database `b` after some runs on one directory, of which `r` is the last. -/
structure Resumed (shas : Bool) (gitSha : Option String) (init : S) (dir : List (File D S))
    (b₀ : Image D S)
    (r : Run D S) (b : Image D S) : Prop where
  sorted : (pending (localMigrations dir) b₀).Pairwise (fun f g => f.name ≤ g.name)
  /-- Whole files have taken effect, each once; one that has failed in the last run is the next to
  come. -/
  stage : ∃ l rest, pending (localMigrations dir) b₀ = l ++ rest ∧ (l ++ rest).Nodup ∧
    b.done = b₀.done ++ l ∧
    Alike shas b (after gitSha (session init b₀) l) ∧
      ∀ m ∈ localMigrations dir, FailedAt m.version r.trace → m ∉ l ∧ rest.head? = some m ∧
        m.version ∉ versions b
  finished : r.result = .ret 0 → b.done = b₀.done ++ pending (localMigrations dir) b₀ ∧
    ∀ gitSha' tr s, (shas = true → gitSha' = gitSha) →
      Exec step (connected init b₀) (apply dir false gitSha') tr s (.ret 0) → Alike shas b s.saved
  /-- There is a run without failures to compare with. -/
  unfailing : ∃ tr s, Exec step (connected init b₀) (apply dir false gitSha) tr s (.ret 0)
  further : r.result = .ret 0 → ∀ force' gitSha' tr s q,
    Exec step (connected init b) (apply dir force' gitSha') tr s q → s.saved = b

theorem pending_sorted (dir : List (File D S)) (b : Image D S) :
    (pending (localMigrations dir) b).Pairwise (fun f g => f.name ≤ g.name) := by
  have hs : (dir.mergeSort (fun f g => f.name ≤ g.name)).Pairwise
      (fun f g => decide (f.name ≤ g.name) = true) := by
    apply List.pairwise_mergeSort
    · intro f g k hfg hgk
      simp only [decide_eq_true_eq] at *
      exact String.le_trans hfg hgk
    · intro f g
      simpa using String.le_total f.name g.name
  refine ((hs.filter _).filter _).imp fun h => ?_
  simpa using h

theorem pending_nodup (hst : Steady shas all) (b : Image D S) : (pending all b).Nodup :=
  (hst.distinct.of_map).filter _

theorem Reached.complete (h : Reached shas gitSha (session init b₀) all b)
    (hp : pending all b = []) :
    Alike shas b (after gitSha (session init b₀) (pending all b₀)) := by
  obtain ⟨l, hal, hl⟩ := h
  rw [hp, List.append_nil, pending_session] at hl
  rw [hl]
  exact hal

/-- Runs of `apply` can be resumed: wherever they stop or fail, they come to
what one run without failures comes to. -/
theorem resumed {rs : List (Run D S)} {r : Run D S} (hst : Steady shas (localMigrations dir))
    (hu : Uniform shas gitSha dir (rs ++ [r])) (h : History init b₀ (rs ++ [r]) b) :
    Resumed shas gitSha init dir b₀ r b := by
  have hran := last_ran hst hu h
  refine ⟨pending_sorted dir b₀, ?_, fun hexit => ?_, apply_exec hst init b₀,
    fun hexit force' gitSha' tr s q hx => ?_⟩
  · obtain ⟨l, hal, hl⟩ := hran.reached
    rw [pending_session] at hl
    have hn : (l ++ pending (localMigrations dir) b).Nodup := hl ▸ pending_nodup hst b₀
    refine ⟨l, pending (localMigrations dir) b, hl, hn, ?_, hal, fun m hm hf => ?_⟩
    · rw [hal.done, after_done]
      rfl
    · obtain ⟨m', rest, hv, hnew, hrest⟩ := hran.failed m.version hf
      have hm' : m' ∈ localMigrations dir := by
        have hin : m' ∈ pending (localMigrations dir) b := hrest ▸ List.mem_cons_self
        exact (List.mem_filter.mp hin).1
      have hsame : m' = m := List.inj_on_of_nodup_map hst.distinct hm' hm hv
      rw [hrest, hsame] at hn ⊢
      refine ⟨fun hl => ?_, rfl, hnew⟩
      exact (List.nodup_append.mp hn).2.2 m hl m List.mem_cons_self rfl
  · have hb := hran.reached.complete (hran.finished hexit)
    refine ⟨?_, fun gitSha' tr s hsha hx => ?_⟩
    · rw [hb.done, after_done]
      rfl
    · have hfirst : Reached shas gitSha (session init b₀) (localMigrations dir)
          (connected init b₀).saved :=
        ⟨[], .refl _, rfl⟩
      have hrun := run_ran hst hsha hfirst hx
      exact hb.trans (hrun.reached.complete (hrun.finished rfl)).symm
  · exact run_unchanged hst (hran.finished hexit) (hran.reached.renewed hst) hx

def setPath : File Nat Nat := ⟨"001_path.sql", "a", [.effect fun c => { c with settings := 1 }]⟩

def addTable : File Nat Nat :=
  ⟨"002_table.sql", "b", [.effect fun c => { c with data := 1 + c.settings }]⟩

def addRow : File Nat Nat := ⟨"001_row.sql", "c", [.effect fun c => { c with data := c.data + 1 }]⟩

def forget : File Nat Nat := ⟨"002_forget.sql", "d", [.effect fun c => { c with ledger := [] }]⟩

def empty : Image Nat Nat := ⟨⟨0, [], 0⟩, []⟩

def second (f : File Nat Nat) : Bool := f.version == "002"

def sound (_ : File Nat Nat) : Bool := false

def resumedFrom (f g : File Nat Nat) (gitSha : Option String) : Image Nat Nat :=
  (attempt 0 second [f, g] gitSha empty).2.1.saved

theorem resumed_history (f g : File Nat Nat) (gitSha gitSha' : Option String) :
    History 0 empty ([.of 0 second [f, g] gitSha empty] ++
      [.of 0 sound [f, g] gitSha' (resumedFrom f g gitSha)])
      (attempt 0 sound [f, g] gitSha' (resumedFrom f g gitSha)).2.1.saved :=
  (History.nil.attempt second [f, g] gitSha).attempt sound [f, g] gitSha'

/-- Runs that end with exit status 0 come to what one such run comes to. -/
def EndAlike (ok : File Nat Nat → Prop) (shas : Bool) : Prop :=
  ∀ (dir : List (File Nat Nat)) (b₀ b : Image Nat Nat) (rs : List (Run Nat Nat)) (r :
    Run Nat Nat) tr s,
    (∀ f ∈ localMigrations dir, f.transactional ∧ f.destructive = false ∧ ok f) →
      ((localMigrations dir).map File.version).Nodup → History 0 b₀ (rs ++ [r]) b →
        Uniform shas none dir (rs ++ [r]) →
        r.result = .ret 0 → Exec step (connected 0 b₀) (apply dir false none) tr s (.ret 0) →
          b.contents.data = s.saved.contents.data ∧
            b.contents.ledger.map (entry true) = s.saved.contents.ledger.map (entry true)

/-- After a run that has ended with exit status 0, another one changes nothing. -/
def StandStill (ok : File Nat Nat → Prop) : Prop :=
  ∀ (dir : List (File Nat Nat)) (b : Image Nat Nat) (r r' : Run Nat Nat) (b' : Image Nat Nat),
    (∀ f ∈ localMigrations dir, f.transactional ∧ f.destructive = false ∧ ok f) →
      ((localMigrations dir).map File.version).Nodup → r.dir = dir → r'.dir = dir →
        History 0 empty [r] b →
        r.result = .ret 0 → History 0 empty ([r] ++ [r']) b' → b'.contents.data = b.contents.data

theorem pair_files {f g : File Nat Nat} {P : File Nat Nat → Prop}
    (hs : localMigrations [f, g] = [f, g]) (hf : P f)
    (hg : P g) : ∀ m ∈ localMigrations [f, g], P m := by
  rw [hs]
  simpa using ⟨hf, hg⟩

theorem rows_sorted : localMigrations [addRow, addTable] = [addRow, addTable] :=
  pair_sorted (by simp [addRow, addTable]) rfl rfl

theorem addRow_confined : Confined true addRow :=
  ⟨by simp [File.transactional, addRow, Statement.isEffect], fun c => rfl, fun c => rfl,
    fun c c' hd _ _ => congrArg (· + 1) hd⟩

theorem addTable_confined : Confined true addTable :=
  ⟨by simp [File.transactional, addTable, Statement.isEffect], fun c => rfl, fun c => rfl,
    fun c c' _ hs _ => congrArg (1 + ·) hs⟩

theorem rows_steady : Steady true (localMigrations [addRow, addTable]) :=
  ⟨by rw [rows_sorted]; decide, pair_files rows_sorted rfl rfl, pair_files rows_sorted addRow_confined addTable_confined⟩

theorem of_uniform (f g : File Nat Nat) (shas : Bool) (gitSha gitSha' : Option String)
    (h : shas = true → gitSha = none ∧ gitSha' = none) (b : Image Nat Nat) :
    Uniform shas none [f, g] ([.of 0 second [f, g] gitSha empty] ++
      [.of 0 sound [f, g] gitSha' b]) := by
  intro r hr
  rcases List.mem_append.mp hr with hr | hr
  · rw [List.mem_singleton.mp hr]
    exact ⟨rfl, fun hs => (h hs).1⟩
  · rw [List.mem_singleton.mp hr]
    exact ⟨rfl, fun hs => (h hs).2⟩

theorem rows_resumed : Resumed true none 0 [addRow, addTable] empty
    (.of 0 sound [addRow, addTable] none (resumedFrom addRow addTable none))
    (attempt 0 sound [addRow, addTable] none (resumedFrom addRow addTable none)).2.1.saved :=
  resumed rows_steady (of_uniform addRow addTable true none none (fun _ => ⟨rfl, rfl⟩) _)
    (resumed_history addRow addTable none none)

theorem path_sorted : localMigrations [setPath, addTable] = [setPath, addTable] :=
  pair_sorted (by simp [setPath, addTable]) rfl rfl

theorem path_differs : ¬ EndAlike (fun f => ∀ c, (f.run c).ledger = c.ledger) true := by
  intro h
  have hhalf : resumedFrom setPath addTable none = ⟨⟨0, [setPath.row none], 1⟩, [setPath]⟩ := by
    rw [resumedFrom, attempt, apply, path_sorted]
    rfl
  have hset : setPath.transactional := by simp [File.transactional, setPath, Statement.isEffect]
  have hexit : (attempt 0 sound [setPath, addTable] none (resumedFrom setPath addTable none)).2.2 =
      .ret 0 := by
    rw [hhalf, attempt, apply, path_sorted]
    rfl
  have hone : (attempt 0 sound [setPath, addTable] none empty).2.2 = .ret 0 := by
    rw [attempt, apply, path_sorted]
    rfl
  have hend := h [setPath, addTable] empty _ _ _ (attempt 0 sound [setPath, addTable] none empty).1
    (attempt 0 sound [setPath, addTable] none empty).2.1
    (pair_files path_sorted ⟨hset, rfl, fun c => rfl⟩
    ⟨addTable_confined.transactional, rfl, addTable_confined.ledger⟩)
    (by rw [path_sorted]; decide) (resumed_history setPath addTable none none)
    (of_uniform setPath addTable true none none (fun _ => ⟨rfl, rfl⟩) _) hexit
    (hone ▸ drive_exec sound (apply [setPath, addTable] false none) (connected 0 empty))
  have hdata := hend.1
  rw [hhalf, attempt, attempt, apply, path_sorted] at hdata
  cases hdata

/-- Each run writes its own `--git-sha`. -/
theorem sha_differs : ¬ EndAlike (Confined true) false := by
  intro h
  have hhalf : resumedFrom addRow addTable (some "e") =
      ⟨⟨1, [addRow.row (some "e")], 0⟩, [addRow]⟩ := by
    rw [resumedFrom, attempt, apply, rows_sorted]
    rfl
  have hexit : (attempt 0 sound [addRow, addTable] none
      (resumedFrom addRow addTable (some "e"))).2.2 = .ret 0 := by
    rw [hhalf, attempt, apply, rows_sorted]
    rfl
  have hone : (attempt 0 sound [addRow, addTable] none empty).2.2 = .ret 0 := by
    rw [attempt, apply, rows_sorted]
    rfl
  have hend := h [addRow, addTable] empty _ _ _ (attempt 0 sound [addRow, addTable] none empty).1
    (attempt 0 sound [addRow, addTable] none empty).2.1
    (pair_files rows_sorted ⟨addRow_confined.transactional, rfl, addRow_confined⟩
      ⟨addTable_confined.transactional, rfl, addTable_confined⟩)
    rows_steady.distinct (resumed_history addRow addTable (some "e") none)
    (of_uniform addRow addTable false (some "e") none Bool.noConfusion _) hexit
    (hone ▸ drive_exec sound (apply [addRow, addTable] false none) (connected 0 empty))
  have hledger := hend.2
  rw [hhalf, attempt, attempt, apply, rows_sorted] at hledger
  cases hledger

theorem forget_sorted : localMigrations [addRow, forget] = [addRow, forget] :=
  pair_sorted (by simp [addRow, forget]) rfl rfl

theorem forgotten_again : ¬ StandStill (fun f => ∀ c, (f.run c).settings = c.settings) := by
  intro h
  have hfirst : (attempt 0 sound [addRow, forget] none empty).2.1.saved =
      ⟨⟨1, [forget.row none], 0⟩, [addRow, forget]⟩ := by
    rw [attempt, apply, forget_sorted]
    rfl
  have hforget : forget.transactional := by simp [File.transactional, forget, Statement.isEffect]
  have hexit : (attempt 0 sound [addRow, forget] none empty).2.2 = .ret 0 := by
    rw [attempt, apply, forget_sorted]
    rfl
  have hone : History 0 empty [.of 0 sound [addRow, forget] none empty]
      (attempt 0 sound [addRow, forget] none empty).2.1.saved :=
        History.nil.attempt sound [addRow, forget] none
  have hdata := h [addRow, forget] _ _ _ _
    (pair_files forget_sorted ⟨addRow_confined.transactional, rfl, addRow_confined.settings⟩
    ⟨hforget, rfl, fun c => rfl⟩)
    (by rw [forget_sorted]; decide) rfl rfl hone hexit (hone.attempt sound [addRow, forget] none)
  rw [hfirst, attempt, apply, forget_sorted] at hdata
  cases hdata

theorem runs_differ : ¬ EndAlike (fun f => ∀ c, (f.run c).ledger = c.ledger) true ∧
    ¬ EndAlike (Confined true) false ∧
    ¬ StandStill (fun f => ∀ c, (f.run c).settings = c.settings) :=
  ⟨path_differs, sha_differs, forgotten_again⟩

end ServerManager.ResumedMigrations
