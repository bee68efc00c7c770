import Mathlib.Data.List.Nodup
import ServerManager.Migrations

namespace ServerManager.MigrationCover

open Interaction Migrations

variable {D S : Type}

/-- One run of `apply`, with its answered calls and what it has come to. -/
structure Run (D S : Type) where
  dir : List (File D S)
  force : Bool
  gitSha : Option String
  trace : RunTrace D S
  result : Script D S Nat

/-- Runs one after the other, each on a new connection; any of them may be cut off. -/
inductive History (init : S) (b₀ : Image D S) : List (Run D S) → Image D S → Prop
  | nil : History init b₀ [] b₀
  | snoc {rs : List (Run D S)} {b : Image D S} {r : Run D S} {s : Server D S} :
      History init b₀ rs b → Exec step (connected init b) (apply r.dir r.force r.gitSha) r.trace s
        r.result →
        History init b₀ (rs ++ [r]) s.saved

def filesOf (rs : List (Run D S)) : List (File D S) := rs.flatMap fun r => localMigrations r.dir

/-- The SQL neither controls its transaction nor writes the ledger. -/
structure Tame (f : File D S) : Prop where
  transactional : f.transactional
  ledger : ∀ c, (f.run c).ledger = c.ledger

/-- No file that is wanted has the version of another one that has been applied. -/
def Unclashing (b : Image D S) (dir : List (File D S)) : Prop :=
  ∀ f ∈ b.done, ∀ g ∈ localMigrations dir, g.destructive = false → f.version = g.version → f = g

/-- The file's SQL is committed exactly once. -/
def Once (f : File D S) (done : List (File D S)) : Prop :=
  ∃ before after, done = before ++ f :: after ∧ f ∉ before ∧ f ∉ after

/-- Nothing of the directory is left behind. -/
def Covered (dir : List (File D S)) (b : Image D S) : Prop :=
  ∀ f ∈ localMigrations dir, f.destructive = false → Once f b.done ∧
    ∃ row ∈ b.contents.ledger, row.key = f.key ∧
      ∀ g ∈ localMigrations dir, g.destructive = false → g.version = row.version → g = f

/-- The ledger lists the committed files, each version once. -/
structure Inv (b : Image D S) : Prop where
  rows : b.contents.ledger.map LedgerRow.key = b.done.map File.key
  versions : (b.done.map File.version).Nodup

variable {b b' : Image D S} {init : S}

theorem Inv.same (h : Inv b) {f g : File D S} (hf : f ∈ b.done) (hg : g ∈ b.done)
    (hv : f.version = g.version) : f = g :=
  List.inj_on_of_nodup_map h.versions hf hg hv

theorem Inv.once (h : Inv b) {f : File D S} (hf : f ∈ b.done) : Once f b.done := by
  obtain ⟨before, after, hsplit⟩ := List.append_of_mem hf
  have hn : b.done.Nodup := h.versions.of_map
  rw [hsplit] at hn
  obtain ⟨-, hcons, hdis⟩ := List.nodup_append.mp hn
  refine ⟨before, after, hsplit, fun hm => ?_, (List.nodup_cons.mp hcons).1⟩
  exact hdis f hm f List.mem_cons_self rfl

theorem Inv.row (h : Inv b) {f : File D S} (hf : f ∈ b.done) : ∃ row ∈ b.contents.ledger,
    row.key = f.key := by
  have hm : f.key ∈ b.contents.ledger.map LedgerRow.key := by
    rw [h.rows]
    exact List.mem_map_of_mem hf
  obtain ⟨row, hrow, hkey⟩ := List.mem_map.mp hm
  exact ⟨row, hrow, hkey⟩

theorem Inv.file (h : Inv b) {p : String × String} (hp : p ∈ b.contents.ledger.map LedgerRow.key) :
    ∃ f ∈ b.done, f.version = p.1 := by
  rw [h.rows] at hp
  obtain ⟨f, hf, rfl⟩ := List.mem_map.mp hp
  exact ⟨f, hf, rfl⟩

theorem Inv.one (h : Inv b) {m : File D S} (ht : Tame m) {gitSha : Option String}
    (hnew : m.version ∉ (b.execute m).contents.ledger.map (·.version)) :
    Inv ((b.execute m).insert (m.row gitSha)) := by
  have hled : (m.run b.contents).ledger = b.contents.ledger := ht.ledger b.contents
  refine ⟨?_, ?_⟩
  · change ((m.run b.contents).ledger ++ [m.row gitSha]).map LedgerRow.key =
      (b.done ++ [m]).map File.key
    rw [hled, List.map_append, List.map_append, h.rows]
    rfl
  · change ((b.done ++ [m]).map File.version).Nodup
    rw [List.map_append]
    refine List.Nodup.append h.versions (List.nodup_singleton _) fun v hv hv' => hnew ?_
    change m.version ∈ (m.run b.contents).ledger.map (·.version)
    rw [hled, ← List.mem_singleton.mp hv']
    have hver : b.contents.ledger.map (·.version) = b.done.map File.version := by
      have hfst := congrArg (List.map Prod.fst) h.rows
      rw [List.map_map, List.map_map] at hfst
      exact hfst
    rw [hver]
    exact hv

/-- What the run has dealt with so far is committed, or is not wanted, or has
the version of an applied file. -/
structure Dealt (dir : List (File D S)) (force : Bool) (b₀ : Image D S) (ms : List (File D S))
    (b : Image D S) : Prop where
  inv : Inv b
  before : ∀ f ∈ b₀.done, f ∈ b.done
  dealt : ∃ past, localMigrations dir = past ++ ms ∧ ∀ m ∈ past, (m.destructive && !force) = false →
    m ∈ b.done ∨ ∃ f ∈ b₀.done, f.version = m.version

variable {dir : List (File D S)} {force : Bool} {gitSha : Option String} {b₀ : Image D S}

theorem dealt_kept (ht : ∀ f ∈ localMigrations dir, Tame f) (h₀ : Inv b₀) :
    Kept (Dealt dir force b₀) force gitSha (b₀.contents.ledger.map LedgerRow.key) := by
  have hhead : ∀ {m ms b}, Dealt dir force b₀ (m :: ms) b → Tame m := by
    rintro m ms b ⟨-, -, past, hsplit, -⟩
    exact ht m (by rw [hsplit]; exact List.mem_append_right _ List.mem_cons_self)
  refine ⟨fun m ms b h => (hhead h).transactional, fun m ms b hp h => ?_,
    fun m ms b hp h hnew => ?_⟩
  · obtain ⟨hinv, hbefore, past, hsplit, hpast⟩ := h
    refine ⟨hinv, hbefore, past ++ [m], by rw [hsplit]; simp, fun m' hm' hd => ?_⟩
    rcases List.mem_append.mp hm' with hm' | hm'
    · exact hpast m' hm' hd
    · rw [List.mem_singleton.mp hm'] at hd ⊢
      rw [passedOver, hd, Bool.or_false] at hp
      obtain ⟨p, hp, hv⟩ := List.any_eq_true.mp hp
      obtain ⟨f, hf, hfv⟩ := h₀.file hp
      exact .inr ⟨f, hf, hfv.trans (by simpa using hv)⟩
  · have hm := hhead h
    obtain ⟨hinv, hbefore, past, hsplit, hpast⟩ := h
    refine ⟨hinv.one hm hnew, fun f hf => List.mem_append_left _ (hbefore f hf), past ++ [m],
      by rw [hsplit]; simp, fun m' hm' hd => ?_⟩
    rcases List.mem_append.mp hm' with hm' | hm'
    · exact (hpast m' hm' hd).imp_left (List.mem_append_left _)
    · exact .inl (List.mem_append_right _ hm')

theorem connected_inv (h : Inv b) (init : S) : Inv (connected init b).saved := ⟨h.rows, h.versions⟩

theorem run_dealt (ht : ∀ f ∈ localMigrations dir, Tame f) (h : Inv b) {tr : RunTrace D S}
    {s : Server D S}
    {q : Script D S Nat} (hx : Exec step (connected init b) (apply dir force gitSha) tr s q) :
    Inv s.saved ∧ (q = .ret 0 → Dealt dir force (connected init b).saved [] s.saved) := by
  have h₀ := connected_inv h init
  have hstart : Dealt dir force (connected init b).saved (localMigrations dir)
      (connected init b).saved :=
    ⟨h₀, fun _ hf => hf, [], rfl, fun _ hm => absurd hm List.not_mem_nil⟩
  have hkept : Kept (Dealt dir force (connected init b).saved) force gitSha _ := dealt_kept ht h₀
  have hsat := (apply_sat hkept hstart).exec (hx.traced [])
  cases q with
  | ret code =>
      refine ⟨?_, fun hq => hsat.1 ?_⟩
      · obtain ⟨ms, hms⟩ := hsat.2.kept
        exact hms.inv
      · cases hq
        rfl
  | raise x =>
      obtain ⟨ms, hms⟩ := hsat.kept
      exact ⟨hms.inv, fun hq => by cases hq⟩
  | call e k =>
      obtain ⟨ms, hms⟩ := hsat.1.kept
      exact ⟨hms.inv, fun hq => by cases hq⟩

def Fresh (b : Image D S) : Prop := b.contents.ledger = [] ∧ b.done = []

theorem Fresh.inv (h : Fresh b) : Inv b := by
  obtain ⟨hl, hd⟩ := h
  refine ⟨?_, ?_⟩
  · rw [hl, hd]
    rfl
  · rw [hd]
    exact List.nodup_nil

theorem history_inv {rs : List (Run D S)} (hfresh : Fresh b₀) (ht : ∀ f ∈ filesOf rs, Tame f)
    (h : History init b₀ rs b) : Inv b := by
  induction h with
  | nil => exact hfresh.inv
  | @snoc rs b r s _ hx ih =>
      have hsplit : filesOf (rs ++ [r]) = filesOf rs ++ localMigrations r.dir := by simp [filesOf]
      rw [hsplit] at ht
      have hb := ih fun f hf => ht f (List.mem_append_left _ hf)
      exact (run_dealt (fun f hf => ht f (List.mem_append_right _ hf)) hb hx).1

/-- An `apply` that exits with 0 has left nothing behind, unless it has taken a
file for another one that was applied before. -/
theorem covered_iff {rs : List (Run D S)} {tr : RunTrace D S} {s : Server D S} (hfresh : Fresh b₀)
    (hpast : History init b₀ rs b) (hsql : ∀ f ∈ filesOf rs ++ localMigrations dir, Tame f)
    (hx : Exec step (connected init b) (apply dir false gitSha) tr s (.ret 0)) :
    Covered dir s.saved ↔ Unclashing b dir := by
  have hinv := history_inv hfresh (fun f hf => hsql f (List.mem_append_left _ hf)) hpast
  obtain ⟨hend, hbefore, past, hall, hdealt⟩ :=
    (run_dealt (fun f hf => hsql f (List.mem_append_right _ hf)) hinv hx).2 rfl
  rw [List.append_nil] at hall
  constructor
  · intro hcov f hf g hg hd hv
    obtain ⟨⟨before, after, hdone, -⟩, -⟩ := hcov g hg hd
    have hgd : g ∈ s.saved.done := by
      rw [hdone]
      exact List.mem_append_right _ List.mem_cons_self
    exact hend.same (hbefore f hf) hgd hv
  · intro hun
    have hdone : ∀ f ∈ localMigrations dir, f.destructive = false → f ∈ s.saved.done := by
      intro f hf hd
      rcases hdealt f (hall ▸ hf) (by simp [hd]) with hin | ⟨g, hg, hv⟩
      · exact hin
      · rw [← hun g hg f hf hd hv]
        exact hbefore g hg
    intro f hf hd
    obtain ⟨row, hrow, hkey⟩ := hend.row (hdone f hf hd)
    refine ⟨hend.once (hdone f hf hd), row, hrow, hkey, fun g hg hgd hv => ?_⟩
    have hver : row.version = f.version := congrArg Prod.fst hkey
    exact hend.same (hdone g hg hgd) (hdone f hf hd) (hv.trans hver)

def attempt (init : S) (broken : File D S → Bool) (dir : List (File D S)) (gitSha : Option String)
    (b : Image D S) :
    RunTrace D S × Server D S × Script D S Nat :=
  drive broken (apply dir false gitSha) (connected init b)

def Run.of (init : S) (broken : File D S → Bool) (dir : List (File D S)) (gitSha : Option String)
    (b : Image D S) :
    Run D S :=
  ⟨dir, false, gitSha, (attempt init broken dir gitSha b).1, (attempt init broken dir gitSha b).2.2⟩

theorem History.attempt {rs : List (Run D S)} (h : History init b₀ rs b) (broken : File D S → Bool)
    (dir : List (File D S)) (gitSha : Option String) :
    History init b₀ (rs ++ [.of init broken dir gitSha b])
      (MigrationCover.attempt init broken dir gitSha b).2.1.saved :=
  h.snoc (drive_exec broken (apply dir false gitSha) (connected init b))

theorem pair_sorted {f g : File D S} (h : f.name ≤ g.name) (hf : endsWith f.name ".sql" = true)
    (hg : endsWith g.name ".sql" = true) : localMigrations [f, g] = [f, g] := by
  have hs : [f, g].mergeSort (fun f g => f.name ≤ g.name) = [f, g] := by
    apply List.mergeSort_of_pairwise
    simpa using h
  simp [localMigrations, hs, hf, hg]

def sound : File Nat Unit → Bool := fun _ => false

def empty : Image Nat Unit := ⟨⟨0, [], ()⟩, []⟩

def earlier : File Nat Unit :=
  ⟨"001_jobs.sql", "a", [.effect fun c => { c with data := c.data + 1 }]⟩

def later : File Nat Unit :=
  ⟨"001_plans.sql", "b", [.effect fun c => { c with data := c.data + 10 }]⟩

def numbered : List (File Nat Unit) := [earlier, { later with name := "002_plans.sql" }]

theorem numbered_sorted : localMigrations numbered = numbered :=
  pair_sorted (by simp [earlier]) rfl rfl

theorem earlier_tame : Tame earlier :=
  ⟨by simp [File.transactional, earlier, Statement.isEffect], fun c => rfl⟩

theorem later_tame (name : String) : Tame { later with name := name } :=
  ⟨by simp [File.transactional, later, Statement.isEffect], fun c => rfl⟩

theorem numbered_covered : Covered numbered (attempt () sound numbered none empty).2.1.saved := by
  have hexit : (attempt () sound numbered none empty).2.2 = .ret 0 := by
    rw [attempt, apply, numbered_sorted]
    rfl
  have hx : Exec step (connected () empty) (apply numbered false none)
      (attempt () sound numbered none empty).1
      (attempt () sound numbered none empty).2.1 (.ret 0) :=
        hexit ▸ drive_exec sound (apply numbered false none) (connected () empty)
  refine (covered_iff ⟨rfl, rfl⟩ .nil (fun f hf => ?_) hx).mpr fun f hf =>
    absurd hf List.not_mem_nil
  rw [numbered_sorted] at hf
  simp only [filesOf, List.flatMap_nil, List.nil_append, numbered, List.mem_cons, List.not_mem_nil,
    or_false] at hf
  rcases hf with rfl | rfl
  · exact earlier_tame
  · exact later_tame _

def colliding : List (File Nat Unit) := [earlier, later]

theorem colliding_sorted : localMigrations colliding = colliding :=
  pair_sorted (by simp [earlier, later]) rfl rfl

def halfway : Image Nat Unit := (attempt () sound colliding none empty).2.1.saved

theorem halfway_eq : halfway = ⟨⟨1, [earlier.row none], ()⟩, [earlier]⟩ := by
  rw [halfway, attempt, apply, colliding_sorted]
  rfl

theorem later_skipped : (attempt () sound colliding none halfway).2.1.saved = halfway ∧
    (attempt () sound colliding none halfway).2.2 = .ret 0 := by
  rw [halfway_eq, attempt, apply, colliding_sorted]
  exact ⟨rfl, rfl⟩

theorem collision_uncovered : ¬ ∀ (b₀ b : Image Nat Unit) (rs : List (Run Nat Unit)) (r :
    Run Nat Unit), Fresh b₀ →
    History () b₀ (rs ++ [r]) b → (∀ f ∈ filesOf (rs ++ [r]), ∀ g ∈ filesOf (rs ++ [r]),
      f.name = g.name → f = g) →
    (∀ f ∈ filesOf (rs ++ [r]), Tame f) → r.force = false → r.result = .ret 0 →
    Covered r.dir b := by
  intro h
  have hruns : History () empty [.of () sound colliding none empty,
      .of () sound colliding none halfway] halfway := by
    have hfirst : History () empty [.of () sound colliding none empty] halfway :=
      History.nil.attempt sound colliding none
    have hx : History () empty [.of () sound colliding none empty,
        .of () sound colliding none halfway] (attempt () sound colliding none halfway).2.1.saved :=
      hfirst.attempt sound colliding none
    rwa [later_skipped.1] at hx
  have hfiles : ∀ f ∈ filesOf [Run.of () sound colliding none empty,
      Run.of () sound colliding none halfway], f = earlier ∨ f = later := by
    intro f hf
    simp only [filesOf, Run.of, List.flatMap_cons, List.flatMap_nil, colliding_sorted] at hf
    simp only [List.append_nil, List.mem_append, colliding, List.mem_cons, List.not_mem_nil,
      or_false, or_self] at hf
    exact hf
  have hcov :=
    h empty halfway [.of () sound colliding none empty] (.of () sound colliding none halfway)
      ⟨rfl, rfl⟩ hruns ?_ ?_ rfl later_skipped.2
  · obtain ⟨⟨before, after, hdone, -⟩, -⟩ :=
      hcov later (by rw [Run.of, colliding_sorted]; simp [colliding]) rfl
    rw [halfway_eq] at hdone
    have hone : [earlier] = before ++ later :: after := hdone
    have hm : later ∈ [earlier] := by
      rw [hone]
      exact List.mem_append_right _ List.mem_cons_self
    have hname := congrArg File.name (List.mem_singleton.mp hm)
    simp [earlier, later] at hname
  · intro f hf g hg hname
    rcases hfiles f hf with rfl | rfl
    · rcases hfiles g hg with rfl | rfl
      · rfl
      · simp [earlier, later] at hname
    · rcases hfiles g hg with rfl | rfl
      · simp [earlier, later] at hname
      · rfl
  · intro f hf
    rcases hfiles f hf with rfl | rfl
    · exact earlier_tame
    · exact later_tame _

end ServerManager.MigrationCover
