import ServerManager.Interaction

namespace ServerManager.Releases

open Interaction

/-- What is unpacked: the files with their contents, and the files of `release_manifest.json` with
their sums. -/
structure Artifact where
  gitSha : String
  files : List (String × String)
  manifest : List (String × String)

def Artifact.content? (a : Artifact) (rel : String) : Option String :=
  (a.files.find? (fun p => p.1 == rel)).map (·.2)

section
-- the hex digest of a content
variable (sha256 : String → String)

def bad (a : Artifact) : List String :=
  (a.manifest.filter (fun p => (a.content? p.1).map sha256 != some p.2)).map (·.1)

def skippedDirs : List String := [".git", "__pycache__", ".venv", "venv"]

/-- A file of the archive: its directories from the top, and its name. -/
structure Tracked where
  dirs : List String
  name : String
  content : String

def Tracked.rel (f : Tracked) : String := String.intercalate "/" (f.dirs ++ [f.name])

def Tracked.walked (f : Tracked) : Bool := f.dirs.all (fun d => !skippedDirs.contains d)

/-- `build-release.sh`: the walk does not go into some directories, and the
manifest is written next to the files it lists. -/
def build (gitSha : String) (json : List (String × String) → String) (tracked : List Tracked) :
    Artifact :=
  let manifest := (tracked.filter Tracked.walked).map (fun f => (f.rel, sha256 f.content))
  ⟨gitSha, ("release_manifest.json", json manifest) :: tracked.map (fun f => (f.rel, f.content)),
    manifest⟩

variable {sha256}

theorem find_rel {tracked : List Tracked} {f : Tracked} (hf : f ∈ tracked)
    (hone : ∀ g ∈ tracked, g.rel = f.rel → g.content = f.content) :
    ((tracked.map (fun f => (f.rel, f.content))).find? (fun p => p.1 == f.rel)).map (·.2) =
    some f.content := by
  induction tracked with
  | nil => cases hf
  | cons g tracked ih =>
      rw [List.map_cons, List.find?_cons]
      by_cases he : g.rel = f.rel
      · rw [beq_iff_eq.mpr he]
        exact congrArg some (hone g List.mem_cons_self he)
      · rw [beq_false_of_ne he]
        have hf' : f ∈ tracked := by
          rcases List.mem_cons.mp hf with rfl | hf
          · exact absurd rfl he
          · exact hf
        exact ih hf' fun g' hg' => hone g' (List.mem_cons_of_mem _ hg')

theorem bad_build {gitSha : String} {json : List (String × String) → String}
    {tracked : List Tracked}
    (hone : ∀ f ∈ tracked, ∀ g ∈ tracked, g.rel = f.rel → g.content = f.content)
    (hroot : ∀ f ∈ tracked, f.rel ≠ "release_manifest.json") :
    bad sha256 (build sha256 gitSha json tracked) = [] := by
  rw [bad, List.map_eq_nil_iff, List.filter_eq_nil_iff]
  intro p hp
  obtain ⟨f, hf, rfl⟩ := List.mem_map.mp hp
  have hf := (List.mem_filter.mp hf).1
  have hcontent : (build sha256 gitSha json tracked).content? f.rel = some f.content := by
    rw [Artifact.content?, build, List.find?_cons, beq_false_of_ne (hroot f hf).symm]
    exact find_rel hf (hone f hf)
  rw [hcontent]
  simp

end

inductive Service
  | web
  | collector
  | emporia
  | litellm
  | recovery
  deriving DecidableEq

inductive Order
  | stop
  | restart
  deriving DecidableEq

inductive Entry
  | snapshot (previous health : String)
  | abort (detail : String)
  | recoveryStopped
  | activate (release previous : String)
  | accepted (release : String)
  | rollbackStart (source target : String)
  | rollbackComplete (release : String)
  | rollbackDegraded (release : String)
  | rollbackImpossible
  | manualStart (source target : String)
  | manualComplete (release : String)
  | manualDegraded (release : String)
  deriving DecidableEq

/-- The directories under `releases`, the names that `current` and `current.new`
link to, the release that the unit files were taken from, the last order about
the recovery service, and the ledger. -/
structure Host where
  releases : List String
  current : Option String
  next : Option String
  units : Option String
  recovery : Option Order
  ledger : List Entry

/-- `[ -e current ]`. -/
def Host.exists (h : Host) : Bool :=
  match h.current with
  | some t => h.releases.contains t
  | none => false

/-- What `preflight.sh` asks of its surroundings. -/
inductive Condition
  | checksum
  | identity
  | disk
  | python
  | secrets
  | database
  | nginx
  | health

/-- What `healthcheck.sh` asks, but for the units and the manifest. -/
inductive Probe
  | healthz
  | models
  | revisions
  | benchmarks
  | tls
  | restarts

inductive Check
  | imports
  | pyCompile
  | costTests
  | astParse

inductive Migrations
  | app
  | arm

/-- A command that works in the directory of a release and is not checked. -/
inductive Work
  | mkdir
  | copy
  | makeVenv
  | upgradePip
  | installFreeze
  | links

inductive Eff
  | currentExists
  | readlink
  | condition (c : Condition)
  | healthText
  | unpack
  | isActive (s : Service)
  | systemctl (o : Order) (s : Service)
  | daemonReload
  | reloadNginx
  | sleep (seconds : Nat)
  | isDir (release : String)
  | hasVenv (release : String)
  | work (w : Work) (release : String)
  | needsPrisma (release : String)
  | prismaGenerate (release : String)
  | installUnits (release : String)
  | check (c : Check) (release : String)
  | hasMigrations (m : Migrations) (release : String)
  | migrate (m : Migrations) (release : String)
  | remove (release : String)
  | link (release : String)
  | swap
  | newest
  | probe (p : Probe)
  | manifest
  | note (e : Entry)

@[reducible] def Ans : Eff → Type
  | .currentExists => Bool
  | .readlink => Option String
  | .condition _ => Bool
  | .healthText => String
  | .unpack => Bool
  | .isActive _ => Bool
  | .systemctl .. => Bool
  | .daemonReload => Unit
  | .reloadNginx => Unit
  | .sleep _ => Unit
  | .isDir _ => Bool
  | .hasVenv _ => Bool
  | .work .. => Bool
  | .needsPrisma _ => Bool
  | .prismaGenerate _ => Bool
  | .installUnits _ => Bool
  | .check .. => Bool
  | .hasMigrations .. => Bool
  | .migrate .. => Bool
  | .remove _ => Bool
  | .link _ => Bool
  | .swap => Bool
  | .newest => List String
  | .probe _ => Bool
  | .manifest => Bool
  | .note _ => Unit

/-- `exit n` is an exception. -/
abbrev Script := Prog Eff Ans Nat

def ask (e : Eff) : Script (Ans e) := .call e pure

def note (e : Entry) : Script Unit := ask (.note e)

def die {α : Type} (detail : String) : Script α := do
  note (.abort detail)
  throw 1

/-- The manifest names a release; without a directory `llm-manager-*` another one may have it. -/
def identified : Option Artifact → Script Bool
  | some a => pure (a.gitSha != "")
  | none => ask (.condition .identity)

/-- `preflight.sh`; what only staging may lack does not count there. -/
def preflight (artifact : Option Artifact) (firstPromotion staging : Bool) : Script Bool := do
  let checksum ← ask (.condition .checksum)
  let identity ← identified artifact
  let current ← ask .currentExists
  let disk ← ask (.condition .disk)
  let python ← ask (.condition .python)
  let secrets ← ask (.condition .secrets)
  let database ← ask (.condition .database)
  let nginx ← ask (.condition .nginx)
  let health ← ask (.condition .health)
  pure (checksum && identity && (current || firstPromotion || staging) && disk && python &&
    (secrets || staging) &&
    (database || staging) && (nginx || staging) && (health || staging))

def waitUnit (s : Service) : Nat → Script Bool
  | 0 => pure false
  | n + 1 => do
      if ← ask (.isActive s) then pure true
      else do
        ask (.sleep 3)
        waitUnit s n

/-- `healthcheck.sh`. -/
def healthcheck (staging : Bool) : Script Bool := do
  let web ← waitUnit .web 10
  let collector ← waitUnit .collector 10
  let emporia ← waitUnit .emporia 10
  let recovery ← waitUnit .recovery 10
  let litellm ← ask (.isActive .litellm)
  let healthz ← ask (.probe .healthz)
  let models ← ask (.probe .models)
  let revisions ← ask (.probe .revisions)
  let benchmarks ← ask (.probe .benchmarks)
  let tls ← ask (.probe .tls)
  let restarts ← ask (.probe .restarts)
  let manifest ← ask .manifest
  pure (web && collector && emporia && recovery && (litellm || !staging) && healthz &&
    (models || staging) &&
    (revisions || staging) && (benchmarks || staging) && tls && restarts && manifest)

def suppress : Script Unit := do
  if ← ask (.isActive .recovery) then do
    let _ ← ask (.systemctl .stop .recovery)
    note .recoveryStopped
  else pure ()

def installFiles (sha : String) : Script Unit := do
  if ← ask (.isDir sha) then pure ()
  else do
    let _ ← ask (.work .mkdir sha)
    let _ ← ask (.work .copy sha)

def installVenv (sha : String) : Script Unit := do
  if ← ask (.hasVenv sha) then pure ()
  else do
    let _ ← ask (.work .makeVenv sha)
    let _ ← ask (.work .upgradePip sha)
    let _ ← ask (.work .installFreeze sha)

def generatePrisma (sha : String) : Script Unit := do
  if ← ask (.needsPrisma sha) then do
    if ← ask (.prismaGenerate sha) then pure () else die "prisma generate failed"
  else pure ()

def install (sha : String) : Script Unit := do
  installFiles sha
  installVenv sha
  generatePrisma sha
  let _ ← ask (.work .links sha)
  let _ ← ask (.installUnits sha)
  ask .daemonReload

def passes (c : Check) (sha detail : String) : Script Unit := do
  if ← ask (.check c sha) then pure () else die detail

def validate (sha : String) : Script Unit := do
  passes .imports sha "dependency import verification FAILED (freeze file vs runtime drift)"
  passes .pyCompile sha "candidate py_compile failed"
  passes .costTests sha "candidate cost tests failed"
  passes .astParse sha "candidate AST parse failed"

def migrate (m : Migrations) (skip : Bool) (sha detail : String) : Script Unit := do
  if skip then pure ()
  else if ← ask (.hasMigrations m sha) then do
    if ← ask (.migrate m sha) then pure ()
    else do
      let _ ← ask (.remove sha)
      die detail
  else pure ()

def setCurrent (release : String) : Script Unit := do
  let _ ← ask (.link release)
  let _ ← ask .swap

/-- `systemctl restart`, whatever comes of it. -/
def restart (s : Service) : Script Unit := do
  let _ ← ask (.systemctl .restart s)

def restartLitellm (staging : Bool) : Script Unit := if staging then restart .litellm else pure ()

def activate (sha previous : String) (staging : Bool) : Script Unit := do
  setCurrent sha
  note (.activate sha previous)
  restart .web
  restart .collector
  restart .emporia
  restartLitellm staging
  ask .reloadNginx
  restart .recovery

def restartAll : Script Unit := do
  ask .daemonReload
  restart .web
  restart .collector
  restart .emporia
  restart .recovery

/-- `[ -n name ] && [ -d releases/name ]`. -/
def known (name : String) : Script Bool := if name = "" then pure false else ask (.isDir name)

def switchBack (target : String) : Script Bool := do
  setCurrent target
  restartAll
  ask (.sleep 3)
  healthcheck false

def rollBackTo (previous : String) : Script Unit := do
  if ← known previous then do
    if ← switchBack previous then note (.rollbackComplete previous)
      else note (.rollbackDegraded previous)
  else note .rollbackImpossible

def rollBack (sha previous : String) : Script Unit := do
  note (.rollbackStart sha (if previous = "" then "none" else previous))
  rollBackTo previous
  throw 1

def smoke (sha previous : String) (staging : Bool) : Script Unit := do
  ask (.sleep 3)
  if ← healthcheck staging then do
    note (.accepted sha)
    throw 0
  else rollBack sha previous

def release (sha previous : String) (staging skipMigrations : Bool) : Script Unit := do
  suppress
  install sha
  validate sha
  migrate .app skipMigrations sha "migration failure"
  migrate .arm skipMigrations sha "ARM migration failure"
  activate sha previous staging
  smoke sha previous staging

/-- What the snapshot keeps of the answer of `/healthz`. -/
def shownHealth (text : String) : String := if text.toList.head? = some '\x7b' then text else "null"

def previousRelease : Script String := do
  if ← ask .currentExists then do
    let t ← ask .readlink
    pure (t.getD "current")
  else pure ""

def isPromotion (staging : Bool) : Script Bool :=
  if staging then pure false
  else do
    let there ← ask .currentExists
    pure (!there)

/-- `deploy-release.sh` with an artifact; `none` has no directory `llm-manager-*`. -/
def deploy (sha256 : String → String) (artifact : Option Artifact) (staging skipMigrations : Bool) :
    Script Unit := do
  let promotion ← isPromotion staging
  if ← preflight artifact promotion staging then do
    let previous ← previousRelease
    let health ← ask .healthText
    note (.snapshot previous (shownHealth health))
    let unpacked ← ask .unpack
    match artifact with
    | none => die "unexpected artifact layout"
    | some a =>
        if unpacked then
          if bad sha256 a = [] then release a.gitSha previous staging skipMigrations
          else die "artifact manifest verification failed"
        else die "unexpected artifact layout"
  else die "preflight failed"

/-- The target that is named, or the newest release that is not current. -/
def rollbackTarget (target : String) (current : String) : Script String :=
  if target ≠ "" then pure target
  else do
    let names ← ask .newest
    pure ((names.find? (fun n => n != current)).getD "")

/-- `rollback.sh`; without an argument `target` is empty. -/
def rollback (target : String) : Script Unit := do
  let link ← ask .readlink
  let current := link.getD "current"
  let target ← rollbackTarget target current
  if ← known target then
    if target = current then throw 1
    else do
      note (.manualStart current target)
      let _ ← ask (.systemctl .stop .recovery)
      if ← switchBack target then do
        note (.manualComplete target)
        throw 0
      else do
        note (.manualDegraded target)
        throw 1
  else throw 1

def Host.add (h : Host) (release : String) : Host := { h with releases := release :: h.releases }

def Host.drop (h : Host) (release : String) : Host :=
  { h with releases := h.releases.filter (fun t => t != release) }

/-- Any command may fail; the checks of a candidate run the interpreter in its directory. -/
def move (h : Host) : (e : Eff) → Ans e → Host → Prop
  | .currentExists, r, h' => r = h.exists ∧ h' = h
  | .readlink, t, h' => t = h.current ∧ h' = h
  | .isDir s, r, h' => r = h.releases.contains s ∧ h' = h
  | .newest, ts, h' => (∀ t, t ∈ ts ↔ t ∈ h.releases) ∧ h' = h
  | .work w s, _, h' => h' = h ∨ (w = .mkdir ∨ w = .copy ∨ w = .makeVenv) ∧ h' = h.add s
  | .installUnits s, true, h' => h' = { h with units := some s }
  | .installUnits _, false, h' => ∃ u, h' = { h with units := u }
  | .check _ s, r, h' => (r = true → s ∈ h.releases) ∧ h' = h
  | .remove s, true, h' => h' = h.drop s
  | .link s, true, h' => h' = { h with next := some s }
  | .swap, true, h' => ∃ t, h.next = some t ∧ h' = { h with current := some t, next := none }
  | .manifest, r, h' => (r = true → h.exists = true) ∧ h' = h
  | .systemctl o .recovery, _, h' => h' = { h with recovery := some o }
  | .note e, _, h' => h' = { h with ledger := h.ledger ++ [e] }
  | _, _, h' => h' = h

def works : (e : Eff) → Ans e → Prop
  | .installUnits _, r => r = true
  | .remove _, r => r = true
  | .link _, r => r = true
  | .swap, r => r = true
  | _, _ => True

def steady (h : Host) (e : Eff) (a : Ans e) (h' : Host) : Prop := move h e a h' ∧ works e a

/-- The release that is current after an entry. -/
def recorded : Option String → Entry → Option String
  | _, .activate release _ => some release
  | _, .rollbackComplete release | _, .rollbackDegraded release => some release
  | _, .manualComplete release | _, .manualDegraded release => some release
  | current, _ => current

def quiet : Entry → Prop
  | .snapshot .. | .abort _ | .recoveryStopped | .accepted _ | .rollbackStart ..
  | .rollbackImpossible | .manualStart .. => True
  | _ => False

theorem recorded_quiet {e : Entry} (h : quiet e) (current : Option String) :
    recorded current e = current := by
  cases e with
  | snapshot | abort | recoveryStopped | accepted | rollbackStart | rollbackImpossible
  | manualStart => rfl
  | activate | rollbackComplete | rollbackDegraded | manualComplete | manualDegraded => exact h.elim

/-- The new entries tell how `current` has come to be. -/
def Told (h h' : Host) : Prop :=
  ∃ new, h'.ledger = h.ledger ++ new ∧ new.foldl recorded h.current = h'.current

theorem Told.refl (h : Host) : Told h h := ⟨[], (List.append_nil _).symm, rfl⟩

theorem Told.trans {h h' h'' : Host} (h₁ : Told h h') (h₂ : Told h' h'') : Told h h'' := by
  obtain ⟨new, hl, hc⟩ := h₁
  obtain ⟨new', hl', hc'⟩ := h₂
  refine ⟨new ++ new', by rw [hl', hl, List.append_assoc], ?_⟩
  rw [List.foldl_append, hc, hc']

theorem Told.settle {h h' h'' : Host} (h₁ : Told h h') {e : Entry}
    (hl : h''.ledger = h'.ledger ++ [e])
    (he : ∀ c, recorded c e = h''.current) : Told h h'' := by
  obtain ⟨new, hn, -⟩ := h₁
  refine ⟨new ++ [e], by rw [hl, hn, List.append_assoc], ?_⟩
  rw [List.foldl_append]
  exact he _

def calm : Eff → Prop
  | .systemctl _ .recovery => False
  | .installUnits _ | .remove _ | .link _ | .swap => False
  | .note e => quiet e
  | _ => True

structure Grown (h h' : Host) : Prop where
  current : h'.current = h.current
  releases : ∀ t ∈ h.releases, t ∈ h'.releases
  units : h'.units = h.units
  recovery : h'.recovery = h.recovery
  told : Told h h'

theorem Grown.refl (h : Host) : Grown h h := ⟨rfl, fun _ ht => ht, rfl, rfl, .refl h⟩

theorem Grown.trans {h h' h'' : Host} (h₁ : Grown h h') (h₂ : Grown h' h'') : Grown h h'' :=
  ⟨h₂.current.trans h₁.current, fun t ht => h₂.releases t (h₁.releases t ht),
    h₂.units.trans h₁.units,
    h₂.recovery.trans h₁.recovery, h₁.told.trans h₂.told⟩

theorem Grown.note {h : Host} {e : Entry} (he : quiet e) :
    Grown h { h with ledger := h.ledger ++ [e] } :=
  ⟨rfl, fun _ ht => ht, rfl, rfl, [e], rfl, recorded_quiet he h.current⟩

theorem Grown.add (h : Host) (s : String) : Grown h (h.add s) :=
  ⟨rfl, fun _ ht => List.mem_cons_of_mem _ ht, rfl, rfl, .refl h⟩

theorem calm_move {h h' : Host} {e : Eff} {a : Ans e} (he : calm e) (hm : move h e a h') :
    Grown h h' := by
  cases e with
  | note e =>
      obtain rfl := hm
      exact .note he
  | work w s =>
      rcases hm with rfl | ⟨-, rfl⟩
      · exact .refl _
      · exact .add h s
  | currentExists | readlink | isDir | newest | check | manifest =>
      obtain ⟨-, rfl⟩ := hm
      exact .refl _
  | systemctl o s =>
      cases s with
      | recovery => exact he.elim
      | web | collector | emporia | litellm =>
          obtain rfl := hm
          exact .refl _
  | installUnits | remove | link | swap => exact he.elim
  | condition | healthText | unpack | isActive | daemonReload | reloadNginx | sleep | hasVenv
  | needsPrisma | prismaGenerate
  | hasMigrations | migrate | probe =>
      obtain rfl := hm
      exact .refl _

def still (e : Eff) : Prop := calm e ∧ ∀ w s, e ≠ .work w s

structure Still (h h' : Host) : Prop extends Grown h h' where
  same : h'.releases = h.releases

theorem still_move {h h' : Host} {e : Eff} {a : Ans e} (he : still e) (hm : move h e a h') :
    Still h h' := by
  refine ⟨calm_move he.1 hm, ?_⟩
  obtain ⟨hc, hw⟩ := he
  cases e with
  | note e =>
      obtain rfl := hm
      rfl
  | work w s => exact absurd rfl (hw w s)
  | currentExists | readlink | isDir | newest | check | manifest =>
      obtain ⟨-, rfl⟩ := hm
      rfl
  | systemctl o s =>
      cases s with
      | recovery => exact hc.elim
      | web | collector | emporia | litellm =>
          obtain rfl := hm
          rfl
  | installUnits | remove | link | swap => exact hc.elim
  | condition | healthText | unpack | isActive | daemonReload | reloadNginx | sleep | hasVenv
  | needsPrisma | prismaGenerate
  | hasMigrations | migrate | probe =>
      obtain rfl := hm
      rfl

theorem Still.refl (h : Host) : Still h h := ⟨.refl h, rfl⟩

theorem Still.trans {h h' h'' : Host} (h₁ : Still h h') (h₂ : Still h' h'') : Still h h'' :=
  ⟨h₁.toGrown.trans h₂.toGrown, h₂.same.trans h₁.same⟩

variable {α β : Type}

/-- A link is only moved over `current` when its release is there. -/
def safe (h : Host) : Eff → Prop
  | .swap => ∃ t ∈ h.releases, h.next = some t
  | _ => True

theorem safe_calm {h : Host} {e : Eff} (he : calm e) : safe h e := by
  cases e with
  | swap => exact he.elim
  | currentExists | readlink | condition | healthText | unpack | isActive | systemctl | daemonReload
  | reloadNginx | sleep | isDir
  | hasVenv | work | needsPrisma | prismaGenerate | installUnits | check | hasMigrations | migrate
  | remove | link | newest | probe
  | manifest | note => trivial

abbrev Goes (p : Script α) (Q : Host → α → Prop) (X : Host → Nat → Prop) (h : Host) : Prop :=
  Sat steady safe Q X p h

abbrev Never (_ : Host) (_ : Nat) : Prop := False

/-- A part that changes nothing but the ledger, and that only with entries that tell of no
change. -/
def Stays (p : Script α) : Prop := ∀ h, Goes p (fun h' _ => Still h h') Never h

theorem Goes.seq {p : Script α} {f : α → Script β} {Q : Host → α → Prop} {S : Host → β → Prop}
    {X : Host → Nat → Prop} {h : Host}
    (hp : Goes p Q Never h) (hf : ∀ h' a, Q h' a → Goes (f a) S X h') : Goes (p >>= f) S X h :=
  Sat.seq (hp.mono (fun _ _ hq => hq) fun _ _ hx => hx.elim) hf

theorem stays_pure (a : α) : Stays (pure a : Script α) := fun h => Still.refl h

theorem stays_ask {e : Eff} (he : calm e) (hw : ∀ w s, e ≠ .work w s) : Stays (ask e) :=
  fun _ => ⟨safe_calm he, fun _ _ hm => still_move ⟨he, hw⟩ hm.1⟩

theorem Stays.bind {p : Script α} {f : α → Script β} (hp : Stays p) (hf : ∀ a, Stays (f a)) :
    Stays (p >>= f) :=
  fun h => (hp h).seq fun h' a hs => (hf a h').mono (fun _ _ hs' => hs.trans hs') fun _ _ hx => hx

theorem Stays.ite {c : Prop} [Decidable c] {p q : Script α} (hp : Stays p) (hq : Stays q) :
    Stays (if c then p else q) := by
  split
  · exact hp
  · exact hq

theorem stays_waitUnit (s : Service) (n : Nat) : Stays (waitUnit s n) := by
  induction n with
  | zero => exact stays_pure _
  | succ n ih =>
      refine (stays_ask (e := .isActive s) trivial nofun).bind fun r => Stays.ite (stays_pure _) ?_
      exact (stays_ask (e := .sleep 3) trivial nofun).bind fun _ => ih

theorem stays_healthcheck (staging : Bool) : Stays (healthcheck staging) := by
  have hprobe : ∀ p, Stays (ask (.probe p)) := fun p => stays_ask (e := .probe p) trivial nofun
  refine (stays_waitUnit .web 10).bind fun _ => (stays_waitUnit .collector 10).bind fun _ => ?_
  refine (stays_waitUnit .emporia 10).bind fun _ => (stays_waitUnit .recovery 10).bind fun _ => ?_
  refine (stays_ask (e := .isActive .litellm) trivial nofun).bind fun _ => ?_
  refine (hprobe .healthz).bind fun _ => (hprobe .models).bind fun _ =>
    (hprobe .revisions).bind fun _ => ?_
  refine (hprobe .benchmarks).bind fun _ => (hprobe .tls).bind fun _ =>
    (hprobe .restarts).bind fun _ => ?_
  exact (stays_ask (e := .manifest) trivial nofun).bind fun _ => stays_pure _

theorem stays_preflight (artifact : Option Artifact) (firstPromotion staging : Bool) :
    Stays (preflight artifact firstPromotion staging) := by
  have hcond : ∀ c, Stays (ask (.condition c)) :=
    fun c => stays_ask (e := .condition c) trivial nofun
  have hidentity : Stays (identified artifact) := by
    cases artifact with
    | none => exact hcond .identity
    | some a => exact stays_pure _
  refine (hcond _).bind fun _ => hidentity.bind fun _ =>
    (stays_ask (e := .currentExists) trivial nofun).bind fun _ => ?_
  refine (hcond _).bind fun _ => (hcond _).bind fun _ => (hcond _).bind fun _ =>
    (hcond _).bind fun _ => ?_
  exact (hcond _).bind fun _ => (hcond _).bind fun _ => stays_pure _

theorem goes_note (e : Entry) (h : Host) : Goes (note e)
    (fun h' _ => h' = { h with ledger := h.ledger ++ [e] }) Never h :=
  ⟨trivial, fun _ _ hm => hm.1⟩

theorem goes_setCurrent {release : String} {h : Host} (hin : release ∈ h.releases) :
    Goes (setCurrent release) (fun h' _ => h' = { h with current := some release, next := none })
      Never h := by
  refine ⟨trivial, fun r h' hm => ?_⟩
  obtain ⟨hm, rfl⟩ := hm
  obtain rfl : h' = { h with next := some release } := hm
  refine ⟨⟨release, hin, rfl⟩, fun r h' hm => ?_⟩
  obtain ⟨hm, rfl⟩ := hm
  obtain ⟨t, ht, rfl⟩ := hm
  obtain rfl := Option.some.inj ht
  rfl

theorem goes_restart {s : Service} (hs : s ≠ .recovery) : Stays (restart s) := by
  refine (stays_ask (e := .systemctl .restart s) ?_ nofun).bind fun _ => stays_pure _
  cases s with
  | recovery => exact hs rfl
  | web | collector | emporia | litellm => trivial

theorem goes_recovery (h : Host) : Goes (restart .recovery)
    (fun h' _ => h' = { h with recovery := some .restart }) Never h :=
  ⟨trivial, fun _ _ hm => hm.1⟩

/-- What aborts a deploy after the candidate is taken back. -/
def takenBack : List String := ["migration failure", "ARM migration failure"]

def refusals : List String :=
  ["preflight failed", "unexpected artifact layout", "artifact manifest verification failed"]

/-- What aborts a deploy before the unit files are installed. -/
def unprepared : String := "prisma generate failed"

/-- What aborts a deploy whose candidate has passed a check and stays. -/
def passed : List String :=
  ["candidate py_compile failed", "candidate cost tests failed", "candidate AST parse failed"]

/-- The candidate is being installed, and the unit files are those of `units`. -/
structure Waiting (h₀ h : Host) (sha : String) (units : Option String) : Prop where
  current : h.current = h₀.current
  releases : ∀ t ∈ h₀.releases, t ∈ h.releases
  only : ∀ t ∈ h.releases, t = sha ∨ t ∈ h₀.releases
  units : h.units = units
  recovery : h.recovery = h₀.recovery ∨ h.recovery = some .stop
  told : Told h₀ h

structure Aborted (sha256 : String → String) (artifact : Option Artifact) (h₀ h : Host)
    (detail : String) : Prop where
  last : h.ledger.getLast? = some (.abort detail)
  current : h.current = h₀.current
  recovery : h.recovery = h₀.recovery ∨ h.recovery = some .stop
  told : Told h₀ h
  kept : detail ∉ takenBack → ∀ t ∈ h₀.releases, t ∈ h.releases
  taken : detail ∈ takenBack → ∃ a, artifact = some a ∧ a.gitSha ∉ h.releases ∧ ∀ t ∈ h₀.releases,
    t ≠ a.gitSha → t ∈ h.releases
  refused : detail ∈ refusals → h.releases = h₀.releases ∧ h.units = h₀.units ∧
    h.recovery = h₀.recovery
  begun : detail ∉ refusals → ∃ a, artifact = some a ∧ bad sha256 a = [] ∧
    h.units = (if detail = unprepared then h₀.units else some a.gitSha) ∧
      (∀ t ∈ h.releases, t = a.gitSha ∨ t ∈ h₀.releases) ∧ (detail ∈ passed → a.gitSha ∈ h.releases)

/-- The candidate has been activated, and `current` is what is current now. -/
structure Linked (h₀ h : Host) (sha current : String) : Prop where
  current : h.current = some current
  releases : ∀ t ∈ h₀.releases, t ∈ h.releases
  candidate : sha ∈ h.releases
  units : h.units = some sha
  told : Told h₀ h

structure Switched (h₀ h : Host) (sha current : String) : Prop extends Linked h₀ h sha current where
  recovery : h.recovery = some .restart

def Previous (h : Host) (release : String) : Prop :=
  h.exists = true ∧ h.current = some release ∧ release ≠ ""

inductive Outcome (sha256 : String → String) (artifact : Option Artifact) (h₀ h : Host) : Nat → Prop
  | aborted (detail : String) : Aborted sha256 artifact h₀ h detail → Outcome sha256 artifact h₀ h 1
  | accepted (a : Artifact) : artifact = some a → bad sha256 a = [] →
      h.ledger.getLast? = some (.accepted a.gitSha) →
      Switched h₀ h a.gitSha a.gitSha → Outcome sha256 artifact h₀ h 0
  | rolledBack (a : Artifact) (p : String) : artifact = some a → bad sha256 a = [] → Previous h₀ p →
      h.ledger.getLast? = some (.rollbackComplete p) ∨
        h.ledger.getLast? = some (.rollbackDegraded p) →
      Switched h₀ h a.gitSha p → Outcome sha256 artifact h₀ h 1
  | stranded (a : Artifact) : artifact = some a → bad sha256 a = [] → (∀ p, ¬ Previous h₀ p) →
      h.ledger.getLast? = some .rollbackImpossible → Switched h₀ h a.gitSha a.gitSha →
        Outcome sha256 artifact h₀ h 1

section Deploy

variable {sha256 : String → String} {artifact : Option Artifact} {h₀ h : Host}

theorem Waiting.still {sha : String} {units : Option String} {h' : Host}
    (h₁ : Waiting h₀ h sha units) (h₂ : Still h h') :
    Waiting h₀ h' sha units :=
  ⟨h₂.current.trans h₁.current, fun t ht => h₂.releases t
    (h₁.releases t ht), by rw [h₂.same]; exact h₁.only,
    h₂.units.trans h₁.units, by rw [h₂.recovery]; exact h₁.recovery, h₁.told.trans h₂.told⟩

theorem Waiting.add {sha : String} {units : Option String} (hw : Waiting h₀ h sha units) :
    Waiting h₀ (h.add sha) sha units := by
  refine ⟨hw.current, fun t ht => List.mem_cons_of_mem _ (hw.releases t ht), fun t ht => ?_,
    hw.units, hw.recovery, hw.told⟩
  rcases List.mem_cons.mp ht with rfl | ht
  · exact .inl rfl
  · exact hw.only t ht

theorem Still.note {e : Entry} (he : quiet e) : Still h { h with ledger := h.ledger ++ [e] } :=
  ⟨.note he, rfl⟩

theorem Still.waiting (hs : Still h₀ h) (sha : String) : Waiting h₀ h sha h₀.units :=
  ⟨hs.current, hs.releases, fun _ ht => .inr (hs.same ▸ ht), hs.units, .inl hs.recovery, hs.told⟩

theorem goes_refuse {Q : Host → α → Prop} {detail : String} (hs : Still h₀ h)
    (hd : detail ∈ refusals) (ht : detail ∉ takenBack) :
    Goes (die detail) Q (Outcome sha256 artifact h₀) h := by
  refine (goes_note (.abort detail) h).seq fun h' _ he => ?_
  subst he
  replace hs := hs.trans (.note (e := .abort detail) trivial)
  refine Outcome.aborted detail ⟨List.getLast?_concat, hs.current, .inl hs.recovery, hs.told,
    fun _ => hs.releases, ?_, ?_, ?_⟩
  · exact fun hin => absurd hin ht
  · exact fun _ => ⟨hs.same, hs.units, hs.recovery⟩
  · exact fun hno => absurd hd hno

theorem goes_die {Q : Host → α → Prop} {a : Artifact} {units : Option String} {detail : String}
    (ha : artifact = some a)
    (hbad : bad sha256 a = []) (hw : Waiting h₀ h a.gitSha units) (ht : detail ∉ takenBack)
    (hr : detail ∉ refusals)
    (hu : units = if detail = unprepared then h₀.units else some a.gitSha)
    (hin : detail ∈ passed → a.gitSha ∈ h.releases) :
    Goes (die detail) Q (Outcome sha256 artifact h₀) h := by
  refine (goes_note (.abort detail) h).seq fun h' _ he => ?_
  subst he
  replace hw := hw.still (.note (e := .abort detail) trivial)
  refine Outcome.aborted detail ⟨List.getLast?_concat, hw.current, hw.recovery, hw.told,
    fun _ => hw.releases, ?_, ?_, ?_⟩
  · exact fun hyes => absurd hyes ht
  · exact fun hyes => absurd hyes hr
  · exact fun _ => ⟨a, ha, hbad, hw.units.trans hu, hw.only, hin⟩

theorem goes_suppress {sha : String} {units : Option String} (hw : Waiting h₀ h sha units) :
    Goes suppress (fun h' _ => Waiting h₀ h' sha units) Never h := by
  refine (stays_ask (e := .isActive .recovery) trivial nofun h).seq fun h₁ r hs => ?_
  have hw₁ := hw.still hs
  split
  · have hstop : Goes (ask (.systemctl .stop .recovery))
        (fun h' _ => h' = { h₁ with recovery := some .stop }) Never h₁ :=
      ⟨trivial, fun _ _ hm => hm.1⟩
    refine hstop.seq fun h₂ _ he => ?_
    subst he
    refine (goes_note .recoveryStopped _).mono (fun h' _ he => ?_) fun _ _ hx => hx
    subst he
    obtain ⟨hcur, hrel, honly, hunits, -, htold⟩ := hw₁
    have hstopped : Waiting h₀ { h₁ with recovery := some .stop } sha units :=
      ⟨hcur, hrel, honly, hunits, .inr rfl, htold⟩
    exact hstopped.still (.note (e := .recoveryStopped) trivial)
  · exact hw₁

theorem goes_work {w : Work} {sha : String} {units : Option String} (hw : Waiting h₀ h sha units) :
    Goes (ask (.work w sha)) (fun h' _ => Waiting h₀ h' sha units) Never h := by
  refine ⟨trivial, fun _ h' hm => ?_⟩
  rcases hm.1 with rfl | ⟨-, rfl⟩
  · exact hw
  · exact hw.add

theorem goes_installFiles {sha : String} {units : Option String} (hw : Waiting h₀ h sha units) :
    Goes (installFiles sha) (fun h' _ => Waiting h₀ h' sha units) Never h := by
  refine (stays_ask (e := .isDir sha) trivial nofun h).seq fun h₁ r hs => ?_
  replace hw := hw.still hs
  split
  · exact hw
  · exact (goes_work (w := .mkdir) hw).seq fun h₂ _ hw =>
      (goes_work (w := .copy) hw).seq fun h₃ _ hw => hw

theorem goes_installVenv {sha : String} {units : Option String} (hw : Waiting h₀ h sha units) :
    Goes (installVenv sha) (fun h' _ => Waiting h₀ h' sha units) Never h := by
  refine (stays_ask (e := .hasVenv sha) trivial nofun h).seq fun h₁ r hs => ?_
  replace hw := hw.still hs
  split
  · exact hw
  · refine (goes_work (w := .makeVenv) hw).seq fun h₂ _ hw =>
      (goes_work (w := .upgradePip) hw).seq fun h₃ _ hw => ?_
    exact (goes_work (w := .installFreeze) hw).seq fun h₄ _ hw => hw

theorem goes_generatePrisma {a : Artifact} (ha : artifact = some a) (hbad : bad sha256 a = [])
    (hw : Waiting h₀ h a.gitSha h₀.units) :
    Goes (generatePrisma a.gitSha) (fun h' _ => Waiting h₀ h' a.gitSha h₀.units)
      (Outcome sha256 artifact h₀) h := by
  refine (stays_ask (e := .needsPrisma a.gitSha) trivial nofun h).seq fun h₁ r hs => ?_
  replace hw := hw.still hs
  split
  · refine (stays_ask (e := .prismaGenerate a.gitSha) trivial nofun h₁).seq fun h₂ r hs => ?_
    replace hw := hw.still hs
    split
    · exact hw
    · exact goes_die ha hbad hw (by decide) (by decide) rfl fun hin => absurd hin (by decide)
  · exact hw

theorem goes_install {a : Artifact} (ha : artifact = some a) (hbad : bad sha256 a = [])
    (hw : Waiting h₀ h a.gitSha h₀.units) :
    Goes (install a.gitSha) (fun h' _ => Waiting h₀ h' a.gitSha (some a.gitSha))
      (Outcome sha256 artifact h₀) h := by
  refine (goes_installFiles hw).seq fun h₁ _ hw => (goes_installVenv hw).seq fun h₂ _ hw => ?_
  refine Sat.seq (goes_generatePrisma ha hbad hw) fun h₃ _ hw =>
    (goes_work (w := .links) hw).seq fun h₄ _ hw => ?_
  have hunits : Goes (ask (.installUnits a.gitSha))
      (fun h' _ => h' = { h₄ with units := some a.gitSha }) Never h₄ := by
    refine ⟨trivial, fun r h' hm => ?_⟩
    obtain ⟨hm, rfl⟩ := hm
    exact hm
  refine hunits.seq fun h₅ _ he => ?_
  subst he
  obtain ⟨hcur, hrel, honly, -, hrec, htold⟩ := hw
  have hin : Waiting h₀ { h₄ with units := some a.gitSha } a.gitSha (some a.gitSha) :=
    ⟨hcur, hrel, honly, rfl, hrec, htold⟩
  exact (stays_ask (e := .daemonReload) trivial nofun _).mono (fun _ _ hs => hin.still hs)
    fun _ _ hx => hx.elim

def Installed (h₀ h : Host) (sha : String) : Prop := Waiting h₀ h sha (some sha) ∧ sha ∈ h.releases

theorem Installed.still {sha : String} {h' : Host} (hi : Installed h₀ h sha) (hs : Still h h') :
    Installed h₀ h' sha :=
  ⟨hi.1.still hs, hs.releases _ hi.2⟩

theorem goes_passes {c : Check} {a : Artifact} {detail : String} (ha : artifact = some a)
    (hbad : bad sha256 a = [])
    (hw : Waiting h₀ h a.gitSha (some a.gitSha)) (ht : detail ∉ takenBack) (hr : detail ∉ refusals)
    (hu : detail ≠ unprepared)
    (hin : detail ∈ passed → a.gitSha ∈ h.releases) :
    Goes (passes c a.gitSha detail) (fun h' _ => Installed h₀ h' a.gitSha)
      (Outcome sha256 artifact h₀) h := by
  have hcheck : Goes (ask (.check c a.gitSha))
      (fun h' r => h' = h ∧ (r = true → a.gitSha ∈ h.releases)) Never h :=
    ⟨trivial, fun _ _ hm => hm.1.symm⟩
  refine hcheck.seq fun h₁ r hc => ?_
  obtain ⟨rfl, hc⟩ := hc
  split
  next hyes => exact ⟨hw, hc hyes⟩
  · exact goes_die ha hbad hw ht hr (if_neg hu).symm hin

theorem goes_validate {a : Artifact} (ha : artifact = some a) (hbad : bad sha256 a = [])
    (hw : Waiting h₀ h a.gitSha (some a.gitSha)) :
    Goes (validate a.gitSha) (fun h' _ => Installed h₀ h' a.gitSha) (Outcome sha256 artifact h₀)
      h := by
  have himports : Goes (passes .imports a.gitSha
      "dependency import verification FAILED (freeze file vs runtime drift)")
      (fun h' _ => Installed h₀ h' a.gitSha) (Outcome sha256 artifact h₀) h :=
    goes_passes ha hbad hw (by decide) (by decide) (by decide) fun hin => absurd hin (by decide)
  refine Sat.seq himports fun h₁ _ hi => ?_
  refine Sat.seq (goes_passes ha hbad hi.1 (by decide) (by decide) (by decide) fun _ => hi.2)
    fun h₂ _ hi => ?_
  refine Sat.seq (goes_passes ha hbad hi.1 (by decide) (by decide) (by decide) fun _ => hi.2)
    fun h₃ _ hi => ?_
  exact goes_passes ha hbad hi.1 (by decide) (by decide) (by decide) fun _ => hi.2

theorem goes_migrate {m : Migrations} {skip : Bool} {a : Artifact} {detail : String}
    (ha : artifact = some a)
    (hbad : bad sha256 a = []) (hd : detail ∈ takenBack) (hi : Installed h₀ h a.gitSha) :
    Goes (migrate m skip a.gitSha detail) (fun h' _ => Installed h₀ h' a.gitSha)
      (Outcome sha256 artifact h₀) h := by
  have hother : ∀ detail ∈ takenBack, detail ∉ refusals ∧ detail ≠ unprepared ∧
      detail ∉ passed := by decide
  obtain ⟨hnorefusal, hprepared, hunpassed⟩ := hother detail hd
  rw [migrate]
  split
  · exact hi
  · refine (stays_ask (e := .hasMigrations m a.gitSha) trivial nofun h).seq fun h₁ r hs => ?_
    replace hi := hi.still hs
    split
    · refine (stays_ask (e := .migrate m a.gitSha) trivial nofun h₁).seq fun h₂ r hs => ?_
      replace hi := hi.still hs
      split
      · exact hi
      · have hremove : Goes (ask (.remove a.gitSha)) (fun h' _ => h' = h₂.drop a.gitSha) Never
            h₂ := by
          refine ⟨trivial, fun r h' hm => ?_⟩
          obtain ⟨hm, rfl⟩ := hm
          exact hm
        refine hremove.seq fun h₃ _ he => ?_
        subst he
        refine (goes_note (.abort detail) _).seq fun h₄ _ he => ?_
        subst he
        obtain ⟨hcur, hrel, honly, hunits, hrec, htold⟩ := hi.1
        refine Outcome.aborted detail ⟨List.getLast?_concat, hcur, hrec, ?_,
          fun hno => absurd hd hno, fun _ => ⟨a, ha, ?_, ?_⟩, ?_, ?_⟩
        · exact htold.trans (Grown.note (e := .abort detail) trivial).told
        · exact fun hin => absurd (List.mem_filter.mp hin).2 (by simp)
        · exact fun t ht hne => List.mem_filter.mpr ⟨hrel t ht, bne_iff_ne.mpr hne⟩
        · exact fun hyes => absurd hyes hnorefusal
        · refine fun _ => ⟨a, ha, hbad, hunits.trans (if_neg hprepared).symm, fun t ht => ?_,
            fun hyes => absurd hyes hunpassed⟩
          exact honly t (List.mem_filter.mp ht).1
    · exact hi

theorem Linked.grown {h' : Host} {sha current : String} (hl : Linked h₀ h sha current)
    (hg : Grown h h') : Linked h₀ h' sha current :=
  ⟨hg.current.trans hl.current, fun t ht => hg.releases t (hl.releases t ht),
    hg.releases _ hl.candidate, hg.units.trans hl.units,
    hl.told.trans hg.told⟩

theorem Switched.grown {h' : Host} {sha current : String} (hl : Switched h₀ h sha current)
    (hg : Grown h h') :
    Switched h₀ h' sha current :=
  ⟨hl.toLinked.grown hg, hg.recovery.trans hl.recovery⟩

theorem Linked.restarted {sha current : String} (hl : Linked h₀ h sha current) :
    Switched h₀ { h with recovery := some .restart } sha current :=
  ⟨⟨hl.current, hl.releases, hl.candidate, hl.units, hl.told⟩, rfl⟩

theorem goes_activate {sha previous : String} {staging : Bool} (hi : Installed h₀ h sha) :
    Goes (activate sha previous staging) (fun h' _ => Switched h₀ h' sha sha) Never h := by
  refine (goes_setCurrent hi.2).seq fun h₁ _ he =>
    (goes_note (.activate sha previous) h₁).seq fun h₂ _ he' => ?_
  subst he
  subst he'
  obtain ⟨hw, hin⟩ := hi
  have hl :
      Linked h₀
      { h with current := some sha, next := none, ledger := h.ledger ++ [.activate sha previous] }
      sha sha :=
    ⟨rfl, hw.releases, hin, hw.units, hw.told.settle rfl fun _ => rfl⟩
  refine (goes_restart (s := .web) nofun _).seq fun h₃ _ hs => ?_
  replace hl := hl.grown hs.toGrown
  refine (goes_restart (s := .collector) nofun h₃).seq fun h₄ _ hs => ?_
  replace hl := hl.grown hs.toGrown
  refine (goes_restart (s := .emporia) nofun h₄).seq fun h₅ _ hs => ?_
  replace hl := hl.grown hs.toGrown
  have hlitellm : Stays (restartLitellm staging) := Stays.ite (goes_restart nofun) (stays_pure ())
  refine (hlitellm h₅).seq fun h₆ _ hs => ?_
  replace hl := hl.grown hs.toGrown
  refine (stays_ask (e := .reloadNginx) trivial nofun h₆).seq fun h₇ _ hs => ?_
  replace hl := hl.grown hs.toGrown
  exact (goes_recovery h₇).mono (fun _ _ he => he ▸ hl.restarted) fun _ _ hx => hx

theorem goes_restartAll (h : Host) :
    Goes restartAll (fun h' _ => ∃ h₁, Still h h₁ ∧ h' = { h₁ with recovery := some .restart })
      Never h := by
  refine (stays_ask (e := .daemonReload) trivial nofun h).seq fun h₁ _ h₁s =>
    (goes_restart (s := .web) nofun h₁).seq fun h₂ _ h₂s => ?_
  refine (goes_restart (s := .collector) nofun h₂).seq fun h₃ _ h₃s =>
    (goes_restart (s := .emporia) nofun h₃).seq fun h₄ _ h₄s => ?_
  exact (goes_recovery h₄).mono (fun _ _ he => ⟨h₄, ((h₁s.trans h₂s).trans h₃s).trans h₄s, he⟩)
    fun _ _ hx => hx

/-- The link is set to a release and the services are restarted. -/
structure Rolled (h h' : Host) (target : String) : Prop where
  current : h'.current = some target
  releases : h'.releases = h.releases
  units : h'.units = h.units
  recovery : h'.recovery = some .restart
  ledger : ∃ new, h'.ledger = h.ledger ++ new

theorem goes_switchBack {target : String} (hin : target ∈ h.releases) :
    Goes (switchBack target) (fun h' _ => Rolled h h' target) Never h := by
  refine (goes_setCurrent hin).seq fun h₁ _ he => (goes_restartAll h₁).seq fun h₂ _ hr => ?_
  subst he
  obtain ⟨h₃, hs, rfl⟩ := hr
  refine (stays_ask (e := .sleep 3) trivial nofun _).seq fun h₄ _ hs' => ?_
  refine (stays_healthcheck false h₄).mono (fun h₅ _ hs'' => ?_) fun _ _ hx => hx
  have hlast := hs'.trans hs''
  obtain ⟨new, hnew, -⟩ := hs.told
  obtain ⟨new', hnew', -⟩ := hlast.told
  refine ⟨hlast.current.trans hs.current, hlast.same.trans hs.same, hlast.units.trans hs.units,
    hlast.recovery, new ++ new', ?_⟩
  rw [hnew', ← List.append_assoc]
  exact congrArg (· ++ new') hnew

theorem goes_known {name : String} (hne : name ≠ "") (h : Host) :
    Goes (known name) (fun h' r => h' = h ∧ r = h.releases.contains name) Never h := by
  rw [known, if_neg hne]
  exact ⟨trivial, fun _ _ hm => hm.1.symm⟩

theorem Rolled.noted {h' : Host} {target : String} (hr : Rolled h h' target) {e : Entry}
    (he : ∀ c, recorded c e = some target)
    {new : List Entry} (hnew : h.ledger = h₀.ledger ++ new) :
    Told h₀ { h' with ledger := h'.ledger ++ [e] } := by
  obtain ⟨more, hmore⟩ := hr.ledger
  refine ⟨new ++ more ++ [e], ?_, ?_⟩
  · show h'.ledger ++ [e] = _
    rw [hmore, hnew, List.append_assoc, List.append_assoc, List.append_assoc]
  · rw [List.foldl_append]
    exact (he _).trans hr.current.symm

theorem goes_rollBack {a : Artifact} {previous : String} (ha : artifact = some a)
    (hbad : bad sha256 a = [])
    (hprev : Previous h₀ previous ∨ previous = "" ∧ ∀ p, ¬ Previous h₀ p)
    (hs : Switched h₀ h a.gitSha a.gitSha) :
    Goes (rollBack a.gitSha previous) (fun _ _ => False) (Outcome sha256 artifact h₀) h := by
  refine (goes_note (.rollbackStart ..) h).seq fun h₁ _ he => ?_
  subst he
  replace hs :=
    hs.grown (.note (e := .rollbackStart a.gitSha (if previous = "" then "none" else previous))
      trivial)
  have hback : Goes (rollBackTo previous) (fun h' _ => Outcome sha256 artifact h₀ h' 1) Never
      { h with ledger := h.ledger ++ [.rollbackStart a.gitSha
        (if previous = "" then "none" else previous)] } := by
    rcases hprev with hp | ⟨rfl, hno⟩
    · have hmem : previous ∈ h₀.releases := by
        obtain ⟨hex, hcur, -⟩ := hp
        rw [Host.exists, hcur] at hex
        exact List.contains_iff_mem.mp hex
      refine (goes_known hp.2.2 _).seq fun h₂ r hr => ?_
      obtain ⟨rfl, rfl⟩ := hr
      rw [List.contains_iff_mem.mpr (hs.releases _ hmem), if_pos rfl]
      refine (goes_switchBack (hs.releases _ hmem)).seq fun h₃ r hr => ?_
      obtain ⟨new, hnew, -⟩ := hs.told
      have hswitched : ∀ e, (∀ c, recorded c e = some previous) →
          Switched h₀ { h₃ with ledger := h₃.ledger ++ [e] } a.gitSha previous :=
        fun e he => ⟨⟨hr.current, fun t ht => hr.releases ▸ hs.releases t ht,
          hr.releases ▸ hs.candidate, hr.units.trans hs.units,
          hr.noted he hnew⟩, hr.recovery⟩
      split
      · refine (goes_note (.rollbackComplete previous) h₃).mono (fun h₄ _ he => ?_) fun _ _ hx => hx
        subst he
        exact .rolledBack a previous ha hbad hp (.inl List.getLast?_concat)
          (hswitched _ fun _ => rfl)
      · refine (goes_note (.rollbackDegraded previous) h₃).mono (fun h₄ _ he => ?_) fun _ _ hx => hx
        subst he
        exact .rolledBack a previous ha hbad hp (.inr List.getLast?_concat)
          (hswitched _ fun _ => rfl)
    · refine (goes_note .rollbackImpossible _).mono (fun h₂ _ he => ?_) fun _ _ hx => hx
      subst he
      exact .stranded a ha hbad hno List.getLast?_concat
        (hs.grown (.note (e := .rollbackImpossible) trivial))
  exact hback.seq fun h₂ _ ho => ho

theorem goes_smoke {a : Artifact} {previous : String} {staging : Bool} (ha : artifact = some a)
    (hbad : bad sha256 a = [])
    (hprev : Previous h₀ previous ∨ previous = "" ∧ ∀ p, ¬ Previous h₀ p)
    (hs : Switched h₀ h a.gitSha a.gitSha) :
    Goes (smoke a.gitSha previous staging) (fun _ _ => False) (Outcome sha256 artifact h₀) h := by
  refine (stays_ask (e := .sleep 3) trivial nofun h).seq fun h₁ _ hg => ?_
  replace hs := hs.grown hg.toGrown
  refine (stays_healthcheck staging h₁).seq fun h₂ r hg => ?_
  replace hs := hs.grown hg.toGrown
  split
  · refine (goes_note (.accepted a.gitSha) h₂).seq fun h₃ _ he => ?_
    subst he
    exact .accepted a ha hbad List.getLast?_concat
      (hs.grown (.note (e := .accepted a.gitSha) trivial))
  · exact goes_rollBack ha hbad hprev hs

theorem goes_release {a : Artifact} {previous : String} {staging skip : Bool}
    (ha : artifact = some a) (hbad : bad sha256 a = [])
    (hprev : Previous h₀ previous ∨ previous = "" ∧ ∀ p, ¬ Previous h₀ p)
    (hw : Waiting h₀ h a.gitSha h₀.units) :
    Goes (release a.gitSha previous staging skip) (fun _ _ => False) (Outcome sha256 artifact h₀)
      h := by
  refine (goes_suppress hw).seq fun h₁ _ hw => Sat.seq (goes_install ha hbad hw) fun h₂ _ hw => ?_
  refine Sat.seq (goes_validate ha hbad hw) fun h₃ _ hi =>
    Sat.seq (goes_migrate ha hbad (by decide) hi) fun h₄ _ hi => ?_
  refine Sat.seq (goes_migrate ha hbad (by decide) hi) fun h₅ _ hi =>
    (goes_activate hi).seq fun h₆ _ hs => ?_
  exact goes_smoke ha hbad hprev hs

theorem goes_previousRelease (hs : Still h₀ h) :
    Goes previousRelease (fun h' p => Still h₀ h' ∧ (Previous h₀ p ∨ p = "" ∧ ∀ q, ¬ Previous h₀ q))
      Never h := by
  have hsame : h.exists = h₀.exists := by rw [Host.exists, Host.exists, hs.current, hs.same]
  have hexists : Goes (ask .currentExists) (fun h' r => h' = h ∧ r = h₀.exists) Never h :=
    ⟨trivial, fun _ _ hm => ⟨hm.1.2, hm.1.1.trans hsame⟩⟩
  refine hexists.seq fun h₁ r hr => ?_
  obtain ⟨rfl, rfl⟩ := hr
  split
  next hyes =>
    have hlink : Goes (ask .readlink) (fun h' t => h' = h₁ ∧ t = h₀.current) Never h₁ :=
      ⟨trivial, fun _ _ hm => ⟨hm.1.2, hm.1.1.trans hs.current⟩⟩
    refine hlink.seq fun h₂ t ht => ?_
    obtain ⟨rfl, rfl⟩ := ht
    refine ⟨hs, ?_⟩
    have hcur : ∃ t, h₀.current = some t := by
      rw [Host.exists] at hyes
      split at hyes
      next t hcur => exact ⟨t, hcur⟩
      · cases hyes
    obtain ⟨t, hcur⟩ := hcur
    by_cases hempty : t = ""
    · subst hempty
      refine .inr ⟨by rw [hcur, Option.getD_some], fun q hq => hq.2.2 (Option.some.inj
        (hq.2.1.symm.trans hcur))⟩
    · refine .inl ⟨hyes, by rw [hcur, Option.getD_some], ?_⟩
      rw [hcur, Option.getD_some]
      exact hempty
  next hno => exact ⟨hs, .inr ⟨rfl, fun q hq => hno hq.1⟩⟩

theorem goes_deploy (sha256 : String → String) (artifact : Option Artifact) (staging skip : Bool)
    (h₀ : Host) :
    Goes (deploy sha256 artifact staging skip) (fun _ _ => False) (Outcome sha256 artifact h₀)
      h₀ := by
  have hpromotion : Stays (isPromotion staging) :=
    Stays.ite (stays_pure _) ((stays_ask (e := .currentExists) trivial nofun).bind fun _ =>
      stays_pure _)
  refine (hpromotion h₀).seq fun h₁ promotion hs =>
    (stays_preflight _ promotion staging h₁).seq fun h₂ r hs' => ?_
  replace hs := hs.trans hs'
  split
  · refine (goes_previousRelease hs).seq fun h₃ previous hp => ?_
    obtain ⟨hs, hprev⟩ := hp
    refine (stays_ask (e := .healthText) trivial nofun h₃).seq fun h₄ text hs' => ?_
    replace hs := hs.trans hs'
    refine (goes_note (.snapshot previous (shownHealth text)) h₄).seq fun h₅ _ he => ?_
    subst he
    replace hs := hs.trans (.note (e := .snapshot previous (shownHealth text)) trivial)
    refine (stays_ask (e := .unpack) trivial nofun _).seq fun h₆ unpacked hs' => ?_
    replace hs := hs.trans hs'
    cases artifact with
    | none => exact goes_refuse hs (by decide) (by decide)
    | some a =>
        show Goes (if unpacked then (if bad sha256 a = [] then _ else _) else _) _ _ _
        split
        · split
          next hbad => exact goes_release rfl hbad hprev (hs.waiting a.gitSha)
          · exact goes_refuse hs (by decide) (by decide)
        · exact goes_refuse hs (by decide) (by decide)
  · exact goes_refuse hs (by decide) (by decide)

end Deploy

inductive Manual (h₀ h : Host) : Nat → Prop
  | refused : h = h₀ → Manual h₀ h 1
  | complete (t : String) : t ∈ h₀.releases → h₀.current ≠ some t → Rolled h₀ h t → Told h₀ h →
      h.ledger.getLast? = some (.manualComplete t) → Manual h₀ h 0
  | degraded (t : String) : t ∈ h₀.releases → h₀.current ≠ some t → Rolled h₀ h t → Told h₀ h →
      h.ledger.getLast? = some (.manualDegraded t) → Manual h₀ h 1

theorem goes_rollbackTarget (target current : String) (h : Host) :
    Goes (rollbackTarget target current) (fun h' _ => h' = h) Never h := by
  rw [rollbackTarget]
  split
  · rfl
  · have hnewest : Goes (ask .newest) (fun h' _ => h' = h) Never h :=
      ⟨trivial, fun _ _ hm => hm.1.2⟩
    exact hnewest.seq fun _ _ he => he

theorem goes_rollback (target : String) (h₀ : Host) :
    Goes (rollback target) (fun _ _ => False) (Manual h₀) h₀ := by
  have hlink : Goes (ask .readlink) (fun h' t => h' = h₀ ∧ t = h₀.current) Never h₀ :=
    ⟨trivial, fun _ _ hm => ⟨hm.1.2, hm.1.1⟩⟩
  refine hlink.seq fun h₁ link hl => ?_
  obtain ⟨rfl, rfl⟩ := hl
  refine (goes_rollbackTarget target _ h₁).seq fun h₂ t he => ?_
  subst he
  by_cases hne : t = ""
  · subst hne
    exact .refused rfl
  · refine (goes_known hne h₂).seq fun h₃ r hr => ?_
    obtain ⟨rfl, rfl⟩ := hr
    split
    next hin =>
      replace hin := List.contains_iff_mem.mp hin
      split
      · exact .refused rfl
      next hother =>
        have hcur : h₃.current ≠ some t := by
          intro he
          rw [he, Option.getD_some] at hother
          exact hother rfl
        refine (goes_note (.manualStart _ t) h₃).seq fun h₄ _ he => ?_
        subst he
        have hstop : ∀ h : Host, Goes (ask (.systemctl .stop .recovery))
            (fun h' _ => h' = { h with recovery := some .stop }) Never h :=
          fun h => ⟨trivial, fun _ _ hm => hm.1⟩
        refine (hstop _).seq fun h₅ _ he => ?_
        obtain ⟨hrel, hunits, hled⟩ : h₅.releases = h₃.releases ∧ h₅.units = h₃.units ∧
            h₅.ledger = h₃.ledger ++ [.manualStart (h₃.current.getD "current") t] := by
          subst he
          exact ⟨rfl, rfl, rfl⟩
        refine (goes_switchBack (hrel ▸ hin)).seq fun h₆ r hr => ?_
        obtain ⟨new, hnew⟩ := hr.ledger
        have hrolled : ∀ e, Rolled h₃ { h₆ with ledger := h₆.ledger ++ [e] } t := by
          refine fun e => ⟨hr.current, hr.releases.trans hrel, hr.units.trans hunits, hr.recovery,
            [.manualStart (h₃.current.getD "current") t] ++ (new ++ [e]), ?_⟩
          show h₆.ledger ++ [e] = _
          rw [hnew, hled, List.append_assoc, List.append_assoc]
        split
        · refine (goes_note (.manualComplete t) h₆).seq fun h₇ _ he => ?_
          subst he
          exact .complete t hin hcur (hrolled _) (hr.noted (fun _ => rfl) hled) List.getLast?_concat
        · refine (goes_note (.manualDegraded t) h₆).seq fun h₇ _ he => ?_
          subst he
          exact .degraded t hin hcur (hrolled _) (hr.noted (fun _ => rfl) hled) List.getLast?_concat
    · exact .refused rfl

def answer (migrates healthy : Bool) (h : Host) : (e : Eff) → Option (Ans e × Host)
  | .currentExists => some (h.exists, h)
  | .readlink => some (h.current, h)
  | .condition _ => some (true, h)
  | .healthText => some ("", h)
  | .unpack => some (true, h)
  | .isActive _ => some (true, h)
  | .systemctl o .recovery => some (true, { h with recovery := some o })
  | .systemctl _ .web => some (true, h)
  | .systemctl _ .collector => some (true, h)
  | .systemctl _ .emporia => some (true, h)
  | .systemctl _ .litellm => some (true, h)
  | .daemonReload => some ((), h)
  | .reloadNginx => some ((), h)
  | .sleep _ => some ((), h)
  | .isDir s => some (h.releases.contains s, h)
  | .hasVenv _ => some (false, h)
  | .work .mkdir s => some (true, h.add s)
  | .work _ _ => some (true, h)
  | .needsPrisma _ => some (false, h)
  | .prismaGenerate _ => some (true, h)
  | .installUnits s => some (true, { h with units := some s })
  | .check _ s => some (h.releases.contains s, h)
  | .hasMigrations _ _ => some (true, h)
  | .migrate _ _ => some (migrates, h)
  | .remove s => some (true, h.drop s)
  | .link s => some (true, { h with next := some s })
  | .swap => h.next.map fun t => (true, { h with current := some t, next := none })
  | .newest => some (h.releases, h)
  | .probe _ => some (healthy, h)
  | .manifest => some (h.exists, h)
  | .note e => some ((), { h with ledger := h.ledger ++ [e] })

theorem answer_steady (migrates healthy : Bool) (h : Host) (e : Eff) (a : Ans e) (h' : Host)
    (he : answer migrates healthy h e = some (a, h')) :
    steady h e a h' := by
  cases e with
  | systemctl o s =>
      cases s with
      | web | collector | emporia | litellm | recovery =>
          cases he
          exact ⟨rfl, trivial⟩
  | work w s =>
      cases w with
      | mkdir =>
          cases he
          exact ⟨.inr ⟨.inl rfl, rfl⟩, trivial⟩
      | copy | makeVenv | upgradePip | installFreeze | links =>
          cases he
          exact ⟨.inl rfl, trivial⟩
  | swap =>
      obtain ⟨t, ht, hp⟩ := Option.map_eq_some_iff.mp he
      cases hp
      exact ⟨⟨t, ht, rfl⟩, rfl⟩
  | installUnits | remove | link =>
      cases he
      exact ⟨rfl, rfl⟩
  | check c s =>
      cases he
      exact ⟨⟨List.contains_iff_mem.mp, rfl⟩, trivial⟩
  | newest =>
      cases he
      exact ⟨⟨fun _ => Iff.rfl, rfl⟩, trivial⟩
  | manifest =>
      cases he
      exact ⟨⟨id, rfl⟩, trivial⟩
  | currentExists | readlink | isDir =>
      cases he
      exact ⟨⟨rfl, rfl⟩, trivial⟩
  | condition | healthText | unpack | isActive | daemonReload | reloadNginx | sleep | hasVenv
  | needsPrisma | prismaGenerate
  | hasMigrations | migrate | probe | note =>
      cases he
      exact ⟨rfl, trivial⟩

def exitCode : Script Unit → Option Nat
  | .raise n => some n
  | _ => none

theorem eq_raise {p : Script Unit} {n : Nat} (h : exitCode p = some n) : p = .raise n := by
  cases p with
  | ret | call => cases h
  | raise m => exact congrArg Prog.raise (Option.some.inj h)

/-- A host with one release, and an artifact of the next one. -/
def oneRelease : Host := ⟨["a1"], some "a1", none, some "a1", some .restart, []⟩

def artifactOf (gitSha : String) : Artifact :=
  build id gitSha (fun _ => "") [⟨["service", "app"], "main.py", "app"⟩]

def nextArtifact : Artifact := artifactOf "b2"

def sameArtifact : Artifact := artifactOf "a1"

example : bad id nextArtifact = [] := bad_build (by decide) (by decide)

def played (migrates healthy : Bool) (p : Script Unit) (h : Host) :
    Trace Eff Ans × Host × Script Unit :=
  play (answer migrates healthy) 200 h p

theorem played_exec {migrates healthy : Bool} {p : Script Unit} {h : Host} {n : Nat}
    (hn : exitCode (played migrates healthy p h).2.2 = some n) :
    Exec steady h p (played migrates healthy p h).1 (played migrates healthy p h).2.1
      (.raise n) := by
  have hx := play_exec id (answer migrates healthy) (answer_steady migrates healthy) 200 h p
  rw [show (play (answer migrates healthy) 200 h p).2.2 = .raise n from eq_raise hn] at hx
  exact hx

inductive IsScript (sha256 : String → String) : Script Unit → Prop
  | deploy (artifact : Option Artifact) (staging skip : Bool) :
      IsScript sha256 (deploy sha256 artifact staging skip)
  | rollback (target : String) : IsScript sha256 (rollback target)

theorem Outcome.told {sha256 : String → String} {artifact : Option Artifact} {h₀ h : Host} {n : Nat}
    (ho : Outcome sha256 artifact h₀ h n) :
    Told h₀ h := by
  cases ho with
  | aborted detail ha => exact ha.told
  | accepted a _ _ _ hs => exact hs.told
  | rolledBack a p _ _ _ _ hs => exact hs.told
  | stranded a _ _ _ _ hs => exact hs.told

theorem Manual.told {h₀ h : Host} {n : Nat} (hm : Manual h₀ h n) : Told h₀ h := by
  cases hm with
  | refused he => exact he ▸ Told.refl h
  | complete t _ _ _ ht _ => exact ht
  | degraded t _ _ _ ht _ => exact ht

/-- Runs of scripts that are not cut off. -/
inductive Completed (sha256 : String → String) (h₀ : Host) : Host → Prop
  | refl : Completed sha256 h₀ h₀
  | tail {h h' : Host} {p : Script Unit} {tr : Trace Eff Ans} {n : Nat} :
      Completed sha256 h₀ h → IsScript sha256 p → Exec steady h p tr h' (.raise n) →
        Completed sha256 h₀ h'

/-- After any completed transactions, the new entries of the ledger tell which release is
current. -/
theorem ledger_replays {sha256 : String → String} {h₀ h : Host} (hc : Completed sha256 h₀ h) :
    ∃ new, h.ledger = h₀.ledger ++ new ∧ new.foldl recorded h₀.current = h.current := by
  induction hc with
  | refl => exact Told.refl h₀
  | @tail h h' p tr n _ hp hx ih =>
      refine Told.trans ih ?_
      cases hp with
      | deploy artifact staging skip =>
          exact ((goes_deploy sha256 artifact staging skip h).exec hx).told
      | rollback target => exact ((goes_rollback target h).exec hx).told

def deployed : Host := (played true true (deploy id (some nextArtifact) false false) oneRelease).2.1

def rolledBack : Host := (played true true (rollback "") deployed).2.1

theorem ledger_replays_rolledBack : rolledBack.current = some "a1" ∧
    ∃ new, rolledBack.ledger = oneRelease.ledger ++ new ∧
      new.foldl recorded oneRelease.current = rolledBack.current := by
  have hdeploy : Completed id oneRelease deployed :=
    .tail .refl (.deploy (some nextArtifact) false false) (played_exec (n := 0) (by decide +kernel))
  exact ⟨by decide +kernel, ledger_replays (.tail hdeploy (.rollback "")
    (played_exec (n := 0) (by decide +kernel)))⟩

/-- Every way through a deploy: what it leaves of the link, the unit files, the
recovery service and the candidate, and how it exits. -/
theorem deploy_outcome {sha256 : String → String} {artifact : Option Artifact} {staging skip : Bool}
    {h₀ h : Host}
    {tr : Trace Eff Ans} {n : Nat} (hx : Exec steady h₀ (deploy sha256 artifact staging skip) tr h
    (.raise n)) :
    Outcome sha256 artifact h₀ h n :=
  (goes_deploy sha256 artifact staging skip h₀).exec hx

theorem deploy_outcome_unhealthy :
    Outcome id (some nextArtifact) oneRelease
      (played true false (deploy id (some nextArtifact) false false) oneRelease).2.1 1 :=
  deploy_outcome (played_exec (by decide +kernel))

theorem exists_iff {h : Host} : h.exists = true ↔ ∃ t ∈ h.releases, h.current = some t := by
  rw [Host.exists]
  cases hcur : h.current with
  | none => exact iff_of_false Bool.false_ne_true nofun
  | some t =>
      rw [List.contains_iff_mem]
      constructor
      · exact fun hin => ⟨t, hin, rfl⟩
      · rintro ⟨t', hin, he⟩
        exact Option.some.inj he ▸ hin

/-- A deploy leaves `current` without its release exactly when it has failed to
migrate for the release that is current: the candidate that it takes back is the running one. -/
theorem dangles_iff {sha256 : String → String} {artifact : Option Artifact} {staging skip : Bool}
    {h₀ h : Host}
    {tr : Trace Eff Ans} {n : Nat} (hx : Exec steady h₀ (deploy sha256 artifact staging skip) tr h
    (.raise n))
    (hex : h₀.exists = true) :
    h.exists = false ↔
      (∃ detail ∈ takenBack, h.ledger.getLast? = some (.abort detail)) ∧ ∃ a, artifact = some a ∧
        h₀.current = some a.gitSha := by
  obtain ⟨t, hin, hcur⟩ := exists_iff.mp hex
  have hstays : ∀ {e : Entry}, h.exists = true → h.ledger.getLast? = some e →
      (∀ detail ∈ takenBack, e ≠ .abort detail) →
      (h.exists = false ↔ (∃ detail ∈ takenBack, h.ledger.getLast? = some (.abort detail)) ∧
        ∃ a, artifact = some a ∧ h₀.current = some a.gitSha) := by
    intro e hyes hlast hne
    refine iff_of_false (fun hno => Bool.false_ne_true (hno.symm.trans hyes)) ?_
    rintro ⟨⟨detail, hd, hl⟩, -⟩
    exact hne detail hd (Option.some.inj (hlast.symm.trans hl))
  cases deploy_outcome hx with
  | aborted detail ha =>
      by_cases hd : detail ∈ takenBack
      · obtain ⟨a, hart, hgone, hkept⟩ := ha.taken hd
        by_cases ht : t = a.gitSha
        · refine iff_of_true ?_ ⟨⟨detail, hd, ha.last⟩, a, hart, hcur.trans (congrArg some ht)⟩
          rw [← Bool.not_eq_true, exists_iff]
          rintro ⟨t', hin', hcur'⟩
          obtain rfl : t = t' := Option.some.inj (hcur.symm.trans (ha.current.symm.trans hcur'))
          exact hgone (ht ▸ hin')
        · have hyes : h.exists = true := exists_iff.mpr ⟨t, hkept t hin ht, ha.current.trans hcur⟩
          refine iff_of_false (fun hno => Bool.false_ne_true (hno.symm.trans hyes)) ?_
          rintro ⟨-, a', hart', hcur'⟩
          obtain rfl : a = a' := Option.some.inj (hart.symm.trans hart')
          exact ht (Option.some.inj (hcur.symm.trans hcur'))
      · refine hstays (exists_iff.mpr ⟨t, ha.kept hd t hin, ha.current.trans hcur⟩) ha.last
          fun detail' hd' he => ?_
        obtain rfl : detail = detail' := Entry.abort.inj he
        exact hd hd'
  | accepted a _ _ hlast hs =>
      exact hstays (exists_iff.mpr ⟨_, hs.candidate, hs.current⟩) hlast fun _ _ => nofun
  | stranded a _ _ _ hlast hs =>
      exact hstays (exists_iff.mpr ⟨_, hs.candidate, hs.current⟩) hlast fun _ _ => nofun
  | rolledBack a p _ _ hp hlast hs =>
      have hmem : p ∈ h.releases := by
        obtain ⟨t', hin', hcur'⟩ := exists_iff.mp hp.1
        obtain rfl : p = t' := Option.some.inj (hp.2.1.symm.trans hcur')
        exact hs.releases p hin'
      have hyes : h.exists = true := exists_iff.mpr ⟨p, hmem, hs.current⟩
      rcases hlast with hlast | hlast
      · exact hstays hyes hlast fun _ _ => nofun
      · exact hstays hyes hlast fun _ _ => nofun

theorem dangles_iff_sameArtifact :
    (played false true (deploy id (some sameArtifact) false false) oneRelease).2.1.exists = false ↔
      (∃ detail ∈ takenBack,
        (played false true (deploy id (some sameArtifact) false false) oneRelease).2.1.ledger.getLast? = some (.abort detail)) ∧
        ∃ a, some sameArtifact = some a ∧ oneRelease.current = some a.gitSha :=
  dangles_iff (played_exec (n := 1) (by decide +kernel)) (by decide +kernel)

/-- The release that is current is not taken back. -/
def careful (h : Host) (e : Eff) (a : Ans e) (h' : Host) : Prop :=
  steady h e a h' ∧ ∀ s, e = .remove s → h.current ≠ some s

/-- `current` links to nothing, or to a release that is there. -/
def Resolves (h : Host) : Prop := ∀ t, h.current = some t → t ∈ h.releases

theorem Resolves.next {h h' : Host} {e : Eff} {a : Ans e} (hr : Resolves h) (hs : safe h e)
    (hm : careful h e a h') : Resolves h' := by
  obtain ⟨⟨hm, hw⟩, hc⟩ := hm
  have hcalm : calm e → Resolves h' := by
    intro he t ht
    have hg := calm_move he hm
    exact hg.releases t (hr t (hg.current ▸ ht))
  cases e with
  | swap =>
      obtain rfl := hw
      obtain ⟨t, hn, rfl⟩ := hm
      obtain ⟨t', hin, hn'⟩ := hs
      intro u hu
      obtain rfl : t = u := Option.some.inj hu
      obtain rfl : t = t' := Option.some.inj (hn.symm.trans hn')
      exact hin
  | remove s =>
      obtain rfl := hw
      obtain rfl := hm
      intro t ht
      refine List.mem_filter.mpr ⟨hr t ht, bne_iff_ne.mpr ?_⟩
      rintro rfl
      exact hc _ rfl ht
  | link s =>
      obtain rfl := hw
      obtain rfl := hm
      exact hr
  | installUnits s =>
      obtain rfl := hw
      obtain rfl := hm
      exact hr
  | note e =>
      obtain rfl := hm
      exact hr
  | systemctl o s =>
      cases s with
      | recovery =>
          obtain rfl := hm
          exact hr
      | web | collector | emporia | litellm => exact hcalm trivial
  | currentExists | readlink | condition | healthText | unpack | isActive | daemonReload
  | reloadNginx | sleep | isDir | hasVenv
  | work | needsPrisma | prismaGenerate | check | hasMigrations | migrate | newest | probe
  | manifest => exact hcalm trivial

theorem Resolves.exec {p q : Script α} {Q : Host → α → Prop} {X : Host → Nat → Prop} {h h' : Host}
    {tr : Trace Eff Ans}
    (hr : Resolves h) (hsat : Goes p Q X h) (hx : Exec careful h p tr h' q) : Resolves h' := by
  induction hx with
  | refl => exact hr
  | call hs _ ih => exact ih (hr.next hsat.1 hs) (hsat.2 _ _ hs.1)

/-- In any run of deploys and rollbacks, each of which may be cut off anywhere and
any check of which may fail, `current` links to a release that is there, as long
as no deploy takes back the release that is current. -/
theorem current_resolves {sha256 : String → String} {h₀ h : Host}
    {hist : List (Script Unit × Trace Eff Ans)}
    (hr : Runs careful h₀ hist h) (hs : ∀ r ∈ hist, IsScript sha256 r.1) (hi : Resolves h₀) :
    Resolves h := by
  induction hr with
  | nil => exact hi
  | @cons s t u p q tr rest hx _ ih =>
      refine ih (fun r hm => hs r (List.mem_cons_of_mem _ hm)) ?_
      cases hs _ List.mem_cons_self with
      | deploy artifact staging skip =>
          exact hi.exec (goes_deploy sha256 artifact staging skip s) hx
      | rollback target => exact hi.exec (goes_rollback target s) hx

def answerCareful (h : Host) : (e : Eff) → Option (Ans e × Host)
  | .remove _ => none
  | e => answer true true h e

theorem answerCareful_careful (h : Host) (e : Eff) (a : Ans e) (h' : Host)
    (he : answerCareful h e = some (a, h')) : careful h e a h' := by
  cases e with
  | remove s => cases he
  | currentExists | readlink | condition | healthText | unpack | isActive | systemctl | daemonReload
  | reloadNginx | sleep | isDir
  | hasVenv | work | needsPrisma | prismaGenerate | installUnits | check | hasMigrations | migrate
  | link | swap | newest | probe
  | manifest | note => exact ⟨answer_steady true true h _ a h' he, nofun⟩

/-- A deploy that is cut off between the two commands that set the link, and a rollback. -/
def cutOff : Trace Eff Ans × Host × Script Unit :=
  play answerCareful 37 oneRelease (deploy id (some nextArtifact) false false)

def afterwards : Trace Eff Ans × Host × Script Unit :=
  play answerCareful 200 cutOff.2.1 (rollback "")

theorem current_resolves_cutOff : Resolves afterwards.2.1 := by
  have hcut :=
    play_exec id answerCareful answerCareful_careful 37 oneRelease
      (deploy id (some nextArtifact) false false)
  have hback := play_exec id answerCareful answerCareful_careful 200 cutOff.2.1 (rollback "")
  refine current_resolves (.cons hcut (.cons hback (.nil _))) (fun r hr => (?_ : IsScript id r.1))
    ?_
  · rcases List.mem_cons.mp hr with rfl | hr
    · exact .deploy (some nextArtifact) false false
    · rcases List.mem_cons.mp hr with rfl | hr
      · exact .rollback ""
      · cases hr
  · intro t ht
    cases ht
    exact List.mem_cons_self

end ServerManager.Releases
