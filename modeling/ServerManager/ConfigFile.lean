import ServerManager.Interleaving
import ServerManager.LitellmSync

namespace ServerManager.ConfigFile

open Interaction Interleaving LitellmSync
open Effects (PyExc)

structure LitellmSettings where
  dropParams : Bool
  numRetries : Nat
  requestTimeout : Nat
  callbacks : List String

structure NewCfg (G : Type) where
  modelList : List LitellmEntry
  litellmSettings : LitellmSettings
  generalSettings : G

def newCfg {G : Type} (models : List LitellmEntry) (general : G) : NewCfg G :=
  { modelList := models
    litellmSettings :=
      ⟨true, 1, 600, ["spend_guard.spend_guard_instance", "routing_logger.routing_logger_instance"]⟩
    generalSettings := general }

def header : String :=
  "# AUTO-GENERATED by v0.11 litellm_sync.py — DO NOT hand-edit.\n# Source of truth: llmmanager DB (hosts + model_registry).\n" ++
    "# Regenerate: python3 /opt/llm-manager/app/litellm_sync.py\n"

/-- The YAML library. `generalSettings` is the `get` of what has been loaded. -/
structure Yaml (V G : Type) where
  safeLoad : String → Except PyExc V
  safeDump : NewCfg G → String
  generalSettings : V → Except PyExc G

variable {V G : Type}

def Yaml.render (y : Yaml V G) (models : List LitellmEntry) (general : G) : String :=
  header ++ y.safeDump (newCfg models general)

/-- What `main` keeps of a configuration. -/
def Yaml.general (y : Yaml V G) (text : String) : Except PyExc G :=
  y.safeLoad text >>= y.generalSettings

/-- What a file holds: all that was to be written, or a part of it. -/
inductive Content
  | whole (text : String)
  | cut
  deriving DecidableEq

/-- `second` is `int(os.path.getmtime(..))`. -/
structure File where
  content : Content
  second : Nat
  mode : Nat
  deriving DecidableEq

/-- The calls of a sync; `svc` is one of `build_model_list` or of the connection
that it is given. A backup is known by the second in its name. -/
inductive Eff
  | readConfig
  | svc (e : Fleet.Eff)
  | print (text : String)
  | getmtime
  | backedUp (second : Nat)
  | openConfig
  | openBackup (second : Nat)
  | writeBackup (second : Nat) (content : Content)
  | mkstemp
  | writeTmp (tmp : Nat) (text : String)
  | chmod (tmp mode : Nat)
  | replace (tmp : Nat)

@[reducible] def Ans : Eff → Type
  | .readConfig => Except PyExc String
  | .svc e => Fleet.Ans e
  | .print _ => Unit
  | .getmtime => Except PyExc Nat
  | .backedUp _ => Bool
  | .openConfig => Except PyExc Content
  | .openBackup _ => Except PyExc Unit
  | .writeBackup .. => Except PyExc Unit
  | .mkstemp => Except PyExc Nat
  | .writeTmp .. => Except PyExc Unit
  | .chmod .. => Except PyExc Unit
  | .replace _ => Except PyExc Unit

abbrev Sync := Prog Eff Ans PyExc

def orRaise {α : Type} : Except PyExc α → Sync α
  | .ok a => pure a
  | .error x => throw x

def lift {α : Type} : Fleet.Svc α → Sync α
  | .ret a => .ret a
  | .raise x => .raise x
  | .call e k => .call (.svc e) (fun a => lift (k a))

def loadCurrent (y : Yaml V G) : Sync V := do
  let text ← .call .readConfig orRaise
  orRaise (y.safeLoad text)

/-- `shutil.copy2`. -/
def copy2 (second : Nat) : Sync Unit := do
  let content ← .call .openConfig orRaise
  .call (.openBackup second) orRaise
  .call (.writeBackup second content) orRaise

/-- The configuration is copied unless its second has a backup. -/
def backup : Sync Unit := do
  let second ← .call .getmtime orRaise
  let done ← .call (.backedUp second) pure
  if done then pure () else copy2 second

def replaceConfig (rendered : String) : Sync Unit := do
  let tmp ← .call .mkstemp orRaise
  .call (.writeTmp tmp rendered) orRaise
  .call (.chmod tmp 0o640) orRaise
  .call (.replace tmp) orRaise

def put (apply : Bool) (rendered : String) : Sync Nat := do
  if apply then
    backup
    replaceConfig rendered
    pure 0
  else
    .call (.print rendered) pure
    pure 0

def main (y : Yaml V G) (apply : Bool) : Sync Nat := do
  let curCfg ← loadCurrent y
  match ← lift configModels with
  | none => pure 1
  | some models =>
      let general ← orRaise (y.generalSettings curCfg)
      let _ ← orRaise (y.safeLoad (y.render models general))
      put apply (y.render models general)

/-- `past` has the versions that have been replaced; each file that is not yet in
its place has the process that has made it. -/
structure World where
  config : File
  backups : Nat → Option Content
  tmps : Nat → Option (Nat × File)
  past : List File

def World.setTmp (w : World) (tmp : Nat) (f : Option (Nat × File)) : World :=
  { w with tmps := Function.update w.tmps tmp f }

/-- What a call of process `i` does, but for what becomes of the backups. -/
def move (i : Nat) (w : World) : (e : Eff) → Ans e → World → Prop
  | .readConfig, r, w' =>
      w' = w ∧ ∀ text, r = .ok text → ∀ t, w.config.content = .whole t → text = t
  | .getmtime, r, w' => w' = w ∧ ∀ second, r = .ok second → second = w.config.second
  | .backedUp second, r, w' => w' = w ∧ r = (w.backups second).isSome
  | .openConfig, r, w' => w' = w ∧ ∀ content, r = .ok content → content = w.config.content
  | .openBackup _, _, w' | .writeBackup .., _, w' => ∃ backups, w' = { w with backups := backups }
  | .mkstemp, .ok tmp, w' =>
      w.tmps tmp = none ∧ ∃ second, w' = w.setTmp tmp (some (i, ⟨.whole "", second, 0o600⟩))
  | .writeTmp tmp text, r, w' => ∃ o f second, w.tmps tmp = some (o, f) ∧
      w' = w.setTmp tmp (some (o, ⟨if r.isOk then .whole text else .cut, second, f.mode⟩))
  | .chmod tmp mode, .ok _, w' =>
      ∃ o f, w.tmps tmp = some (o, f) ∧ w' = w.setTmp tmp (some (o, { f with mode := mode }))
  | .replace tmp, .ok _, w' => ∃ o f, w.tmps tmp = some (o, f) ∧
      w' = { (w.setTmp tmp none) with config := f, past := w.past ++ [w.config] }
  | _, _, w' => w' = w

/-- What becomes of the backups while no other sync is running. -/
def saves (w : World) : (e : Eff) → Ans e → World → Prop
  | .openBackup second, .ok _, w' => w'.backups = Function.update w.backups second (some .cut)
  | .writeBackup second content, r, w' =>
      w'.backups = Function.update w.backups second (some (if r.isOk then content else .cut))
  | _, _, w' => w'.backups = w.backups

def alone (w : World) (e : Eff) (a : Ans e) (w' : World) : Prop := move 0 w e a w' ∧ saves w e a w'

def masterKey : String := "os.environ/LITELLM_MASTER_KEY"

/-- `default_flow_style=False`, of plain scalars. -/
def blockEntry (e : LitellmEntry) : String :=
  "- model_name: " ++ e.modelName ++ "\n  litellm_params:\n    model: " ++ e.model ++ "\n" ++
    (e.apiBase.elim "" (fun base => "    api_base: " ++ base ++ "\n")) ++ "    api_key: " ++
    e.apiKey ++ "\n" ++
    (e.rpm.elim "" (fun rpm => "    rpm: " ++ toString rpm ++ "\n"))

def blockStyle (cfg : NewCfg String) : String :=
  "model_list:\n" ++ String.join (cfg.modelList.map blockEntry) ++
    "litellm_settings:\n  drop_params: true\n  num_retries: " ++
    toString cfg.litellmSettings.numRetries ++ "\n  request_timeout: " ++
      toString cfg.litellmSettings.requestTimeout ++
    "\n  callbacks:\n" ++ String.join (cfg.litellmSettings.callbacks.map
      (fun c => "  - " ++ c ++ "\n")) ++
    "general_settings:\n  master_key: " ++ cfg.generalSettings ++ "\n"

/-- All texts that this library is given have the same general settings. -/
def blockYaml : Yaml String String := ⟨fun _ => .ok masterKey, blockStyle, .ok⟩

def byHand : String :=
  "model_list: []\ngeneral_settings:\n  master_key: os.environ/LITELLM_MASTER_KEY\n"

def database : (e : Fleet.Eff) → Option (Fleet.Ans e)
  | .connect => some true
  | .sql .localBackends => some (.ok [("qwen3-32b", "10.0.20.168", some "vllm")])
  | .sql .fallbackSetting => some (.ok (some "false"))
  | .sql .aliasRows => some (.ok [])
  | .sql .targetBackends => some (.ok [("qwen3-32b", "10.0.20.168")])
  | .close => some ()
  | _ => none

def World.first : World := ⟨⟨.whole byHand, 10, 0o640⟩, fun _ => none, fun _ => none, []⟩

def answer (i : Nat) (w : World) : (e : Eff) → Option (Ans e × World)
  | .readConfig => match w.config.content with
      | .whole text => some (.ok text, w)
      | .cut => none
  | .svc e => (database e).map (·, w)
  | .print _ => some ((), w)
  | .getmtime => some (.ok w.config.second, w)
  | .backedUp second => some ((w.backups second).isSome, w)
  | .openConfig => some (.ok w.config.content, w)
  | .openBackup second =>
      some (.ok (), { w with backups := Function.update w.backups second (some .cut) })
  | .writeBackup second content =>
      some (.ok (), { w with backups := Function.update w.backups second (some content) })
  | .mkstemp =>
      if w.tmps i = none then some (.ok i, w.setTmp i
        (some (i, ⟨.whole "", 100 + w.past.length, 0o600⟩))) else none
  | .writeTmp tmp text =>
      (w.tmps tmp).map (fun p => (.ok (), w.setTmp tmp
        (some (p.1, ⟨.whole text, p.2.second, p.2.mode⟩))))
  | .chmod tmp mode =>
      (w.tmps tmp).map (fun p => (.ok (), w.setTmp tmp (some (p.1, { p.2 with mode := mode }))))
  | .replace tmp =>
      (w.tmps tmp).map (fun p => (.ok (), { (w.setTmp tmp
        none) with config := p.2, past := w.past ++ [w.config] }))

theorem answer_move (i : Nat) (w : World) (e : Eff) (a : Ans e) (w' : World)
    (h : answer i w e = some (a, w')) :
    move i w e a w' ∧ saves w e a w' := by
  cases e with
  | readConfig =>
      simp only [answer] at h
      split at h
      next text ht =>
          cases h
          refine ⟨⟨rfl, ?_⟩, rfl⟩
          intro text' he t ht'
          obtain rfl := Except.ok.inj he
          exact Content.whole.inj (ht.symm.trans ht')
      · cases h
  | svc e =>
      obtain ⟨r, -, he⟩ := Option.map_eq_some_iff.mp h
      cases he
      exact ⟨rfl, rfl⟩
  | print =>
      cases h
      exact ⟨rfl, rfl⟩
  | getmtime | openConfig =>
      cases h
      exact ⟨⟨rfl, fun _ he => (Except.ok.inj he).symm⟩, rfl⟩
  | backedUp =>
      cases h
      exact ⟨⟨rfl, rfl⟩, rfl⟩
  | openBackup | writeBackup =>
      cases h
      exact ⟨⟨_, rfl⟩, rfl⟩
  | mkstemp =>
      simp only [answer] at h
      split at h
      next hfree =>
          cases h
          exact ⟨⟨hfree, _, rfl⟩, rfl⟩
      · cases h
  | writeTmp =>
      obtain ⟨p, hp, he⟩ := Option.map_eq_some_iff.mp h
      cases he
      exact ⟨⟨_, _, _, hp, rfl⟩, rfl⟩
  | chmod | replace =>
      obtain ⟨p, hp, he⟩ := Option.map_eq_some_iff.mp h
      cases he
      exact ⟨⟨_, _, hp, rfl⟩, rfl⟩

/-- The process has been given these models by the database. -/
def Built (tr : Trace Eff Ans) (models : List LitellmEntry) : Prop :=
  ∃ before seg after, tr = before ++ seg ++ after ∧
    Exec anything () (lift configModels) seg () (.ret (some models))

theorem Built.append {tr : Trace Eff Ans} {models : List LitellmEntry} (h : Built tr models)
    (later : Trace Eff Ans) :
    Built (tr ++ later) models := by
  obtain ⟨before, seg, after, rfl, hx⟩ := h
  exact ⟨before, seg, after ++ later, (List.append_assoc _ _ _), hx⟩

abbrev Own := Nat → Option File

def own (i : Nat) (w : World) : Own :=
  fun tmp => (w.tmps tmp).bind (fun p => if p.1 = i then some p.2 else none)

section Beside

variable (y : Yaml V G) (first : String)

/-- How the files of a process move; what it reads has the general settings that
the first text has. -/
def moveOwn (l : Own) : (e : Eff) → Ans e → Own → Prop
  | .readConfig, r, l' =>
      l' = l ∧ ∀ text, r = .ok text → ∀ g, y.general text = .ok g → y.general first = .ok g
  | .mkstemp, .ok tmp, l' => ∃ f, l' = Function.update l tmp (some f)
  | .writeTmp tmp text, r, l' => ∃ f second, l tmp = some f ∧
      l' = Function.update l tmp (some ⟨if r.isOk then .whole text else .cut, second, f.mode⟩)
  | .chmod tmp mode, .ok _, l' =>
      ∃ f, l tmp = some f ∧ l' = Function.update l tmp (some { f with mode := mode })
  | .replace tmp, .ok _, l' => l' = Function.update l tmp none
  | _, _, l' => l' = l

/-- The version that a sync puts in place. -/
def Rendered (tr : Trace Eff Ans) (f : File) : Prop :=
  ∃ models g, Built tr models ∧ y.general first = .ok g ∧ f.content = .whole (y.render models g) ∧
    f.mode = 0o640

def promise (s : Own × Trace Eff Ans) : Eff → Prop
  | .writeTmp tmp _ | .chmod tmp _ => ∃ f, s.1 tmp = some f
  | .replace tmp => ∃ f, s.1 tmp = some f ∧ Rendered y first s.2 f
  | _ => True

theorem sat_orRaise {S α : Type} {step : S → (e : Eff) → Ans e → S → Prop} {G : S → Eff → Prop}
    {Q : S → α → Prop}
    {r : Except PyExc α} {s : S} (h : ∀ a, r = .ok a → Q s a) :
    Sat step G Q (fun _ _ => True) (orRaise r) s := by
  cases r with
  | ok a => exact h a rfl
  | error x => trivial

/-- The calls of `configModels` are all on the database. -/
theorem only_lift {α : Type} (p : Fleet.Svc α) : Only (fun e => ∃ e', e = .svc e') (lift p) := by
  induction p with
  | ret a => exact only_ret a
  | raise x => exact only_raise x
  | call e k ih => exact only_call ⟨e, rfl⟩ ih

variable {y : Yaml V G} {first : String} {l : Own} {tr : Trace Eff Ans}

/-- `build_model_list` leaves the files alone, and its calls are now in the trace. -/
theorem sat_configModels : Sat (traced (moveOwn y first)) (promise y first)
    (fun s models => s.1 = l ∧ ∀ ms, models = some ms → Built s.2 ms) (fun _ _ => True)
    (lift configModels) (l, tr) := by
  have hseg := (sat_segment (lift configModels) tr).traced (T := moveOwn y first) l
  have hkeep : Sat (traced (moveOwn y first)) (fun s e => (∃ e', e = .svc e') ∧ s.1 = l)
      (fun s _ => s.1 = l) (fun s _ => s.1 = l)
      (lift configModels) (l, tr) := by
    refine (only_lift configModels).keeps (I := fun s : Own × Trace Eff Ans => s.1 = l) ?_ rfl
    rintro s _ a s' ⟨e, rfl⟩ hs ⟨hm, -⟩
    exact hm.trans hs
  refine ((hseg.and hkeep).mono ?_ fun _ _ _ => trivial).weaken ?_
  · rintro s models ⟨⟨seg, hs, hx⟩, hl⟩
    refine ⟨hl, ?_⟩
    rintro ms rfl
    exact ⟨tr, seg, [], by rw [hs, List.append_nil], hx⟩
  · rintro s _ ⟨-, ⟨e, rfl⟩, -⟩
    trivial

def saving : Eff → Prop
  | .getmtime | .backedUp _ | .openConfig | .openBackup _ | .writeBackup .. => True
  | _ => False

theorem only_orRaise {φ : Eff → Prop} {α : Type} (r : Except PyExc α) : Only φ (orRaise r) := by
  cases r with
  | ok a => exact only_pure a
  | error x => exact only_throw x

theorem only_backup : Only saving backup := by
  refine Only.bind (only_call trivial fun r => only_orRaise r) fun second => ?_
  refine Only.bind (only_call trivial fun done => only_pure done) fun done =>
    Only.ite (only_pure ()) ?_
  refine Only.bind (only_call trivial fun r => only_orRaise r) fun content => ?_
  refine Only.bind (only_call trivial fun r => only_orRaise r) fun _ => ?_
  exact only_call trivial fun r => only_orRaise r

theorem sat_backup : Sat (traced (moveOwn y first)) (promise y first)
    (fun s _ => s.1 = l ∧ ∃ later, s.2 = tr ++ later)
    (fun _ _ => True) backup (l, tr) := by
  have hkeep : Sat (traced (moveOwn y first))
      (fun s e => saving e ∧ s.1 = l ∧ ∃ later, s.2 = tr ++ later)
      (fun s _ => s.1 = l ∧ ∃ later, s.2 = tr ++ later)
        (fun s _ => s.1 = l ∧ ∃ later, s.2 = tr ++ later) backup (l, tr) := by
    refine only_backup.keeps (I := fun s : Own × Trace Eff Ans => s.1 = l ∧ ∃ later,
      s.2 = tr ++ later) ?_ ⟨rfl, [], (List.append_nil _).symm⟩
    rintro s e a s' he ⟨hs, later, htr⟩ ⟨hm, htr'⟩
    refine ⟨?_, later ++ [⟨e, a⟩], by rw [htr', htr, List.append_assoc]⟩
    cases e with
    | getmtime | backedUp | openConfig | openBackup | writeBackup => exact hm.trans hs
    | readConfig | svc | print | mkstemp | writeTmp | chmod | replace => exact he.elim
  refine (hkeep.mono (fun _ _ h => h) fun _ _ _ => trivial).weaken ?_
  rintro s e ⟨he, -⟩
  cases e with
  | getmtime | backedUp | openConfig | openBackup | writeBackup => trivial
  | readConfig | svc | print | mkstemp | writeTmp | chmod | replace => exact he.elim

theorem sat_replaceConfig {models : List LitellmEntry} {g : G} (hb : Built tr models)
    (hg : y.general first = .ok g) :
    Sat (traced (moveOwn y first)) (promise y first) (fun _ _ => True) (fun _ _ => True)
      (replaceConfig (y.render models g)) (l, tr) := by
  refine Sat.seq (Q := fun s tmp => (∃ f, s.1 tmp = some f) ∧ Built s.2 models)
    ⟨trivial, fun r s hs => sat_orRaise fun tmp hr => ?_⟩ ?_
  · subst hr
    obtain ⟨⟨f, hf⟩, htr⟩ := hs
    exact ⟨⟨f, by rw [hf, Function.update_self]⟩, htr ▸ hb.append _⟩
  rintro ⟨l, tr⟩ tmp ⟨hown, hb⟩
  refine Sat.seq (Q := fun s _ => (∃ f, s.1 tmp = some f ∧ f.content = .whole (y.render models g)) ∧
    Built s.2 models)
    ⟨hown, fun r s hs => sat_orRaise fun _ hr => ?_⟩ ?_
  · subst hr
    obtain ⟨⟨f, second, -, hf⟩, htr⟩ := hs
    exact ⟨⟨_, by rw [hf, Function.update_self], rfl⟩, htr ▸ hb.append _⟩
  rintro ⟨l, tr⟩ _ ⟨⟨f, hf, hc⟩, hb⟩
  refine Sat.seq (Q := fun s _ => ∃ f, s.1 tmp = some f ∧ Rendered y first s.2 f)
    ⟨⟨f, hf⟩, fun r s hs => sat_orRaise fun _ hr => ?_⟩ ?_
  · subst hr
    obtain ⟨⟨f', hf', hs⟩, htr⟩ := hs
    have he : f' = f := Option.some.inj (hf'.symm.trans hf)
    refine ⟨_, by rw [hs, Function.update_self], models, g, htr ▸ hb.append _, hg, ?_, rfl⟩
    rw [he]
    exact hc
  rintro s _ hput
  exact ⟨hput, fun r s' _ => sat_orRaise fun _ _ => trivial⟩

theorem sat_main (apply : Bool) : Sat (traced (moveOwn y first)) (promise y first) (fun _ _ => True)
    (fun _ _ => True)
    (main y apply) (l, tr) := by
  have hload : Sat (traced (moveOwn y first)) (promise y first)
      (fun _ curCfg => ∀ g, y.generalSettings curCfg = .ok g → y.general first = .ok g)
        (fun _ _ => True) (loadCurrent y) (l, tr) := by
    refine Sat.seq (Q := fun _ text => ∀ g, y.general text = .ok g → y.general first = .ok g)
      ⟨trivial, fun r s hs => sat_orRaise fun text hr => hs.1.2 text hr⟩ ?_
    refine fun s text htext => sat_orRaise fun curCfg hc g hg => htext g ?_
    rw [Yaml.general, hc]
    exact hg
  refine hload.seq ?_
  rintro ⟨l, tr⟩ curCfg hcur
  refine sat_configModels.seq ?_
  rintro ⟨l', tr⟩ models ⟨rfl, hb⟩
  cases models with
  | none => trivial
  | some models =>
      refine Sat.seq (sat_orRaise (Q := fun s g => y.general first = .ok g ∧ s = (l', tr))
        fun g hg => ⟨hcur g hg, rfl⟩) ?_
      rintro _ g ⟨hg, rfl⟩
      refine Sat.seq (sat_orRaise (Q := fun s _ => s = (l', tr)) fun _ _ => rfl) ?_
      rintro _ _ rfl
      cases apply with
      | false => exact ⟨trivial, fun _ _ _ => trivial⟩
      | true =>
          refine sat_backup.seq ?_
          rintro ⟨l', tr⟩ _ ⟨rfl, later, rfl⟩
          exact (sat_replaceConfig ((hb models rfl).append later) hg).seq fun _ _ _ => trivial

end Beside

section Interleaved

variable {y : Yaml V G} {first : String}

theorem tmps_of_own {w : World} {i tmp : Nat} {f : File} (h : own i w tmp = some f) :
    w.tmps tmp = some (i, f) := by
  obtain ⟨⟨o, f'⟩, ht, hf⟩ := Option.bind_eq_some_iff.mp h
  split at hf
  next ho =>
      obtain rfl : o = i := ho
      obtain rfl : f' = f := Option.some.inj hf
      exact ht
  · cases hf

theorem setTmp_self (w : World) (tmp : Nat) (f : Option (Nat × File)) :
    (w.setTmp tmp f).tmps tmp = f := Function.update_self ..

theorem setTmp_other (w : World) {t tmp : Nat} (ht : t ≠ tmp) (f : Option (Nat × File)) :
    (w.setTmp tmp f).tmps t = w.tmps t :=
  Function.update_of_ne ht ..

theorem own_set (w : World) (i tmp : Nat) (f : Option File) :
    own i (w.setTmp tmp (f.map (i, ·))) = Function.update (own i w) tmp f := by
  funext t
  by_cases ht : t = tmp
  · subst ht
    rw [Function.update_self, own, setTmp_self]
    cases f with
    | none => rfl
    | some f => exact if_pos rfl
  · rw [Function.update_of_ne ht, own, setTmp_other w ht]
    rfl

theorem own_set_other {w : World} {i j tmp : Nat} (hj : j ≠ i)
    (h : ∀ p, w.tmps tmp = some p → p.1 = i) (f : Option File) :
    own j (w.setTmp tmp (f.map (i, ·))) = own j w := by
  funext t
  by_cases ht : t = tmp
  · subst ht
    have hw : own j w t = none := by
      unfold own
      cases hp : w.tmps t with
      | none => rfl
      | some p => exact if_neg fun he => hj (he.symm.trans (h p hp))
    rw [hw, own, setTmp_self]
    cases f with
    | none => rfl
    | some f => exact if_neg (Ne.symm hj)
  · rw [own, setTmp_other w ht]
    rfl

/-- The configuration is the first one, or one that a sync has rendered. -/
def Sound (y : Yaml V G) (first : String) (w₀ : World) (c : Conf World Eff Ans PyExc Nat) : Prop :=
  c.world.config = w₀.config ∨ ∃ i, Rendered y first (c.procs i).trace c.world.config

theorem Rendered.append {tr : Trace Eff Ans} {f : File} (h : Rendered y first tr f)
    (later : Trace Eff Ans) :
    Rendered y first (tr ++ later) f := by
  obtain ⟨models, g, hb, hg, hf⟩ := h
  exact ⟨models, g, hb.append later, hg, hf⟩

theorem Sound.trace {w₀ : World} {c d : Conf World Eff Ans PyExc Nat} {i : Nat} {ev : Event Eff Ans}
    (h : Sound y first w₀ c)
    (hs : Step move c i ev d) (hw : d.world.config = c.world.config) : Sound y first w₀ d := by
  rcases h with h | ⟨j, h⟩
  · exact .inl (hw.trans h)
  · refine .inr ⟨j, ?_⟩
    rw [hw]
    by_cases hj : j = i
    · subst hj
      rw [hs.trace_self]
      exact h.append _
    · rw [hs.proc_other hj]
      exact h

theorem Sound.general {w₀ : World} {c : Conf World Eff Ans PyExc Nat} (h : Sound y first w₀ c)
    (hfirst : w₀.config.content = .whole first)
    (hround : ∀ g, y.general first = .ok g → ∀ models, y.general (y.render models g) = .ok g) :
    ∃ text, c.world.config.content = .whole text ∧ ∀ g, y.general text = .ok g →
      y.general first = .ok g := by
  rcases h with h | ⟨i, models, g, -, hg, hf, -⟩
  · exact ⟨first, h ▸ hfirst, fun _ hg => hg⟩
  · refine ⟨_, hf, fun g' hg' => ?_⟩
    rw [hround g hg models] at hg'
    exact Except.ok.inj hg' ▸ hg

theorem mine_of_own {w : World} {i tmp : Nat} {f : File} (h : own i w tmp = some f) (p : Nat × File)
    (hp : w.tmps tmp = some p) :
    p.1 = i := by
  rw [tmps_of_own h] at hp
  exact (Option.some.inj hp) ▸ rfl

theorem Sound.stay {w₀ : World} {c d : Conf World Eff Ans PyExc Nat} {i : Nat} {ev : Event Eff Ans}
    (h : Sound y first w₀ c)
    (hs : Step move c i ev d) (w : World) (hc : w.config = c.world.config)
    (ht : w.tmps = c.world.tmps) (hd : d.world = w) :
    Sound y first w₀ d ∧ own i d.world = own i c.world ∧ ∀ j, j ≠ i →
      own j d.world = own j c.world := by
  subst hd
  have hown : ∀ j, own j d.world = own j c.world := fun j => by
    unfold own
    rw [ht]
  exact ⟨h.trace hs hc, hown i, fun j _ => hown j⟩

theorem Sound.update {w₀ : World} {c d : Conf World Eff Ans PyExc Nat} {i : Nat}
    {ev : Event Eff Ans} (h : Sound y first w₀ c)
    (hs : Step move c i ev d) (tmp : Nat) (f : Option File)
    (hmine : ∀ p, c.world.tmps tmp = some p → p.1 = i)
    (hd : d.world = c.world.setTmp tmp (f.map (i, ·))) :
    Sound y first w₀ d ∧ own i d.world = Function.update (own i c.world) tmp f ∧ ∀ j, j ≠ i →
      own j d.world = own j c.world := by
  refine ⟨h.trace hs (by rw [hd]; rfl), by rw [hd, own_set], fun j hj => ?_⟩
  rw [hd, own_set_other hj hmine]

theorem Sound.step {w₀ : World} {c d : Conf World Eff Ans PyExc Nat} {i : Nat} {e : Eff} {a : Ans e}
    (h : Sound y first w₀ c) (hfirst : w₀.config.content = .whole first)
    (hround : ∀ g, y.general first = .ok g → ∀ models, y.general (y.render models g) = .ok g)
    (hp : promise y first (own i c.world, (c.procs i).trace) e) (hs : Step move c i ⟨e, a⟩ d) :
    Sound y first w₀ d ∧ moveOwn y first (own i c.world) e a (own i d.world) ∧ ∀ j, j ≠ i →
      own j d.world = own j c.world := by
  have hw := hs.world
  cases e with
  | readConfig =>
      obtain ⟨hd, hr⟩ := hw
      obtain ⟨hsound, hown, hother⟩ := h.stay hs _ rfl rfl hd
      obtain ⟨text, ht, hg⟩ := h.general hfirst hround
      refine ⟨hsound, ⟨hown, fun text' ha g hg' => hg g ?_⟩, hother⟩
      rw [← hr text' ha text ht]
      exact hg'
  | getmtime | backedUp | openConfig => exact h.stay hs _ rfl rfl hw.1
  | svc | print => exact h.stay hs _ rfl rfl hw
  | openBackup | writeBackup =>
      obtain ⟨backups, hd⟩ := hw
      exact h.stay hs { c.world with backups := backups } rfl rfl hd
  | mkstemp =>
      cases a with
      | error x => exact h.stay hs _ rfl rfl hw
      | ok tmp =>
          obtain ⟨hfresh, second, hd⟩ := hw
          obtain ⟨hsound, hown, hother⟩ :=
            h.update hs tmp (some ⟨.whole "", second, 0o600⟩)
              (fun p hp => nomatch hfresh.symm.trans hp) hd
          exact ⟨hsound, ⟨_, hown⟩, hother⟩
  | writeTmp tmp text =>
      obtain ⟨f, hf⟩ := hp
      obtain ⟨o, f', second, ht, hd⟩ := hw
      obtain ⟨rfl, rfl⟩ := Prod.mk.inj (Option.some.inj (ht.symm.trans (tmps_of_own hf)))
      obtain ⟨hsound, hown, hother⟩ := h.update hs tmp (some _) (mine_of_own hf) hd
      exact ⟨hsound, ⟨f', second, hf, hown⟩, hother⟩
  | chmod tmp mode =>
      cases a with
      | error x => exact h.stay hs _ rfl rfl hw
      | ok u =>
          obtain ⟨f, hf⟩ := hp
          obtain ⟨o, f', ht, hd⟩ := hw
          obtain ⟨rfl, rfl⟩ := Prod.mk.inj (Option.some.inj (ht.symm.trans (tmps_of_own hf)))
          obtain ⟨hsound, hown, hother⟩ := h.update hs tmp (some _) (mine_of_own hf) hd
          exact ⟨hsound, ⟨f', hf, hown⟩, hother⟩
  | replace tmp =>
      cases a with
      | error x => exact h.stay hs _ rfl rfl hw
      | ok u =>
          obtain ⟨f, hf, hr⟩ := hp
          obtain ⟨o, f', ht, hd⟩ := hw
          obtain ⟨rfl, rfl⟩ := Prod.mk.inj (Option.some.inj (ht.symm.trans (tmps_of_own hf)))
          have hown : ∀ j, own j d.world = own j (c.world.setTmp tmp (Option.map (o, ·) none)) := by
            rw [hd]
            exact fun _ => rfl
          refine ⟨.inr ⟨o, ?_⟩, ?_, fun j hj => ?_⟩
          · rw [hs.trace_self, hd]
            exact hr.append _
          · rw [hown, own_set]
            rfl
          · rw [hown, own_set_other hj (mine_of_own hf)]

/-- However many syncs run beside each other, and wherever any of them is cut
off, the configuration is the first one or all of what some sync has rendered
from models that it was given, with the general settings of the first one. -/
theorem config_whole {w₀ : World} (hfirst : w₀.config.content = .whole first)
    (hround : ∀ g, y.general first = .ok g → ∀ models, y.general (y.render models g) = .ok g)
    {progs : Nat → Sync Nat}
    (hprogs : ∀ i, ∃ apply, progs i = main y apply) {c : Conf World Eff Ans PyExc Nat}
    (hr : Reach move (fun _ _ _ => True) (start w₀ progs) c) :
    c.world.config = w₀.config ∨ ∃ i, Rendered y first (c.procs i).trace c.world.config := by
  have hstart : Lawful own (moveOwn y first) (fun _ => promise y first) (Sound y first w₀)
      (start w₀ progs) := by
    refine ⟨.inl rfl, fun i => ?_⟩
    obtain ⟨apply, hi⟩ := hprogs i
    have hmain : Sat (traced (moveOwn y first)) (promise y first) (fun _ _ => True)
        (fun _ _ => True)
        (main y apply) (own i w₀, []) := sat_main apply
    rw [← hi] at hmain
    exact hmain
  exact (Lawful.reach (fun hc hp _ hs => hc.step hfirst hround hp hs) hstart hr).inv

end Interleaved

def sync : Proc Eff Ans PyExc Nat := ⟨main blockYaml true, []⟩

def twoSyncs : Board World Eff Ans PyExc Nat := ⟨World.first, [sync, sync]⟩

theorem twoSyncs_start : twoSyncs.conf id sync = start World.first
    (fun _ => main blockYaml true) := by
  refine congrArg (Conf.mk World.first) (funext fun i => ?_)
  match i with
  | 0 | 1 | _ + 2 => rfl

/-- One of them overtakes the other, which has already made the backup. -/
def overtaken : List Nat := List.replicate 14 0 ++ List.replicate 13 1 ++ [0, 0]

def bothDone : Board World Eff Ans PyExc Nat := twoSyncs.play answer overtaken

theorem config_whole_overtaken : bothDone.state.past.length = 2 ∧
    (bothDone.state.config = World.first.config ∨
      ∃ i, Rendered blockYaml byHand ((bothDone.conf id sync).procs i).trace bothDone.state.config) := by
  have hr : Reach move (fun _ _ _ => True) (twoSyncs.conf id sync) (bothDone.conf id sync) :=
    Board.follows_reach sync (fun i w e a w' h => (answer_move i w e a w' h).1)
      (fun _ _ _ _ => trivial)
      (by decide +kernel : twoSyncs.follows answer (fun _ _ => true) overtaken = true)
  rw [twoSyncs_start] at hr
  have hkey : ∀ text, blockYaml.general text = .ok masterKey := fun _ => rfl
  refine ⟨by decide +kernel, config_whole rfl (fun g hg models => ?_) (fun _ => ⟨true, rfl⟩) hr⟩
  exact (hkey _).trans ((hkey byHand).symm.trans hg)

/-- The first of the versions that were written in a second. -/
def firstOf (versions : List File) (second : Nat) : Option File :=
  versions.find? (fun v => v.second = second)

/-- Every version that was replaced has a backup under its second, and a backup
that is whole holds the first version of its second. -/
structure Kept (w : World) : Prop where
  backed : ∀ v ∈ w.past, (w.backups v.second).isSome = true
  holds : ∀ n b, w.backups n = some b → b = .cut ∨ ∃ u, firstOf (w.past ++ [w.config]) n = some u ∧
    b = u.content

def upright (w : World) : Eff → Prop
  | .openBackup n => n = w.config.second ∧ w.backups n = none
  | .writeBackup n content =>
      n = w.config.second ∧ content = w.config.content ∧ ∀ v ∈ w.past, v.second ≠ n
  | .replace _ => (w.backups w.config.second).isSome = true
  | _ => True

def plain : Eff → Prop
  | .openBackup _ | .writeBackup .. | .replace _ => False
  | _ => True

theorem alone_plain {w w' : World} {e : Eff} {a : Ans e} (he : plain e) (hm : alone w e a w') :
    w'.config = w.config ∧ w'.past = w.past ∧ w'.backups = w.backups := by
  obtain ⟨hm, hs⟩ := hm
  cases e with
  | openBackup | writeBackup | replace => exact he.elim
  | readConfig | getmtime | backedUp | openConfig =>
      rw [hm.1]
      exact ⟨rfl, rfl, rfl⟩
  | svc | print =>
      obtain rfl : w' = w := hm
      exact ⟨rfl, rfl, rfl⟩
  | mkstemp =>
      cases a with
      | error x =>
          obtain rfl : w' = w := hm
          exact ⟨rfl, rfl, rfl⟩
      | ok tmp =>
          obtain ⟨-, second, rfl⟩ := hm
          exact ⟨rfl, rfl, rfl⟩
  | writeTmp tmp text =>
      obtain ⟨o, f, second, -, rfl⟩ := hm
      exact ⟨rfl, rfl, rfl⟩
  | chmod tmp mode =>
      cases a with
      | error x =>
          obtain rfl : w' = w := hm
          exact ⟨rfl, rfl, rfl⟩
      | ok u =>
          obtain ⟨o, f, -, rfl⟩ := hm
          exact ⟨rfl, rfl, rfl⟩

theorem firstOf_append {past later : List File} {n : Nat} {u : File} (h : firstOf past n = some u) :
    firstOf (past ++ later) n = some u := by
  unfold firstOf at *
  rw [List.find?_append, h]
  rfl

theorem firstOf_last {past : List File} {f : File} (h : ∀ v ∈ past, v.second ≠ f.second) :
    firstOf (past ++ [f]) f.second = some f := by
  have hnone : past.find? (fun v => v.second = f.second) = none :=
    List.find?_eq_none.mpr fun v hv => by simpa using h v hv
  unfold firstOf
  rw [List.find?_append, hnone]
  simp

theorem Kept.store {w : World} (h : Kept w) {n : Nat} {b : Content}
    (hb : b = .cut ∨ ∃ u, firstOf (w.past ++ [w.config]) n = some u ∧ b = u.content) :
    Kept { w with backups := Function.update w.backups n (some b) } := by
  refine ⟨fun v hv => ?_, fun m b' hm => ?_⟩
  · have hv' : (Function.update w.backups n (some b) v.second).isSome = true := by
      rw [Function.update_apply]
      split
      · rfl
      · exact h.backed v hv
    exact hv'
  · have hm' : Function.update w.backups n (some b) m = some b' := hm
    rw [Function.update_apply] at hm'
    split at hm'
    next hn =>
        subst hn
        exact Option.some.inj hm' ▸ hb
    · exact h.holds m b' hm'

theorem Kept.next {w w' : World} {e : Eff} {a : Ans e} (h : Kept w) (hg : upright w e)
    (hm : alone w e a w') : Kept w' := by
  have hplain : plain e → Kept w' := by
    intro he
    obtain ⟨hc, hp, hb⟩ := alone_plain he hm
    refine ⟨?_, ?_⟩
    · rw [hp, hb]
      exact h.backed
    · rw [hp, hb, hc]
      exact h.holds
  cases e with
  | openBackup n =>
      obtain ⟨⟨backups, rfl⟩, hs⟩ := hm
      cases a with
      | error x =>
          obtain rfl : backups = w.backups := hs
          exact h
      | ok u =>
          obtain rfl : backups = Function.update w.backups n (some .cut) := hs
          exact h.store (.inl rfl)
  | writeBackup n content =>
      obtain ⟨rfl, rfl, hfirst⟩ := hg
      obtain ⟨⟨backups, rfl⟩, hs⟩ := hm
      obtain rfl : backups = Function.update w.backups w.config.second (some (if a.isOk then w.config.content else .cut)) := hs
      refine h.store ?_
      cases a with
      | error x => exact .inl rfl
      | ok u => exact .inr ⟨w.config, firstOf_last hfirst, rfl⟩
  | replace tmp =>
      cases a with
      | error x =>
          obtain rfl : w' = w := hm.1
          exact h
      | ok u =>
          obtain ⟨⟨o, f, -, rfl⟩, -⟩ := hm
          refine ⟨fun v hv => ?_, fun n b hb => ?_⟩
          · rcases List.mem_append.mp hv with hv | hv
            · exact h.backed v hv
            · obtain rfl := List.mem_singleton.mp hv
              exact hg
          · rcases h.holds n b hb with hcut | ⟨u, hu, hc⟩
            · exact .inl hcut
            · exact .inr ⟨u, firstOf_append hu, hc⟩
  | readConfig | svc | print | getmtime | backedUp | openConfig | mkstemp | writeTmp | chmod =>
      exact hplain trivial

def keeping (w : World) (e : Eff) (a : Ans e) (w' : World) : Prop :=
  alone w e a w' ∧ Kept w ∧ Kept w'

theorem sat_plain {α : Type} {p : Sync α} (h : Only plain p) (w : World) :
    Sat keeping upright (fun _ _ => True) (fun _ _ => True) p w := by
  have hkeep :=
    h.keeps (T := keeping) (I := fun _ => True) (fun _ _ _ _ _ _ _ => trivial) (s := w) trivial
  refine (hkeep.mono (fun _ _ _ => trivial) fun _ _ _ => trivial).weaken ?_
  rintro s e ⟨he, -⟩
  cases e with
  | openBackup | writeBackup | replace => exact he.elim
  | readConfig | svc | print | getmtime | backedUp | openConfig | mkstemp | writeTmp | chmod =>
      trivial

def Backed (w : World) : Prop := (w.backups w.config.second).isSome = true

/-- After `backup` the version that is about to be replaced has one. -/
theorem backup_upright (w : World) : Sat keeping upright (fun w' _ => Backed w')
    (fun _ _ => True) backup w := by
  refine Sat.seq (Q := fun s second => second = s.config.second)
    ⟨trivial, fun r s hs => sat_orRaise fun second hr => ?_⟩ ?_
  · obtain ⟨hw, hn⟩ := hs.1.1
    rw [hw]
    exact hn second hr
  rintro s _ rfl
  refine Sat.seq (Q := fun s' done => done = (s'.backups s'.config.second).isSome ∧ s' = s)
    ⟨trivial, fun r s' hs => ?_⟩ ?_
  · obtain ⟨hw, hr⟩ := hs.1.1
    exact ⟨hw ▸ hr, hw⟩
  rintro s done ⟨hdone, rfl⟩
  cases hd : done with
  | true => exact hdone.symm.trans hd
  | false =>
      have hnone : s.backups s.config.second = none := by
        rw [← Option.isNone_iff_eq_none, ← Option.isSome_eq_false_iff, ← hdone]
        exact hd
      refine Sat.seq (Q := fun s' content => content = s.config.content ∧ s' = s)
        ⟨trivial, fun r s' hs => sat_orRaise fun content hr => ⟨hs.1.1.2 content hr, hs.1.1.1⟩⟩ ?_
      rintro s _ ⟨rfl, rfl⟩
      refine Sat.seq (Q := fun s' _ => s'.config = s.config ∧ ∀ v ∈ s'.past,
        v.second ≠ s.config.second)
        ⟨⟨rfl, hnone⟩, fun r s' hs => sat_orRaise fun _ _ => ?_⟩ ?_
      · obtain ⟨⟨⟨backups, hw⟩, -⟩, hk, -⟩ := hs
        refine ⟨by rw [hw], ?_⟩
        rw [hw]
        intro v hv he
        have hb := hk.backed v hv
        rw [he, hnone] at hb
        cases hb
      rintro s' _ ⟨hc, hfirst⟩
      refine ⟨⟨by rw [hc], by rw [hc], hfirst⟩, fun r s'' hs => sat_orRaise fun _ _ => ?_⟩
      obtain ⟨⟨⟨backups, hw⟩, hb⟩, -⟩ := hs
      have hconf : s''.config = s.config := by rw [hw, ← hc]
      rw [Backed, hconf, show s''.backups = _ from hb, Function.update_self]
      rfl

theorem replaceConfig_upright (rendered : String) {w : World} (hb : Backed w) :
    Sat keeping upright (fun _ _ => True) (fun _ _ => True) (replaceConfig rendered) w := by
  have hnext : ∀ {s s' : World} {e : Eff} {a : Ans e}, plain e → Backed s → keeping s e a s' →
      Backed s' := by
    intro s s' e a he hs hm
    obtain ⟨hc, -, hb⟩ := alone_plain he hm.1
    rw [Backed, hc, hb]
    exact hs
  refine Sat.seq (Q := fun s _ => Backed s) ⟨trivial,
    fun r s hs => sat_orRaise fun _ _ => hnext (e := .mkstemp) trivial hb hs⟩ ?_
  intro s tmp hb
  refine Sat.seq (Q := fun s _ => Backed s) ⟨trivial,
    fun r s hs => sat_orRaise fun _ _ => hnext (e := .writeTmp tmp rendered) trivial hb hs⟩ ?_
  intro s _ hb
  refine Sat.seq (Q := fun s _ => Backed s) ⟨trivial,
    fun r s hs => sat_orRaise fun _ _ => hnext (e := .chmod tmp 0o640) trivial hb hs⟩ ?_
  intro s _ hb
  exact ⟨hb, fun r s _ => sat_orRaise fun _ _ => trivial⟩

theorem main_upright (y : Yaml V G) (apply : Bool) (w : World) :
    Sat keeping upright (fun _ _ => True) (fun _ _ => True) (main y apply) w := by
  have hload : Only plain (loadCurrent y) :=
    Only.bind (only_call trivial fun r => only_orRaise r) fun text => only_orRaise _
  refine Sat.seq (sat_plain hload w) fun s curCfg _ => ?_
  have hmodels : Only plain (lift configModels) := (only_lift configModels).mono fun e he => by
    obtain ⟨e', rfl⟩ := he
    trivial
  refine Sat.seq (sat_plain hmodels s) fun s models _ => ?_
  cases models with
  | none => trivial
  | some models =>
      refine Sat.seq (sat_plain (only_orRaise _) s) fun s g _ =>
        Sat.seq (sat_plain (only_orRaise _) s) fun s _ _ => ?_
      cases apply with
      | false => exact ⟨trivial, fun _ _ _ => trivial⟩
      | true =>
          exact Sat.seq (backup_upright s) fun s _ hb =>
            Sat.seq (replaceConfig_upright _ hb) fun _ _ _ => trivial

theorem Kept.exec {α : Type} {p q : Sync α} {w w' : World} {tr : Trace Eff Ans} (h : Kept w)
    (hsat : Sat keeping upright (fun _ _ => True) (fun _ _ => True) p w)
    (hx : Exec alone w p tr w' q) : Kept w' := by
  induction hx with
  | refl => exact h
  | call hs _ ih =>
      have hk := h.next hsat.1 hs
      exact ih hk (hsat.2 _ _ ⟨hs, h, hk⟩)

/-- In any run of syncs, each of which may be cut off anywhere and any call of
which may fail, every version that has been replaced has a backup under its
second: the first version of this second, or no more than a part of it. -/
theorem backups_kept {y : Yaml V G} {w w' : World} {hist : List (Sync Nat × Trace Eff Ans)}
    (hr : Runs alone w hist w')
    (hs : ∀ r ∈ hist, ∃ apply, r.1 = main y apply) (hpast : w.past = [])
    (hnew : ∀ n, w.backups n = none) :
    ∀ v ∈ w'.past, w'.backups v.second = some .cut ∨
      ∃ u ∈ w'.past, firstOf w'.past v.second = some u ∧ w'.backups v.second = some u.content := by
  have hkept : Kept w' := by
    have h₀ : Kept w :=
      ⟨fun v hv => absurd (hpast ▸ hv) List.not_mem_nil,
        fun n b hb => nomatch (hnew n).symm.trans hb⟩
    clear hpast hnew
    induction hr with
    | nil => exact h₀
    | @cons s t u p q tr rest hx _ ih =>
        refine ih (fun r hm => hs r (List.mem_cons_of_mem _ hm)) ?_
        obtain ⟨apply, rfl⟩ := hs _ List.mem_cons_self
        exact h₀.exec (main_upright y apply s) hx
  intro v hv
  obtain ⟨b, hb⟩ := Option.isSome_iff_exists.mp (hkept.backed v hv)
  rcases hkept.holds _ b hb with rfl | ⟨u, hu, rfl⟩
  · exact .inl hb
  · have hfirst : ∃ x, firstOf w'.past v.second = some x :=
      Option.isSome_iff_exists.mp (List.find?_isSome.mpr ⟨v, hv, by simp⟩)
    obtain ⟨x, hx⟩ := hfirst
    obtain rfl : x = u := Option.some.inj ((firstOf_append hx).symm.trans hu)
    exact .inr ⟨x, List.mem_of_find?_eq_some hx, hx, hb⟩

/-- A sync that is cut off in the copy, and two that run to their end. -/
def cutCopy : Trace Eff Ans × World × Sync Nat :=
  play (answer 0) 11 World.first (main blockYaml true)

def nextSync (w : World) : Trace Eff Ans × World × Sync Nat :=
  play (answer 0) 16 w (main blockYaml true)

def twoLater : World := (nextSync (nextSync cutCopy.2.1).2.1).2.1

theorem backups_kept_cutCopy : twoLater.past.length = 2 ∧ ∀ v ∈ twoLater.past,
    twoLater.backups v.second = some .cut ∨
    ∃ u ∈ twoLater.past, firstOf twoLater.past v.second = some u ∧
      twoLater.backups v.second = some u.content := by
  have hplay : ∀ n w, Exec alone w (main blockYaml true)
      (play (answer 0) n w (main blockYaml true)).1
      (play (answer 0) n w (main blockYaml true)).2.1
        (play (answer 0) n w (main blockYaml true)).2.2 :=
    fun n w => play_exec id (answer 0) (answer_move 0) n w _
  have hr : Runs alone World.first _ twoLater :=
    .cons (hplay 11 _) (.cons (hplay 16 _) (.cons (hplay 16 _) (.nil _)))
  refine ⟨by decide +kernel, backups_kept (y :=
    blockYaml) hr (fun r hm => ⟨true, ?_⟩) rfl fun _ => rfl⟩
  simp only [List.mem_cons, List.not_mem_nil, or_false] at hm
  rcases hm with rfl | rfl | rfl
  · rfl
  · rfl
  · rfl

/-- A copy that has been cut off is never made again. -/
example : twoLater.backups 10 = some .cut := by decide +kernel

end ServerManager.ConfigFile
