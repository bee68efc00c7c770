import ServerManager.LitellmSync
import ServerManager.PyNumber

namespace ServerManager.OpenRouterGate

open PyJson PyText PyNumber FleetDb LitellmSync

def flagKey : String := "openrouter.fallback_enabled"
def apiKey : String := "openrouter.api_key"
def dailyKey : String := "openrouter.daily_cap_usd"
def monthlyKey : String := "openrouter.monthly_cap_usd"
def warningKey : String := "openrouter.warning_threshold_usd"

/-- `INSERT … ON CONFLICT (key) DO UPDATE`. -/
def put : List (String × String) → String → String → List (String × String)
  | [], key, value => [(key, value)]
  | (k, old) :: settings, key, value =>
      if k == key then (key, value) :: settings else (k, old) :: put settings key value

def putSetting (db : Db) (key value : String) : Db :=
  { db with settings := put db.settings key value }

/-- What comes of a read: without a connection the default is taken. -/
inductive Read
  | done
  | noConnection
  | failed

inductive Write
  | done
  | noConnection
  | failed
  | unacknowledged

/-- `float(text)`, `float(n)` and `repr(v)`; `none` is an exception. -/
structure Floats where
  ofText : String → Option PyFloat
  ofInt : Int → Option PyFloat
  repr : PyFloat → String

structure Request where
  user : Option String
  role : String
  body : Json
  reads : String → Read
  writes : String → Write

structure FallbackState where
  keyPresent : Bool
  dailyCap : PyFloat
  monthlyCap : PyFloat
  warningThreshold : PyFloat
  capsConfigured : Bool
  fallbackEnabled : Bool
  gateErrors : List String

section Handler

variable (F : Floats)

/-- `_setting`, where the outer `none` is an exception. -/
def readSetting (reads : String → Read) (db : Db) (key : String) : Option (Option String) :=
  match reads key with
  | .done => some (db.setting key)
  | .noConnection => some none
  | .failed => none

/-- `float(text or 0)`, and zero for a text that is no number. -/
def capOf (text : Option String) : PyFloat :=
  match text with
  | none => .fin 0
  | some s => if s = "" then .fin 0 else (F.ofText s).getD (.fin 0)

def zero : PyFloat := .fin 0

def configured (daily monthly warn : PyFloat) : Bool :=
  zero.lt daily && zero.lt monthly && zero.lt warn && warn.le daily

def gateErrors (keyPresent : Bool) (daily monthly warn : PyFloat) : List String :=
  (if keyPresent then [] else ["OpenRouter API key not configured"]) ++
    (if daily.le zero then ["global daily spend cap not configured"] else []) ++
    (if monthly.le zero then ["global monthly spend cap not configured"] else []) ++
    (if warn.le zero then ["warning threshold not configured"] else [])

def fallbackState (reads : String → Read) (db : Db) : Option FallbackState := do
  let daily ← (readSetting reads db dailyKey).map (capOf F)
  let monthly ← (readSetting reads db monthlyKey).map (capOf F)
  let warn ← (readSetting reads db warningKey).map (capOf F)
  let key ← (readSetting reads db apiKey).map (·.getD "")
  let keyPresent := key != ""
  let enabled :=
    if configured daily monthly warn && keyPresent
      then (readSetting reads db flagKey).map (· == some "true") else some false
  enabled.map (fun enabled =>
    ⟨keyPresent, daily, monthly, warn, configured daily monthly warn, enabled, gateErrors keyPresent daily monthly warn⟩)

inductive Reply
  | rejected (status : Nat) (error : String) (gateErrors : List String)
  | failed
  | saved (state : FallbackState)

def fieldError (field : String) : Reply :=
  .rejected 400 (field ++ " must be a non-negative number") []

/-- The tables and, where the request has come to an end, the reply. -/
abbrev Handled := Db × Option Reply

def setSetting (r : Request) (key value : String) (db : Db) : Handled :=
  match r.writes key with
  | .done => (putSetting db key value, none)
  | .noConnection => (db, none)
  | .failed => (db, some .failed)
  | .unacknowledged => (putSetting db key value, some .failed)

def andThen (h : Handled) (next : Db → Handled) : Handled :=
  match h with
  | (db, none) => next db
  | (db, some reply) => (db, some reply)

def saveKey (r : Request) (body : Dict) (db : Db) : Handled :=
  match body.get? "api_key" with
  | none => (db, none)
  | some v =>
      match strippedText v with
      | none => (db, some .failed)
      | some text =>
          if text = "" then setSetting r apiKey "" db
          else if startsWith text "sk-or" then setSetting r apiKey text db
          else (db, some (.rejected 400 "key must start with 'sk-or' (or be empty to clear)" []))

/-- `float(v)`: an overflow is not caught, the other exceptions are. -/
inductive Parsed
  | number (v : PyFloat)
  | wrong
  | overflow

def floatOf (v : Json) : Parsed :=
  match v with
  | .bool b => .number (.fin (if b then 1 else 0))
  | .int n => (F.ofInt n).elim .overflow .number
  | .float lit => (F.ofText lit).elim .wrong .number
  | .str s => (F.ofText s).elim .wrong .number
  | _ => .wrong

def saveCap (r : Request) (body : Dict) (field key : String) (db : Db) : Handled :=
  let wrong : Handled := (db, some (fieldError field))
  match body.get? field with
  | none => (db, none)
  | some v =>
      match floatOf F v with
      | .wrong => wrong
      | .overflow => (db, some .failed)
      | .number v => if v.lt zero then wrong else setSetting r key (F.repr v) db

def saveLimits (r : Request) (body : Dict) (db : Db) : Handled :=
  andThen (saveKey r body db) (fun db =>
    andThen (saveCap F r body "daily_cap_usd" dailyKey db) (fun db =>
      andThen (saveCap F r body "monthly_cap_usd" monthlyKey db) (saveCap F r body "warning_threshold_usd" warningKey)))

def saveFlag (r : Request) (body : Dict) (db : Db) : Handled :=
  match body.get? "enable_fallback" with
  | none => (db, none)
  | some v =>
      match fallbackState F r.reads db with
      | none => (db, some .failed)
      | some state =>
          if v.truthy && !(state.capsConfigured && state.keyPresent) then
            (db, some (.rejected 409 "fallback blocked by caps gate" state.gateErrors))
          else setSetting r flagKey (if v.truthy then "true" else "false") db

/-- A body that is a list or a text has its fields by `in` only. -/
def otherBody (has : String → Bool) (reply : Reply) : Reply :=
  if has "api_key" then .failed
  else
    match ["daily_cap_usd", "monthly_cap_usd", "warning_threshold_usd"].find? has with
    | some field => fieldError field
    | none => if has "enable_fallback" then .failed else reply

def canWriteKeys : List String := ["Admin", "Security-Admin"]

def post (r : Request) (db : Db) : Db × Reply :=
  if r.user = none then (db, .rejected 401 "auth required" [])
  else if r.role ∉ canWriteKeys then (db, .rejected 403
    "role does not permit provider master configuration" [])
  else
    let finish (db : Db) : Reply := (fallbackState F r.reads db).elim .failed .saved
    match r.body with
    | .obj body =>
        match andThen (saveLimits F r body db) (saveFlag F r body) with
        | (db, none) => (db, finish db)
        | (db, some reply) => (db, reply)
    | .arr items => (db, otherBody (fun s => items.any (·.isStr s)) (finish db))
    | .str s => (db, otherBody (containsText s) (finish db))
    | _ => (db, .failed)

def run (db : Db) (requests : List Request) : Db := requests.foldl (fun db r => (post F r db).1) db

def allDone : String → Read := fun _ => .done

/-- The gateway has an OpenRouter entry only if the fallback is reported as enabled. -/
def Agrees (drv : Driver) (db : Db) : Prop :=
  (∃ e ∈ modelList drv db, e.isOpenRouter = true) → ∃ state ∈ fallbackState F allDone db,
    state.fallbackEnabled = true

def Open (db : Db) : Prop :=
  configured (capOf F (db.setting dailyKey)) (capOf F (db.setting monthlyKey))
    (capOf F (db.setting warningKey)) = true ∧
    (db.setting apiKey).getD "" ≠ ""

/-- The flag that a request saves, on the tables that it has made before. -/
def savesFlag (r : Request) (db : Db) : Option Bool :=
  match r.body with
  | .obj body =>
      match Dict.get? body "enable_fallback", fallbackState F r.reads db with
      | some v, some state =>
          if v.truthy && !(state.capsConfigured && state.keyPresent) then none
          else
            match r.writes flagKey with
            | .done => some v.truthy
            | .unacknowledged => some v.truthy
            | _ => none
      | _, _ => none
  | _ => none

/-- Whether the request comes to the flag, and the tables it has made until then. -/
def limitsOf (r : Request) (db : Db) : Handled :=
  if r.user = none ∨ r.role ∉ canWriteKeys then (db, some .failed)
  else
    match r.body with
    | .obj body => saveLimits F r body db
    | _ => (db, some .failed)

/-- The request saves the flag; or it has been saved as false; or it has been
saved as true and a key and caps in order are left. -/
def Keeps (r : Request) (db : Db) : Prop :=
  (limitsOf F r db).2.isNone = true ∧ (savesFlag F r (limitsOf F r db).1).isSome = true ∨
    db.setting flagKey = some "false" ∨
      db.setting flagKey = some "true" ∧ Open F (limitsOf F r db).1

theorem setting_putSetting (db : Db) (key value k : String) :
    (putSetting db key value).setting k = if k = key then some value else db.setting k := by
  have hput : ∀ settings : List (String × String),
      ((put settings key value).find? (·.1 == k)).map (·.2) =
      if k = key then some value else (settings.find? (·.1 == k)).map (·.2) := by
    intro settings
    induction settings with
    | nil =>
        by_cases hk : k = key
        · simp [put, hk]
        · simp [put, hk, Ne.symm hk]
    | cons p settings ih =>
        obtain ⟨j, old⟩ := p
        by_cases hj : j = key
        · subst hj
          by_cases hk : k = j
          · simp [put, hk]
          · simp [put, hk, Ne.symm hk]
        · by_cases hk : j = k
          · subst hk
            simp [put, hj]
          · simpa [put, hj, hk, List.find?_cons] using ih
  exact hput db.settings

theorem setSetting_setting (r : Request) (key value : String) (db : Db) {k : String}
    (hk : k ≠ key) :
    (setSetting r key value db).1.setting k = db.setting k := by
  unfold setSetting
  cases r.writes key with
  | done => exact (setting_putSetting db key value k).trans (if_neg hk)
  | noConnection => rfl
  | failed => rfl
  | unacknowledged => exact (setting_putSetting db key value k).trans (if_neg hk)

theorem saveKey_flag (r : Request) (body : Dict) (db : Db) :
    (saveKey r body db).1.setting flagKey = db.setting flagKey := by
  unfold saveKey
  split
  · rfl
  · split
    · rfl
    · split
      · exact setSetting_setting r _ _ db (by decide)
      · split
        · exact setSetting_setting r _ _ db (by decide)
        · rfl

theorem saveCap_flag (r : Request) (body : Dict) (field : String) {key : String}
    (hk : flagKey ≠ key) (db : Db) :
    (saveCap F r body field key db).1.setting flagKey = db.setting flagKey := by
  unfold saveCap
  split
  · rfl
  · split
    · rfl
    · rfl
    · split
      · rfl
      · exact setSetting_setting r _ _ db hk

theorem andThen_flag {h : Handled} {next : Db → Handled} {flag : Option String}
    (hh : h.1.setting flagKey = flag)
    (hn : ∀ db, (next db).1.setting flagKey = db.setting flagKey) :
    (andThen h next).1.setting flagKey = flag := by
  obtain ⟨db, reply⟩ := h
  cases reply with
  | none => exact (hn db).trans hh
  | some reply => exact hh

theorem saveLimits_flag (r : Request) (body : Dict) (db : Db) :
    (saveLimits F r body db).1.setting flagKey = db.setting flagKey :=
  andThen_flag (saveKey_flag r body db) fun db =>
    andThen_flag (saveCap_flag F r body _ (by decide) db) fun db =>
      andThen_flag (saveCap_flag F r body _ (by decide) db) fun db =>
        saveCap_flag F r body _ (by decide) db

theorem limitsOf_flag (r : Request) (db : Db) :
    (limitsOf F r db).1.setting flagKey = db.setting flagKey := by
  unfold limitsOf
  split
  · rfl
  · split
    · exact saveLimits_flag F r _ db
    · rfl

theorem post_eq (r : Request) (db : Db) :
    (post F r db).1 =
      match (limitsOf F r db).2, savesFlag F r (limitsOf F r db).1 with
      | none, some want =>
          putSetting (limitsOf F r db).1 flagKey (if want = true then "true" else "false")
      | _, _ => (limitsOf F r db).1 := by
  by_cases hu : r.user = none
  · simp only [post, limitsOf, hu, if_true, true_or]
  by_cases hr : r.role ∉ canWriteKeys
  · simp only [post, limitsOf, hu, hr, if_true, if_false, or_true, not_false_eq_true]
  have hlimits : ¬ (r.user = none ∨ r.role ∉ canWriteKeys) := not_or.mpr ⟨hu, hr⟩
  unfold post limitsOf savesFlag
  rw [if_neg hu, if_neg hr, if_neg hlimits]
  cases hb : r.body with
  | obj body =>
      simp only
      obtain ⟨db', reply⟩ := saveLimits F r body db
      cases reply with
      | some reply => rfl
      | none =>
          unfold andThen saveFlag
          simp only
          cases Dict.get? body "enable_fallback" with
          | none => rfl
          | some v =>
              cases fallbackState F r.reads db' with
              | none => rfl
              | some state =>
                  simp only
                  by_cases hblock : (v.truthy && !(state.capsConfigured && state.keyPresent)) = true
                  · rw [if_pos hblock, if_pos hblock]
                  · rw [if_neg hblock, if_neg hblock]
                    unfold setSetting
                    cases r.writes flagKey with
                    | done => rfl
                    | noConnection => rfl
                    | failed => rfl
                    | unacknowledged => rfl
  | _ => rfl

theorem emits_iff (drv : Driver) (db : Db) :
    (∃ e ∈ modelList drv db, e.isOpenRouter = true) ↔
    fallbackEnabled (db.setting flagKey) = true := by
  have hlist : modelList drv db =
      localEntries [] ((sortedBackends drv db).map
        (fun p => (p.1.logicalModelName, p.2.guestIp, p.1.engine))) ++
        aliasEntries ((sortedTargets drv db).map (fun p => (p.1.logicalModelName, p.2.guestIp)))
          ((routableAliases db).map (fun r => (r.logicalModelName, r.aliasTarget))) ++
        if fallbackEnabled (db.setting flagKey) then openRouterEntries else [] := rfl
  rw [hlist]
  constructor
  · rintro ⟨e, he, ho⟩
    rcases List.mem_append.mp he with he | he
    · rcases List.mem_append.mp he with he | he
      · obtain ⟨row, -, rfl⟩ := mem_localEntries he
        rw [openai_isOpenRouter rfl] at ho
        cases ho
      · obtain ⟨row, -, b, -, -, rfl⟩ := mem_aliasEntries he
        rw [openai_isOpenRouter rfl] at ho
        cases ho
    · by_contra hno
      rw [if_neg hno] at he
      exact List.not_mem_nil he
  · intro hf
    rw [if_pos hf]
    exact ⟨_, List.mem_append_right _ List.mem_cons_self, by decide +kernel⟩

theorem fallbackEnabled_iff {flag : Option String}
    (h : flag = none ∨ flag = some "true" ∨ flag = some "false") :
    fallbackEnabled flag = true ↔ flag ≠ some "false" := by
  rcases h with rfl | rfl | rfl
  · exact iff_of_true (by decide) nofun
  · exact iff_of_true (by decide) (by decide)
  · exact iff_of_false (by decide) (not_not.mpr rfl)

theorem state_enabled_iff (db : Db) :
    (∃ state ∈ fallbackState F allDone db, state.fallbackEnabled = true) ↔
    Open F db ∧ db.setting flagKey = some "true" := by
  have hread : ∀ key, readSetting allDone db key = some (db.setting key) := fun _ => rfl
  unfold fallbackState Open
  simp only [hread, Option.map_some, Option.bind_eq_bind, Option.bind_some]
  generalize hc : configured _ _ _ = c
  by_cases hopen : (c && (db.setting apiKey).getD "" != "") = true
  · rw [if_pos hopen]
    simp only [Bool.and_eq_true, bne_iff_ne] at hopen
    simp [hopen]
  · rw [if_neg hopen]
    simp only [Bool.and_eq_true, bne_iff_ne] at hopen
    simp [hopen]

theorem agrees_iff (drv : Driver) {db : Db}
    (h : db.setting flagKey = none ∨ db.setting flagKey = some "true" ∨
    db.setting flagKey = some "false") :
    Agrees F drv db ↔ db.setting flagKey = some "false" ∨ db.setting flagKey = some "true" ∧
      Open F db := by
  unfold Agrees
  rw [emits_iff, state_enabled_iff, fallbackEnabled_iff h]
  constructor
  · intro hagree
    by_cases hf : db.setting flagKey = some "false"
    · exact .inl hf
    · exact .inr (hagree hf).symm
  · rintro (hf | ⟨ht, ho⟩) hne
    · exact absurd hf hne
    · exact ⟨ho, ht⟩

theorem readSetting_cases {reads : String → Read} {db : Db} {key : String} {value : Option String}
    (h : readSetting reads db key = some value) : value = db.setting key ∨ value = none := by
  unfold readSetting at h
  cases hr : reads key with
  | done =>
      rw [hr] at h
      exact .inl (Option.some.inj h).symm
  | noConnection =>
      rw [hr] at h
      exact .inr (Option.some.inj h).symm
  | failed =>
      rw [hr] at h
      cases h

theorem read_of_positive {reads : String → Read} {db : Db} {key : String} {cap : PyFloat}
    (h : (readSetting reads db key).map (capOf F) = some cap) (hp : zero.lt cap = true) :
    cap = capOf F (db.setting key) := by
  obtain ⟨value, hv, rfl⟩ := Option.map_eq_some_iff.mp h
  rcases readSetting_cases hv with rfl | rfl
  · rfl
  · exact absurd (show zero.lt zero = true from hp) (by decide +kernel)

/-- The gate of the handler is that of the stored settings: what could not be
read counts as missing. -/
theorem open_of_state {reads : String → Read} {db : Db} {state : FallbackState}
    (h : fallbackState F reads db = some state)
    (hs : (state.capsConfigured && state.keyPresent) = true) : Open F db := by
  unfold fallbackState at h
  obtain ⟨daily, hd, h⟩ := Option.bind_eq_some_iff.mp h
  obtain ⟨monthly, hm, h⟩ := Option.bind_eq_some_iff.mp h
  obtain ⟨warn, hw, h⟩ := Option.bind_eq_some_iff.mp h
  obtain ⟨key, hk, h⟩ := Option.bind_eq_some_iff.mp h
  obtain ⟨enabled, -, rfl⟩ := Option.map_eq_some_iff.mp h
  obtain ⟨hc, hkey⟩ := Bool.and_eq_true_iff.mp hs
  have hpos := hc
  unfold configured at hpos
  simp only [Bool.and_eq_true] at hpos
  obtain ⟨⟨⟨hpd, hpm⟩, hpw⟩, -⟩ := hpos
  have hc' : configured daily monthly warn = true := hc
  rw [read_of_positive F hd hpd, read_of_positive F hm hpm, read_of_positive F hw hpw] at hc'
  refine ⟨hc', ?_⟩
  obtain ⟨text, ht, rfl⟩ := Option.map_eq_some_iff.mp hk
  rcases readSetting_cases ht with rfl | rfl
  · exact bne_iff_ne.mp hkey
  · exact absurd (show ((none : Option String).getD "" != "") = true from hkey) (by decide)

theorem open_of_savesFlag {r : Request} {db : Db} (h : savesFlag F r db = some true) :
    Open F db := by
  unfold savesFlag at h
  split at h
  next body hb =>
    split at h
    next v state hv hstate =>
      split at h
      · cases h
      next hno =>
        have hv : v.truthy = true := by
          cases hw : r.writes flagKey with
          | done =>
              rw [hw] at h
              exact Option.some.inj h
          | unacknowledged =>
              rw [hw] at h
              exact Option.some.inj h
          | noConnection =>
              rw [hw] at h
              cases h
          | failed =>
              rw [hw] at h
              cases h
        refine open_of_state F hstate ?_
        rw [hv, Bool.true_and, Bool.not_eq_true, Bool.not_eq_false'] at hno
        exact hno
    · cases h
  · cases h

theorem open_putSetting {db : Db} {value : String} : Open F (putSetting db flagKey value) ↔
    Open F db := by
  unfold Open
  rw [setting_putSetting, setting_putSetting, setting_putSetting, setting_putSetting,
    if_neg (by decide), if_neg (by decide),
    if_neg (by decide), if_neg (by decide)]

theorem post_flag {db : Db} (h : db.setting flagKey = none ∨ db.setting flagKey = some "true" ∨
    db.setting flagKey = some "false")
    (r : Request) :
    (post F r db).1.setting flagKey = none ∨ (post F r db).1.setting flagKey = some "true" ∨
      (post F r db).1.setting flagKey = some "false" := by
  rw [post_eq]
  have hflag := limitsOf_flag F r db
  generalize savesFlag F r (limitsOf F r db).1 = saves
  rw [← hflag] at h
  cases (limitsOf F r db).2 with
  | some reply => exact h
  | none =>
      cases saves with
      | none => exact h
      | some want =>
          simp only
          rw [setting_putSetting, if_pos rfl]
          cases want with
          | true => exact .inr (.inl rfl)
          | false => exact .inr (.inr rfl)

theorem run_flag {db : Db} (h : db.setting flagKey = none) (rs : List Request) :
    (run F db rs).setting flagKey = none ∨ (run F db rs).setting flagKey = some "true" ∨
      (run F db rs).setting flagKey = some "false" := by
  have hrun : ∀ (rs : List Request) (db : Db),
      (db.setting flagKey = none ∨ db.setting flagKey = some "true" ∨
        db.setting flagKey = some "false") →
        (run F db rs).setting flagKey = none ∨ (run F db rs).setting flagKey = some "true" ∨
          (run F db rs).setting flagKey = some "false" := by
    intro rs
    induction rs with
    | nil => exact fun db h => h
    | cons r rs ih => exact fun db h => ih _ (post_flag F h r)
  exact hrun rs db (.inl h)

theorem post_agrees_iff (drv : Driver) {db : Db}
    (h : db.setting flagKey = none ∨ db.setting flagKey = some "true" ∨
    db.setting flagKey = some "false") (r : Request) :
    Agrees F drv (post F r db).1 ↔ Keeps F r db := by
  rw [agrees_iff F drv (post_flag F h r), post_eq]
  unfold Keeps
  rw [← limitsOf_flag F r db]
  cases hreply : (limitsOf F r db).2 with
  | some reply => simp
  | none =>
      cases hsaves : savesFlag F r (limitsOf F r db).1 with
      | none => simp
      | some want =>
          refine iff_of_true ?_ (.inl ⟨rfl, rfl⟩)
          rw [setting_putSetting, if_pos rfl, open_putSetting]
          cases want with
          | true => exact .inr ⟨rfl, open_of_savesFlag F hsaves⟩
          | false => exact .inl rfl

/-- Before the first request the gates disagree; after any others they agree
exactly when the last one keeps them together. -/
theorem run_agrees_iff (drv : Driver) (base : Db) (hbase : base.setting flagKey = none) :
    ¬ Agrees F drv (run F base []) ∧
      ∀ (rs : List Request) (r : Request), Agrees F drv (run F base (rs ++ [r])) ↔
        Keeps F r (run F base rs) := by
  constructor
  · show ¬ Agrees F drv base
    rw [agrees_iff F drv (.inl hbase)]
    show ¬ (base.setting flagKey = _ ∨ base.setting flagKey = _ ∧ _)
    rw [hbase]
    rintro (h | ⟨h, -⟩)
    · cases h
    · cases h
  · intro rs r
    have hrun : run F base (rs ++ [r]) = (post F r (run F base rs)).1 := List.foldl_append
    rw [hrun]
    exact post_agrees_iff F drv (run_flag F hbase rs) r

end Handler

def freshDb : Db where
  hosts := []
  models := []
  settings := []
  events := []
  hostKey := List.nodup_nil
  ipKey := List.nodup_nil
  modelKey := .nil
  hostRef := fun _ h => absurd h List.not_mem_nil

/-- Whole numbers as `float` and `repr` have them. -/
def wholeFloats : Floats where
  ofText s :=
    (pyIntText (if s.endsWith ".0" then (s.dropEnd 2).toString else s)).map fun n => .fin n
  ofInt n := some (.fin n)
  repr
    | .fin q => toString q.num ++ ".0"
    | _ => "nan"

/-- Without any setting the gateway gets its OpenRouter entries. -/
theorem default_emits : ¬ ∀ (F : Floats) (drv : Driver) (base : Db), base.setting flagKey = none →
    ∀ rs : List Request, Agrees F drv (run F base rs) := by
  intro hall
  have hagree := hall wholeFloats plainDriver freshDb rfl []
  rw [agrees_iff wholeFloats plainDriver (.inl rfl)] at hagree
  rcases hagree with h | ⟨h, -⟩
  · cases h
  · cases h

/-- An administrator stores a key and caps, and enables the fallback. -/
def configure : Request where
  user := some "ada"
  role := "Admin"
  body :=
    .obj [("api_key", .str "sk-or-1"), ("daily_cap_usd", .int 5), ("monthly_cap_usd", .int 50),
    ("warning_threshold_usd", .int 4), ("enable_fallback", .bool true)]
  reads _ := .done
  writes _ := .done

theorem run_agrees_configured :
    ¬ Agrees wholeFloats plainDriver (run wholeFloats freshDb []) ∧
      Agrees wholeFloats plainDriver (run wholeFloats freshDb [configure]) := by
  obtain ⟨hfresh, hrun⟩ := run_agrees_iff wholeFloats plainDriver freshDb rfl
  have hkeeps : Keeps wholeFloats configure freshDb := .inl ⟨by decide +kernel, by decide +kernel⟩
  exact ⟨hfresh, (hrun [] configure).mpr hkeeps⟩

end ServerManager.OpenRouterGate
