import ServerManager.OpenRouterGate
import Mathlib.Data.List.TakeWhile

namespace ServerManager.RefusedSettings

open PyJson PyText PyNumber FleetDb OpenRouterGate

/-- A row of `manager_settings`. -/
structure SettingRow where
  key : String
  value : String
  updatedAt : Option Int
  updatedBy : Option String
  deriving DecidableEq, Repr

/-- `INSERT … ON CONFLICT (key) DO UPDATE`. -/
def putRow : List SettingRow → SettingRow → List SettingRow
  | [], new => [new]
  | row :: rows, new => if row.key == new.key then new :: rows else row :: putRow rows new

def lookup (rows : List SettingRow) (key : String) : Option SettingRow := rows.find? (·.key == key)

/-- The row that `_set_setting` writes at the time `at'`. -/
def rowFor (r : Request) (at' : String → Int) (p : String × String) : SettingRow :=
  ⟨p.1, p.2, some (at' p.1), r.user⟩

def withRows (base : Db) (rows : List SettingRow) : Db :=
  { base with settings := rows.map (fun row => (row.key, row.value)) }

inductive Verdict
  | absent
  | value (text : String)
  | stop (reply : Reply)

def keyVerdict (body : Dict) : Verdict :=
  match body.get? "api_key" with
  | none => .absent
  | some v =>
      match strippedText v with
      | none => .stop .failed
      | some text =>
          if text = "" then .value ""
          else if startsWith text "sk-or" then .value text
          else .stop (.rejected 400 "key must start with 'sk-or' (or be empty to clear)" [])

section Handler

variable (F : Floats)

def capVerdict (body : Dict) (field : String) : Verdict :=
  match body.get? field with
  | none => .absent
  | some v =>
      match floatOf F v with
      | .wrong => .stop (fieldError field)
      | .overflow => .stop .failed
      | .number v => if v.lt zero then .stop (fieldError field) else .value (F.repr v)

/-- The fields before the flag, with the settings that they are for. -/
def limitFields (body : Dict) : List (String × Verdict) :=
  [(apiKey, keyVerdict body), (dailyKey, capVerdict F body "daily_cap_usd"),
    (monthlyKey, capVerdict F body "monthly_cap_usd"), (warningKey, capVerdict F body "warning_threshold_usd")]

def passes (r : Request) (p : String × Verdict) : Bool :=
  match p.2, r.writes p.1 with
  | .absent, _ => true
  | .value _, .done => true
  | .value _, .noConnection => true
  | _, _ => false

/-- What is stored for the field once the handler comes to it. -/
def stored (r : Request) (p : String × Verdict) : Option (String × String) :=
  match p.2, r.writes p.1 with
  | .value text, .done => some (p.1, text)
  | .value text, .unacknowledged => some (p.1, text)
  | _, _ => none

def passed (r : Request) (fields : List (String × Verdict)) : List (String × Verdict) :=
  fields.takeWhile (passes r)

def ending (r : Request) (fields : List (String × Verdict)) : Option (String × Verdict) :=
  fields.find? (fun p => !passes r p)

def store (db : Db) (settings : List (String × String)) : Db :=
  settings.foldl (fun db p => putSetting db p.1 p.2) db

def flagSaved (r : Request) (db : Db) : List (String × String) :=
  match savesFlag F r db with
  | some want => [(flagKey, if want then "true" else "false")]
  | none => []

def saved (r : Request) (db : Db) : List (String × String) :=
  if r.user = none ∨ r.role ∉ canWriteKeys then []
  else
    match r.body with
    | .obj body =>
        let fields := limitFields F body
        let limits := (passed r fields).filterMap (stored r)
        match ending r fields with
        | some p => limits ++ (stored r p).toList
        | none => limits ++ flagSaved F r (store db limits)
    | _ => []

def tableAfter (r : Request) (at' : String → Int) (base : Db) (rows : List SettingRow) :
    List SettingRow :=
  (saved F r (withRows base rows)).foldl (fun rows p => putRow rows (rowFor r at' p)) rows

/-- A refused request leaves the table as it was. -/
def RefusedUnchanged (r : Request) (at' : String → Int) (base : Db) (rows : List SettingRow) :
    Prop :=
  ∀ status error gates, (post F r (withRows base rows)).2 = .rejected status error gates →
    status = 400 ∨ status = 409 →
    tableAfter F r at' base rows = rows

/-- The flag is asked for and, with the other fields of the body stored, a key or caps in order are
missing. -/
def FlagBlocked (r : Request) (body : Dict) (db : Db) : Prop :=
  ∃ v state, body.get? "enable_fallback" = some v ∧ v.truthy = true ∧
    fallbackState F r.reads (store db ((limitFields F body).filterMap (stored r))) = some state ∧
      (state.capsConfigured && state.keyPresent) = false

def Refuses (r : Request) (body : Dict) (db : Db) : Prop :=
  (∃ p error, ending r (limitFields F body) = some p ∧ p.2 = .stop (.rejected 400 error [])) ∨
    ending r (limitFields F body) = none ∧ FlagBlocked F r body db

/-- Before a field that the handler refuses there is none whose setting it changes. -/
def NothingBefore (r : Request) (at' : String → Int) (base : Db) (rows : List SettingRow) : Prop :=
  r.user ≠ none → r.role ∈ canWriteKeys → ∀ body, r.body = .obj body →
    Refuses F r body (withRows base rows) →
    ∀ p ∈ passed r (limitFields F body), ∀ s ∈ stored r p, lookup rows s.1 = some (rowFor r at' s)

end Handler

theorem lookup_putRow (rows : List SettingRow) (new : SettingRow) (key : String) :
    lookup (putRow rows new) key = if key = new.key then some new else lookup rows key := by
  unfold lookup
  induction rows with
  | nil =>
      by_cases hk : key = new.key
      · simp [putRow, hk]
      · simp [putRow, hk, Ne.symm hk]
  | cons row rows ih =>
      by_cases hr : row.key = new.key
      · by_cases hk : key = new.key
        · simp [putRow, hr, hk]
        · simp [putRow, hr, hk, Ne.symm hk]
      · by_cases hk : row.key = key
        · subst hk
          simp [putRow, hr]
        · simpa [putRow, hr, hk, List.find?_cons] using ih

theorem putRow_same {rows : List SettingRow} {new : SettingRow}
    (h : lookup rows new.key = some new) :
    putRow rows new = rows := by
  induction rows with
  | nil => cases h
  | cons row rows ih =>
      unfold lookup at h
      by_cases hr : row.key = new.key
      · simp only [List.find?_cons, hr, beq_self_eq_true] at h
        rw [putRow, if_pos (by simpa using hr), Option.some.inj h]
      · have hne : (row.key == new.key) = false := by simpa using hr
        simp only [List.find?_cons, hne] at h
        rw [putRow, hne, if_neg Bool.false_ne_true, ih h]

theorem lookup_foldl {news : List SettingRow} {rows : List SettingRow} {key : String}
    (h : key ∉ news.map (·.key)) :
    lookup (news.foldl putRow rows) key = lookup rows key := by
  induction news generalizing rows with
  | nil => rfl
  | cons new news ih =>
      simp only [List.map_cons, List.mem_cons, not_or] at h
      rw [List.foldl_cons, ih h.2, lookup_putRow, if_neg h.1]

theorem foldl_putRow_iff {news rows : List SettingRow} (hn : (news.map (·.key)).Nodup) :
    news.foldl putRow rows = rows ↔ ∀ new ∈ news, lookup rows new.key = some new := by
  constructor
  · intro h
    induction news generalizing rows with
    | nil => exact fun new hnew => absurd hnew List.not_mem_nil
    | cons new news ih =>
        simp only [List.map_cons, List.nodup_cons] at hn
        have hfirst : lookup rows new.key = some new := by
          have hl : lookup (news.foldl putRow (putRow rows new)) new.key =
              lookup (putRow rows new) new.key := lookup_foldl hn.1
          rw [← List.foldl_cons, h, lookup_putRow, if_pos rfl] at hl
          exact hl
        rw [List.foldl_cons, putRow_same hfirst] at h
        intro row hrow
        rcases List.mem_cons.mp hrow with rfl | hrow
        · exact hfirst
        · exact ih hn.2 h row hrow
  · intro h
    induction news with
    | nil => rfl
    | cons new news ih =>
        simp only [List.map_cons, List.nodup_cons] at hn
        rw [List.foldl_cons, putRow_same (h new List.mem_cons_self)]
        exact ih hn.2 fun row hrow => h row (List.mem_cons_of_mem _ hrow)

theorem putRow_pairs (rows : List SettingRow) (new : SettingRow) :
    (putRow rows new).map (fun row => (row.key, row.value)) =
      put (rows.map (fun row => (row.key, row.value))) new.key new.value := by
  induction rows with
  | nil => rfl
  | cons row rows ih =>
      by_cases hr : row.key = new.key
      · simp [putRow, put, hr]
      · simp [putRow, put, hr, ih]

theorem withRows_foldl (r : Request) (at' : String → Int) (base : Db)
    (settings : List (String × String))
    (rows : List SettingRow) :
    withRows base (settings.foldl (fun rows p => putRow rows (rowFor r at' p)) rows) =
      store (withRows base rows) settings := by
  induction settings generalizing rows with
  | nil => rfl
  | cons p settings ih =>
      have hput : withRows base (putRow rows (rowFor r at' p)) =
          putSetting (withRows base rows) p.1 p.2 := by
        unfold withRows putSetting
        rw [putRow_pairs]
        rfl
      rw [List.foldl_cons, ih, hput]
      rfl

def saveField (r : Request) (p : String × Verdict) (db : Db) : Handled :=
  match p.2 with
  | .absent => (db, none)
  | .value text => setSetting r p.1 text db
  | .stop reply => (db, some reply)

def saveFields (r : Request) : List (String × Verdict) → Db → Handled
  | [], db => (db, none)
  | p :: ps, db => andThen (saveField r p db) (saveFields r ps)

def endReply (p : String × Verdict) : Reply :=
  match p.2 with
  | .stop reply => reply
  | _ => .failed

theorem saveKey_eq (r : Request) (body : Dict) (db : Db) :
    saveKey r body db = saveField r (apiKey, keyVerdict body) db := by
  unfold saveKey keyVerdict saveField
  cases body.get? "api_key" with
  | none => rfl
  | some v =>
      simp only
      cases strippedText v with
      | none => rfl
      | some text =>
          simp only
          by_cases he : text = ""
          · rw [if_pos he, if_pos he]
          · rw [if_neg he, if_neg he]
            by_cases hk : startsWith text "sk-or" = true
            · rw [if_pos hk, if_pos hk]
            · rw [if_neg hk, if_neg hk]

theorem saveCap_eq (F : Floats) (r : Request) (body : Dict) (field key : String) (db : Db) :
    saveCap F r body field key db = saveField r (key, capVerdict F body field) db := by
  unfold saveCap capVerdict saveField
  cases body.get? field with
  | none => rfl
  | some v =>
      simp only
      cases floatOf F v with
      | wrong => rfl
      | overflow => rfl
      | number x =>
          simp only
          by_cases hx : x.lt zero = true
          · rw [if_pos hx, if_pos hx]
          · rw [if_neg hx, if_neg hx]

theorem andThen_none (h : Handled) : andThen h (fun db => (db, none)) = h := by
  obtain ⟨db, reply⟩ := h
  cases reply with
  | none => rfl
  | some reply => rfl

theorem saveLimits_eq (F : Floats) (r : Request) (body : Dict) (db : Db) :
    saveLimits F r body db = saveFields r (limitFields F body) db := by
  have hwarn : saveCap F r body "warning_threshold_usd" warningKey =
      saveField r (warningKey, capVerdict F body "warning_threshold_usd") := by
    funext db
    exact saveCap_eq F r body _ _ db
  simp only [saveLimits, limitFields, saveFields, saveKey_eq, hwarn, saveCap_eq, andThen_none]

theorem saveField_passes {r : Request} {p : String × Verdict} (h : passes r p = true) (db : Db) :
    saveField r p db = (store db (stored r p).toList, none) := by
  obtain ⟨key, verdict⟩ := p
  cases verdict with
  | absent => simp [saveField, stored, store]
  | stop reply => simp [passes] at h
  | value text =>
      cases hw : r.writes key with
      | done => simp [saveField, setSetting, stored, store, hw]
      | noConnection => simp [saveField, setSetting, stored, store, hw]
      | failed => simp [passes, hw] at h
      | unacknowledged => simp [passes, hw] at h

theorem saveField_ends {r : Request} {p : String × Verdict} (h : passes r p = false) (db : Db) :
    saveField r p db = (store db (stored r p).toList, some (endReply p)) := by
  obtain ⟨key, verdict⟩ := p
  cases verdict with
  | absent => simp [passes] at h
  | stop reply => simp [saveField, stored, store, endReply]
  | value text =>
      cases hw : r.writes key with
      | done => simp [passes, hw] at h
      | noConnection => simp [passes, hw] at h
      | failed => simp [saveField, setSetting, stored, store, endReply, hw]
      | unacknowledged => simp [saveField, setSetting, stored, store, endReply, hw]

theorem store_append (db : Db) (l l' : List (String × String)) :
    store db (l ++ l') = store (store db l) l' :=
  List.foldl_append

theorem saveFields_run (r : Request) (fields : List (String × Verdict)) (db : Db) :
    saveFields r fields db =
      (store db ((passed r fields).filterMap (stored r) ++
        ((ending r fields).bind (stored r)).toList),
        (ending r fields).map endReply) := by
  induction fields generalizing db with
  | nil => rfl
  | cons p fields ih =>
      by_cases hp : passes r p = true
      · have hpassed : passed r (p :: fields) = p :: passed r fields := by simp [passed, hp]
        have hending : ending r (p :: fields) = ending r fields := by simp [ending, hp]
        have hsplit : (p :: passed r fields).filterMap (stored r) =
            (stored r p).toList ++ (passed r fields).filterMap (stored r) := by
          cases hs : stored r p <;> simp [hs]
        rw [hpassed, hending, hsplit, List.append_assoc, store_append, saveFields,
          saveField_passes hp]
        exact ih _
      · have hp' : passes r p = false := by simpa using hp
        have hpassed : passed r (p :: fields) = [] := by simp [passed, hp']
        have hending : ending r (p :: fields) = some p := by simp [ending, hp']
        rw [hpassed, hending, saveFields, saveField_ends hp']
        rfl

section Refusals

variable {F : Floats} {r : Request} {body : Dict}

theorem verdict_stop {p : String × Verdict} {reply : Reply} (hp : p ∈ limitFields F body)
    (h : p.2 = .stop reply) :
    reply = .failed ∨ ∃ error, reply = .rejected 400 error [] := by
  have hkey : ∀ reply, keyVerdict body = .stop reply → reply = .failed ∨ ∃ error,
      reply = .rejected 400 error [] := by
    intro reply h
    unfold keyVerdict at h
    split at h
    · cases h
    · split at h
      · cases h
        exact .inl rfl
      · split at h
        · cases h
        · split at h
          · cases h
          · cases h
            exact .inr ⟨_, rfl⟩
  have hcap : ∀ field reply, capVerdict F body field = .stop reply →
      reply = .failed ∨ ∃ error, reply = .rejected 400 error [] := by
    intro field reply h
    unfold capVerdict at h
    split at h
    · cases h
    · split at h
      · cases h
        exact .inr ⟨_, rfl⟩
      · cases h
        exact .inl rfl
      · split at h
        · cases h
          exact .inr ⟨_, rfl⟩
        · cases h
  simp only [limitFields, List.mem_cons, List.not_mem_nil, or_false] at hp
  rcases hp with rfl | rfl | rfl | rfl
  · exact hkey _ h
  · exact hcap _ _ h
  · exact hcap _ _ h
  · exact hcap _ _ h

def Refusal (reply : Reply) : Prop :=
  ∃ status error gates, reply = .rejected status error gates ∧ (status = 400 ∨ status = 409)

theorem endReply_refusal {p : String × Verdict} (hp : p ∈ limitFields F body) :
    Refusal (endReply p) ↔ ∃ error, p.2 = .stop (.rejected 400 error []) := by
  constructor
  · rintro ⟨status, error, gates, he, -⟩
    unfold endReply at he
    split at he
    next reply hs =>
      rcases verdict_stop hp hs with rfl | ⟨error', rfl⟩
      · cases he
      · exact ⟨error', hs⟩
    · cases he
  · rintro ⟨error, hs⟩
    refine ⟨400, error, [], ?_, .inl rfl⟩
    rw [endReply, hs]

theorem passed_of_none {fields : List (String × Verdict)} (h : ending r fields = none) :
    passed r fields = fields := by
  apply List.takeWhile_eq_self_iff.mpr
  intro p hp
  simpa using List.find?_eq_none.mp h p hp

theorem saveFlag_refusal (db : Db) : (∃ reply, (saveFlag F r body db).2 = some reply ∧
    Refusal reply) ↔
    ∃ v state, body.get? "enable_fallback" = some v ∧ v.truthy = true ∧
      fallbackState F r.reads db = some state ∧
      (state.capsConfigured && state.keyPresent) = false := by
  unfold saveFlag
  cases hv : body.get? "enable_fallback" with
  | none => simp
  | some v =>
      simp only
      cases hs : fallbackState F r.reads db with
      | none => simp [Refusal]
      | some state =>
          simp only
          by_cases hb : (v.truthy && !(state.capsConfigured && state.keyPresent)) = true
          · rw [if_pos hb]
            have hsplit := hb
            simp only [Bool.and_eq_true, Bool.not_eq_true'] at hsplit
            exact iff_of_true ⟨_, rfl, 409, _, _, rfl, .inr rfl⟩
              ⟨v, state, rfl, hsplit.1, rfl, hsplit.2⟩
          · rw [if_neg hb]
            refine iff_of_false ?_ ?_
            · rintro ⟨reply, hr, status, error, gates, rfl, -⟩
              unfold setSetting at hr
              cases hw : r.writes flagKey <;> simp [hw] at hr
            · rintro ⟨v', state', hv', ht, hs', hc⟩
              cases hv'
              cases hs'
              exact hb (by rw [ht, hc]; rfl)

theorem post_obj (hu : r.user ≠ none) (hr : r.role ∈ canWriteKeys) (hb : r.body = .obj body)
    (db : Db) :
    Refusal (post F r db).2 ↔ Refuses F r body db := by
  have hrun := saveFields_run r (limitFields F body) db
  rw [← saveLimits_eq] at hrun
  unfold post
  rw [if_neg hu, if_neg (not_not.mpr hr), hb]
  simp only
  rw [hrun]
  unfold Refuses
  cases he : ending r (limitFields F body) with
  | some p =>
      have hp : p ∈ limitFields F body := List.mem_of_find?_eq_some he
      simp only [Option.map_some, andThen]
      rw [endReply_refusal hp]
      constructor
      · rintro ⟨error, hs⟩
        exact .inl ⟨p, error, rfl, hs⟩
      · rintro (⟨q, error, hq, hs⟩ | ⟨hn, -⟩)
        · cases hq
          exact ⟨error, hs⟩
        · cases hn
  | none =>
      have hflag :=
        @saveFlag_refusal F r body (store db ((limitFields F body).filterMap (stored r)))
      simp only [Option.map_none, andThen, passed_of_none he, Option.bind_none, Option.toList_none,
        List.append_nil]
      unfold FlagBlocked
      rw [← hflag]
      generalize saveFlag F r body (store db ((limitFields F body).filterMap (stored r))) = flagged
      obtain ⟨db', _ | reply⟩ := flagged
      · refine iff_of_false ?_ ?_
        · rintro ⟨status, error, gates, hreply, -⟩
          simp only at hreply
          cases hf : fallbackState F r.reads db' <;> simp [hf] at hreply
        · rintro (⟨p, error, hn, -⟩ | ⟨-, reply, hn, -⟩)
          · cases hn
          · cases hn
      · simp

theorem tableAfter_settings (F : Floats) (r : Request) (at' : String → Int) (base : Db)
    (rows : List SettingRow) :
    withRows base (tableAfter F r at' base rows) = (post F r (withRows base rows)).1 := by
  unfold tableAfter
  rw [withRows_foldl, post_eq]
  generalize withRows base rows = db
  unfold saved limitsOf
  by_cases hno : r.user = none ∨ r.role ∉ canWriteKeys
  · rw [if_pos hno, if_pos hno]
    rfl
  · rw [if_neg hno, if_neg hno]
    cases hb : r.body with
    | obj body =>
        simp only
        rw [saveLimits_eq, saveFields_run]
        cases he : ending r (limitFields F body) with
        | some p => rfl
        | none =>
            simp only [Option.map_none, Option.bind_none, Option.toList_none, List.append_nil]
            rw [store_append, flagSaved]
            cases savesFlag F r (store db ((passed r (limitFields F body)).filterMap (stored r))) with
            | none => rfl
            | some want => rfl
    | _ => rfl

theorem nodup_stored {fields : List (String × Verdict)} (h : (fields.map (·.1)).Nodup) :
    ((fields.filterMap (stored r)).map (·.1)).Nodup := by
  induction fields with
  | nil => exact List.nodup_nil
  | cons p fields ih =>
      simp only [List.map_cons, List.nodup_cons] at h
      cases hs : stored r p with
      | none =>
          rw [List.filterMap_cons_none hs]
          exact ih h.2
      | some s =>
          rw [List.filterMap_cons_some hs, List.map_cons, List.nodup_cons]
          refine ⟨fun hmem => h.1 ?_, ih h.2⟩
          obtain ⟨t, ht, hkey⟩ := List.mem_map.mp hmem
          obtain ⟨q, hq, hqs⟩ := List.mem_filterMap.mp ht
          have hfirst : ∀ {p s}, stored r p = some s → s.1 = p.1 := by
            intro p s hs
            unfold stored at hs
            split at hs
            · cases hs
              rfl
            · cases hs
              rfl
            · cases hs
          rw [← hfirst hs, ← hkey, hfirst hqs]
          exact List.mem_map_of_mem hq

theorem limitFields_nodup : ((limitFields F body).map (·.1)).Nodup := by
  simp [limitFields, apiKey, dailyKey, monthlyKey, warningKey]

theorem saved_of_refuses (hu : r.user ≠ none) (hr : r.role ∈ canWriteKeys) (hb : r.body = .obj body)
    {db : Db}
    (h : Refuses F r body db) : saved F r db =
    (passed r (limitFields F body)).filterMap (stored r) := by
  unfold saved
  rw [if_neg (not_or.mpr ⟨hu, not_not.mpr hr⟩), hb]
  simp only
  rcases h with ⟨p, error, he, hs⟩ | ⟨he, v, state, hv, ht, hstate, hc⟩
  · rw [he]
    simp [stored, hs]
  · rw [he]
    simp only
    have hflag : flagSaved F r (store db ((passed r (limitFields F body)).filterMap (stored r))) =
        [] := by
      have hblock : (v.truthy && !(state.capsConfigured && state.keyPresent)) = true := by
        rw [ht, hc]
        rfl
      unfold flagSaved savesFlag
      rw [passed_of_none he, hb]
      simp only
      rw [hv, hstate]
      simp only
      rw [if_pos hblock]
    rw [hflag, List.append_nil]

theorem refused_iff_obj (hu : r.user ≠ none) (hr : r.role ∈ canWriteKeys) (hb : r.body = .obj body)
    (at' : String → Int)
    (base : Db) (rows : List SettingRow) (h : Refuses F r body (withRows base rows)) :
    tableAfter F r at' base rows = rows ↔
      ∀ p ∈ passed r (limitFields F body), ∀ s ∈ stored r p,
        lookup rows s.1 = some (rowFor r at' s) := by
  have hkeys : (((passed r (limitFields F body)).filterMap (stored r)).map (rowFor r at')).map
      (·.key) =
      ((passed r (limitFields F body)).filterMap (stored r)).map (·.1) := by
    rw [List.map_map]
    rfl
  have hnodup :=
    nodup_stored (r := r) (limitFields_nodup.sublist
      (((List.takeWhile_sublist (passes r)).map (·.1)) :
    ((passed r (limitFields F body)).map (·.1)).Sublist _))
  have hfold : tableAfter F r at' base rows =
      (((passed r (limitFields F body)).filterMap (stored r)).map (rowFor r at')).foldl putRow
        rows := by
    unfold tableAfter
    rw [saved_of_refuses hu hr hb h, List.foldl_map]
  rw [hfold, foldl_putRow_iff (by rw [hkeys]; exact hnodup)]
  constructor
  · intro hall p hp s hs
    exact hall _ (List.mem_map_of_mem (List.mem_filterMap.mpr ⟨p, hp, hs⟩))
  · intro hall new hnew
    obtain ⟨s, hs, rfl⟩ := List.mem_map.mp hnew
    obtain ⟨p, hp, hps⟩ := List.mem_filterMap.mp hs
    exact hall p hp s hps

theorem post_not_obj (hno : ¬ ((r.user ≠ none ∧ r.role ∈ canWriteKeys) ∧ ∃ body,
    r.body = .obj body)) (at' : String → Int)
    (base : Db) (rows : List SettingRow) : tableAfter F r at' base rows = rows := by
  unfold tableAfter saved
  split
  · rfl
  next hauth =>
    obtain ⟨hu, hr⟩ := not_or.mp hauth
    cases hb : r.body with
    | obj body => exact absurd ⟨⟨hu, not_not.mp hr⟩, body, hb⟩ hno
    | _ => rfl

end Refusals

/-- A refused request leaves the settings as they were exactly when no field that
it changes comes before the one that is refused. -/
theorem refused_unchanged_iff (F : Floats) (r : Request) (at' : String → Int) (base : Db)
    (rows : List SettingRow) :
    RefusedUnchanged F r at' base rows ↔ NothingBefore F r at' base rows := by
  constructor
  · intro h hu hr body hb href
    obtain ⟨status, error, gates, hreply, hstatus⟩ := (post_obj hu hr hb _).mpr href
    exact (refused_iff_obj hu hr hb at' base rows href).mp (h status error gates hreply hstatus)
  · intro h status error gates hreply hstatus
    by_cases hobj : (r.user ≠ none ∧ r.role ∈ canWriteKeys) ∧ ∃ body, r.body = .obj body
    · obtain ⟨⟨hu, hr⟩, body, hb⟩ := hobj
      have href := (post_obj hu hr hb _).mp ⟨status, error, gates, hreply, hstatus⟩
      exact (refused_iff_obj hu hr hb at' base rows href).mpr (h hu hr body hb href)
    · exact post_not_obj hobj at' base rows

def wholeFloats : Floats := ⟨fun _ => none, fun n => some (.fin n), fun _ => "5.0"⟩

def halfRight : Request where
  user := some "admin"
  role := "Admin"
  body := .obj [("daily_cap_usd", .int 5), ("monthly_cap_usd", .int (-1))]
  reads := allDone
  writes := fun _ => .done

/-- The daily cap is stored though the request is refused. -/
theorem refused_with_change : ¬ ∀ (F : Floats) (r : Request) (at' : String → Int) (base :
    Db) (rows : List SettingRow),
    RefusedUnchanged F r at' base rows := by
  intro h
  have hkept :=
    h wholeFloats halfRight (fun _ => 0) freshDb [] 400
      "monthly_cap_usd must be a non-negative number" []
    rfl (.inl rfl)
  have hafter : tableAfter wholeFloats halfRight (fun _ => 0) freshDb [] =
      [⟨dailyKey, "5.0", some 0, some "admin"⟩] := rfl
  rw [hafter] at hkept
  cases hkept

end ServerManager.RefusedSettings
