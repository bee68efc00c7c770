import ServerManager.Effects
import Mathlib.Data.List.Sort

namespace ServerManager.FleetDb

open PyJson Effects

structure HostRow where
  hostId : Int
  name : String
  guestIp : String
  desiredPowerState : String
  managementMode : String
  desiredServiceState : String
  deriving DecidableEq, Repr

/-- A row of `model_registry` without its id and its timestamps, which no code reads. -/
structure ModelRow where
  logicalModelName : String
  hostId : Option Int
  engine : Option String
  backendUrl : Option String
  contextLimit : Option Int
  health : Option String
  routable : Option Bool
  isAlias : Option Bool
  aliasTarget : Option String
  deriving DecidableEq, Repr

/-- `created_at` in microseconds. -/
structure RecoveryEvent where
  ip : String
  eventType : String
  detail : String
  createdAt : Int
  deriving DecidableEq, Repr

/-- `UNIQUE (logical_model_name, host_id)`, where PostgreSQL takes two `NULL`s as distinct. -/
def ModelRow.Apart (r s : ModelRow) : Prop :=
  r.hostId = none ∨ r.logicalModelName ≠ s.logicalModelName ∨ r.hostId ≠ s.hostId

instance (r s : ModelRow) : Decidable (r.Apart s) :=
  inferInstanceAs (Decidable (_ ∨ _ ∨ _))

/-- The tables with their keys and the reference from `model_registry` to `hosts`. -/
structure Db where
  hosts : List HostRow
  models : List ModelRow
  settings : List (String × String)
  events : List RecoveryEvent
  hostKey : (hosts.map HostRow.hostId).Nodup
  ipKey : (hosts.map HostRow.guestIp).Nodup
  modelKey : models.Pairwise ModelRow.Apart
  hostRef : ∀ r ∈ models, ∀ h ∈ r.hostId, h ∈ hosts.map HostRow.hostId

/-- What psycopg2, SQLAlchemy and the server add to a statement: the text stored
for a value bound to the column `logical_model_name` and the number stored for
one bound to `context_limit`, or the error the statement ends with; the
collation of `ORDER BY`; and the exception SQLAlchemy raises for one of
psycopg2's. The name column is `NOT NULL`. -/
structure Driver where
  text : Json → Except PyExc String
  int : Json → Except PyExc (Option Int)
  le : String → String → Bool
  wrap : PyExc → PyExc
  text_null : ∀ s, text .null ≠ .ok s

def plainDriver : Driver where
  text
    | .str s => .ok s
    | .null => .error ⟨.other "NotNullViolation", "null value in column \"logical_model_name\""⟩
    | _ => .error ⟨.other "ProgrammingError", "can't adapt type"⟩
  int
    | .int n => .ok (some n)
    | .null => .ok none
    | _ => .error ⟨.other "ProgrammingError", "can't adapt type"⟩
  le a b := decide (a ≤ b)
  wrap x := ⟨x.cls, "(psycopg2." ++ x.cls.name ++ ") " ++ x.msg⟩
  text_null := nofun

def ModelRow.at (r : ModelRow) (name : String) (hid : Int) : Bool :=
  r.logicalModelName == name && r.hostId == some hid

/-- The columns of `ON CONFLICT … DO UPDATE SET`. -/
def ModelRow.refresh (r new : ModelRow) : ModelRow :=
  { r with engine := new.engine, backendUrl := new.backendUrl, contextLimit := new.contextLimit
           health := new.health, routable := new.routable }

def upsertRows (models : List ModelRow) (new : ModelRow) (hid : Int) : List ModelRow :=
  if models.any (·.at new.logicalModelName hid) then
    models.map (fun r => if r.at new.logicalModelName hid then r.refresh new else r)
  else models ++ [new]

def markRows (models : List ModelRow) (hid : Int) (health : String) : List ModelRow :=
  models.map (fun r => if r.hostId == some hid
    then { r with health := some health, routable := some false } else r)

inductive HostColumn
  | desiredPowerState
  | managementMode
  deriving DecidableEq, Repr

def HostRow.set (h : HostRow) (column : HostColumn) (value : String) : HostRow :=
  match column with
  | .desiredPowerState => { h with desiredPowerState := value }
  | .managementMode => { h with managementMode := value }

def setHosts (hosts : List HostRow) (ip : String) (column : HostColumn) (value : String) :
    List HostRow :=
  hosts.map (fun h => if h.guestIp == ip then h.set column value else h)

@[simp] theorem HostRow.set_hostId (h : HostRow) (c : HostColumn) (v : String) :
    (h.set c v).hostId = h.hostId := by
  cases c <;> rfl

@[simp] theorem HostRow.set_guestIp (h : HostRow) (c : HostColumn) (v : String) :
    (h.set c v).guestIp = h.guestIp := by
  cases c <;> rfl

theorem ModelRow.at_iff {r : ModelRow} {name : String} {hid : Int} :
    r.at name hid = true ↔ r.logicalModelName = name ∧ r.hostId = some hid := by
  simp [ModelRow.at]

theorem apart_map {models : List ModelRow} {f : ModelRow → ModelRow}
    (hn : ∀ r, (f r).logicalModelName = r.logicalModelName) (hh : ∀ r, (f r).hostId = r.hostId)
    (h : models.Pairwise ModelRow.Apart) : (models.map f).Pairwise ModelRow.Apart := by
  refine List.pairwise_map.mpr (h.imp ?_)
  intro r s hrs
  simpa only [ModelRow.Apart, hn, hh] using hrs

theorem ref_map {models : List ModelRow} {f : ModelRow → ModelRow} {ids : List Int}
    (hh : ∀ r, (f r).hostId = r.hostId) (h : ∀ r ∈ models, ∀ i ∈ r.hostId, i ∈ ids) :
    ∀ r ∈ models.map f, ∀ i ∈ r.hostId, i ∈ ids := by
  intro r hr
  obtain ⟨s, hs, rfl⟩ := List.mem_map.mp hr
  rw [hh]
  exact h s hs

theorem upsertRows_apart {models : List ModelRow} {new : ModelRow} {hid : Int}
    (hnew : new.hostId = some hid)
    (h : models.Pairwise ModelRow.Apart) : (upsertRows models new hid).Pairwise ModelRow.Apart := by
  unfold upsertRows
  split
  · refine apart_map ?_ ?_ h
    · intro r
      split <;> rfl
    · intro r
      split <;> rfl
  next hany =>
    refine List.pairwise_append.mpr ⟨h, List.pairwise_singleton _ _, ?_⟩
    intro r hr s hs
    rw [List.mem_singleton.mp hs]
    have hr' : ¬ (r.logicalModelName = new.logicalModelName ∧ r.hostId = some hid) := by
      intro hk
      exact hany (List.any_eq_true.mpr ⟨r, hr, ModelRow.at_iff.mpr hk⟩)
    rw [← hnew] at hr'
    rcases not_and_or.mp hr' with hk | hk
    · exact .inr (.inl hk)
    · exact .inr (.inr hk)

theorem upsertRows_ref {models : List ModelRow} {new : ModelRow} {hid : Int} {ids : List Int}
    (hnew : new.hostId = some hid) (hid' : hid ∈ ids) (h : ∀ r ∈ models, ∀ i ∈ r.hostId, i ∈ ids) :
    ∀ r ∈ upsertRows models new hid, ∀ i ∈ r.hostId, i ∈ ids := by
  unfold upsertRows
  split
  · refine ref_map ?_ h
    intro r
    split <;> rfl
  · intro r hr i hi
    rcases List.mem_append.mp hr with hr | hr
    · exact h r hr i hi
    · rw [List.mem_singleton.mp hr, hnew] at hi
      rwa [← Option.mem_some.mp hi]

theorem setHosts_ids (hosts : List HostRow) (ip : String) (c : HostColumn) (v : String) :
    (setHosts hosts ip c v).map HostRow.hostId = hosts.map HostRow.hostId := by
  unfold setHosts
  rw [List.map_map]
  refine List.map_congr_left fun h _ => ?_
  simp only [Function.comp]
  split
  · exact h.set_hostId c v
  · rfl

theorem setHosts_ips (hosts : List HostRow) (ip : String) (c : HostColumn) (v : String) :
    (setHosts hosts ip c v).map HostRow.guestIp = hosts.map HostRow.guestIp := by
  unfold setHosts
  rw [List.map_map]
  refine List.map_congr_left fun h _ => ?_
  simp only [Function.comp]
  split
  · exact h.set_guestIp c v
  · rfl

namespace Db

/-- A row built for the host `hid`. -/
def modelFor (name : String) (hid : Int) (engine backendUrl : String) (limit : Option Int)
    (health : String)
    (routable : Bool) : ModelRow :=
  { logicalModelName := name, hostId := some hid, engine := some engine, backendUrl := some backendUrl
    contextLimit := limit, health := some health, routable := some routable, isAlias := some false
    aliasTarget := none }

def aliasFor (name target health : String) (backendUrl : Option String) (routable : Bool) :
    ModelRow :=
  { logicalModelName := name, hostId := none, engine := some "alias", backendUrl := backendUrl
    contextLimit := none, health := some health, routable := some routable, isAlias := some true
    aliasTarget := some target }

def upsert (db : Db) (new : ModelRow) (hid : Int) (hnew : new.hostId = some hid)
    (href : hid ∈ db.hosts.map HostRow.hostId) : Db :=
  { db with
    models := upsertRows db.models new hid
    modelKey := upsertRows_apart hnew db.modelKey
    hostRef := upsertRows_ref hnew href db.hostRef }

def mark (db : Db) (hid : Int) (health : String) : Db :=
  { db with
    models := markRows db.models hid health
    modelKey := apart_map (fun r => by split <;> rfl) (fun r => by split <;> rfl) db.modelKey
    hostRef := ref_map (fun r => by split <;> rfl) db.hostRef }

def deleteAliases (db : Db) : Db :=
  { db with
    models := db.models.filter (fun r => r.isAlias != some true)
    modelKey := db.modelKey.filter _
    hostRef := fun r hr => db.hostRef r (List.mem_of_mem_filter hr) }

/-- `ON CONFLICT … DO NOTHING` never applies: the host of an alias is `NULL`. -/
def insertAlias (db : Db) (name target health : String) (backendUrl : Option String)
    (routable : Bool) : Db :=
  { db with
    models := db.models ++ [aliasFor name target health backendUrl routable]
    modelKey :=
      List.pairwise_append.mpr ⟨db.modelKey, List.pairwise_singleton _ _, fun r _ s hs => by
      rw [List.mem_singleton.mp hs]
      by_cases hr : r.hostId = none
      · exact .inl hr
      · exact .inr (.inr hr)⟩
    hostRef := fun r hr i hi => by
      rcases List.mem_append.mp hr with hr | hr
      · exact db.hostRef r hr i hi
      · rw [List.mem_singleton.mp hr] at hi
        cases hi }

def setHost (db : Db) (ip : String) (column : HostColumn) (value : String) : Db :=
  { db with
    hosts := setHosts db.hosts ip column value
    hostKey := by rw [setHosts_ids]; exact db.hostKey
    ipKey := by rw [setHosts_ips]; exact db.ipKey
    hostRef := by rw [setHosts_ids]; exact db.hostRef }

def insertEvent (db : Db) (ev : RecoveryEvent) : Db := { db with events := db.events ++ [ev] }

end Db

inductive Stmt
  | hostInventory
  | hostFlags (hid : Int)
  | upsertModel (name : Json) (hid : Int) (engine backendUrl : String) (limit : Json)
      (health : String)
      (routable : Bool)
  | markHost (hid : Int) (health : String)
  | aliasSetting
  | deleteAliases
  | countRoutable (target : String)
  | insertAlias (name target health : String) (backendUrl : Option String) (routable : Bool)
  | routableNames
  | tickHosts
  | updateHost (ip : String) (column : HostColumn) (value : String)
  | insertEvent (ip eventType detail : String)
  | hostState (ip : String)
  | desiredState (ip : String)
  | countEvents (ip eventType : String) (minutes : Nat)
  | localBackends
  | fallbackSetting
  | aliasRows
  | targetBackends

@[reducible] def Stmt.Rows : Stmt → Type
  | .hostInventory => List (Int × String × String)
  | .hostFlags _ => Option (String × String)
  | .aliasSetting => Option String
  | .countRoutable _ => Nat
  | .routableNames => List String
  | .tickHosts => List HostRow
  | .hostState _ => Option (String × String × String)
  | .desiredState _ => Option String
  | .countEvents .. => Nat
  | .localBackends => List (String × String × Option String)
  | .fallbackSetting => Option String
  | .aliasRows => List (String × Option String)
  | .targetBackends => List (String × String)
  | _ => Unit

def minute : Int := 60000000

def Db.setting (db : Db) (key : String) : Option String :=
  (db.settings.find? (·.1 == key)).map (·.2)

def Db.host (db : Db) (hid : Int) : Option HostRow := db.hosts.find? (·.hostId == hid)

def Db.hostAt (db : Db) (ip : String) : Option HostRow := db.hosts.find? (·.guestIp == ip)

def Db.recent (db : Db) (ip eventType : String) (since : Int) : Nat :=
  db.events.countP (fun ev => ev.ip == ip && ev.eventType == eventType &&
    decide (since < ev.createdAt))

/-- `model_registry r JOIN hosts h ON h.host_id = r.host_id WHERE r.routable = TRUE AND r.is_alias =
FALSE`. -/
def Db.backends (db : Db) : List (ModelRow × HostRow) :=
  db.models.flatMap (fun r =>
    if r.routable == some true && r.isAlias == some false then
      (db.hosts.filter (fun h => r.hostId == some h.hostId)).map (fun h => (r, h))
    else [])

def foreignKeyViolation (hid : Int) : PyExc :=
  ⟨.other "ForeignKeyViolation",
    "insert or update on table \"model_registry\" violates foreign key constraint \"model_registry_host_id_fkey\"\n" ++
      s!"DETAIL:  Key (host_id)=({hid}) is not present in table \"hosts\".\n"⟩

/-- `ORDER BY` two text columns. -/
def Driver.le2 (drv : Driver) (a b : String × String) : Prop :=
  if a.1 = b.1 then drv.le a.2 b.2 = true else drv.le a.1 b.1 = true

instance (drv : Driver) : DecidableRel drv.le2 := fun a b =>
  inferInstanceAs (Decidable (if a.1 = b.1 then drv.le a.2 b.2 = true else drv.le a.1 b.1 = true))

/-- One statement at the time `now()`. -/
def exec (drv : Driver) (now : Int) (db : Db) : (s : Stmt) → Except PyExc (s.Rows × Db)
  | .hostInventory =>
      .ok ((db.hosts.insertionSort (fun a b => a.hostId ≤ b.hostId)).map
        (fun h => (h.hostId, h.guestIp, h.name)), db)
  | .hostFlags hid => .ok ((db.host hid).map (fun h => (h.desiredPowerState, h.managementMode)), db)
  | .upsertModel name hid engine backendUrl limit health routable => do
      let name ← drv.text name
      let limit ← drv.int limit
      if href : hid ∈ db.hosts.map HostRow.hostId then
        pure ((), db.upsert (Db.modelFor name hid engine backendUrl limit health routable) hid rfl
          href)
      else .error (foreignKeyViolation hid)
  | .markHost hid health => .ok ((), db.mark hid health)
  | .aliasSetting => .ok (db.setting "v011.role_aliases.enabled", db)
  | .deleteAliases => .ok ((), db.deleteAliases)
  | .countRoutable target =>
      .ok (db.models.countP (fun r => r.logicalModelName == target && r.routable == some true), db)
  | .insertAlias name target health backendUrl routable =>
      .ok ((), db.insertAlias name target health backendUrl routable)
  | .routableNames =>
      .ok (((db.models.filter (fun r => r.routable == some true)).map (·.logicalModelName)).dedup,
        db)
  | .tickHosts => .ok (db.hosts.insertionSort (fun a b => drv.le a.guestIp b.guestIp = true), db)
  | .updateHost ip column value => .ok ((), db.setHost ip column value)
  | .insertEvent ip eventType detail => .ok ((), db.insertEvent ⟨ip, eventType, detail, now⟩)
  | .hostState ip =>
      .ok ((db.hostAt ip).map (fun h => (h.guestIp, h.desiredPowerState, h.managementMode)), db)
  | .desiredState ip => .ok ((db.hostAt ip).map (·.desiredPowerState), db)
  | .countEvents ip eventType minutes => .ok (db.recent ip eventType (now - minutes * minute), db)
  | .localBackends =>
      .ok ((db.backends.insertionSort (fun a b =>
        drv.le2 (a.2.guestIp, a.1.logicalModelName) (b.2.guestIp, b.1.logicalModelName))).map
          (fun p => (p.1.logicalModelName, p.2.guestIp, p.1.engine)), db)
  | .fallbackSetting => .ok (db.setting "openrouter.fallback_enabled", db)
  | .aliasRows =>
      .ok ((db.models.filter (fun r => r.isAlias == some true && r.routable == some true)).map
        (fun r => (r.logicalModelName, r.aliasTarget)), db)
  | .targetBackends =>
      .ok ((db.backends.insertionSort (fun a b =>
        drv.le2 (a.1.logicalModelName, a.2.guestIp) (b.1.logicalModelName, b.2.guestIp))).map
          (fun p => (p.1.logicalModelName, p.2.guestIp)), db)

end ServerManager.FleetDb
