import ServerManager.Doubles
import ServerManager.PyJson

namespace ServerManager.RoutingLog

open PyJson
open Doubles (double)

structure Usage where
  promptTokens : Option Int
  completionTokens : Option Int

structure Event where
  kwargs : Dict
  usage : Option Usage
  id : Option String
  /-- In microseconds. -/
  elapsed : Int

/-- A row of `request_routing_log`. -/
structure Row where
  requestId : Option String
  model : Json
  apiBase : Json
  promptTokens : Int
  completionTokens : Int
  latencyMs : Int
  keyAlias : Option String

/-- `.get` is there on dictionaries only. -/
def asDict : Json → Option Dict
  | .obj fields => some fields
  | _ => none

def get (d : Dict) (key : String) : Json := (Dict.get? d key).getD .null

def apiBaseOf (kwargs : Dict) : Option Json := do
  let lit ← asDict ((get kwargs "litellm_params").orElse (.obj []))
  pure (((get lit "api_base").orElse (get kwargs "api_base")).orElse (.str ""))

/-- A value that is there has to be a dictionary, also if it is `None`. -/
def keyHashOf (kwargs : Dict) : Option Json := do
  let lit ← asDict ((Dict.get? kwargs "litellm_params").getD (.obj []))
  let metadata ← asDict ((Dict.get? lit "metadata").getD (.obj []))
  let hash := get metadata "user_api_key_hash"
  if hash.truthy then pure hash
  else
    let metadata ← asDict ((get kwargs "metadata").orElse (.obj []))
    pure (get metadata "user_api_key_hash")

/-- `_alias`. -/
def aliasOf (apiKey : Json) : Option (Option String) :=
  match apiKey.orElse (.str "") with
  | .str "" => some none
  | .str s => some (some (String.ofList (s.toList.take 12)))
  | _ => none

/-- `int(elapsed.total_seconds() * 1000)`. -/
def latencyOf (elapsed : Int) : Int :=
  let ms := double (double (elapsed / 1000000) * 1000)
  ms.num.tdiv ms.den

/-- What is read before the connection is asked for: the row but for its alias, and the key's
hash. -/
def fieldsOf (e : Event) : Option ((Option String → Row) × Json) := do
  let apiBase ← apiBaseOf e.kwargs
  let keyHash ← keyHashOf e.kwargs
  let row (keyAlias : Option String) : Row :=
    { requestId := e.id
      model := (get e.kwargs "model").orElse (.str "")
      apiBase := apiBase
      promptTokens := (e.usage.bind (·.promptTokens)).getD 0
      completionTokens := (e.usage.bind (·.completionTokens)).getD 0
      latencyMs := latencyOf e.elapsed
      keyAlias := keyAlias }
  pure (row, keyHash)

def rowOf (e : Event) : Option Row := do
  let (row, keyHash) ← fieldsOf e
  (aliasOf keyHash).map row

/-- What the name `_conn` stands for: the function that is defined last, or what the function
assigns. -/
inductive Global
  | function
  | none
  | connection (c : Nat)
  deriving DecidableEq

structure Process where
  conn : Global
  log : List Row
  /-- Connections opened so far. -/
  opened : Nat

def loaded (log : List Row) : Process := ⟨.function, log, 0⟩

structure Moment where
  /-- The credentials can be read and the database can be reached. -/
  connects : Bool
  /-- The same, for the call in the handler of exceptions. -/
  connectsAgain : Bool
  /-- A connection from before has not been lost. -/
  alive : Bool
  insert : Bool
  commit : Bool

/-- `_conn = None`, and then a new connection or an exception. -/
def reconnect (connects : Bool) (p : Process) : Process × Option Nat :=
  if connects then ({ p with conn := .connection p.opened, opened := p.opened + 1 }, some p.opened)
  else ({ p with conn := .none }, none)

/-- The body of `_conn`. -/
def connBody (connects alive : Bool) (p : Process) : Process × Option Nat :=
  match p.conn with
  | .connection c => if alive then (p, some c) else reconnect connects p
  | .none => reconnect connects p
  -- a function has no cursor, which is taken for a lost connection
  | .function => reconnect connects p

/-- `_conn()`: anything but a function cannot be called. -/
def callConn (connects alive : Bool) (p : Process) : Process × Option Nat :=
  match p.conn with
  | .function => connBody connects alive p
  | _ => (p, none)

/-- `_conn().rollback()`, and whatever it raises is dropped. -/
def onException (m : Moment) (p : Process) : Process := (callConn m.connectsAgain m.alive p).1

/-- `log_success_event`, also for `async_log_success_event`. -/
def logSuccessEvent (m : Moment) (e : Event) (p : Process) : Process :=
  match fieldsOf e with
  | none => onException m p
  | some (row, keyHash) =>
      match callConn m.connects m.alive p with
      | (p, none) => onException m p
      | (p, some _) =>
          match aliasOf keyHash with
          | none => onException m p
          | some keyAlias =>
              if m.insert && m.commit then { p with log := p.log ++ [row keyAlias] }
                else onException m p

def run (p : Process) (events : List (Moment × Event)) : Process :=
  events.foldl (fun p s => logSuccessEvent s.1 s.2 p) p

/-- The database is there and takes what it is given; connections may have been lost. -/
structure Reachable (m : Moment) : Prop where
  connects : m.connects = true
  insert : m.insert = true
  commit : m.commit = true

/-- Every event has its row, in order, and only a lost connection makes for another one. -/
def Complete (old : List Row) (events : List (Moment × Event)) : Prop :=
  (∃ rows, (run (loaded old) events).log = old ++ rows ∧
    rows.map some = events.map (fun s => rowOf s.2)) ∧
    (run (loaded old) events).opened ≤ 1 + (events.tail.filter (fun s => !s.1.alive)).length

theorem callConn_once (connects alive : Bool) (p : Process) :
    (callConn connects alive p).1.conn ≠ .function := by
  obtain ⟨conn, log, opened⟩ := p
  cases conn with
  | function =>
      cases connects with
      | false => exact nofun
      | true => exact nofun
  | none => exact nofun
  | connection c => exact nofun

theorem callConn_log (connects alive : Bool) (p : Process) :
    (callConn connects alive p).1.log = p.log := by
  obtain ⟨conn, log, opened⟩ := p
  cases conn with
  | function =>
      cases connects with
      | false => rfl
      | true => rfl
  | none => rfl
  | connection c => rfl

theorem callConn_stuck {p : Process} (h : p.conn ≠ .function) (connects alive : Bool) :
    callConn connects alive p = (p, none) := by
  obtain ⟨conn, log, opened⟩ := p
  cases conn with
  | function => exact absurd rfl h
  | none => rfl
  | connection c => rfl

theorem event_stuck {p : Process} (h : p.conn ≠ .function) (m : Moment) (e : Event) :
    logSuccessEvent m e p = p := by
  have hexc : onException m p = p := by rw [onException, callConn_stuck h]
  rw [logSuccessEvent, callConn_stuck h]
  cases fieldsOf e with
  | none => exact hexc
  | some f => exact hexc

theorem run_stuck {p : Process} (h : p.conn ≠ .function) (events : List (Moment × Event)) :
    run p events = p := by
  induction events with
  | nil => rfl
  | cons s events ih => rw [run, List.foldl_cons, event_stuck h, ← run, ih]

theorem event_once (m : Moment) (e : Event) (p : Process) :
    (logSuccessEvent m e p).conn ≠ .function := by
  have hexc : ∀ p, (onException m p).conn ≠ .function := fun p => callConn_once _ _ p
  rw [logSuccessEvent]
  cases fieldsOf e with
  | none => exact hexc p
  | some f =>
      have honce := callConn_once m.connects m.alive p
      cases hcall : callConn m.connects m.alive p with
      | mk q c =>
          rw [hcall] at honce
          cases c with
          | none => exact hexc q
          | some c =>
              cases halias : aliasOf f.2 with
              | none => simpa [halias] using hexc q
              | some keyAlias =>
                  by_cases hstored : (m.insert && m.commit) = true
                  · simpa [halias, hstored] using honce
                  · simpa [halias, hstored] using hexc q

theorem event_log (m : Moment) (e : Event) (p : Process) : (logSuccessEvent m e p).log = p.log ∨
    ∃ row, (logSuccessEvent m e p).log = p.log ++ [row] := by
  have hexc : ∀ p, (onException m p).log = p.log := fun p => callConn_log _ _ p
  rw [logSuccessEvent]
  cases fieldsOf e with
  | none => exact .inl (hexc p)
  | some f =>
      have hlog := callConn_log m.connects m.alive p
      cases hcall : callConn m.connects m.alive p with
      | mk q c =>
          rw [hcall] at hlog
          cases c with
          | none => exact .inl ((hexc q).trans hlog)
          | some c =>
              cases halias : aliasOf f.2 with
              | none => exact .inl (by simpa [halias] using (hexc q).trans hlog)
              | some keyAlias =>
                  by_cases hstored : (m.insert && m.commit) = true
                  · refine .inr ⟨f.1 keyAlias, ?_⟩
                    have hq : q.log = p.log := hlog
                    simp [halias, hstored, hq]
                  · exact .inl (by simpa [halias, hstored] using (hexc q).trans hlog)

theorem run_log (old : List Row) (events : List (Moment × Event)) :
    (run (loaded old) events).log = old ∨ ∃ row, (run (loaded old) events).log = old ++ [row] := by
  cases events with
  | nil => exact .inl rfl
  | cons s events =>
      have hrun : run (loaded old) (s :: events) = logSuccessEvent s.1 s.2 (loaded old) :=
        run_stuck (event_once _ _ _) events
      rw [hrun]
      exact event_log s.1 s.2 (loaded old)

theorem first_event {old : List Row} {m : Moment} {e : Event} {row : Row} (hm : Reachable m)
    (he : rowOf e = some row) :
    logSuccessEvent m e (loaded old) = ⟨.connection 0, old ++ [row], 1⟩ := by
  have hcall : callConn m.connects m.alive (loaded old) = (⟨.connection 0, old, 1⟩, some 0) := by
    rw [hm.connects]
    rfl
  obtain ⟨⟨f, keyHash⟩, hf, hrow⟩ := Option.bind_eq_some_iff.mp he
  obtain ⟨keyAlias, halias, rfl⟩ := Option.map_eq_some_iff.mp hrow
  rw [logSuccessEvent, hf]
  simp [hcall, halias, hm.insert, hm.commit]

/-- The log is complete exactly for one event or none. -/
theorem complete_iff (old : List Row) (events : List (Moment × Event))
    (hm : ∀ s ∈ events, Reachable s.1)
    (he : ∀ s ∈ events, (rowOf s.2).isSome = true) : Complete old events ↔ events.length ≤ 1 := by
  constructor
  · rintro ⟨⟨rows, hlog, hrows⟩, -⟩
    have hlen : rows.length = events.length := by simpa using congrArg List.length hrows
    rcases run_log old events with hnone | ⟨row, hone⟩
    · have hold := congrArg List.length (hnone.symm.trans hlog)
      rw [List.length_append] at hold
      omega
    · have hold := congrArg List.length (hone.symm.trans hlog)
      rw [List.length_append, List.length_append, List.length_singleton] at hold
      omega
  · intro hle
    match events with
    | [] => exact ⟨⟨[], (List.append_nil old).symm, rfl⟩, Nat.zero_le _⟩
    | [s] =>
        obtain ⟨row, hrow⟩ := Option.isSome_iff_exists.mp (he s List.mem_cons_self)
        have hrun : run (loaded old) [s] = ⟨.connection 0, old ++ [row], 1⟩ :=
          first_event (hm s List.mem_cons_self) hrow
        refine ⟨⟨[row], ?_, ?_⟩, ?_⟩
        · rw [hrun]
        · simp [hrow]
        · rw [hrun]
          simp
    | s :: t :: events => simp at hle

def chatEvent : Event where
  kwargs :=
    [("model", .str "code"), ("litellm_params",
    .obj [("api_base", .str "http://10.0.20.168:8000/v1")])]
  usage := some ⟨some 12, some 30⟩
  id := some "chatcmpl-1"
  elapsed := 1500000

def reached : Moment := ⟨true, true, true, true, true⟩

theorem reachable_reached : Reachable reached := ⟨rfl, rfl, rfl⟩

theorem one_event_complete : Complete [] [(reached, chatEvent)] := by
  refine (complete_iff [] [(reached, chatEvent)] ?_ ?_).mpr (Nat.le_refl 1)
  · intro s hs
    rw [List.mem_singleton.mp hs]
    exact reachable_reached
  · intro s hs
    rw [List.mem_singleton.mp hs]
    rfl

/-- The second of two events is dropped. -/
theorem second_event_lost : ¬ ∀ old events, (∀ s ∈ events, Reachable s.1) →
    (∀ s ∈ events, (rowOf s.2).isSome = true) →
    Complete old events := by
  intro hall
  have hm : ∀ s ∈ [(reached, chatEvent), (reached, chatEvent)], Reachable s.1 := by
    intro s hs
    simp only [List.mem_cons, List.not_mem_nil, or_false, or_self] at hs
    rw [hs]
    exact reachable_reached
  have he : ∀ s ∈ [(reached, chatEvent), (reached, chatEvent)], (rowOf s.2).isSome = true := by
    intro s hs
    simp only [List.mem_cons, List.not_mem_nil, or_false, or_self] at hs
    rw [hs]
    rfl
  obtain ⟨⟨rows, hlog, hrows⟩, -⟩ := hall [] _ hm he
  have hlen : rows.length = 2 := by simpa using congrArg List.length hrows
  have hone : (run (loaded []) [(reached, chatEvent), (reached, chatEvent)]).log.length = 1 := rfl
  rw [hlog, List.nil_append, hlen] at hone
  cases hone

end ServerManager.RoutingLog
