import ServerManager.ActivePlacement

namespace ServerManager.FallbackCache

open Interaction ActivePlacement

/-- A call, the time it reads and whether it can read the database. -/
structure Lookup where
  physicalHost : String
  fallback : Option String
  now : ℚ
  readable : Bool
  deriving DecidableEq

def Lookup.answer (c : Lookup) (w : World) : (e : Eff) → Ans e × World
  | .clock => (c.now, w)
  | .cacheGet h => (w.cache h, w)
  | .cachePut h ip ts => ((), w.put h ip ts)
  | .cachePop h => ((), w.pop 0 h)
  | .readRow h => (if c.readable then some (w.table h) else none, w)
  | .commitRow .. => (.unavailable, w)

def Lookup.serve (c : Lookup) (w : World) : Except Empty Result × World :=
  run c.answer (activeIpFor c.physicalHost c.fallback) w

def after (table : String → Option String) (calls : List Lookup) : World :=
  calls.foldl (fun w c => (c.serve w).2) (World.fresh table)

def cached (filled : String → Option Lookup) (c : Lookup) : Option Lookup :=
  (filled c.physicalHost).filter (fun f => decide (c.now - f.now < cacheTtl))

/-- The calls that have filled the cache, which the hosts and the times of the
calls determine. -/
def fillWith (filled : String → Option Lookup) (c : Lookup) : String → Option Lookup :=
  if (cached filled c).isSome then filled else Function.update filled c.physicalHost (some c)

def filledBy (calls : List Lookup) : String → Option Lookup := calls.foldl fillWith (fun _ => none)

/-- The call that has filled the cache when this one returns. -/
def filler (filled : String → Option Lookup) (c : Lookup) : Lookup := (cached filled c).getD c

/-- The address of the host, where the call that filled the cache could read it. -/
def rowFor (table : String → Option String) (filled : String → Option Lookup) (c : Lookup) :
    Option String :=
  if (filler filled c).readable then table c.physicalHost else none

/-- Each call of the sequence returns what it is to return. -/
def OwnFallback (table : String → Option String) (calls : List Lookup) : Prop :=
  ∀ before c later, calls = before ++ c :: later →
    (c.serve (after table before)).1 = .ok (.ip (rowFor table (filledBy before) c <|> c.fallback))

/-- A call that finds an answer in the cache has the fallback of the call that
put it there, or that one has read a row. -/
def SharedFallback (table : String → Option String) (calls : List Lookup) : Prop :=
  ∀ before c later, calls = before ++ c :: later → ∀ f ∈ cached (filledBy before) c,
    (f.readable = true ∧ table c.physicalHost ≠ none) ∨ f.fallback = c.fallback

def Lookup.result (table : String → Option String) (c : Lookup) : Option String :=
  (if c.readable then table c.physicalHost else none) <|> c.fallback

/-- Each entry is what the call that filled it has returned. -/
structure Holds (table : String → Option String) (filled : String → Option Lookup) (w : World) :
    Prop where
  stored : w.table = table
  cache : ∀ h, w.cache h = (filled h).map (fun f => (f.result table, f.now))
  host : ∀ h, ∀ f ∈ filled h, f.physicalHost = h

theorem holds_fresh (table : String → Option String) :
    Holds table (fun _ => none) (World.fresh table) := ⟨rfl, fun _ => rfl, nofun⟩

theorem Holds.fill {table : String → Option String} {filled : String → Option Lookup} {w : World}
    (h : Holds table filled w)
    (c : Lookup) : Holds table (Function.update filled c.physicalHost (some c))
    (w.put c.physicalHost (c.result table) c.now) := by
  refine ⟨h.stored, fun k => ?_, fun k f hf => ?_⟩
  · by_cases hk : k = c.physicalHost
    · subst hk
      have hput : (w.put c.physicalHost (c.result table) c.now).cache c.physicalHost =
          some (c.result table, c.now) :=
        Function.update_self ..
      rw [hput, Function.update_self]
      rfl
    · have hput : (w.put c.physicalHost (c.result table) c.now).cache k = w.cache k :=
        Function.update_of_ne hk ..
      rw [hput, Function.update_of_ne hk]
      exact h.cache k
  · by_cases hk : k = c.physicalHost
    · subst hk
      rw [Function.update_self] at hf
      exact Option.some.inj hf ▸ rfl
    · rw [Function.update_of_ne hk] at hf
      exact h.host k f hf

theorem Holds.serve {table : String → Option String} {filled : String → Option Lookup} {w : World}
    (h : Holds table filled w)
    (c : Lookup) :
    (c.serve w).1 = .ok (.ip ((filler filled c).result table)) ∧
    Holds table (fillWith filled c) (c.serve w).2 := by
  have hmiss : run c.answer (ActivePlacement.fill c.physicalHost c.fallback c.now) w =
      (.ok (.ip (c.result table)), w.put c.physicalHost (c.result table) c.now) := by
    have hrow : ((if c.readable then some (w.table c.physicalHost) else none).join <|> c.fallback) =
        c.result table := by
      rw [h.stored]
      unfold Lookup.result
      cases c.readable with
      | true => rfl
      | false => rfl
    unfold ActivePlacement.fill
    simp only [Lookup.answer, run]
    rw [hrow]
  have hlook : c.serve w = run c.answer (lookUp c.physicalHost c.fallback c.now) w := rfl
  have hcache := h.cache c.physicalHost
  unfold filler fillWith cached
  rw [hlook]
  unfold lookUp
  simp only [run_call, Lookup.answer]
  rw [hcache]
  cases hf : filled c.physicalHost with
  | none =>
      simp only [Option.map_none, Option.filter_none, Option.getD_none, Option.isSome_none,
        Bool.false_eq_true, if_false]
      rw [hmiss]
      exact ⟨rfl, h.fill c⟩
  | some f =>
      simp only [Option.map_some]
      by_cases hfresh : c.now - f.now < cacheTtl
      · rw [if_pos hfresh, Option.filter_some, if_pos (decide_eq_true hfresh)]
        exact ⟨rfl, h⟩
      · rw [if_neg hfresh, Option.filter_some, if_neg (by simpa using hfresh), hmiss]
        exact ⟨rfl, h.fill c⟩

theorem holds_after (table : String → Option String) (calls : List Lookup) :
    Holds table (filledBy calls) (after table calls) := by
  have hfold : ∀ (calls : List Lookup) {filled : String → Option Lookup} {w : World},
      Holds table filled w →
      Holds table (calls.foldl fillWith filled) (calls.foldl (fun w c => (c.serve w).2) w) := by
    intro calls
    induction calls with
    | nil => exact fun h => h
    | cons c calls ih => exact fun h => ih (h.serve c).2
  exact hfold calls (holds_fresh table)

theorem serve_iff {table : String → Option String} {filled : String → Option Lookup} {w : World}
    (h : Holds table filled w)
    (c : Lookup) :
    (c.serve w).1 = .ok (.ip (rowFor table filled c <|> c.fallback)) ↔
      ∀ f ∈ cached filled c, (f.readable = true ∧ table c.physicalHost ≠ none) ∨
        f.fallback = c.fallback := by
  rw [(h.serve c).1]
  unfold rowFor filler
  cases hc : cached filled c with
  | none =>
      rw [Option.getD_none]
      exact iff_of_true rfl nofun
  | some f =>
      have hhost : f.physicalHost = c.physicalHost := h.host _ f (Option.filter_eq_some_iff.mp hc).1
      simp only [Option.getD_some, Lookup.result, hhost, Except.ok.injEq, Result.ip.injEq,
        Option.mem_def, Option.some.injEq,
        forall_eq']
      by_cases hr : f.readable = true
      · cases table c.physicalHost with
        | none => simp [hr]
        | some ip => simp [hr]
      · simp [hr]

/-- Every call answers from the table or with its own fallback exactly when no
call finds the other fallback of an earlier one. -/
theorem own_fallback_iff (table : String → Option String) (calls : List Lookup) :
    OwnFallback table calls ↔ SharedFallback table calls := by
  constructor
  · intro h before c later he
    exact (serve_iff (holds_after table before) c).mp (h before c later he)
  · intro h before c later he
    exact (serve_iff (holds_after table before) c).mpr (h before c later he)

/-- Two calls within a second, for a host that has no row. -/
def twoFallbacks : List Lookup :=
  [⟨"MIAM-00111", some "10.0.20.168", 0, true⟩, ⟨"MIAM-00111", none, 1, true⟩]

theorem foreign_fallback : ¬ ∀ (table : String → Option String) (calls : List Lookup),
    OwnFallback table calls := by
  intro hall
  have hserve :=
    hall (fun _ => none) twoFallbacks [⟨"MIAM-00111", some "10.0.20.168", 0, true⟩]
      ⟨"MIAM-00111", none, 1, true⟩ [] rfl
  rw [((holds_after _ _).serve _).1] at hserve
  have hip := Result.ip.inj (Except.ok.inj hserve)
  revert hip
  decide +kernel

end ServerManager.FallbackCache
