import ServerManager.PyText
import ServerManager.PyNumber

namespace ServerManager.SpendGuard

open PyText PyNumber

structure Caps where
  daily : Option PyFloat
  monthly : Option PyFloat
  warning : Option PyFloat
  deriving DecidableEq

def noCaps : Caps := ⟨none, none, none⟩

/-- The texts of the three rows of `manager_settings`, where there is one. -/
structure CapRows where
  daily : Option String
  monthly : Option String
  warning : Option String

/-- `_caps_cache` and `_caps_ts`. Whether the table was read is known to nobody. -/
structure Cached where
  caps : Caps
  ts : ℚ
  read : Bool

def capsTtl : ℚ := 30

inductive Database
  | app
  | spend
  deriving DecidableEq

/-- What a call finds: the time, the rows of the app database and the sums of
the spend log, or `none` where an error comes up. -/
structure Call where
  model : String
  now : ℚ
  capRows : Option CapRows
  spend : Option (PyFloat × PyFloat)

section Guard

variable (float : String → Option PyFloat)

def capsOf (rows : CapRows) : Caps :=
  ⟨rows.daily.bind float, rows.monthly.bind float, rows.warning.bind float⟩

/-- `_get_caps`, with the databases that it asks. -/
def getCaps (cache : Option Cached) (c : Call) : Cached × List Database :=
  match cache.filter (fun old => decide (c.now - old.ts < capsTtl)) with
  | some old => (old, [])
  | none =>
      match c.capRows with
      | some rows => (⟨capsOf float rows, c.now, true⟩, [.app])
      | none => (⟨noCaps, c.now, false⟩, [.app])

inductive Refusal
  | unreachable
  | monthlyCap (spent cap : PyFloat)
  | dailyCap (spent cap : PyFloat)
  deriving DecidableEq

/-- `"%.2f"` is `fixed`. -/
def Refusal.detail (fixed : PyFloat → String) : Refusal → String
  | .unreachable => "OpenRouter fallback unavailable: spend telemetry unreachable"
  | .monthlyCap spent cap =>
      "OpenRouter monthly spend cap reached ($" ++ fixed spent ++ "/$" ++ fixed cap ++ ")"
  | .dailyCap spent cap =>
      "OpenRouter daily spend cap reached ($" ++ fixed spent ++ "/$" ++ fixed cap ++ ")"

/-- What the hook does: it returns the arguments, perhaps with a warning in the
log, or raises. -/
inductive Outcome
  | returned (warned : Bool)
  | raised (r : Refusal)
  deriving DecidableEq

/-- `value >= cap` where there is a cap. -/
def reached (cap : Option PyFloat) (value : PyFloat) : Bool :=
  match cap with
  | some cap => cap.le value
  | none => false

def gate (caps : Caps) (daily monthly : PyFloat) : Outcome :=
  match caps.monthly.filter (·.le monthly) with
  | some cap => .raised (.monthlyCap monthly cap)
  | none =>
      match caps.daily.filter (·.le daily) with
      | some cap => .raised (.dailyCap daily cap)
      | none => .returned (reached caps.warning daily || reached caps.warning monthly)

def isOpenRouter (c : Call) : Bool := containsText c.model "openrouter"

/-- `async_pre_call_deployment_hook`. -/
def hook (cache : Option Cached) (c : Call) : Outcome × Option Cached × List Database :=
  if isOpenRouter c then
    let (used, asked) := getCaps float cache c
    match c.spend with
    | none => (.raised .unreachable, some used, asked ++ [.spend])
    | some (daily, monthly) => (gate used.caps daily monthly, some used, asked ++ [.spend])
  else (.returned false, cache, [])

structure Step where
  cache : Option Cached
  call : Call

def Step.outcome (s : Step) : Outcome := (hook float s.cache s.call).1

def Step.asked (s : Step) : List Database := (hook float s.cache s.call).2.2

def steps : Option Cached → List Call → List Step
  | _, [] => []
  | cache, c :: calls => ⟨cache, c⟩ :: steps (hook float cache c).2.1 calls

def run (calls : List Call) : List Step := steps float none calls

def Outcome.isReturn : Outcome → Bool
  | .returned _ => true
  | .raised _ => false

/-- The caps were read and are numbers, and so was the spend, which is below both. -/
def Allowed (s : Step) : Prop :=
  (getCaps float s.cache s.call).1.read = true ∧
    ∃ dailyCap ∈ (getCaps float s.cache s.call).1.caps.daily,
      ∃ monthlyCap ∈ (getCaps float s.cache s.call).1.caps.monthly,
      dailyCap.isNumber = true ∧ monthlyCap.isNumber = true ∧
        ∃ spend ∈ s.call.spend, spend.1.lt dailyCap = true ∧ spend.2.lt monthlyCap = true

/-- A call returns only if it is allowed and raises otherwise; calls for other
models return without asking a database. -/
def FailClosed (s : Step) : Prop :=
  if isOpenRouter s.call then
    ((s.outcome float).isReturn = true → Allowed float s) ∧
    (¬ Allowed float s → ∃ r, s.outcome float = .raised r)
  else s.outcome float = .returned false ∧ s.asked float = []

/-- The spend cannot be read, or a cap that is set is reached, or the caps come
from the table, both are set and no comparison meets a `nan`. -/
def Guarded (s : Step) : Prop :=
  ∀ spend ∈ s.call.spend,
    reached (getCaps float s.cache s.call).1.caps.monthly spend.2 = true ∨
      reached (getCaps float s.cache s.call).1.caps.daily spend.1 = true ∨
        (getCaps float s.cache s.call).1.read = true ∧ spend.1.isNumber = true ∧
          spend.2.isNumber = true ∧
          (∃ cap ∈ (getCaps float s.cache s.call).1.caps.daily, cap.isNumber = true) ∧
            ∃ cap ∈ (getCaps float s.cache s.call).1.caps.monthly, cap.isNumber = true

theorem filter_eq_none_iff {cap : Option PyFloat} {value : PyFloat} :
    cap.filter (·.le value) = none ↔ reached cap value = false := by
  cases cap with
  | none => exact ⟨fun _ => rfl, fun _ => rfl⟩
  | some cap =>
      show (if cap.le value = true then some cap else none) = none ↔ cap.le value = false
      by_cases hle : cap.le value = true
      · simp [hle]
      · simp [hle]

theorem gate_return_iff (caps : Caps) (daily monthly : PyFloat) :
    (gate caps daily monthly).isReturn = true ↔
    reached caps.monthly monthly = false ∧ reached caps.daily daily = false := by
  unfold gate
  rw [← filter_eq_none_iff, ← filter_eq_none_iff]
  cases caps.monthly.filter (·.le monthly) with
  | some cap => exact ⟨nofun, nofun⟩
  | none =>
      cases caps.daily.filter (·.le daily) with
      | some cap => exact ⟨nofun, nofun⟩
      | none => exact ⟨fun _ => ⟨rfl, rfl⟩, fun _ => rfl⟩

theorem exists_raised_iff (o : Outcome) : (∃ r, o = .raised r) ↔ o.isReturn = false := by
  cases o with
  | returned warned => exact ⟨nofun, nofun⟩
  | raised r => exact ⟨fun _ => rfl, fun _ => ⟨r, rfl⟩⟩

theorem outcome_eq {s : Step} (hm : isOpenRouter s.call = true) :
    s.outcome float = match s.call.spend with
      | none => .raised .unreachable
      | some (daily, monthly) => gate (getCaps float s.cache s.call).1.caps daily monthly := by
  unfold Step.outcome hook
  rw [if_pos hm]
  cases s.call.spend with
  | none => rfl
  | some spend => rfl

/-- A cap that is not reached is above the spend unless one of them is `nan`. -/
theorem below_iff {cap : Option PyFloat} {value : PyFloat} (h : reached cap value = false) :
    (∃ c ∈ cap, c.isNumber = true ∧ value.lt c = true) ↔
    value.isNumber = true ∧ ∃ c ∈ cap, c.isNumber = true := by
  cases cap with
  | none =>
      constructor
      · rintro ⟨c, hc, -⟩
        cases hc
      · rintro ⟨-, c, hc, -⟩
        cases hc
  | some cap =>
      have hle : cap.le value = false := h
      constructor
      · rintro ⟨c, hc, hn, hlt⟩
        exact ⟨((PyFloat.lt_iff _ _).mp hlt).1, c, hc, hn⟩
      · rintro ⟨hv, c, hc, hn⟩
        obtain rfl := Option.mem_some_iff.mp hc
        exact ⟨_, rfl, hn, (PyFloat.lt_iff _ _).mpr ⟨hv, hn, hle⟩⟩

theorem failClosed_iff (s : Step) : FailClosed float s ↔
    (isOpenRouter s.call = true → Guarded float s) := by
  unfold FailClosed
  by_cases hm : isOpenRouter s.call = true
  · rw [if_pos hm, forall_prop_of_true hm, exists_raised_iff, outcome_eq float hm]
    unfold Guarded Allowed
    generalize getCaps float s.cache s.call = used
    cases hs : s.call.spend with
    | none => exact iff_of_true ⟨nofun, fun _ => rfl⟩ nofun
    | some spend =>
        obtain ⟨daily, monthly⟩ := spend
        simp only [Option.mem_some_iff, forall_eq', exists_eq_left']
        by_cases hreach : reached used.1.caps.monthly monthly = true ∨
          reached used.1.caps.daily daily = true
        · have hraised : (gate used.1.caps daily monthly).isReturn = false := by
            rw [Bool.eq_false_iff, Ne, gate_return_iff]
            rintro ⟨hmon, hday⟩
            rcases hreach with h | h
            · rw [hmon] at h
              cases h
            · rw [hday] at h
              cases h
          rw [hraised]
          refine iff_of_true ⟨nofun, fun _ => rfl⟩ ?_
          rcases hreach with h | h
          · exact .inl h
          · exact .inr (.inl h)
        · obtain ⟨hmon, hday⟩ := not_or.mp hreach
          rw [Bool.not_eq_true] at hmon hday
          have hreturn := (gate_return_iff used.1.caps daily monthly).mpr ⟨hmon, hday⟩
          have hbelow : (∃ dailyCap ∈ used.1.caps.daily, ∃ monthlyCap ∈ used.1.caps.monthly,
              dailyCap.isNumber = true ∧ monthlyCap.isNumber = true ∧ daily.lt dailyCap = true ∧ monthly.lt monthlyCap = true) ↔
                (∃ c ∈ used.1.caps.daily, c.isNumber = true ∧ daily.lt c = true) ∧
                  ∃ c ∈ used.1.caps.monthly, c.isNumber = true ∧ monthly.lt c = true := by
            constructor
            · rintro ⟨d, hd, m, hmm, hdn, hmn, hdl, hml⟩
              exact ⟨⟨d, hd, hdn, hdl⟩, m, hmm, hmn, hml⟩
            · rintro ⟨⟨d, hd, hdn, hdl⟩, m, hmm, hmn, hml⟩
              exact ⟨d, hd, m, hmm, hdn, hmn, hdl, hml⟩
          rw [hreturn, hmon, hday, hbelow, below_iff hday, below_iff hmon]
          simp only [forall_const, reduceCtorEq, imp_false, not_not, and_self, false_or]
          tauto
  · rw [if_neg hm]
    unfold Step.outcome Step.asked hook
    rw [if_neg hm]
    exact iff_of_true ⟨rfl, rfl⟩ fun h => absurd h hm

/-- Every call of a run is gated exactly when every call to OpenRouter meets the condition. -/
theorem run_failClosed_iff (calls : List Call) :
    (∀ s ∈ run float calls, FailClosed float s) ↔
      ∀ s ∈ run float calls, isOpenRouter s.call = true → Guarded float s :=
  forall_congr' fun s => imp_congr_right fun _ => failClosed_iff float s

end Guard

def unreachableApp : Call := ⟨"openrouter/z-ai/glm-5.3-flash", 0, none, some (.fin 5000, .fin 5000)⟩

/-- With the caps unread 5000 dollars are not too many. -/
theorem unread_caps_return : ¬ ∀ (float : String → Option PyFloat) (calls : List Call),
    ∀ s ∈ run float calls, FailClosed float s := by
  intro hall
  have hclosed := hall (fun _ => none) [unreachableApp] ⟨none, unreachableApp⟩ List.mem_cons_self
  have hread := (hclosed.1 (by decide +kernel)).1
  exact absurd hread (by decide)

end ServerManager.SpendGuard
