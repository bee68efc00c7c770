import ServerManager.Interleaving
import ServerManager.ServiceTokens

namespace ServerManager.TokenCache

open Interaction Interleaving ServiceTokens
open PyText (strip)

/-- The tokens file from one change to the next. `none` is an `OSError` of
`os.stat` or `open`; a modification time is only compared. -/
structure Version where
  stat : Option Nat
  text : Option String
  deriving DecidableEq

def Version.mtime (v : Version) : Nat := v.stat.getD 0

/-- `_load_identities`, of what `open` gives. -/
def identitiesOf (text : Option String) : List Identity := (text.map loadIdentities).getD []

inductive Eff
  | stat
  | cacheGet (mtime : Nat)
  | read
  | cachePut (mtime : Nat) (identities : List Identity)
  | respond (out : Outcome)
  | write (v : Version)

@[reducible] def Ans : Eff → Type
  | .stat => Option Nat
  | .cacheGet _ => Option (List Identity)
  | .read => Option String
  | .cachePut .. => Unit
  | .respond _ => Unit
  | .write _ => Unit

abbrev Py := Prog Eff Ans Empty

def identitiesCached (mtime : Nat) : Py (List Identity) := do
  match ← .call (.cacheGet mtime) pure with
  | some identities => pure identities
  | none =>
      let text ← .call .read pure
      .call (.cachePut mtime (identitiesOf text)) pure
      pure (identitiesOf text)

/-- `_identities`. -/
def identities : Py (List Identity) := do
  let mtime ← .call .stat pure
  identitiesCached (mtime.getD 0)

/-- What `require_identity` makes of the result of `constant_time_lookup`. -/
def verdict (scope : String) : Option (Option Identity) → Outcome
  | none => .typeError
  | some none => .http 401 "invalid credential"
  | some (some i) =>
      if i.scopes.contains scope then .identity i.service i.scopes
      else .http 403 s!"identity '{i.service}' lacks scope '{scope}'"

def tokenOf (auth : String) : List Char := strip (auth.toList.drop bearer.length)

/-- A request that calls `require_identity`. -/
def request (auth scope : String) : Py Unit :=
  if bearer.isPrefixOf auth.toList then do
    let found ← identities
    .call (.respond (verdict scope (constantTimeLookup (tokenOf auth) found))) pure
  else .call (.respond (.http 401 "missing bearer credential")) pure

def rotate : List Version → Py Unit
  | [] => pure ()
  | v :: later => .call (.write v) (fun _ => rotate later)

inductive Task
  | request (auth scope : String)
  | rotate (later : List Version)

def Task.prog : Task → Py Unit
  | .request auth scope => TokenCache.request auth scope
  | .rotate later => TokenCache.rotate later

/-- `history` has the versions of the file up to the one that is there now, and
`since` the one that each request has found at its `stat`. -/
structure World where
  history : List Version
  cache : Option (Nat × List Identity)
  since : Nat → Option Nat

def World.init (v : Version) : World := ⟨[v], none, fun _ => none⟩

/-- `lru_cache(maxsize=1)`. -/
def World.lookup (w : World) (mtime : Nat) : Option (List Identity) :=
  (w.cache.filter (fun p => p.1 = mtime)).map (·.2)

/-- A key that another thread has put while this one was loading is kept. -/
def World.put (w : World) (mtime : Nat) (identities : List Identity) : World :=
  if (w.lookup mtime).isSome then w else { w with cache := some (mtime, identities) }

/-- What a call of process `i` does. -/
def move (i : Nat) (w : World) : (e : Eff) → Ans e → World → Prop
  | .stat, r, w' => ∃ v, w.history.getLast? = some v ∧ r = v.stat ∧
      w' = { w with since := Function.update w.since i (some (w.history.length - 1)) }
  | .cacheGet mtime, r, w' => r = w.lookup mtime ∧ w' = w
  | .read, r, w' => ∃ v, w.history.getLast? = some v ∧ r = v.text ∧ w' = w
  | .cachePut mtime identities, _, w' => w' = w.put mtime identities
  | .respond _, _, w' => w' = w
  | .write v, _, w' => w' = { w with history := w.history ++ [v] }

/-- Every change of the file gives it a modification time that it has not had. -/
def dated (i : Nat) (w : World) (e : Eff) (a : Ans e) (w' : World) : Prop :=
  move i w e a w' ∧ ∀ v, e = .write v → ∀ u ∈ w.history, u.mtime ≠ v.mtime

def Task.verdict : Task → List Identity → Outcome
  | .request auth scope, identities =>
      if bearer.isPrefixOf auth.toList then TokenCache.verdict scope
        (constantTimeLookup (tokenOf auth) identities)
      else .http 401 "missing bearer credential"
  | .rotate _, _ => .typeError

theorem verdict_eq (auth scope : String) (text : Option String) :
    (Task.request auth scope).verdict (identitiesOf text) =
    requireIdentity (text.getD "") auth scope := by
  have hempty : loadIdentities "" = [] := by decide +kernel
  have hids : identitiesOf text = loadIdentities (text.getD "") := by
    cases text with
    | none => exact hempty.symm
    | some text => rfl
  rw [hids, Task.verdict, requireIdentity, TokenCache.verdict.eq_def]
  rfl

inductive Stage
  | start
  | looked (mtime : Nat)
  | found (mtime : Nat) (identities : List Identity)

def Stage.next : Stage → (e : Eff) → Ans e → Stage
  | .start, .stat, mtime => .looked (mtime.getD 0)
  | .looked mtime, .cacheGet _, some identities => .found mtime identities
  | .looked mtime, .read, text => .found mtime (identitiesOf text)
  | s, _, _ => s

def Stage.may (t : Task) : Stage → Eff → Prop
  | .start, .stat => True
  | .start, .respond out => ∀ identities, out = t.verdict identities
  | .start, .write _ => True
  | .looked mtime, .cacheGet mtime' => mtime' = mtime
  | .looked _, .read => True
  | .found mtime identities, .cachePut mtime' identities' =>
      mtime' = mtime ∧ identities' = identities
  | .found _ identities, .respond out => out = t.verdict identities
  | _, _ => False

abbrev View := Task × Stage

def View.next (g : View) (e : Eff) (a : Ans e) (g' : View) : Prop := g' = (g.1, g.2.next e a)

def View.may (g : View) (e : Eff) : Prop := g.2.may g.1 e

theorem follows_request (auth scope : String) :
    Sat View.next View.may (fun _ _ => True) (fun _ _ => True) (request auth scope)
      (.request auth scope, .start) := by
  unfold request
  split
  next hb =>
      have hids : Sat View.next View.may (fun g identities => ∃ mtime,
          g = (.request auth scope, .found mtime identities))
          (fun _ _ => True) identities (.request auth scope, .start) := by
        refine ⟨trivial, fun mtime g hg => ?_⟩
        subst hg
        refine ⟨rfl, fun r g hg => ?_⟩
        subst hg
        cases r with
        | some identities => exact ⟨_, rfl⟩
        | none =>
            refine ⟨trivial, fun text g hg => ?_⟩
            subst hg
            exact ⟨⟨rfl, rfl⟩, fun _ g hg => ⟨_, hg⟩⟩
      refine hids.seq ?_
      rintro _ identities ⟨mtime, rfl⟩
      exact ⟨(if_pos hb).symm, fun _ _ _ => trivial⟩
  next hb => exact ⟨fun identities => (if_neg hb).symm, fun _ _ _ => trivial⟩

theorem follows_rotate (t : Task) (later : List Version) :
    Sat View.next View.may (fun _ _ => True) (fun _ _ => True) (rotate later) (t, .start) := by
  induction later with
  | nil => trivial
  | cons v later ih =>
      refine ⟨trivial, fun _ g hg => ?_⟩
      subst hg
      exact ih

theorem follows (t : Task) : Sat View.next View.may (fun _ _ => True) (fun _ _ => True) t.prog
    (t, .start) := by
  cases t with
  | request auth scope => exact follows_request auth scope
  | rotate later => exact follows_rotate _ later

/-- The identities are those of a version that came when `s` was there or later. -/
def Since (w : World) (s : Nat) (identities : List Identity) : Prop :=
  ∃ k v, s ≤ k ∧ w.history[k]? = some v ∧ identities = identitiesOf v.text

def Known (w : World) (since : Option Nat) : Stage → Prop
  | .start => since = none
  | .looked mtime => ∃ s v, since = some s ∧ w.history[s]? = some v ∧ v.mtime = mtime
  | .found mtime identities =>
      ∃ s v, since = some s ∧ w.history[s]? = some v ∧ v.mtime = mtime ∧ Since w s identities

/-- What is in the cache under a time was read from the version of this time or
from a later one. -/
structure Inv (tasks : Nat → Task) (w : World) (g : Nat → View) : Prop where
  nonempty : w.history ≠ []
  dated : (w.history.map Version.mtime).Nodup
  cached : ∀ mtime identities, w.cache = some (mtime, identities) →
    ∃ s v, w.history[s]? = some v ∧ v.mtime = mtime ∧ Since w s identities
  tasks : ∀ i, (g i).1 = tasks i
  known : ∀ i, Known w (w.since i) (g i).2

variable {tasks : Nat → Task} {w w' : World} {g : Nat → View} {i : Nat}

theorem lookup_some {mtime : Nat} {identities : List Identity}
    (h : w.lookup mtime = some identities) :
    w.cache = some (mtime, identities) := by
  obtain ⟨p, hp, rfl⟩ := Option.map_eq_some_iff.mp h
  obtain ⟨hc, hm⟩ := Option.filter_eq_some_iff.mp hp
  have hkey : p.1 = mtime := by simpa using hm
  rw [hc, ← hkey]

theorem Inv.same (h : Inv tasks w g) {s t : Nat} {u v : Version} (hs : w.history[s]? = some u)
    (ht : w.history[t]? = some v)
    (he : u.mtime = v.mtime) : s = t := by
  have hu : (w.history.map Version.mtime)[s]? = some u.mtime := by rw [List.getElem?_map, hs]; rfl
  have hv : (w.history.map Version.mtime)[t]? = some u.mtime := by
    rw [List.getElem?_map, ht, he]; rfl
  have hlt := (List.getElem?_eq_some_iff.mp hu).1
  exact (List.getElem?_inj hlt h.dated).mp (hu.trans hv.symm)

theorem since_last {s : Nat} {u v : Version} (hs : w.history[s]? = some u)
    (hv : w.history.getLast? = some v) :
    Since w s (identitiesOf v.text) := by
  have hlt := (List.getElem?_eq_some_iff.mp hs).1
  rw [List.getLast?_eq_getElem?] at hv
  exact ⟨w.history.length - 1, v, by omega, hv, rfl⟩

theorem Inv.view (h : Inv tasks w g) {s : Stage} (hs : Known w (w.since i) s) :
    Inv tasks w (Function.update g i ((g i).1, s)) := by
  refine ⟨h.nonempty, h.dated, h.cached, fun k => ?_, fun k => ?_⟩
  · by_cases hk : k = i
    · subst hk
      rw [Function.update_self]
      exact h.tasks k
    · rw [Function.update_of_ne hk]
      exact h.tasks k
  · by_cases hk : k = i
    · subst hk
      rw [Function.update_self]
      exact hs
    · rw [Function.update_of_ne hk]
      exact h.known k

theorem Inv.stay (h : Inv tasks w g) : Inv tasks w (Function.update g i ((g i).1, (g i).2)) :=
  h.view (h.known i)

theorem Inv.put (h : Inv tasks w g) {mtime s : Nat} {identities : List Identity} {v : Version}
    (hv : w.history[s]? = some v)
    (hm : v.mtime = mtime) (hs : Since w s identities) : Inv tasks (w.put mtime identities) g := by
  unfold World.put
  split
  · exact h
  · refine ⟨h.nonempty, h.dated, fun m ids hc => ?_, h.tasks, h.known⟩
    obtain ⟨rfl, rfl⟩ := Prod.mk.inj (Option.some.inj hc)
    exact ⟨s, v, hv, hm, hs⟩

theorem Inv.write (h : Inv tasks w g) {v : Version} (hv : ∀ u ∈ w.history, u.mtime ≠ v.mtime) :
    Inv tasks { w with history := w.history ++ [v] } g := by
  have hkeep : ∀ {s : Nat} {u : Version}, w.history[s]? = some u →
      (w.history ++ [v])[s]? = some u := by
    intro s u hs
    rw [List.getElem?_append_left (List.getElem?_eq_some_iff.mp hs).1]
    exact hs
  have hsince : ∀ {s : Nat} {identities : List Identity}, Since w s identities →
      Since { w with history := w.history ++ [v] } s identities := by
    rintro s identities ⟨k, u, hk, hu, he⟩
    exact ⟨k, u, hk, hkeep hu, he⟩
  refine ⟨List.append_ne_nil_of_left_ne_nil h.nonempty _, ?_, fun m ids hc => ?_, h.tasks,
    fun k => ?_⟩
  · rw [List.map_append, List.nodup_append]
    refine ⟨h.dated, List.nodup_singleton _, ?_⟩
    rintro _ hm _ hl rfl
    obtain ⟨u, hu, he⟩ := List.mem_map.mp hm
    exact hv u hu (he.trans (List.mem_singleton.mp hl))
  · obtain ⟨s, u, hu, hm, hs⟩ := h.cached m ids hc
    exact ⟨s, u, hkeep hu, hm, hsince hs⟩
  · have hk := h.known k
    cases hg : (g k).2 with
    | start =>
        rw [hg] at hk
        exact hk
    | looked m =>
        rw [hg] at hk
        obtain ⟨s, u, hs, hu, hm⟩ := hk
        exact ⟨s, u, hs, hkeep hu, hm⟩
    | found m ids =>
        rw [hg] at hk
        obtain ⟨s, u, hs, hu, hm, hids⟩ := hk
        exact ⟨s, u, hs, hkeep hu, hm, hsince hids⟩

theorem Inv.stat (h : Inv tasks w g) {v : Version} (hv : w.history.getLast? = some v) :
    Inv tasks { w with since := Function.update w.since i (some (w.history.length - 1)) }
      (Function.update g i ((g i).1, .looked v.mtime)) := by
  refine ⟨h.nonempty, h.dated, h.cached, fun k => ?_, fun k => ?_⟩
  · by_cases hk : k = i
    · subst hk
      rw [Function.update_self]
      exact h.tasks k
    · rw [Function.update_of_ne hk]
      exact h.tasks k
  · by_cases hk : k = i
    · subst hk
      rw [Function.update_self]
      rw [List.getLast?_eq_getElem?] at hv
      exact ⟨_, v, Function.update_self .., hv, rfl⟩
    · have hs : Function.update w.since i (some (w.history.length - 1)) k = w.since k :=
        Function.update_of_ne hk ..
      have hknown := h.known k
      rw [← hs] at hknown
      rw [Function.update_of_ne hk]
      exact hknown

theorem keeps {e : Eff} {a : Ans e} (h : Inv tasks w g) (hg : (g i).2.may (g i).1 e)
    (hm : dated i w e a w') :
    Inv tasks w' (Function.update g i ((g i).1, (g i).2.next e a)) := by
  obtain ⟨hm, hdate⟩ := hm
  have hk := h.known i
  cases hgi : (g i).2 with
  | start =>
      rw [hgi] at hg hk
      cases e with
      | stat =>
          obtain ⟨v, hv, rfl, rfl⟩ := hm
          exact h.stat hv
      | respond out =>
          obtain rfl : w' = w := hm
          exact h.view hk
      | write v =>
          obtain rfl : w' = { w with history := w.history ++ [v] } := hm
          have hstay := (h.write (hdate v rfl)).stay (i := i)
          rw [hgi] at hstay
          exact hstay
      | cacheGet | read | cachePut => exact hg.elim
  | looked mtime =>
      rw [hgi] at hg hk
      obtain ⟨s, v, hs, hv, rfl⟩ := hk
      cases e with
      | cacheGet mtime =>
          obtain rfl : mtime = v.mtime := hg
          obtain ⟨rfl, rfl⟩ := hm
          cases hl : w'.lookup v.mtime with
          | none => exact h.view ⟨s, v, hs, hv, rfl⟩
          | some ids =>
              obtain ⟨t, u, hu, he, hids⟩ := h.cached _ _ (lookup_some hl)
              obtain rfl := h.same hu hv he
              exact h.view ⟨t, v, hs, hv, rfl, hids⟩
      | read =>
          obtain ⟨u, hu, rfl, rfl⟩ := hm
          exact h.view ⟨s, v, hs, hv, rfl, since_last hv hu⟩
      | stat | cachePut | respond | write => exact hg.elim
  | found mtime ids =>
      rw [hgi] at hg hk
      obtain ⟨s, v, hs, hv, rfl, hids⟩ := hk
      cases e with
      | cachePut mtime identities =>
          obtain ⟨rfl, rfl⟩ := hg
          obtain rfl : w' = w.put v.mtime identities := hm
          have hstay := (h.put hv rfl hids).stay (i := i)
          rw [hgi] at hstay
          exact hstay
      | respond out =>
          obtain rfl : w' = w := hm
          exact h.view ⟨s, v, hs, hv, rfl, hids⟩
      | stat | cacheGet | read | write => exact hg.elim

def protocol (tasks : Nat → Task) : Protocol (ε := Empty) (α := Unit) dated
    (fun _ _ _ => True) View where
  inv c g := Inv tasks c.world g
  view := View.next
  G := View.may
  keeps := fun h hg _ hs => ⟨_, rfl, keeps h hg hs.world⟩

theorem verified_start (v : Version) (tasks : Nat → Task) :
    (protocol tasks).Verified (start (World.init v) (fun i => (tasks i).prog))
    (fun i => (tasks i, .start)) := by
  refine ⟨⟨List.cons_ne_nil _ _, List.nodup_singleton _, fun _ _ hc => ?_, fun _ => rfl,
    fun _ => rfl⟩, fun i => follows (tasks i)⟩
  cases hc

/-- In every interleaving of requests and changes of the tokens file, a request
is answered from a version of the file that was there at some time between its
`stat` and its answer, as long as no modification time comes twice. -/
theorem answered_current {v₀ : Version} {tasks : Nat → Task} {c d : Conf World Eff Ans Empty Unit}
    (hr : Reach dated (fun _ _ _ => True) (start (World.init v₀) (fun i => (tasks i).prog)) c)
    {auth scope : String} {out : Outcome}
    (ht : tasks i = .request auth scope) (hs : Step dated c i ⟨.respond out, ()⟩ d) :
    ∃ k v, (∀ s ∈ c.world.since i, s ≤ k) ∧ c.world.history[k]? = some v ∧
      out = requireIdentity (v.text.getD "") auth scope := by
  obtain ⟨g, hinv, hsat⟩ := (protocol tasks).reach (verified_start v₀ tasks) hr
  have hg : (g i).2.may (g i).1 (.respond out) := by
    cases hs with
    | call hc _ =>
        have hi := hsat i
        rw [hc] at hi
        exact hi.1
  have hk := Inv.known hinv i
  rw [Inv.tasks hinv i, ht] at hg
  cases hgi : (g i).2 with
  | start =>
      rw [hgi] at hg hk
      have hsince : c.world.since i = none := hk
      obtain ⟨v, hv⟩ := List.getLast?_isSome.mpr (Inv.nonempty hinv) |> Option.isSome_iff_exists.mp
      rw [List.getLast?_eq_getElem?] at hv
      refine ⟨_, v, fun s hs => ?_, hv, (hg (identitiesOf v.text)).trans
        (verdict_eq auth scope v.text)⟩
      rw [hsince] at hs
      cases hs
  | looked m =>
      rw [hgi] at hg
      exact hg.elim
  | found m ids =>
      rw [hgi] at hg hk
      obtain ⟨s, u, hsince, -, -, k, v, hle, hv, rfl⟩ := hk
      refine ⟨k, v, fun t ht => ?_, hv, hg.trans (verdict_eq auth scope v.text)⟩
      rw [hsince] at ht
      exact Option.some.inj ht ▸ hle

def oldTokens : Version := ⟨some 1, some "a=t1:ALL"⟩

def newTokens : Version := ⟨some 2, some "a=t2:ALL"⟩

def rotation : Nat → Task
  | 0 | 1 => .request "Bearer t1" "job:read"
  | _ => .rotate [newTokens]

def answer (i : Nat) (w : World) : (e : Eff) → Option (Ans e × World)
  | .stat => w.history.getLast?.map (fun v =>
      (v.stat, { w with since := Function.update w.since i (some (w.history.length - 1)) }))
  | .cacheGet mtime => some (w.lookup mtime, w)
  | .read => w.history.getLast?.map (fun v => (v.text, w))
  | .cachePut mtime identities => some ((), w.put mtime identities)
  | .respond _ => some ((), w)
  | .write v =>
      if w.history.all (fun u => u.mtime != v.mtime)
        then some ((), { w with history := w.history ++ [v] }) else none

theorem answer_dated (i : Nat) (w : World) (e : Eff) (a : Ans e) (w' : World)
    (h : answer i w e = some (a, w')) : dated i w e a w' := by
  cases e with
  | stat | read =>
      obtain ⟨v, hv, he⟩ := Option.map_eq_some_iff.mp h
      cases he
      exact ⟨⟨v, hv, rfl, rfl⟩, nofun⟩
  | cacheGet =>
      cases h
      exact ⟨⟨rfl, rfl⟩, nofun⟩
  | cachePut | respond =>
      cases h
      exact ⟨rfl, nofun⟩
  | write v =>
      simp only [answer] at h
      split at h
      next hall =>
          cases h
          refine ⟨rfl, fun v' he u hu => ?_⟩
          obtain rfl := Eff.write.inj he
          simpa using List.all_eq_true.mp hall u hu
      · cases h

def opening : Board World Eff Ans Empty Unit :=
  ⟨World.init oldTokens, (List.range 3).map (fun i => ⟨(rotation i).prog, []⟩)⟩

def later : Proc Eff Ans Empty Unit := ⟨(rotation 2).prog, []⟩

theorem opening_start : opening.conf id later = start (World.init oldTokens)
    (fun i => (rotation i).prog) := by
  refine congrArg (Conf.mk (World.init oldTokens)) (funext fun i => ?_)
  match i with
  | 0 | 1 | 2 | _ + 3 => rfl

/-- The first request has found the old time and loads the new file; the second
one begins after the change. -/
def overlapping : List Nat := [0, 0, 2, 0, 0, 0, 1, 1, 1, 1]

def responds : Eff → Bool
  | .respond _ => true
  | _ => false

theorem answered_current_overlapping : ∃ out k v,
    (opening.play answer overlapping).state.since 1 = some 1 ∧
    (∀ s ∈ (opening.play answer overlapping).state.since 1, s ≤ k) ∧
      (opening.play answer overlapping).state.history[k]? = some v ∧
        out = requireIdentity (v.text.getD "") "Bearer t1" "job:read" := by
  have hr : Reach dated (fun _ _ _ => True) (opening.conf id later)
      ((opening.play answer overlapping).conf id later) :=
    Board.follows_reach later answer_dated (fun _ _ _ _ => trivial)
      (by decide +kernel : opening.follows answer (fun _ _ => true) overlapping = true)
  obtain ⟨e, a, he, hs⟩ := Board.offers_step later answer_dated
    (by decide +kernel : (opening.play answer overlapping).offers answer 1 responds = true)
  rw [opening_start] at hr
  cases e with
  | respond out =>
      obtain ⟨k, v, hk, hv, ho⟩ := answered_current hr (i := 1) rfl hs
      exact ⟨out, k, v, by decide +kernel, hk, hv, ho⟩
  | stat | cacheGet | read | cachePut | write => cases he

end ServerManager.TokenCache
