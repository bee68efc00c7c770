import ServerManager.KeyedTable
import ServerManager.Presets
import Mathlib.Data.List.TakeWhile

namespace ServerManager.ServiceTokens

open KeyedTable
open PyText (strip)

def universal : List Char → List Char
  | '\r' :: '\n' :: cs => '\n' :: universal cs
  | '\r' :: cs => '\n' :: universal cs
  | c :: cs => c :: universal cs
  | [] => []

def linesOf (text : String) : List (List Char) := (universal text.toList).splitOn '\n'

def upTo (sep : Char) (cs : List Char) : List Char := cs.takeWhile (· != sep)

def past (sep : Char) (cs : List Char) : List Char := (cs.dropWhile (· != sep)).tail

def scopesRead : List String :=
  ["runtime:read", "job:read", "route:read", "usage:read", "health:read"]

def scopesWrite : List String := ["runtime:write", "runtime:destroy", "job:submit"]

def allScopes : List String := scopesRead ++ scopesWrite

structure Identity where
  token : List Char
  service : String
  scopes : List String
  deriving DecidableEq

def scopesOf (scopeS : List Char) : List String :=
  if strip scopeS = [] ∨ strip scopeS = "ALL".toList then allScopes
  else (((scopeS.splitOn ',').map strip).filter (· ≠ [])).map String.ofList

def identityOf (raw : List Char) : Option Identity :=
  let line := strip raw
  if line = [] ∨ line.head? = some '#' ∨ '=' ∉ line then none
  else
    let rest := past '=' line
    let token := strip (upTo ':' rest)
    if token = [] then none
    else some ⟨token, String.ofList (strip (upTo '=' line)), scopesOf (past ':' rest)⟩

/-- `_load_identities`: a dictionary by token, in the order its keys came in. -/
def loadIdentities (text : String) : List Identity :=
  (linesOf text).foldl (fun out line => ((identityOf line).map (upsert Identity.token out)).getD
    out) []

def ascii (cs : List Char) : Bool := cs.all (fun c => c.toNat < 128)

/-- `hmac.compare_digest`; `none` is its `TypeError` on text that is not ASCII. -/
def compareDigest (a b : List Char) : Option Bool :=
  if ascii a && ascii b then some (a = b) else none

def constantTimeLookup (token : List Char) : List Identity → Option (Option Identity)
  | [] => some none
  | i :: identities =>
      (compareDigest i.token token).bind fun same =>
        if same then some (some i) else constantTimeLookup token identities

inductive Outcome
  | identity (service : String) (scopes : List String)
  | http (status : Nat) (detail : String)
  | typeError
  deriving DecidableEq

def bearer : List Char := "Bearer ".toList

def requireIdentity (text auth scope : String) : Outcome :=
  if bearer.isPrefixOf auth.toList then
    match constantTimeLookup (strip (auth.toList.drop bearer.length)) (loadIdentities text) with
    | none => .typeError
    | some none => .http 401 "invalid credential"
    | some (some i) =>
        if i.scopes.contains scope then .identity i.service i.scopes
        else .http 403 s!"identity '{i.service}' lacks scope '{scope}'"
  else .http 401 "missing bearer credential"

/-- A line `service=token:scopes`, blanks around its parts. -/
structure Declares (raw token : List Char) (service : String) (scopeS : List Char) : Prop where
  split : ∃ a b x, strip raw = a ++ '=' :: b ∧ '=' ∉ a ∧ ':' ∉ x ∧
    (b = x ∧ scopeS = [] ∨ b = x ++ ':' :: scopeS) ∧ token = strip x ∧
    service = String.ofList (strip a)
  noComment : (strip raw).head? ≠ some '#'
  nonempty : token ≠ []

def Grants (scopeS : List Char) (scope : String) : Prop :=
  if strip scopeS = [] ∨ strip scopeS = "ALL".toList then scope ∈ allScopes
  else scope ≠ "" ∧ ∃ item ∈ scopeS.splitOn ',', strip item = scope.toList

def LastLine (text : String) (token : List Char) (service : String) (scopeS : List Char) : Prop :=
  ∃ before line after, linesOf text = before ++ line :: after ∧ Declares line token service scopeS ∧
    ∀ later ∈ after, ∀ s sc, ¬ Declares later token s sc

def Declared (text : String) (token : List Char) : Prop :=
  ∃ line ∈ linesOf text, ∃ s sc, Declares line token s sc

def Presents (auth : String) (token : List Char) : Prop :=
  ∃ rest, auth.toList = bearer ++ rest ∧ token = strip rest

structure Specified (text auth scope : String) (out : Outcome) : Prop where
  accepted : ∀ service, (∃ scopes, out = .identity service scopes) ↔
    ∃ t sc, Presents auth t ∧ LastLine text t service sc ∧ Grants sc scope
  unknown : (¬ ∃ t, Presents auth t ∧ Declared text t) → ∃ detail, out = .http 401 detail
  missing : (∃ t, Presents auth t ∧ Declared text t) →
    (¬ ∃ t service sc, Presents auth t ∧ LastLine text t service sc ∧ Grants sc scope) → ∃ detail,
    out = .http 403 detail

/-- Every line up to the first one that declares `t` has ASCII tokens only. -/
def PlainBefore (t : List Char) (ls : List (List Char)) : Prop :=
  ∀ before line after, ls = before ++ line :: after → (∀ l ∈ before, ∀ s sc, ¬ Declares l t s sc) →
    ∀ x s sc, Declares line x s sc → ascii x = true

/-- Only ASCII texts are compared, or none are. -/
def Comparable (text : String) (t : List Char) : Prop :=
  (∀ x, ¬ Declared text x) ∨ ascii t = true ∧ PlainBefore t (linesOf text)

section Separators

variable {sep : Char} {a b : List Char}

theorem free_ne (h : sep ∉ a) : ∀ c ∈ a, (c != sep) = true := by
  intro c hc
  simp only [bne_iff_ne, ne_eq]
  rintro rfl
  exact h hc

theorem upTo_append (h : sep ∉ a) : upTo sep (a ++ sep :: b) = a := by
  unfold upTo
  rw [List.takeWhile_append_of_pos (free_ne h)]
  simp

theorem past_append (h : sep ∉ a) : past sep (a ++ sep :: b) = b := by
  unfold past
  rw [List.dropWhile_append_of_pos (free_ne h)]
  simp

theorem upTo_free (h : sep ∉ a) : upTo sep a = a := List.takeWhile_eq_self_iff.mpr (free_ne h)

theorem past_free (h : sep ∉ a) : past sep a = [] := by
  rw [past, List.dropWhile_eq_nil_iff.mpr (free_ne h), List.tail_nil]

theorem not_mem_upTo : sep ∉ upTo sep a := by
  intro h
  have hne := List.mem_takeWhile_imp h
  simp at hne

theorem split_at (h : sep ∈ a) : a = upTo sep a ++ sep :: past sep a := by
  obtain ⟨x, y, rfl, hx⟩ := List.eq_append_cons_of_mem h
  rw [upTo_append hx, past_append hx]

end Separators

variable {raw token scopeS : List Char} {service : String}

theorem Declares.identity (h : Declares raw token service scopeS) :
    identityOf raw = some ⟨token, service, scopesOf scopeS⟩ := by
  obtain ⟨⟨a, b, x, hline, ha, hx, hb, rfl, rfl⟩, hc, hne⟩ := h
  have hrest : upTo ':' b = x ∧ past ':' b = scopeS := by
    rcases hb with ⟨rfl, rfl⟩ | rfl
    · exact ⟨upTo_free hx, past_free hx⟩
    · exact ⟨upTo_append hx, past_append hx⟩
  have hno : ¬ (a ++ '=' :: b = [] ∨ (a ++ '=' :: b).head? = some '#' ∨ '=' ∉ a ++ '=' :: b) := by
    rw [← hline]
    rintro (h | h | h)
    · simp [hline] at h
    · exact hc h
    · simp [hline] at h
  simp only [identityOf, hline, if_neg hno, past_append ha, upTo_append ha, hrest, if_neg hne]

theorem identity_declares {i : Identity} (h : identityOf raw = some i) :
    ∃ scopeS, Declares raw i.token i.service scopeS ∧ i.scopes = scopesOf scopeS := by
  unfold identityOf at h
  dsimp only at h
  split at h
  · cases h
  next hline =>
    split at h
    · cases h
    next htoken =>
      cases h
      have heq : '=' ∈ strip raw := by
        apply Decidable.byContradiction
        intro hno
        exact hline (.inr (.inr hno))
      have hsplit := split_at heq
      refine ⟨past ':' (past '=' (strip raw)),
        ⟨⟨_, _, _, hsplit, not_mem_upTo, not_mem_upTo, ?_, rfl, rfl⟩, ?_, htoken⟩, rfl⟩
      · by_cases hcolon : ':' ∈ past '=' (strip raw)
        · exact .inr (split_at hcolon)
        · exact .inl ⟨(upTo_free hcolon).symm, past_free hcolon⟩
      · intro hc
        exact hline (.inr (.inl hc))

theorem mem_scopesOf {scope : String} : scope ∈ scopesOf scopeS ↔ Grants scopeS scope := by
  unfold scopesOf Grants
  split
  · rfl
  · simp only [List.mem_map, List.mem_filter, ne_eq, decide_eq_true_eq]
    constructor
    · rintro ⟨cs, ⟨⟨item, hi, rfl⟩, hne⟩, rfl⟩
      refine ⟨?_, item, hi, String.toList_ofList.symm⟩
      intro he
      exact hne (by simpa using congrArg String.toList he)
    · rintro ⟨hne, item, hi, hs⟩
      refine ⟨strip item, ⟨⟨item, hi, rfl⟩, ?_⟩, ?_⟩
      · intro he
        rw [he] at hs
        exact hne (String.toList_eq_nil_iff.mp hs.symm)
      · rw [hs, String.ofList_toList]

def declared (text : String) : List Identity := (linesOf text).filterMap identityOf

theorem loadIdentities_eq (text : String) : loadIdentities text = (declared text).foldl
    (upsert Identity.token) [] := by
  have h : ∀ (ls : List (List Char)) (out : List Identity),
      ls.foldl (fun out line => ((identityOf line).map (upsert Identity.token out)).getD out) out =
        (ls.filterMap identityOf).foldl (upsert Identity.token) out := by
    intro ls
    induction ls with
    | nil => intro out; rfl
    | cons line ls ih =>
        intro out
        cases hi : identityOf line with
        | none => simp [hi, ih]
        | some i => simp [hi, ih]
  exact h _ _

theorem lookup_fold (is rows : List Identity) (t : List Char) :
    lookup Identity.token (is.foldl (upsert Identity.token) rows) t =
      (is.reverse.find? (fun i => i.token = t)).or (lookup Identity.token rows t) := by
  induction is generalizing rows with
  | nil => simp
  | cons i is ih =>
      rw [List.foldl_cons, ih, lookup_upsert, List.reverse_cons, List.find?_append]
      by_cases hi : i.token = t
      · simp [hi]
      · simp [hi]

theorem keys_upsert (rows : List Identity) (i : Identity) :
    (upsert Identity.token rows i).map Identity.token =
    if i.token ∈ rows.map Identity.token then rows.map Identity.token
      else rows.map Identity.token ++ [i.token] := by
  have hany : (rows.any fun r => decide (r.token = i.token)) = true ↔
      i.token ∈ rows.map Identity.token := by
    simp only [List.any_eq_true, decide_eq_true_eq, List.mem_map]
  unfold upsert
  by_cases h : i.token ∈ rows.map Identity.token
  · rw [if_pos (hany.mpr h), if_pos h, List.map_map]
    apply List.map_congr_left
    intro r _
    by_cases hr : r.token = i.token <;> simp [hr]
  · rw [if_neg (fun ha => h (hany.mp ha)), if_neg h, List.map_append]
    rfl

theorem takeWhile_extra {t k : List Char} (hk : k ≠ t) (ks ls : List (List Char)) (x : List Char) :
    x = k ∨ x ∈ (ks ++ k :: ls).takeWhile (· ≠ t) ↔ x = k ∨ x ∈ (ks ++ ls).takeWhile (· ≠ t) := by
  induction ks with
  | nil => simp [hk]
  | cons a ks ih =>
      by_cases ha : a = t
      · simp [ha]
      · simp only [List.cons_append, List.takeWhile_cons, ne_eq, ha, not_false_eq_true, decide_true,
          if_true, List.mem_cons]
        rw [or_left_comm, ih, or_left_comm]

theorem takeWhile_known {t k : List Char} {ks ls : List (List Char)} (hk : k ∈ ks) (x : List Char) :
    x ∈ (ks ++ k :: ls).takeWhile (· ≠ t) ↔ x ∈ (ks ++ ls).takeWhile (· ≠ t) := by
  induction ks with
  | nil => cases hk
  | cons a ks ih =>
      by_cases ha : a = t
      · simp [ha]
      · simp only [List.cons_append, List.takeWhile_cons, ne_eq, ha, not_false_eq_true, decide_true,
          if_true, List.mem_cons]
        rcases List.mem_cons.mp hk with rfl | hk
        · exact takeWhile_extra ha ks ls x
        · rw [ih hk]

theorem keys_fold (is rows : List Identity) (t x : List Char) :
    x ∈ ((is.foldl (upsert Identity.token) rows).map Identity.token).takeWhile (· ≠ t) ↔
      x ∈ (rows.map Identity.token ++ is.map Identity.token).takeWhile (· ≠ t) := by
  induction is generalizing rows with
  | nil => simp
  | cons i is ih =>
      rw [List.foldl_cons, ih, keys_upsert, List.map_cons]
      split
      next h => exact (takeWhile_known h x).symm
      next h => rw [List.append_assoc, List.singleton_append]

theorem keys_cons {t : List Char} {i : Identity} {ids : List Identity} (hi : i.token ≠ t) :
    ((i :: ids).map Identity.token).takeWhile (· ≠ t) = i.token ::
    (ids.map Identity.token).takeWhile (· ≠ t) := by
  simp [hi]

theorem lookup_compared {t : List Char} {ids : List Identity}
    (h : ids = [] ∨ ascii t = true ∧ ∀ x ∈ (ids.map Identity.token).takeWhile (· ≠ t),
    ascii x = true) :
    constantTimeLookup t ids = some (lookup Identity.token ids t) := by
  induction ids with
  | nil => rfl
  | cons i ids ih =>
      obtain ⟨ht, hx⟩ := h.resolve_left (List.cons_ne_nil _ _)
      rw [constantTimeLookup, lookup_cons, compareDigest, ht]
      by_cases hi : i.token = t
      · simp [hi, ht]
      · rw [keys_cons hi] at hx
        have hit := hx _ List.mem_cons_self
        have hrest := ih (.inr ⟨ht, fun x hm => hx x (List.mem_cons_of_mem _ hm)⟩)
        simp [hi, hit, hrest]

theorem lookup_raises {t : List Char} {ids : List Identity}
    (h : ¬ (ids = [] ∨ ascii t = true ∧ ∀ x ∈ (ids.map Identity.token).takeWhile (· ≠ t),
    ascii x = true)) :
    constantTimeLookup t ids = none := by
  induction ids with
  | nil => exact absurd (.inl rfl) h
  | cons i ids ih =>
      rw [constantTimeLookup, compareDigest]
      by_cases hboth : ascii i.token = true ∧ ascii t = true
      · have hi : i.token ≠ t := by
          intro hi
          apply h
          refine .inr ⟨hboth.2, ?_⟩
          simp [hi]
        have hrest := ih fun hids => h (.inr ⟨hboth.2, ?_⟩)
        · simp [hboth, hi, hrest]
        · rw [keys_cons hi]
          intro x hx
          rcases List.mem_cons.mp hx with rfl | hx
          · exact hboth.1
          · rcases hids with rfl | hids
            · cases hx
            · exact hids.2 x hx
      · have hno : (ascii i.token && ascii t) = false := by simpa using hboth
        simp [hno]

variable {text : String} {t : List Char}

theorem declared_iff : Declared text t ↔ t ∈ (declared text).map Identity.token := by
  simp only [Declared, declared, List.mem_map, List.mem_filterMap]
  constructor
  · rintro ⟨line, hl, s, sc, h⟩
    exact ⟨_, ⟨line, hl, h.identity⟩, rfl⟩
  · rintro ⟨i, ⟨line, hl, hi⟩, rfl⟩
    obtain ⟨sc, h, -⟩ := identity_declares hi
    exact ⟨line, hl, i.service, sc, h⟩

theorem lookup_iff {i : Identity} : lookup Identity.token (loadIdentities text) t = some i ↔
    i.token = t ∧ ∃ sc, LastLine text t i.service sc ∧ i.scopes = scopesOf sc := by
  have hlook : lookup Identity.token (loadIdentities text) t =
      ((linesOf text).reverse.find? (fun line => (identityOf line).any (fun i => i.token = t))).bind
        identityOf := by
    rw [loadIdentities_eq, lookup_fold, declared, ← List.filterMap_reverse, List.find?_filterMap]
    exact Option.or_none
  rw [hlook, Option.bind_eq_some_iff]
  constructor
  · rintro ⟨line, hf, hi⟩
    obtain ⟨hp, as, bs, hsplit, hno⟩ := List.find?_eq_some_iff_append.mp hf
    have hlines : linesOf text = bs.reverse ++ line :: as.reverse := by
      rw [← List.reverse_reverse (linesOf text), hsplit]
      simp
    have ht : i.token = t := by simpa [hi] using hp
    obtain ⟨sc, hd, hs⟩ := identity_declares hi
    refine ⟨ht, sc, ⟨_, line, _, hlines, ht ▸ hd, ?_⟩, hs⟩
    intro later hl s c hdec
    have hnone := hno later (List.mem_reverse.mp hl)
    simp [hdec.identity] at hnone
  · rintro ⟨rfl, sc, ⟨before, line, after, hlines, hd, hlast⟩, hs⟩
    have hi : identityOf line = some i := by rw [hd.identity, ← hs]
    refine ⟨line, List.find?_eq_some_iff_append.mpr
      ⟨by simp [hi], after.reverse, before.reverse, by simp [hlines], ?_⟩, hi⟩
    intro later hl
    cases hj : identityOf later with
    | none => rfl
    | some j =>
        obtain ⟨c, hdec, -⟩ := identity_declares hj
        have hne : j.token ≠ i.token := by
          intro he
          exact hlast later (List.mem_reverse.mp hl) _ _ (he ▸ hdec)
        simp [hne]

theorem lookup_none : lookup Identity.token (loadIdentities text) t = none ↔ ¬ Declared text t := by
  rw [loadIdentities_eq, lookup_fold, declared_iff, show lookup Identity.token [] t = none from rfl,
    Option.or_none,
    List.find?_eq_none]
  simp only [List.mem_reverse, List.mem_map, decide_eq_true_eq, not_exists, not_and]

theorem loaded_nil : loadIdentities text = [] ↔ ∀ x, ¬ Declared text x := by
  constructor
  · intro h x
    exact lookup_none.mp (by rw [h]; rfl)
  · intro h
    have hnil : declared text = [] := by
      apply List.eq_nil_iff_forall_not_mem.mpr
      intro i hi
      exact h i.token (declared_iff.mpr (List.mem_map_of_mem hi))
    rw [loadIdentities_eq, hnil]
    rfl

theorem plain_nil : PlainBefore t [] := by
  intro before line after h
  simp at h

theorem plain_cons {l : List Char} {ls : List (List Char)} : PlainBefore t (l :: ls) ↔
    (∀ x s sc, Declares l x s sc → ascii x = true) ∧
    ((∃ s sc, Declares l t s sc) ∨ PlainBefore t ls) := by
  constructor
  · intro h
    refine ⟨h [] l ls rfl fun _ hl => absurd hl List.not_mem_nil, ?_⟩
    by_cases hd : ∃ s sc, Declares l t s sc
    · exact .inl hd
    · refine .inr fun before line after hls hb => h (l :: before) line after (by rw [hls]; rfl) ?_
      intro k hk s sc hdec
      rcases List.mem_cons.mp hk with rfl | hk
      · exact hd ⟨s, sc, hdec⟩
      · exact hb k hk s sc hdec
  · rintro ⟨hl, hrest⟩ before line after hls hb
    cases before with
    | nil =>
        obtain ⟨rfl, -⟩ := List.cons.inj hls
        exact hl
    | cons b before =>
        obtain ⟨rfl, htail⟩ := List.cons.inj hls
        rcases hrest with ⟨s, sc, hd⟩ | hrest
        · exact absurd hd (hb _ List.mem_cons_self s sc)
        · exact hrest before line after htail fun k hk => hb k (List.mem_cons_of_mem _ hk)

theorem plain_iff (ht : ascii t = true) (ls : List (List Char)) :
    PlainBefore t ls ↔ ∀ x ∈ ((ls.filterMap identityOf).map Identity.token).takeWhile (· ≠ t),
      ascii x = true := by
  induction ls with
  | nil => simp [plain_nil]
  | cons l ls ih =>
      rw [plain_cons, ih]
      cases hi : identityOf l with
      | none =>
          have hno : ∀ x s sc, ¬ Declares l x s sc := by
            intro x s sc hd
            rw [hd.identity] at hi
            cases hi
          simp [hi, hno]
      | some i =>
          obtain ⟨sc, hd, -⟩ := identity_declares hi
          have htoken : ∀ x s c, Declares l x s c → x = i.token := by
            intro x s c h
            have he := h.identity.symm.trans hi
            rw [← Option.some.inj he]
          have hfirst : (∀ x s c, Declares l x s c → ascii x = true) ↔ ascii i.token = true := by
            constructor
            · intro h
              exact h _ _ _ hd
            · intro h x s c hx
              rw [htoken x s c hx]
              exact h
          rw [List.filterMap_cons_some hi, hfirst]
          by_cases he : i.token = t
          · have hex : ∃ s c, Declares l t s c := ⟨_, _, he ▸ hd⟩
            simp [he, ht, hex]
          · have hex : ¬ ∃ s c, Declares l t s c := by
              rintro ⟨s, c, h⟩
              exact he (htoken t s c h).symm
            rw [keys_cons he, List.forall_mem_cons, or_iff_right hex]

theorem comparable_iff : Comparable text t ↔ loadIdentities text = [] ∨ ascii t = true ∧
    ∀ x ∈ ((loadIdentities text).map Identity.token).takeWhile (· ≠ t), ascii x = true := by
  rw [Comparable, loaded_nil]
  apply or_congr Iff.rfl
  apply and_congr_right
  intro ht
  rw [plain_iff ht, loadIdentities_eq]
  constructor
  · intro h x hx
    exact h x ((keys_fold _ _ _ _).mp hx)
  · intro h x hx
    exact h x ((keys_fold _ [] _ _).mpr hx)

theorem presents_iff {auth : String} : Presents auth t ↔
    bearer.isPrefixOf auth.toList = true ∧ t = strip (auth.toList.drop bearer.length) := by
  rw [List.isPrefixOf_iff_prefix]
  constructor
  · rintro ⟨rest, ha, rfl⟩
    rw [ha]
    exact ⟨List.prefix_append _ _, by rw [List.drop_left]⟩
  · rintro ⟨⟨rest, ha⟩, rfl⟩
    exact ⟨rest, ha.symm, by rw [← ha, List.drop_left]⟩

def answered (scope : String) : Option (Option Identity) → Outcome
  | none => .typeError
  | some none => .http 401 "invalid credential"
  | some (some i) =>
      if i.scopes.contains scope then .identity i.service i.scopes
      else .http 403 s!"identity '{i.service}' lacks scope '{scope}'"

theorem requireIdentity_presented {auth : String} (scope : String) (h : Presents auth t) :
    requireIdentity text auth scope = answered scope
      (constantTimeLookup t (loadIdentities text)) := by
  obtain ⟨hb, rfl⟩ := presents_iff.mp h
  rw [requireIdentity, if_pos hb]
  cases constantTimeLookup (strip (auth.toList.drop bearer.length)) (loadIdentities text) with
  | none => rfl
  | some found =>
      cases found with
      | none => rfl
      | some i => rfl

theorem presents_unique {auth : String} {t' : List Char} (h : Presents auth t)
    (h' : Presents auth t') : t = t' :=
  (presents_iff.mp h).2.trans (presents_iff.mp h').2.symm

theorem lastLine_unique {s s' : String} {sc sc' : List Char} (h : LastLine text t s sc)
    (h' : LastLine text t s' sc') :
    s = s' ∧ scopesOf sc = scopesOf sc' := by
  have hi : lookup Identity.token (loadIdentities text) t = some ⟨t, s, scopesOf sc⟩ :=
    lookup_iff.mpr ⟨rfl, sc, h, rfl⟩
  have hi' : lookup Identity.token (loadIdentities text) t = some ⟨t, s', scopesOf sc'⟩ :=
    lookup_iff.mpr ⟨rfl, sc', h', rfl⟩
  have he := Option.some.inj (hi.symm.trans hi')
  exact ⟨congrArg Identity.service he, congrArg Identity.scopes he⟩

theorem lastLine_declared {s : String} {sc : List Char} (h : LastLine text t s sc) :
    Declared text t := by
  obtain ⟨before, line, after, hls, hd, -⟩ := h
  exact ⟨line, by rw [hls]; simp, s, sc, hd⟩

theorem answered_specified {auth : String} (scope : String) (h : Presents auth t) :
    Specified text auth scope (answered scope
      (some (lookup Identity.token (loadIdentities text) t))) := by
  have hpres : ∀ t', Presents auth t' → t' = t := fun t' h' => presents_unique h' h
  cases hl : lookup Identity.token (loadIdentities text) t with
  | none =>
      have hno := lookup_none.mp hl
      refine ⟨?_, fun _ => ⟨_, rfl⟩, ?_⟩
      · intro service
        constructor
        · rintro ⟨scopes, hout⟩
          cases hout
        · rintro ⟨t', sc, hp, hlast, -⟩
          exact absurd (lastLine_declared (hpres t' hp ▸ hlast)) hno
      · rintro ⟨t', hp, hd⟩
        exact absurd (hpres t' hp ▸ hd) hno
  | some i =>
      obtain ⟨-, sc, hlast, hscopes⟩ := lookup_iff.mp hl
      have hgrants : i.scopes.contains scope = true ↔ Grants sc scope := by
        rw [List.contains_iff_mem, hscopes, mem_scopesOf]
      have hsame : ∀ t' service sc', Presents auth t' → LastLine text t' service sc' →
          Grants sc' scope →
          service = i.service ∧ Grants sc scope := by
        intro t' service sc' hp hl' hg
        obtain ⟨hs, hsc⟩ := lastLine_unique (hpres t' hp ▸ hl') hlast
        exact ⟨hs, mem_scopesOf.mp (hsc ▸ mem_scopesOf.mpr hg)⟩
      have hdecl := lastLine_declared hlast
      by_cases hg : Grants sc scope
      · have hout : answered scope (some (some i)) = .identity i.service i.scopes :=
          if_pos (hgrants.mpr hg)
        rw [hout]
        refine ⟨?_, fun hno => absurd ⟨t, h, hdecl⟩ hno,
          fun _ hno => absurd ⟨t, _, sc, h, hlast, hg⟩ hno⟩
        intro service
        constructor
        · rintro ⟨scopes, hid⟩
          cases hid
          exact ⟨t, sc, h, hlast, hg⟩
        · rintro ⟨t', sc', hp, hl', hg'⟩
          rw [(hsame t' service sc' hp hl' hg').1]
          exact ⟨_, rfl⟩
      · have hout : ∃ detail, answered scope (some (some i)) = .http 403 detail :=
          ⟨_, if_neg fun hc => hg (hgrants.mp hc)⟩
        obtain ⟨detail, hout⟩ := hout
        rw [hout]
        refine ⟨?_, fun hno => absurd ⟨t, h, hdecl⟩ hno, fun _ _ => ⟨_, rfl⟩⟩
        intro service
        constructor
        · rintro ⟨scopes, hid⟩
          cases hid
        · rintro ⟨t', sc', hp, hl', hg'⟩
          exact absurd (hsame t' service sc' hp hl' hg').2 hg

theorem typeError_unspecified {auth : String} (scope : String) :
    ¬ Specified text auth scope .typeError := by
  intro h
  by_cases hd : ∃ t, Presents auth t ∧ Declared text t
  · by_cases hg : ∃ t service sc, Presents auth t ∧ LastLine text t service sc ∧ Grants sc scope
    · obtain ⟨t, service, sc, hp, hl, hg⟩ := hg
      obtain ⟨scopes, hout⟩ := (h.accepted service).mpr ⟨t, sc, hp, hl, hg⟩
      cases hout
    · obtain ⟨detail, hout⟩ := h.missing hd hg
      cases hout
  · obtain ⟨detail, hout⟩ := h.unknown hd
    cases hout

theorem requireIdentity_iff (text auth scope : String) :
    Specified text auth scope (requireIdentity text auth scope) ↔
      ∀ t, Presents auth t → Comparable text t := by
  constructor
  · intro h t hp
    apply Classical.byContradiction
    intro hno
    have hraise := lookup_raises fun hc => hno (comparable_iff.mpr hc)
    rw [requireIdentity_presented scope hp, hraise] at h
    exact typeError_unspecified scope h
  · intro h
    by_cases hb : bearer.isPrefixOf auth.toList = true
    · have hp : Presents auth (strip (auth.toList.drop bearer.length)) := presents_iff.mpr ⟨hb, rfl⟩
      rw [requireIdentity_presented scope hp, lookup_compared (comparable_iff.mp (h _ hp))]
      exact answered_specified scope hp
    · have hno : ∀ t, ¬ Presents auth t := fun t hp => hb (presents_iff.mp hp).1
      rw [requireIdentity, if_neg hb]
      refine ⟨?_, fun _ => ⟨_, rfl⟩, ?_⟩
      · intro service
        constructor
        · rintro ⟨scopes, hout⟩
          cases hout
        · rintro ⟨t, sc, hp, -⟩
          exact absurd hp (hno t)
      · rintro ⟨t, hp, -⟩
        exact absurd hp (hno t)

/-- A token with an accented letter, sent against a file with one entry. -/
theorem accent_raises : ∃ text auth scope, ¬ Specified text auth scope
    (requireIdentity text auth scope) := by
  refine ⟨"svc-acms=tok:ALL", "Bearer é", "runtime:read", fun h => ?_⟩
  have hout : requireIdentity "svc-acms=tok:ALL" "Bearer é" "runtime:read" = .typeError := by
    decide +kernel
  rw [hout] at h
  exact typeError_unspecified _ h

end ServerManager.ServiceTokens
