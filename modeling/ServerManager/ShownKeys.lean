import ServerManager.OpenRouterGate

namespace ServerManager.ShownKeys

open PyJson
open OpenRouterGate (canWriteKeys)

/-- What LiteLLM answers: a status and a body to `/key/list`, and to `/key/info` of a token. -/
structure LiteLLM where
  keyList : Nat × Json
  keyInfo : String → Nat × Json

def keysOf (body : Json) : List Json :=
  match body with
  | .obj data =>
      match Dict.get? data "keys" with
      | some (.arr tokens) => tokens
      | _ => []
  | _ => []

/-- `info.get("info")`, if it is an object. -/
def infoOf (body : Json) : Option Dict :=
  match body with
  | .obj info =>
      match Dict.get? info "info" with
      | some (.obj keyMeta) => some keyMeta
      | _ => some []
  | _ => none

def metaOf (answer : Nat × Json) : Dict := if answer.1 = 200 then (infoOf answer.2).getD [] else []

def aliasOf (keyMeta : Dict) : Json := (Dict.get? keyMeta "key_alias").getD .null

structure KeyView where
  token : String
  keyAlias : Json
  spend : Json
  maxBudget : Json
  expires : Json
  blocked : Bool
  models : Json

def viewOf (token : String) (keyMeta : Dict) : KeyView where
  token := String.ofList (token.toList.take 12) ++ "…"
  keyAlias := aliasOf keyMeta
  spend := (Dict.get? keyMeta "spend").getD .null
  maxBudget := (Dict.get? keyMeta "max_budget").getD .null
  expires := (Dict.get? keyMeta "expires").getD .null
  blocked := ((Dict.get? keyMeta "blocked").getD (.bool false)).truthy
  models := (Dict.get? keyMeta "models").getD .null

/-- What `api_keys` makes of an entry. -/
inductive Entry
  | skip
  | token (t : String)
  | raises

/-- A text, or `(tok or {}).get("token", "")`. Anything else that is true has no
`get`, or is no text that can be cut. -/
def entryOf : Json → Entry
  | .str t => if t = "" then .skip else .token t
  | tok =>
      match tok.orElse (.obj []) with
      | .obj fields =>
          match (Dict.get? fields "token").getD (.str "") with
          | .str t => if t = "" then .skip else .token t
          | v => if v.truthy then .raises else .skip
      | _ => .raises

/-- The tokens with what is shown of them, or an exception. -/
def shownKeys (r : LiteLLM) : List Json → Option (List (String × KeyView))
  | [] => some []
  | tok :: rest =>
      match entryOf tok with
      | .skip => shownKeys r rest
      | .token t =>
          (shownKeys r rest).map (fun keys => (t, viewOf t (metaOf (r.keyInfo t))) :: keys)
      | .raises => none

inductive KeysReply
  | error (status : Nat) (text : String)
  | failed
  | keys (keys : List KeyView) (liteStatus : Nat)

/-- `api_keys`. -/
def apiKeys (user : Option String) (r : LiteLLM) : KeysReply :=
  if user = none then .error 401 "auth required"
  else
    match shownKeys r (keysOf r.keyList.2) with
    | some keys => .keys (keys.map (·.2)) r.keyList.1
    | none => .failed

def aliasValue : Option String → Json
  | some s => .str s
  | none => .null

/-- `resolve_tokens_by_alias`. -/
def resolveTokens (r : LiteLLM) (keyAlias : Option String) : List String :=
  match keyAlias with
  | none => []
  | some "" => []
  | some s =>
      (keysOf r.keyList.2).filterMap fun tok =>
        match tok with
        | .str t =>
            if t ≠ "" ∧ (r.keyInfo t).1 = 200 then
              match infoOf (r.keyInfo t).2 with
              | some keyMeta => if (aliasOf keyMeta).isStr s then some t else none
              | none => none
            else none
        | _ => none

inductive Post
  | block (token : String)
  | unblock (token : String)
  | delete (tokens : List String)

def Post.tokens : Post → List String
  | .block t => [t]
  | .unblock t => [t]
  | .delete ts => ts

inductive ActReply
  | error (status : Nat) (text : String)
  | acted (status resolved : Nat) (results : List Nat)
  | deleted (status resolved : Nat) (result : Json)

def noKey (keyAlias : Option String) : ActReply :=
  .error 404 ("no key found for alias " ++ (aliasValue keyAlias).pyRepr)

def permitted (user : Option String) (role : String) (act : List Post × ActReply) :
    List Post × ActReply :=
  if user = none then ([], .error 401 "auth required")
  else if role ∉ canWriteKeys then ([], .error 403 "forbidden")
  else act

/-- `api_keys_block`, with LiteLLM's answer to each post. -/
def apiKeysBlock (user : Option String) (role : String) (keyAlias : Option String) (unblock : Bool)
    (answer : Post → Nat × Json)
    (r : LiteLLM) : List Post × ActReply :=
  permitted user role <|
    match resolveTokens r keyAlias with
    | [] => ([], noKey keyAlias)
    | tokens =>
        let posts := tokens.map (fun t => if unblock then Post.unblock t else .block t)
        let results := posts.map (fun p => (answer p).1)
        (posts, .acted (if results.all (fun st => st == 200) then 200 else 502) tokens.length
          results)

/-- `api_keys_delete`. -/
def apiKeysDelete (user : Option String) (role : String) (keyAlias : Option String)
    (answer : Post → Nat × Json)
    (r : LiteLLM) : List Post × ActReply :=
  permitted user role <|
    match resolveTokens r keyAlias with
    | [] => ([], noKey keyAlias)
    | tokens =>
        let (status, data) := answer (.delete tokens)
        ([.delete tokens], .deleted status tokens.length
          (if status = 200 then data else .str (String.ofList (data.pyStr.toList.take 150))))

inductive Act
  | block (unblock : Bool)
  | delete

def Act.posts (act : Act) (user role : String) (keyAlias : Option String)
    (answer : Post → Nat × Json) (r : LiteLLM) : List Post :=
  match act with
  | .block unblock => (apiKeysBlock (some user) role keyAlias unblock answer r).1
  | .delete => (apiKeysDelete (some user) role keyAlias answer r).1

/-- The keys that are shown with an alias are those that are found by it and acted upon. -/
structure Actionable (r : LiteLLM) (shown : List (String × KeyView)) (a : Option String) :
    Prop where
  reached : ∀ t v, (t, v) ∈ shown → v.keyAlias = aliasValue a → t ∈ resolveTokens r a
  own : ∀ t ∈ resolveTokens r a, aliasOf (metaOf (r.keyInfo t)) = aliasValue a
  acted : ∀ (act : Act) user role answer, role ∈ canWriteKeys → ∀ t,
    t ∈ (act.posts user role a answer r).flatMap Post.tokens ↔
      ∃ v, (t, v) ∈ shown ∧ v.keyAlias = aliasValue a

/-- The alias is a text that is not empty. -/
def Named (a : Option String) : Prop := ∃ s, a = some s ∧ s ≠ ""

theorem apiKeys_shown {user : Option String} {r : LiteLLM} {keys : List KeyView}
    {liteStatus : Nat} :
    apiKeys user r = .keys keys liteStatus ↔ user ≠ none ∧ liteStatus = r.keyList.1 ∧
      ∃ shown, shownKeys r (keysOf r.keyList.2) = some shown ∧ keys = shown.map (·.2) := by
  rw [apiKeys]
  split
  next hnone => simp [hnone]
  next hsome =>
    cases shownKeys r (keysOf r.keyList.2) with
    | none => simp
    | some shown => simp [hsome, eq_comm, and_comm]

theorem mem_shownKeys {r : LiteLLM} {entries : List Json} {shown : List (String × KeyView)}
    (h : shownKeys r entries = some shown)
    (t : String) (v : KeyView) :
    (t, v) ∈ shown ↔ v = viewOf t (metaOf (r.keyInfo t)) ∧ ∃ tok ∈ entries,
    entryOf tok = .token t := by
  induction entries generalizing shown with
  | nil =>
      obtain rfl := Option.some.inj h
      simp
  | cons tok rest ih =>
      rw [shownKeys] at h
      cases htok : entryOf tok with
      | skip =>
          rw [htok] at h
          rw [ih h]
          simp [htok]
      | token s =>
          rw [htok] at h
          obtain ⟨keys, hkeys, rfl⟩ := Option.map_eq_some_iff.mp h
          rw [List.mem_cons, ih hkeys]
          constructor
          · rintro (heq | ⟨hv, tok', htok', hs⟩)
            · obtain ⟨rfl, rfl⟩ := Prod.mk.inj heq
              exact ⟨rfl, tok, List.mem_cons_self, htok⟩
            · exact ⟨hv, tok', List.mem_cons_of_mem _ htok', hs⟩
          · rintro ⟨rfl, tok', htok', hs⟩
            rcases List.mem_cons.mp htok' with rfl | htok'
            · rw [htok] at hs
              obtain rfl := Entry.token.inj hs
              exact .inl rfl
            · exact .inr ⟨rfl, tok', htok', hs⟩
      | raises =>
          rw [htok] at h
          cases h

theorem entryOf_str {t : String} (ht : t ≠ "") : entryOf (.str t) = .token t := by
  simp [entryOf, ht]

theorem entryOf_ne {tok : Json} {t : String} (h : entryOf tok = .token t) : t ≠ "" := by
  have hcut : ∀ s, (if s = "" then Entry.skip else .token s) = .token t → t ≠ "" := by
    intro s hs
    split at hs
    · cases hs
    next hne =>
      obtain rfl := Entry.token.inj hs
      exact hne
  have hrest : ∀ j : Json, (match j.orElse (.obj []) with
      | .obj fields =>
          match (Dict.get? fields "token").getD (.str "") with
          | .str s => if s = "" then Entry.skip else .token s
          | v => if v.truthy then .raises else .skip
      | _ => .raises) = .token t → t ≠ "" := by
    intro j hj
    split at hj
    · split at hj
      · exact hcut _ hj
      · split at hj
        · cases hj
        · cases hj
    · cases hj
  cases tok with
  | str s => exact hcut s h
  | null => exact hrest .null h
  | bool b => exact hrest (.bool b) h
  | int n => exact hrest (.int n) h
  | float lit => exact hrest (.float lit) h
  | arr xs => exact hrest (.arr xs) h
  | obj fields => exact hrest (.obj fields) h

theorem aliasOf_meta {answer : Nat × Json} {s : String} : aliasOf (metaOf answer) = .str s ↔
    answer.1 = 200 ∧ ∃ keyMeta, infoOf answer.2 = some keyMeta ∧
      (aliasOf keyMeta).isStr s = true := by
  have hnil : aliasOf [] ≠ .str s := nofun
  rw [metaOf]
  split
  next hst =>
    cases hi : infoOf answer.2 with
    | none => simp [hnil]
    | some keyMeta => simp [hst, Json.isStr_iff]
  next hst => simp [hst, hnil]

theorem mem_resolveTokens {r : LiteLLM} {a : Option String} {t : String} : t ∈ resolveTokens r a ↔
    Named a ∧ .str t ∈ keysOf r.keyList.2 ∧ t ≠ "" ∧
      aliasOf (metaOf (r.keyInfo t)) = aliasValue a := by
  rw [resolveTokens.eq_def]
  split
  · simp [Named]
  · simp [Named]
  next s hs =>
    have hne : s ≠ "" := fun he => hs (he ▸ rfl)
    have hnamed : Named (some s) := ⟨s, rfl, hne⟩
    rw [aliasValue, aliasOf_meta, List.mem_filterMap]
    constructor
    · rintro ⟨tok, htok, hfound⟩
      split at hfound
      next u =>
        split at hfound
        next hif =>
          split at hfound
          next keyMeta hinfo =>
            split at hfound
            next halias =>
              obtain rfl := Option.some.inj hfound
              exact ⟨hnamed, htok, hif.1, hif.2, keyMeta, hinfo, halias⟩
            · cases hfound
          · cases hfound
        · cases hfound
      · cases hfound
    · rintro ⟨-, htok, ht, hst, keyMeta, hinfo, halias⟩
      refine ⟨.str t, htok, ?_⟩
      simp [ht, hst, hinfo, halias]

theorem mem_posts {act : Act} {user role : String} {a : Option String} {answer : Post → Nat × Json}
    {r : LiteLLM}
    (hrole : role ∈ canWriteKeys) (t : String) :
    t ∈ (act.posts user role a answer r).flatMap Post.tokens ↔ t ∈ resolveTokens r a := by
  have hmay : ∀ act : List Post × ActReply, permitted (some user) role act = act := by
    intro act
    simp [permitted, hrole]
  cases act with
  | block unblock =>
      rw [Act.posts, apiKeysBlock, hmay]
      cases resolveTokens r a with
      | nil => simp
      | cons u us =>
          have htokens : ∀ s : String, (if unblock then Post.unblock s else .block s).tokens =
              [s] := by
            intro s
            cases unblock with
            | false => rfl
            | true => rfl
          simp [List.flatMap_map, htokens]
  | delete =>
      rw [Act.posts, apiKeysDelete, hmay]
      cases resolveTokens r a with
      | nil => simp
      | cons u us => simp [Post.tokens]

/-- An alias reaches the keys that are shown with it exactly when it is a text, not empty,
and each of them is in the list as a text too, as soon as there is such a key. -/
theorem actionable_iff {r : LiteLLM} {shown : List (String × KeyView)}
    (h : shownKeys r (keysOf r.keyList.2) = some shown)
    (a : Option String) : Actionable r shown a ↔
      ∀ tok ∈ keysOf r.keyList.2, ∀ t, entryOf tok = .token t →
        aliasOf (metaOf (r.keyInfo t)) = aliasValue a →
        Named a ∧ .str t ∈ keysOf r.keyList.2 := by
  constructor
  · intro hact tok htok t hent halias
    have hin : (t, viewOf t (metaOf (r.keyInfo t))) ∈ shown :=
      (mem_shownKeys h _ _).mpr ⟨rfl, tok, htok, hent⟩
    obtain ⟨hnamed, hstr, -⟩ := mem_resolveTokens.mp (hact.reached t _ hin halias)
    exact ⟨hnamed, hstr⟩
  · intro hall
    have hreached : ∀ t v, (t, v) ∈ shown → v.keyAlias = aliasValue a → t ∈ resolveTokens r a := by
      intro t v hin halias
      obtain ⟨rfl, tok, htok, hent⟩ := (mem_shownKeys h _ _).mp hin
      obtain ⟨hnamed, hstr⟩ := hall tok htok t hent halias
      exact mem_resolveTokens.mpr ⟨hnamed, hstr, entryOf_ne hent, halias⟩
    refine ⟨hreached, fun t ht => (mem_resolveTokens.mp ht).2.2.2,
      fun act user role answer hrole t => ?_⟩
    rw [mem_posts hrole]
    constructor
    · intro ht
      obtain ⟨-, hstr, hne, halias⟩ := mem_resolveTokens.mp ht
      exact ⟨_, (mem_shownKeys h _ _).mpr ⟨rfl, _, hstr, entryOf_str hne⟩, halias⟩
    · rintro ⟨v, hin, halias⟩
      exact hreached t v hin halias

/-- One key, which has an alias, in a list of either shape. -/
def oneKey (entry : Json) : LiteLLM where
  keyList := (200, .obj [("keys", .arr [entry])])
  keyInfo _ := (200, .obj [("info", .obj [("key_alias", .str "ann")])])

def annView : String × KeyView := ("3f2a", viewOf "3f2a" [("key_alias", .str "ann")])

theorem text_actionable : Actionable (oneKey (.str "3f2a")) [annView] (some "ann") := by
  have h : shownKeys (oneKey (.str "3f2a")) (keysOf (oneKey (.str "3f2a")).keyList.2) =
      some [annView] := rfl
  refine (actionable_iff h (some "ann")).mpr fun tok htok t hent _ => ?_
  obtain rfl := List.mem_singleton.mp htok
  obtain rfl := Entry.token.inj hent
  exact ⟨⟨"ann", rfl, by decide⟩, htok⟩

/-- The key is on the page, and no button finds it. -/
theorem object_not_actionable : ¬ ∀ r shown, shownKeys r (keysOf r.keyList.2) = some shown → ∀ a,
    Actionable r shown a := by
  intro hall
  have hact := hall (oneKey (.obj [("token", .str "3f2a")])) [annView] rfl (some "ann")
  have hnil : resolveTokens (oneKey (.obj [("token", .str "3f2a")])) (some "ann") = [] := rfl
  have hin := hact.reached "3f2a" annView.2 (List.mem_singleton.mpr rfl) rfl
  rw [hnil] at hin
  cases hin

end ServerManager.ShownKeys
