import Mathlib.Data.List.Induction
import ServerManager.PresetRows

namespace ServerManager.PresetOrder

open PyJson Presets RecencyList PresetRows

inductive Op
  | show (running : Option (String × String))
  | create (name content : String) (named : Bool)
  | use (pid : Int)
  | rename (pid : Int) (name : String)
  | delete (pid : Int)
  | reorder (order : List Int)

/-- What it does to the host's list; a new entry gets `id`. -/
def Op.on (id : Int) : Op → List Entry → List Entry
  | .show (some (name, text)), [] => [⟨id, name, text⟩]
  | .show _, l => l
  | .create name content named, l =>
      match l.find? (fun e => e.content = content) with
      | some old =>
          toFront Entry.id old.id (l.map (fun e => if named && e.id =
            old.id then { e with name := name } else e))
      | none => ⟨id, name, content⟩ :: l
  | .use pid, l => toFront Entry.id pid l
  | .rename pid name, l => l.map (fun e => if e.id = pid then { e with name := name } else e)
  | .delete pid, l => l.filter (fun e => e.id ≠ pid)
  | .reorder order, l => arrange Entry.id order l

def Op.Possible (l : List Entry) : Op → Prop
  | .use pid | .rename pid _ | .delete pid => pid ∈ l.map Entry.id
  | _ => True

/-- The answer reports on the list as it is after the request. -/
def Reports : Op → Answer → List Entry → Prop
  | .show _, .presets rows _, l => rows.map entryOf = l
  | .create _ content _, .created id, l | .create _ content _, .reused id, l =>
      (l.head?.map fun e => (e.id, e.content)) = some (id, content)
  | .use pid, .used content, l => (l.head?.map fun e => (e.id, e.content)) = some (pid, content)
  | .rename .., .ok, _ | .delete _, .ok, _ | .reorder _, .ok, _ => True
  | _, _, _ => False

def host : Request → String
  | .list ip .. | .create ip .. | .use ip .. | .rename ip .. | .delete ip .. | .reorder ip .. => ip

def envOf : Request → Env
  | .list _ _ _ env | .create _ _ env | .use _ _ env | .rename _ _ _ env | .delete _ _ env
  | .reorder _ _ env => env

def orderOf (x : Json) : Option (List Int) :=
  match x with
  | .arr xs => xs.mapM (fun x => match x with | .int n => some n | _ => none)
  | _ => none

/-- What the request asks for, unless it is refused for what it says itself. -/
def opOf : Request → Option Op
  | .list ip rc unit env =>
      if env.user = "" || !vllmHosts.contains ip then none
      else some (.show ((importable rc unit).map
        (fun text => ("Imported active command - " ++ env.day, text))))
  | .create ip body env =>
      if !env.edits || !vllmHosts.contains ip then none
      else (createFields body env).toOption.map (fun x => .create x.2.1 x.1 x.2.2)
  | .use ip pid env => if !env.edits || !vllmHosts.contains ip then none else some (.use pid)
  | .rename _ pid body env =>
      if !env.edits then none else (renameField body).toOption.map (.rename pid)
  | .delete _ pid env => if !env.edits then none else some (.delete pid)
  | .reorder _ body env =>
      if !env.edits then none else ((orderField body).toOption.bind orderOf).map .reorder

variable (sha256 : String → String) (idOf : Json → Except Answer (Option Int))

/-- A reorder request that is not refused gives a permutation of the ids of the host's list. -/
def Arranges (s : Store) : Request → Prop
  | .reorder ip body env => env.edits = true → ∀ x, orderField body = .ok x →
      ∃ order : List Int, x = .arr (order.map Json.int) ∧ order.Perm ((entries s ip).map Entry.id)
  | _ => True

structure Done (s : Store) (r : Request) (s' : Store) (op : Op) : Prop where
  asked : opOf r = some op
  possible : op.Possible (entries s (host r))
  list : ∃ id, (∀ ip, ∀ e ∈ entries s ip, e.id ≠ id) ∧
    entries s' (host r) = op.on id (entries s (host r))

structure Follows (n : Nat) (s : Store) (r : Request) (s' : Store) (a : Answer) : Prop where
  others : ∀ ip, ip ≠ host r → entries s' ip = entries s ip
  done : (∀ status text, a ≠ .error status text) → ∃ op, Done s r s' op ∧
    Reports op a (entries s' (host r))
  refused : ∀ status text, a = .error status text → entries s' (host r) = entries s (host r) ∨
    (∃ text, (envOf r).fault = .lost text) ∧ ∃ op, Done s r s' op
  /-- Nothing but the database, or the range of its integers, refuses what can be done. -/
  answered : ∀ op, opOf r = some op → op.Possible (entries s (host r)) →
    (envOf r).connected = true →
    (envOf r).fault = .none → n < 2147483647 → ∀ status text, a ≠ .error status text

/-- The store is a list of presets for each host, the most recently used first. -/
structure Recency (reqs : List Request) : Prop where
  follows : ∀ past r later, reqs = past ++ r :: later → Follows past.length (run sha256 idOf past) r
    (step sha256 idOf (run sha256 idOf past) r).1 (step sha256 idOf (run sha256 idOf past) r).2
  distinct : ∀ past later, reqs = past ++ later → ∀ ip,
    ((entries (run sha256 idOf past) ip).map Entry.content).Nodup

variable {sha256} {idOf} {n m : Nat} {s s' : Store} {ip : String}

/-- A request is answered as it should be, and the table stays in order. -/
structure Answered (sha256 : String → String) (n : Nat) (s : Store) (r : Request)
    (x : Store × Answer) : Prop where
  inv : Inv sha256 (n + 1) x.1
  follows : Follows n s r x.1 x.2

variable {r : Request} {op : Op} {a : Answer}

theorem reports_ne_error {l : List Entry} (h : Reports op a l) (status : Nat) (text : String) :
    a ≠ .error status text := by
  rintro rfl
  cases op <;> exact h

theorem refused_answered (h : Inv sha256 n s) (hop : opOf r = none) (status : Nat) (text : String) :
    Answered sha256 n s r (s, .error status text) := by
  refine ⟨h.mono (Nat.le_succ n), fun _ _ => rfl, fun ha => absurd rfl (ha status text),
    fun _ _ _ => .inl rfl,
    fun op hsome => ?_⟩
  rw [hop] at hsome
  cases hsome

structure Carried (sha256 : String → String) (n : Nat) (s : Store) (ip : String) (op : Op)
    (s' : Store) (a : Answer) : Prop where
  possible : op.Possible (entries s ip)
  turns : ∃ id, (∀ ip, ∀ e ∈ entries s ip, e.id ≠ id) ∧
    Turns sha256 (n + 1) s ip (op.on id (entries s ip)) s'
  reports : Reports op a (entries s' ip)

theorem transaction_answered (h : Inv sha256 n s) (hop : opOf r = some op)
    {body : Except Answer (Store × Answer)}
    (hok : ∀ s' a, body = .ok (s', a) → Carried sha256 n s (host r) op s' a)
    (herr : Errs (op.Possible (entries s (host r)) → 2147483647 ≤ n) body) :
    Answered sha256 n s r (transaction s (envOf r) body) := by
  have hstay : ∀ status text, ((envOf r).connected = true → (envOf r).fault = .none →
      op.Possible (entries s (host r)) → 2147483647 ≤ n) → Answered sha256 n s r (s, .error status text) := by
    intro status text hwhy
    refine ⟨h.mono (Nat.le_succ n), fun _ _ => rfl, fun ha => absurd rfl (ha status text),
      fun _ _ _ => .inl rfl,
      fun op' hsome hpos hcon hf hn => ?_⟩
    rw [hop] at hsome
    cases hsome
    exact absurd (hwhy hcon hf hpos) (Nat.not_le.mpr hn)
  have hfailed : ∀ {text status text'}, (envOf r).fault = .failed text →
      Answered sha256 n s r (s, .error status text') := by
    intro text status text' hf
    refine hstay status text' fun _ hnone => ?_
    rw [hf] at hnone
    cases hnone
  rw [transaction.eq_def]
  by_cases hcon : (envOf r).connected = true
  · rw [if_neg (by simp [hcon])]
    cases hb : body with
    | error a =>
        obtain ⟨⟨status, text, rfl⟩, hwhy⟩ := herr a hb
        cases hf : (envOf r).fault with
        | none => exact hstay status text fun _ _ => hwhy
        | failed text' => exact hfailed hf
        | lost text' => exact hstay status text fun _ _ => hwhy
    | ok x =>
        obtain ⟨s', a⟩ := x
        obtain ⟨hpos, ⟨id, hfresh, ht⟩, hrep⟩ := hok s' a hb
        have hdone : Done s r s' op := ⟨hop, hpos, id, hfresh, ht.here⟩
        cases hf : (envOf r).fault with
        | none =>
            have hne := reports_ne_error hrep
            exact ⟨ht.inv, ht.others, fun _ => ⟨op, hdone, hrep⟩,
              fun status text ha => absurd ha (hne status text),
              fun _ _ _ _ _ _ => hne⟩
        | failed text => exact hfailed hf
        | lost text =>
            refine ⟨ht.inv, ht.others, fun ha => absurd rfl (ha 500 text),
              fun _ _ _ => .inr ⟨⟨text, hf⟩, op, hdone⟩,
              fun _ _ _ _ hnone => ?_⟩
            rw [hf] at hnone
            cases hnone
  · rw [if_pos (by simpa using hcon)]
    exact hstay 503 "postgres unavailable" fun hc => absurd hc hcon

theorem updateOne_carried (h : Inv sha256 n s) {pid : Int} {f : Preset → Preset} (op : Op)
    (hpos : op.Possible (entries s ip) ↔ pid ∈ (entries s ip).map Entry.id)
    (ht : ∀ id, Turns sha256 n s ip (op.on id (entries s ip)) (s.update (keyed ip pid) f))
    (hrep : ∀ l, Reports op .ok l) :
    (∀ s' a, updateOne s ip pid f = .ok (s', a) → Carried sha256 n s ip op s' a) ∧
      Errs (op.Possible (entries s ip) → 2147483647 ≤ n) (updateOne s ip pid f) := by
  rw [updateOne]
  split
  next hsome =>
      refine ⟨fun s' a hb => ?_, Errs.ok _⟩
      cases hb
      exact ⟨hpos.mpr ((get?_isSome h pid).mp hsome),
        ⟨s.next + (0 : Nat), h.entries_fresh 0, (ht _).mono (Nat.le_succ n)⟩,
        hrep _⟩
  next hnone =>
      refine ⟨fun s' a hb => (by cases hb), Errs.error (fun hp => ?_) _ _⟩
      exact absurd ((get?_isSome h pid).mpr (hpos.mp hp)) hnone

theorem bodyDict_errs (body : Option Json) : Errs True (bodyDict body) := by
  cases body with
  | none => exact Errs.error trivial _ _
  | some x =>
      cases x with
      | obj fs => exact Errs.ok fs
      | _ => exact Errs.error trivial _ _

theorem textOf_errs (fs : Dict) (key : String) : Errs True (textOf fs key) := by
  rw [textOf]
  split
  · exact Errs.ok _
  · exact Errs.error trivial _ _

theorem createFields_errs (body : Option Json) (env : Env) : Errs True (createFields body env) := by
  apply (bodyDict_errs body).bind
  intro fs _
  apply (textOf_errs fs "content").bind
  intro text _
  apply (textOf_errs fs "friendly_name").bind
  intro given _
  dsimp only
  split
  · exact Errs.error trivial _ _
  · exact Errs.ok _

theorem renameField_errs (body : Option Json) : Errs True (renameField body) := by
  apply (bodyDict_errs body).bind
  intro fs _
  apply (textOf_errs fs "friendly_name").bind
  intro text _
  split
  · exact Errs.error trivial _ _
  · exact Errs.ok _

theorem orderField_errs (body : Option Json) : Errs True (orderField body) := by
  apply (bodyDict_errs body).bind
  intro fs _
  dsimp only
  split
  · exact Errs.error trivial _ _
  · exact Errs.ok _

theorem delete_answered (h : Inv sha256 n s) (ip : String) (pid : Int) (env : Env) :
    Answered sha256 n s (.delete ip pid env) (presetsDelete s ip pid env) := by
  rw [presetsDelete]
  by_cases hed : env.edits = true
  · rw [if_neg (by simp [hed])]
    have hop : opOf (.delete ip pid env) = some (.delete pid) := by simp [opOf, hed]
    obtain ⟨hok, herr⟩ :=
      updateOne_carried h (.delete pid) Iff.rfl (fun _ => removed_turns h pid) fun _ => trivial
    exact transaction_answered h hop hok herr
  · rw [if_pos (by simpa using hed)]
    exact refused_answered h (by simp [opOf, hed]) _ _

theorem rename_answered (h : Inv sha256 n s) (ip : String) (pid : Int) (body : Option Json)
    (env : Env) :
    Answered sha256 n s (.rename ip pid body env) (presetsRename s ip pid body env) := by
  rw [presetsRename]
  by_cases hed : env.edits = true
  · rw [if_neg (by simp [hed])]
    cases hname : renameField body with
    | error a =>
        obtain ⟨⟨status, text, rfl⟩, -⟩ := renameField_errs body a hname
        exact refused_answered h (by simp [opOf, hname, Except.toOption]) _ _
    | ok name =>
        have hop : opOf (.rename ip pid body env) = some (.rename pid name) := by
          simp [opOf, hed, hname, Except.toOption]
        obtain ⟨hok, herr⟩ :=
          updateOne_carried h (.rename pid name) Iff.rfl (fun _ => renames_turns h pid name)
            fun _ => trivial
        exact transaction_answered h hop hok herr
  · rw [if_pos (by simpa using hed)]
    exact refused_answered h (by simp [opOf, hed]) _ _

theorem head_toFront (h : Inv sha256 n s) {q : Preset} (hq : q ∈ s.rows) (hkey : q.scopeKey = ip)
    (hdel : q.deleted = false)
    {pid : Int} (hid : q.id = pid) {l : List Entry} (hl : l = toFront Entry.id pid (entries s ip)) :
    (l.head?.map fun e => (e.id, e.content)) = some (pid, q.content) := by
  have hmem : entryOf q ∈ entries s ip := List.mem_map_of_mem (h.mem_listed.mpr ⟨hq, hkey, hdel⟩)
  rw [hl, toFront_eq_cons (h.entry_ids ip) hmem hid, ← hid]
  rfl

theorem use_answered (h : Inv sha256 n s) (ip : String) (pid : Int) (env : Env) :
    Answered sha256 n s (.use ip pid env) (presetsUse s ip pid env) := by
  rw [presetsUse]
  by_cases hed : env.edits = true
  · rw [if_neg (by simp [hed])]
    by_cases hip : ip ∈ vllmHosts
    · rw [if_neg (by simpa using hip)]
      have hop : opOf (.use ip pid env) = some (.use pid) := by simp [opOf, hed, hip]
      cases hget : s.get? ip pid with
      | none =>
          refine transaction_answered h hop (fun s' a hb => (by cases hb))
            (Errs.error (fun hpos => ?_) _ _)
          have hsome := (get?_isSome h pid).mpr hpos
          change (s.get? ip pid).isSome = true at hsome
          rw [hget] at hsome
          cases hsome
      | some p =>
          obtain ⟨hrow, rfl, hkey, hdel⟩ := get?_some hget
          obtain ⟨herr, htouch⟩ := touchPreset_turns h hrow hkey hdel env
          refine transaction_answered h hop (fun s' a hb => ?_)
            ((herr.bind fun _ _ => Errs.ok _).imp fun hn _ => hn)
          obtain ⟨t, ht, hret⟩ := ok_of_bind hb
          cases hret
          have hturns := htouch _ ht
          exact ⟨h.mem_entry_ids.mpr ⟨p, hrow, rfl, hkey, hdel⟩,
            ⟨s.next + (0 : Nat), h.entries_fresh 0, hturns⟩,
            head_toFront h hrow hkey hdel rfl hturns.here⟩
    · rw [if_pos (by simpa using hip)]
      exact refused_answered h (by simp [opOf, hip]) _ _
  · rw [if_pos (by simpa using hed)]
    exact refused_answered h (by simp [opOf, hed]) _ _

theorem entries_nil (h : (s.listed ip).isEmpty = true) : entries s ip = [] := by
  rw [entries, List.isEmpty_iff.mp h]
  rfl

theorem list_answered (h : Inv sha256 n s) (ip : String) (rc : Int) (unit : String) (env : Env) :
    Answered sha256 n s (.list ip rc unit env) (presetsList sha256 s ip rc unit env) := by
  rw [presetsList]
  by_cases hu : env.user = ""
  · rw [if_pos hu]
    exact refused_answered h (by simp [opOf, hu]) _ _
  rw [if_neg hu]
  by_cases hip : ip ∈ vllmHosts
  · rw [if_neg (by simpa using hip)]
    have hop : opOf (.list ip rc unit env) =
        some (.show ((importable rc unit).map
          (fun text => ("Imported active command - " ++ env.day, text)))) := by
      simp [opOf, hu, hip]
    cases hempty : (s.listed ip).isEmpty with
    | true =>
        have hnil := entries_nil hempty
        cases hunit : importable rc unit with
        | none =>
            rw [hunit] at hop
            refine transaction_answered h hop (fun s' a hb => ?_) (Errs.ok _)
            cases hb
            refine ⟨trivial, ⟨s.next + (0 : Nat), h.entries_fresh 0, ?_⟩, ?_⟩
            · exact (Turns.refl h ip).mono (Nat.le_succ n)
            · exact hnil.symm
        | some text =>
            rw [hunit] at hop
            refine transaction_answered h hop (fun s' a hb => ?_) (Errs.ok _)
            cases hb
            have hnone : ∀ p ∈ s.ofHost ip, False := by
              intro p hp
              have hmem := (h.listed_perm ip).symm.subset hp
              rw [List.isEmpty_iff.mp hempty] at hmem
              exact absurd hmem List.not_mem_nil
            have hturns : Turns sha256 (n + 1) s ip _
                (s.insert env.gap (imported sha256 ip text env)) :=
              inserted_turns h rfl rfl rfl rfl rfl
                ⟨by change -(n + 1 : Int) ≤ 0; omega, by change (0 : Int) ≤ n + 1; omega⟩
                (fun p hp => absurd (hnone p hp) id) fun p hp => absurd (hnone p hp) id
            refine ⟨trivial, ⟨s.next + env.gap, h.entries_fresh env.gap, ?_⟩, rfl⟩
            change Turns sha256 (n + 1) s ip (Op.on _ _ (entries s ip)) _
            rw [hnil] at hturns ⊢
            exact hturns
    | false =>
        refine transaction_answered h hop (fun s' a hb => ?_) (Errs.ok _)
        cases hb
        have hon : ∀ id running, Op.on id (.show running) (entries s ip) = entries s ip := by
          intro id running
          cases hl : s.listed ip with
          | nil =>
              rw [hl] at hempty
              cases hempty
          | cons p l =>
              rw [entries, hl]
              cases running with
              | none => rfl
              | some x => rfl
        refine ⟨trivial, ⟨s.next + (0 : Nat), h.entries_fresh 0, ?_⟩, rfl⟩
        change Turns sha256 (n + 1) s ip (Op.on _ _ (entries s ip)) s
        rw [hon]
        exact (Turns.refl h ip).mono (Nat.le_succ n)
  · rw [if_pos (by simpa using hip)]
    exact refused_answered h (by simp [opOf, hip]) _ _

theorem createPreset_carried (hsha : Function.Injective sha256) (h : Inv sha256 n s)
    (ip name content : String) (named : Bool)
    (env : Env) : (∀ s' a, createPreset sha256 s ip name content named env = .ok (s', a) →
        Carried sha256 n s ip (.create name content named) s' a) ∧
      Errs (2147483647 ≤ n) (createPreset sha256 s ip name content named env) := by
  rw [createPreset, active_eq h.engine]
  cases hfind : (s.ofHost ip).find? (fun p => p.contentHash = sha256 content) with
  | some old =>
      obtain ⟨hrow, hkey, hdel⟩ := mem_ofHost.mp (List.mem_of_find?_eq_some hfind)
      have hcontent : old.content = content := by
        have hhash : old.contentHash = sha256 content := by simpa using List.find?_some hfind
        exact hsha ((h.hash old hrow).symm.trans hhash)
      subst hcontent
      obtain ⟨q, hq, hid, hqk, hqd, hqc, hturns⟩ := reused_turns h hrow hkey hdel name named
      obtain ⟨herr, htouch⟩ := touchPreset_turns hturns.inv hq hqk hqd env
      rw [hid] at herr htouch
      refine ⟨fun s' a hb => ?_, herr.bind fun _ _ => Errs.ok _⟩
      obtain ⟨t, ht, hret⟩ := ok_of_bind hb
      cases hret
      have hfront := htouch _ ht
      have hon : Op.on (s.next + (0 : Nat)) (.create name old.content named) (entries s ip) =
          toFront Entry.id old.id
          ((entries s ip).map (fun e => if named && e.id = old.id then { e with name := name }
            else e)) := by
        rw [Op.on, find_content h hrow hkey hdel]
        rfl
      have hhead := head_toFront hturns.inv hq hqk hqd hid hfront.here
      rw [hqc] at hhead
      refine ⟨trivial, ⟨s.next + (0 : Nat), h.entries_fresh 0, ?_⟩, hhead⟩
      rw [hon, ← hturns.here]
      exact hturns.trans hfront
  | none =>
      have hnew : ∀ p ∈ s.ofHost ip, p.content ≠ content := by
        intro p hp hc
        have hhash : p.contentHash = sha256 content := by rw [h.hash p (mem_ofHost.mp hp).1, hc]
        exact absurd (by simpa using hhash) (List.find?_eq_none.mp hfind p hp)
      have hnone : (entries s ip).find? (fun e => e.content = content) = none := by
        refine List.find?_eq_none.mpr fun e he => ?_
        obtain ⟨p, hp, rfl⟩ := List.mem_map.mp he
        have hne : (entryOf p).content ≠ content := hnew p ((h.listed_perm ip).subset hp)
        simpa using hne
      obtain ⟨hlo, hhi, hbelow⟩ : -(n : Int) ≤ (minOrder (s.ofHost ip)).getD 0 ∧ (minOrder (s.ofHost ip)).getD 0 ≤ n ∧
          ∀ p ∈ s.ofHost ip, (minOrder (s.ofHost ip)).getD 0 ≤ p.sortOrder := by
        cases hl : s.ofHost ip with
        | nil =>
            exact ⟨by simp [minOrder], by simp [minOrder], fun p hp => absurd hp List.not_mem_nil⟩
        | cons p l =>
            obtain ⟨lo, hmin, ⟨q, hq, rfl⟩, hle⟩ :=
              minOrder_le (List.mem_cons_self (a := p) (l := l))
            rw [← hl] at hq
            have hrange := h.range q (mem_ofHost.mp hq).1 (mem_ofHost.mp hq).2.2
            rw [hmin]
            exact ⟨hrange.1, hrange.2, hle⟩
      refine ⟨fun s' a hb => ?_, (int4_errs (by omega) (by omega)).bind fun _ _ => Errs.ok _⟩
      obtain ⟨top, htop, hret⟩ := ok_of_bind hb
      cases hret
      have htop' := int4_eq htop
      have hturns : Turns sha256 (n + 1) s ip _
          (s.insert env.gap (newPreset sha256 ip name content top env)) :=
        inserted_turns h rfl rfl rfl rfl rfl ⟨by change -(n + 1 : Int) ≤ top; omega, by change top ≤ (n + 1 : Int); omega⟩
          (fun p hp => by
            have hle := hbelow p hp
            change top < p.sortOrder
            omega) hnew
      have hon : Op.on (s.next + env.gap) (.create name content named) (entries s ip) =
          ⟨s.next + env.gap, name, content⟩ :: entries s ip := by
        rw [Op.on, hnone]
      refine ⟨trivial, ⟨s.next + env.gap, h.entries_fresh env.gap, ?_⟩, ?_⟩
      · rw [hon]
        exact hturns
      · rw [hturns.here]
        rfl

theorem create_answered (hsha : Function.Injective sha256) (h : Inv sha256 n s) (ip : String)
    (body : Option Json) (env : Env) :
    Answered sha256 n s (.create ip body env) (presetsCreate sha256 s ip body env) := by
  rw [presetsCreate]
  by_cases hed : env.edits = true
  · rw [if_neg (by simp [hed])]
    by_cases hip : ip ∈ vllmHosts
    · rw [if_neg (by simpa using hip)]
      cases hfields : createFields body env with
      | error a =>
          obtain ⟨⟨status, text, rfl⟩, -⟩ := createFields_errs body env a hfields
          exact refused_answered h (by simp [opOf, hfields, Except.toOption]) _ _
      | ok x =>
          obtain ⟨content, name, named⟩ := x
          have hop : opOf (.create ip body env) = some (.create name content named) := by
            simp [opOf, hed, hip, hfields, Except.toOption]
          obtain ⟨hok, herr⟩ := createPreset_carried hsha h ip name content named env
          exact transaction_answered h hop hok (herr.imp fun hn _ => hn)
    · rw [if_pos (by simpa using hip)]
      exact refused_answered h (by simp [opOf, hip]) _ _
  · rw [if_pos (by simpa using hed)]
    exact refused_answered h (by simp [opOf, hed]) _ _

theorem orderOf_ints (order : List Int) : orderOf (.arr (order.map Json.int)) = some order := by
  induction order with
  | nil => rfl
  | cons pid order ih =>
      rw [orderOf] at ih ⊢
      rw [List.map_cons, List.mapM_cons, ih]
      rfl

theorem reorder_answered (hid : Literal idOf) (h : Inv sha256 n s) (ip : String)
    (body : Option Json) (env : Env)
    (harr : Arranges s (.reorder ip body env)) :
    Answered sha256 n s (.reorder ip body env) (presetsReorder idOf s ip body env) := by
  rw [presetsReorder]
  by_cases hed : env.edits = true
  · rw [if_neg (by simp [hed])]
    cases hfield : orderField body with
    | error a =>
        obtain ⟨⟨status, text, rfl⟩, -⟩ := orderField_errs body a hfield
        exact refused_answered h (by simp [opOf, hfield, Except.toOption]) _ _
    | ok x =>
        obtain ⟨order, rfl, hperm⟩ := harr hed x hfield
        have hop : opOf (.reorder ip body env) = some (.reorder order) := by
          simp [opOf, hed, hfield, Except.toOption, orderOf_ints]
        have hn : order.Nodup := hperm.nodup_iff.mpr (h.entry_ids ip)
        have hlen : order.length ≤ n := by
          have hfew := h.few ip
          rw [hperm.length_eq, List.length_map, entries, List.length_map,
            (h.listed_perm ip).length_eq]
          exact hfew
        obtain ⟨hok, herr⟩ := reorderFrom_spec ip hid hn 0 s
        refine transaction_answered h hop (fun s' a hb => ?_) ?_
        · obtain ⟨items, hitems, hloop⟩ := ok_of_bind hb
          cases hitems
          obtain ⟨t, ht, hret⟩ := ok_of_bind hloop
          cases hret
          rw [hok _ ht]
          exact ⟨trivial, ⟨s.next + (0 : Nat), h.entries_fresh 0,
            (placed_turns h hperm).mono (Nat.le_succ n)⟩, trivial⟩
        · have herr' : Errs (2147483647 ≤ n) (reorderFrom idOf ip 0 s (order.map Json.int)) := by
            intro a ha
            obtain ⟨hshape, hlong⟩ := herr a ha
            exact ⟨hshape, by omega⟩
          refine Errs.bind (Errs.ok _) fun items hitems => ?_
          cases hitems
          exact (herr'.bind fun _ _ => Errs.ok _).imp fun hle _ => hle
  · rw [if_pos (by simpa using hed)]
    exact refused_answered h (by simp [opOf, hed]) _ _

theorem step_answered (hsha : Function.Injective sha256) (hid : Literal idOf) (h : Inv sha256 n s)
    (r : Request)
    (harr : Arranges s r) : Answered sha256 n s r (step sha256 idOf s r) := by
  cases r with
  | list ip rc unit env => exact list_answered h ip rc unit env
  | create ip body env => exact create_answered hsha h ip body env
  | use ip pid env => exact use_answered h ip pid env
  | rename ip pid body env => exact rename_answered h ip pid body env
  | delete ip pid env => exact delete_answered h ip pid env
  | reorder ip body env => exact reorder_answered hid h ip body env harr

theorem empty_inv : Inv sha256 0 {} := by
  refine ⟨List.nodup_nil, ?_, ?_, ?_, fun _ => List.nodup_nil, fun _ => List.nodup_nil, ?_,
    fun _ => Nat.le_refl 0⟩
  · exact fun p hp => absurd hp List.not_mem_nil
  · exact fun p hp => absurd hp List.not_mem_nil
  · exact fun p hp => absurd hp List.not_mem_nil
  · exact fun p hp => absurd hp List.not_mem_nil

theorem run_snoc (sha256 : String → String) (idOf : Json → Except Answer (Option Int))
    (reqs : List Request) (r : Request) :
    run sha256 idOf (reqs ++ [r]) = (step sha256 idOf (run sha256 idOf reqs) r).1 := by
  rw [run, List.foldl_append]
  rfl

/-- Every reorder request of the run is given a permutation. -/
def Arranged (sha256 : String → String) (idOf : Json → Except Answer (Option Int))
    (reqs : List Request) : Prop :=
  ∀ past r later, reqs = past ++ r :: later → Arranges (run sha256 idOf past) r

theorem run_inv (hsha : Function.Injective sha256) (hid : Literal idOf) {reqs : List Request}
    (harr : Arranged sha256 idOf reqs) : Inv sha256 reqs.length (run sha256 idOf reqs) := by
  induction reqs using List.reverseRecOn with
  | nil => exact empty_inv
  | append_singleton reqs r ih =>
      have hinv := ih fun past r' later he => harr past r' (later ++ [r]) (by rw [he]; simp)
      rw [run_snoc, List.length_append]
      exact (step_answered hsha hid hinv r (harr reqs r [] rfl)).inv

/-- The presets of each host are a list with the most recently used first. -/
theorem recency (hsha : Function.Injective sha256) (hid : Literal idOf) (reqs : List Request)
    (harr : Arranged sha256 idOf reqs) : Recency sha256 idOf reqs := by
  have hpast : ∀ past later, reqs = past ++ later →
      Inv sha256 past.length (run sha256 idOf past) := by
    intro past later he
    refine run_inv hsha hid fun past' r later' he' => harr past' r (later' ++ later) ?_
    rw [he, he']
    simp
  refine ⟨fun past r later he => ?_, fun past later he ip =>
    (hpast past later he).entry_contents ip⟩
  exact (step_answered hsha hid (hpast past (r :: later) he) r (harr past r later he)).follows

theorem arranged_nil : Arranged sha256 idOf [] := by
  intro past r later he
  simp at he

theorem arranged_snoc {reqs : List Request} (h : Arranged sha256 idOf reqs)
    (hr : Arranges (run sha256 idOf reqs) r) :
    Arranged sha256 idOf (reqs ++ [r]) := by
  intro past r' later he
  rcases List.eq_nil_or_concat later with rfl | ⟨later', x, rfl⟩
  · obtain ⟨rfl, hlast⟩ := List.append_inj' he rfl
    cases hlast
    exact hr
  · have hsplit : reqs ++ [r] = (past ++ r' :: later') ++ [x] := by
      rw [he]
      simp
    exact h past r' later' (List.append_inj' hsplit rfl).1

def admin : Env := ⟨"ops", "Admin", 1000, "2026-09-12", "2026-09-12 10:00", true, 0, .none⟩

def unitText (command : String) : Option Json :=
  some (.obj [("content", .str ("[Service]\nExecStart=" ++ command))])

def bothWays : Option Json := some (.obj [("order", .arr ([1, 2].map Json.int))])

def intId : Json → Except Answer (Option Int)
  | .int k => .ok (some k)
  | _ => .ok none

def twoUnits : List Request :=
  [.create "10.0.20.168" (unitText "a") admin, .create "10.0.20.168" (unitText "b") admin]

theorem twoUnits_reordered : Recency id intId
    (twoUnits ++ [.reorder "10.0.20.168" bothWays admin]) := by
  have hone : Arranged id intId ([] ++ [.create "10.0.20.168" (unitText "a") admin]) :=
    arranged_snoc arranged_nil trivial
  have htwo : Arranged id intId twoUnits :=
    arranged_snoc (r := .create "10.0.20.168" (unitText "b") admin) hone trivial
  refine recency Function.injective_id (fun _ => rfl) _ (arranged_snoc htwo fun _ x hx => ?_)
  cases hx
  refine ⟨[1, 2], rfl, ?_⟩
  have hids : ((run id intId twoUnits).active "10.0.20.168").map (·.id) = [1, 2] := by
    decide +kernel
  have hperm : (((run id intId twoUnits).listed "10.0.20.168").map (·.id)).Perm [1, 2] := by
    rw [← hids]
    exact (List.mergeSort_perm _ _).map _
  rw [entries, List.map_map]
  exact hperm.symm

end ServerManager.PresetOrder
