import ServerManager.Presets
import ServerManager.RunningMax
import Mathlib.Data.List.TakeWhile
import Mathlib.Data.Nat.Basic

namespace ServerManager.DirectoryRoles

open PyText (isSpace)
open RunningMax

def roleOrder : List String := ["Viewer", "Operator", "Admin", "Security-Admin"]

def groupPrefix : String := "llm-manager-vm114-"

/-- `re.match(rf"{re.escape(GROUP_PREFIX)}(\S+)", g)` and its `group(1)`. -/
def rolePart (g : String) : Option String :=
  if groupPrefix.toList.isPrefixOf g.toList then
    match (g.toList.drop groupPrefix.toList.length).takeWhile (fun c => !isSpace c) with
    | [] => none
    | r => some (String.ofList r)
  else none

def stepRole (role : Option String) (g : Option String) : Option String :=
  match rolePart (g.getD "") with
  | some r =>
      if r ∈ roleOrder then
        match role with
        | none => some r
        | some old => if roleOrder.idxOf old < roleOrder.idxOf r then some r else some old
      else role
  | none => role

def roleOf (groups : List (Option String)) : Option String := groups.foldl stepRole none

structure Directory where
  /-- `LDAP_BIND_PW` is set. -/
  bindPw : Bool
  /-- The service account's bind, or its error. -/
  serviceBind : Except String Unit
  /-- The names of the entries found, or an exception. -/
  search : Option (List String)
  /-- The groups of a name, or an exception on the way. -/
  groups : String → Option (List (Option String))
  /-- The password is that of the name. -/
  userBind : String → Bool

/-- `ldap_login`: a role and an error, or an exception. -/
def ldapLogin (d : Directory) : Option (Option String × Option String) :=
  if d.bindPw then
    match d.serviceBind with
    | .error e =>
        some (none, some ("server: service bind failed: " ++ String.ofList (e.toList.take 80)))
    | .ok () =>
        match d.search with
        | none => none
        | some [] => some (none, some "unknown user")
        | some (userDn :: _) =>
            if d.userBind userDn then
              match roleOf ((d.groups userDn).getD []) with
              | none => some (none, some "no llm-manager role assigned (contact an admin)")
              | some role => some (some role, none)
            else some (none, some "invalid credentials")
  else some (none, some "server: bind credentials missing")

/-- The user is known, has given the right password and is in these groups. -/
structure Admits (d : Directory) (groups : List (Option String)) : Prop where
  bindPw : d.bindPw = true
  serviceBind : d.serviceBind = .ok ()
  user : ∃ userDn rest, d.search = some (userDn :: rest) ∧ d.groups userDn = some groups ∧
    d.userBind userDn = true

def granted (d : Directory) : Option String := (ldapLogin d).bind (·.1)

def Exact (groups : List (Option String)) (r : String) : Prop :=
  r ∈ roleOrder ∧ some (groupPrefix ++ r) ∈ groups

/-- The login grants the greatest role that has its group, wherever the group stands in the list. -/
def RightRole (d : Directory) (groups : List (Option String)) : Prop :=
  IsGreatest roleOrder.idxOf (Exact groups) (granted d) ∧
    ∀ d' groups', Admits d' groups' → groups.Perm groups' → granted d' = granted d

/-- A group's name goes on after the role and a blank. -/
def Trailing (groups : List (Option String)) (r : String) : Prop :=
  r ∈ roleOrder ∧ ∃ c rest, isSpace c = true ∧
    some (groupPrefix ++ r ++ String.ofList (c :: rest)) ∈ groups

theorem takeWhile_eq_iff {α : Type} {p : α → Bool} {xs ys : List α} :
    xs.takeWhile p = ys ↔ ∃ rest, xs = ys ++ rest ∧ (∀ y ∈ ys, p y = true) ∧ ∀ x ∈ rest.head?,
      p x = false := by
  constructor
  · rintro rfl
    refine ⟨xs.dropWhile p, List.takeWhile_append_dropWhile.symm,
      fun y hy => List.mem_takeWhile_imp hy, fun x hx => ?_⟩
    have hhead := List.head?_dropWhile_not p xs
    rw [hx] at hhead
    simpa using hhead
  · rintro ⟨rest, rfl, hys, hrest⟩
    rw [List.takeWhile_append_of_pos hys]
    cases rest with
    | nil => simp
    | cons x rest => simp [hrest x rfl]

theorem rolePart_iff {g r : String} (hne : r ≠ "") (hr : ∀ c ∈ r.toList, isSpace c = false) :
    rolePart g = some r ↔ g = groupPrefix ++ r ∨
      ∃ c rest, isSpace c = true ∧ g = groupPrefix ++ r ++ String.ofList (c :: rest) := by
  have hpart : rolePart g = some r ↔ ∃ cs, g.toList = groupPrefix.toList ++ cs ∧
      cs.takeWhile (fun c => !isSpace c) = r.toList := by
    rw [rolePart]
    constructor
    · intro h
      split at h
      next hp =>
        obtain ⟨cs, hcs⟩ := List.isPrefixOf_iff_prefix.mp hp
        rw [← hcs, List.drop_left] at h
        refine ⟨cs, hcs.symm, ?_⟩
        split at h
        · cases h
        next hnil =>
          rw [← Option.some.inj h, String.toList_ofList]
      · cases h
    · rintro ⟨cs, hcs, htake⟩
      have hrne : r.toList ≠ [] := by simpa using hne
      rw [if_pos (List.isPrefixOf_iff_prefix.mpr ⟨cs, hcs.symm⟩), hcs, List.drop_left, htake]
      split
      next hnil => exact absurd hnil hrne
      · rw [String.ofList_toList]
  rw [hpart]
  constructor
  · rintro ⟨cs, hcs, htake⟩
    obtain ⟨rest, rfl, -, hrest⟩ := takeWhile_eq_iff.mp htake
    cases rest with
    | nil =>
        left
        apply String.toList_inj.mp
        rw [hcs, String.toList_append, List.append_nil]
    | cons c rest =>
        refine .inr ⟨c, rest, by simpa using hrest c rfl, ?_⟩
        apply String.toList_inj.mp
        rw [hcs, String.toList_append, String.toList_append, String.toList_ofList,
          List.append_assoc]
  · rintro (rfl | ⟨c, rest, hc, rfl⟩)
    · refine ⟨r.toList, String.toList_append,
        takeWhile_eq_iff.mpr ⟨[], by simp, fun c hc => by simp [hr c hc], nofun⟩⟩
    · refine ⟨r.toList ++ c :: rest, by simp, takeWhile_eq_iff.mpr ⟨c :: rest, rfl,
        fun c hc => by simp [hr c hc], ?_⟩⟩
      rintro x ⟨⟩
      simp [hc]

theorem role_plain : ∀ r ∈ roleOrder, r ≠ "" ∧ ∀ c ∈ r.toList, isSpace c = false := by
  have hall : roleOrder.all (fun r => r != "" && r.toList.all (fun c => !isSpace c)) = true := by
    decide
  simpa using hall

def named (g : Option String) : Option String :=
  (rolePart (g.getD "")).filter (fun r => decide (r ∈ roleOrder))

theorem named_iff {groups : List (Option String)} {r : String} :
    r ∈ groups.filterMap named ↔ Exact groups r ∨ Trailing groups r := by
  have hblank : ∀ (g : Option String) (s : String), g.getD "" = groupPrefix ++ s →
      g = some (groupPrefix ++ s) := by
    intro g s hg
    cases g with
    | none =>
        have hlen := congrArg (fun t => t.toList.length) hg
        simp [groupPrefix] at hlen
    | some t => exact congrArg some hg
  rw [List.mem_filterMap]
  constructor
  · rintro ⟨g, hg, hn⟩
    obtain ⟨hpart, hrole⟩ := Option.filter_eq_some_iff.mp hn
    have hrole := of_decide_eq_true hrole
    obtain ⟨hne, hplain⟩ := role_plain r hrole
    rcases (rolePart_iff hne hplain).mp hpart with heq | ⟨c, rest, hc, heq⟩
    · exact .inl ⟨hrole, hblank g r heq ▸ hg⟩
    · rw [String.append_assoc] at heq
      have hg' := hblank g _ heq ▸ hg
      rw [← String.append_assoc] at hg'
      exact .inr ⟨hrole, c, rest, hc, hg'⟩
  · have hnamed : ∀ s, r ∈ roleOrder → rolePart s = some r → named (some s) = some r := by
      intro s hrole hpart
      rw [named, Option.getD_some, hpart]
      simp [hrole]
    rintro (⟨hrole, hg⟩ | ⟨hrole, c, rest, hc, hg⟩)
    · obtain ⟨hne, hplain⟩ := role_plain r hrole
      exact ⟨_, hg, hnamed _ hrole ((rolePart_iff hne hplain).mpr (.inl rfl))⟩
    · obtain ⟨hne, hplain⟩ := role_plain r hrole
      exact ⟨_, hg, hnamed _ hrole ((rolePart_iff hne hplain).mpr (.inr ⟨c, rest, hc, rfl⟩))⟩

theorem roleOf_eq (groups : List (Option String)) :
    roleOf groups = (groups.filterMap named).foldl (keepMax roleOrder.idxOf) none := by
  rw [List.foldl_filterMap, roleOf]
  congr 1
  funext role g
  rw [stepRole, named]
  cases rolePart (g.getD "") with
  | none => rfl
  | some r =>
      by_cases hr : r ∈ roleOrder
      · simp only [hr, if_true, Option.filter_some, decide_true]
        cases role with
        | none => rfl
        | some old => rfl
      · simp only [hr, if_false, Option.filter_some, decide_false, Bool.false_eq_true]

theorem roleOf_greatest (groups : List (Option String)) :
    IsGreatest roleOrder.idxOf (fun r => Exact groups r ∨ Trailing groups r) (roleOf groups) := by
  rw [roleOf_eq]
  exact (foldl_keepMax _ _).congr fun r => named_iff

theorem granted_eq {d : Directory} {groups : List (Option String)} (h : Admits d groups) :
    granted d = roleOf groups := by
  obtain ⟨userDn, rest, hs, hg, hu⟩ := h.user
  rw [granted, ldapLogin, if_pos h.bindPw, h.serviceBind]
  simp only [hs, hu, hg, if_true, Option.getD_some]
  cases roleOf groups with
  | none => rfl
  | some role => rfl

theorem idxOf_inj {r s : String} (hr : r ∈ roleOrder) (h : roleOrder.idxOf r = roleOrder.idxOf s) :
    r = s := (List.idxOf_inj hr).mp h

theorem granted_perm {d d' : Directory} {groups groups' : List (Option String)}
    (h : Admits d groups) (h' : Admits d' groups')
    (hp : groups.Perm groups') : granted d' = granted d := by
  rw [granted_eq h, granted_eq h']
  have hsame : ∀ r, (Exact groups' r ∨ Trailing groups' r) ↔
      (Exact groups r ∨ Trailing groups r) := by
    intro r
    simp only [Exact, Trailing, hp.mem_iff]
  apply ((roleOf_greatest groups').congr hsame).unique (roleOf_greatest groups)
  intro r s hr _ he
  apply idxOf_inj _ he
  rcases hr with hr | hr
  · exact hr.1
  · exact hr.1

/-- The role is the right one exactly when each group whose name goes on after a
role and a blank comes with the group of this role or of a greater one. -/
theorem right_role_iff {d : Directory} {groups : List (Option String)} (h : Admits d groups) :
    RightRole d groups ↔ ∀ r, Trailing groups r → ∃ s, Exact groups s ∧
      roleOrder.idxOf r ≤ roleOrder.idxOf s := by
  have hall := roleOf_greatest groups
  rw [RightRole, granted_eq h]
  constructor
  · rintro ⟨hexact, -⟩ r hr
    cases hrole : roleOf groups with
    | none => exact absurd (.inr hr) (hall.none hrole r)
    | some s => exact ⟨s, (hexact.some s hrole).1, (hall.some s hrole).2 r (.inr hr)⟩
  · intro hcover
    refine ⟨⟨fun hnone r hr => hall.none hnone r (.inl hr), fun s hs => ?_⟩,
      fun d' groups' h' hp => ?_⟩
    · obtain ⟨hfound, hmax⟩ := hall.some s hs
      refine ⟨?_, fun r hr => hmax r (.inl hr)⟩
      rcases hfound with hexact | htrail
      · exact hexact
      · -- the group of a role at least as great is that of the role found
        obtain ⟨t, ht, hle⟩ := hcover s htrail
        have heq := Nat.le_antisymm hle (hmax t (.inl ht))
        obtain rfl := idxOf_inj htrail.1 heq
        exact ht
    · rw [granted_perm h h' hp, granted_eq h]

def directoryOf (groups : List (Option String)) : Directory where
  bindPw := true
  serviceBind := .ok ()
  search := some ["uid=ann"]
  groups _ := some groups
  userBind _ := true

theorem admits_directoryOf (groups : List (Option String)) : Admits (directoryOf groups) groups :=
  ⟨rfl, rfl, "uid=ann", [], rfl, rfl, rfl⟩

theorem operator_right : RightRole (directoryOf [some "llm-manager-vm114-Operator", some "staff"])
    [some "llm-manager-vm114-Operator", some "staff"] := by
  refine (right_role_iff (admits_directoryOf _)).mpr fun r hr => ?_
  obtain ⟨-, c, rest, hc, hg⟩ := hr
  have hblank : ([some "llm-manager-vm114-Operator", some "staff"].all fun g =>
      (g.getD "").toList.all (fun c => !isSpace c)) = true := by
    decide
  have hno := List.all_eq_true.mp (List.all_eq_true.mp hblank _ hg) c (by simp)
  rw [hc] at hno
  cases hno

/-- A group of trainees is taken for that of the administrators. -/
theorem trainee_admin : ¬ ∀ d groups, Admits d groups → RightRole d groups := by
  intro hall
  have hright := (hall _ _ (admits_directoryOf [some "llm-manager-vm114-Admin trainees"])).1
  have hgranted : granted (directoryOf [some "llm-manager-vm114-Admin trainees"]) =
      some "Admin" := by decide +kernel
  have hgroup := (hright.some "Admin" hgranted).1.2
  revert hgroup
  decide +kernel

end ServerManager.DirectoryRoles
