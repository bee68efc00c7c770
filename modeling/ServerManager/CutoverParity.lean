import ServerManager.DrainOnStop

namespace ServerManager.CutoverParity

open Interaction PyJson FleetDb Fleet Registry Transactions RegistryPass SyncPlan
open Effects (PyExc)

variable {drv : Driver} {env : Env} {cutover : Bool}

def change (drv : Driver) (rows : List ModelRow) : Stmt → List ModelRow
  | .upsertModel name hid engine url limit health routable =>
      match drv.text name, drv.int limit with
      | .ok n, .ok l => upsertRows rows (Db.modelFor n hid engine url l health routable) hid
      | _, _ => rows
  | .markHost hid health => markRows rows hid health
  | .deleteAliases => kept rows
  | .insertAlias name target health url routable =>
      rows ++ [Db.aliasFor name target health url routable]
  | _ => rows

/-- The error of the driver for the values of a statement. -/
def rejection (drv : Driver) : Stmt → Option PyExc
  | .upsertModel name _ _ _ limit _ _ =>
      match drv.text name, drv.int limit with
      | .error x, _ => some x
      | .ok _, .error x => some x
      | .ok _, .ok _ => none
  | _ => none

/-- Whether a statement is made on the connection in both modes. -/
def direct : Stmt → Bool
  | .hostInventory => true
  | .aliasSetting => true
  | _ => false

theorem via_eq (s : Stmt) (x : PyExc) : via drv cutover s x = if direct s then x
    else raising drv cutover x := by
  cases s <;> rfl

/-- The first statement that fails from operation number `n` on: whether it is a direct one, and its
error. -/
def failure (drv : Driver) (env : Env) : Nat → List Stmt → Option (Bool × PyExc)
  | _, [] => none
  | n, s :: ss =>
      match env.fault n with
      | some x => some (direct s, x)
      | none =>
          match rejection drv s with
          | some x => some (direct s, x)
          | none => failure drv env (n + 1) ss

theorem rejection_none {s : Stmt} : rejection drv s = none ↔ accepts drv s = true := by
  cases s with
  | upsertModel name hid engine url limit health routable =>
      simp only [rejection, accepts]
      cases drv.text name with
      | error x =>
          refine iff_of_false ?_ ?_
          · intro h
            cases h
          · intro h
            cases h
      | ok n =>
          cases drv.int limit with
          | error x =>
              refine iff_of_false ?_ ?_
              · intro h
                cases h
              · intro h
                cases h
          | ok l => exact iff_of_true rfl rfl
  | _ => exact iff_of_true rfl rfl

theorem exec_change {s : Stmt} (hs : onRegistry s) {now : Int} {db db' : Db} {rows : s.Rows}
    (h : exec drv now db s = .ok (rows, db')) : db'.models = change drv db.models s := by
  cases s with
  | upsertModel name hid engine url limit health routable =>
      obtain ⟨n, l, ht, hi, -, hm, -⟩ := exec_upsertModel_ok h
      rw [hm, change, ht, hi]
  | updateHost ip c v => exact hs.elim
  | insertEvent ip t d => exact hs.elim
  | _ =>
      obtain ⟨-, rfl⟩ := Prod.mk.inj (Except.ok.inj h)
      rfl

theorem exec_rejection {s : Stmt} {x : PyExc} (hr : rejection drv s = some x) {now : Int}
    {db : Db} :
    exec drv now db s = .error x := by
  cases s with
  | upsertModel name hid engine url limit health routable =>
      revert hr
      simp only [rejection, exec, bind, Except.bind]
      cases drv.text name with
      | error y =>
          intro hr
          rw [Option.some.inj hr]
      | ok n =>
          cases drv.int limit with
          | error y =>
              intro hr
              rw [Option.some.inj hr]
          | ok l => exact fun hr => by cases hr
  | _ => cases hr

theorem statement_eq (drv : Driver) (env : Env) (raising : PyExc → PyExc) {s : Stmt}
    (hs : onRegistry s) {v : View} (hk : Known v.db s) :
    match env.fault v.ops, rejection drv s with
    | some x, _ => v.statement drv env raising s = (.error (raising x), ⟨v.db, v.ops + 1⟩)
    | none, some x => v.statement drv env raising s = (.error (raising x), ⟨v.db, v.ops + 1⟩)
    | none, none => ∃ rows db, v.statement drv env raising s = (.ok rows, ⟨db, v.ops + 1⟩) ∧
        db.models = change drv v.db.models s ∧ Beside v.db db := by
  unfold View.statement
  cases env.fault v.ops with
  | some x => rfl
  | none =>
      cases hr : rejection drv s with
      | some x =>
          simp only
          rw [exec_rejection hr]
      | none =>
          obtain ⟨r, he⟩ := exec_accepts (env.clock v.ops) hk (rejection_none.mp hr)
          simp only
          rw [he]
          obtain ⟨rows, db'⟩ := r
          exact ⟨rows, db', rfl, exec_change hs he, exec_beside hs he⟩

theorem perform_eq (drv : Driver) (env : Env) (cutover : Bool) {ss : List Stmt} {v : View}
    (hss : ∀ s ∈ ss, onRegistry s ∧ Known v.db s) :
    ∃ u, u.db.models = (done drv env v.ops ss).foldl (change drv) v.db.models ∧ Beside v.db u.db ∧
      match failure drv env v.ops ss with
      | none =>
          perform drv env cutover ss v = (.ok (), u) ∧ u.ops = v.ops + ss.length ∧
            done drv env v.ops ss = ss
      | some (b, x) =>
          perform drv env cutover ss v = (.error (if b then x else raising drv cutover x), u) ∧
          u.ops = v.ops + (done drv env v.ops ss).length + 1 := by
  induction ss generalizing v with
  | nil => exact ⟨v, rfl, Beside.rfl, rfl, rfl, rfl⟩
  | cons s ss ih =>
      have hone := statement_eq drv env (via drv cutover s) (hss s List.mem_cons_self).1
        (hss s List.mem_cons_self).2
      rw [perform_cons, done, failure]
      revert hone
      cases hf : env.fault v.ops with
      | some x =>
          intro hone
          refine ⟨⟨v.db, v.ops + 1⟩, ?_, Beside.rfl, ?_⟩
          · rw [if_neg (by rintro ⟨h, -⟩; cases h)]
            rfl
          · rw [hone, if_neg (by rintro ⟨h, -⟩; cases h), via_eq]
            exact ⟨rfl, rfl⟩
      | none =>
          cases hr : rejection drv s with
          | some x =>
              intro hone
              have hna : ¬ (none = (none : Option PyExc) ∧ accepts drv s = true) := fun h => by
                rw [rejection_none.mpr h.2] at hr
                cases hr
              refine ⟨⟨v.db, v.ops + 1⟩, ?_, Beside.rfl, ?_⟩
              · rw [if_neg hna]
                rfl
              · rw [hone, if_neg hna, via_eq]
                exact ⟨rfl, rfl⟩
          | none =>
              rintro ⟨rows, db, hs, hm, hb⟩
              have hrest : ∀ t ∈ ss, onRegistry t ∧ Known (⟨db, v.ops + 1⟩ : View).db t :=
                fun t ht =>
                ⟨(hss t (List.mem_cons_of_mem _ ht)).1,
                  (hss t (List.mem_cons_of_mem _ ht)).2.of_beside hb⟩
              obtain ⟨u, hu, hub, hend⟩ := ih hrest
              rw [hs, after_ok, if_pos ⟨rfl, rejection_none.mp hr⟩]
              refine ⟨u, ?_, hb.trans hub, ?_⟩
              · rw [hu, hm]
                rfl
              · simp only
                cases hfail : failure drv env (v.ops + 1) ss with
                | none =>
                    rw [hfail] at hend
                    obtain ⟨hp, ho, hd⟩ := hend
                    refine ⟨hp, ?_, by rw [hd]⟩
                    rw [ho, List.length_cons]
                    simp only
                    omega
                | some f =>
                    rw [hfail] at hend
                    obtain ⟨hp, ho⟩ := hend
                    refine ⟨hp, ?_⟩
                    rw [ho, List.length_cons]
                    simp only
                    omega

def aliasPlan (url : Option String) (rows : List ModelRow) : List (String × Option String) →
    List Stmt
  | [] => []
  | (_, none) :: rest => aliasPlan url rows rest
  | (name, some target) :: rest =>
      let ok := decide (countTarget rows target > 0)
      .countRoutable target :: .insertAlias name target (if ok then "healthy" else "unhealthy") url
        ok ::
        aliasPlan url rows rest

theorem run_syncAliases_plan {named : List (String × Option String)}
    (hsep : ∀ a ∈ named, ∀ b ∈ named, b.2 ≠ some a.1) {rows : List ModelRow} {v : View}
    (hc : ∀ a ∈ named, ∀ t ∈ a.2, countTarget v.db.models t = countTarget rows t) :
    run (View.answer drv env) (syncAliases cutover named) v =
      perform drv env cutover (aliasPlan (aliasUrl cutover) rows named) v := by
  induction named generalizing v with
  | nil => rfl
  | cons a named ih =>
      have hrest : ∀ a ∈ named, ∀ b ∈ named, b.2 ≠ some a.1 := fun x hx y hy =>
        hsep x (List.mem_cons_of_mem _ hx) y (List.mem_cons_of_mem _ hy)
      rcases a with ⟨name, _ | target⟩
      · exact ih hrest fun x hx => hc x (List.mem_cons_of_mem _ hx)
      · rw [syncAliases, run_bind_after, syncAlias, run_bind_after, run_send, aliasPlan,
          perform_cons]
        have hvia : via drv cutover (.countRoutable target) = raising drv cutover := rfl
        rw [hvia, after_after]
        rcases hs : v.statement drv env (raising drv cutover) (.countRoutable target) with ⟨x | n,
          u⟩
        · rfl
        · obtain ⟨hn, hu⟩ :=
            statement_rows (fun db => countTarget db.models target) (fun _ _ => rfl) hs
          rw [hc _ List.mem_cons_self target rfl] at hn
          rw [after_ok, after_ok, hn, run_bind_after, run_send, after_after, perform_cons]
          have hvia : ∀ health ok, via drv cutover
              (.insertAlias name target health (aliasUrl cutover) ok) =
              raising drv cutover := fun _ _ => rfl
          rw [hvia]
          rcases ht : u.statement drv env (raising drv cutover) (.insertAlias name target
              (if decide (countTarget rows target > 0) then "healthy" else "unhealthy")
                (aliasUrl cutover)
              (decide (countTarget rows target > 0))) with ⟨x | _, t⟩
          · rfl
          · obtain ⟨-, he, -⟩ := statement_ok ht
            have hm : t.db.models = v.db.models ++ [Db.aliasFor name target
                (if decide (countTarget rows target > 0) then "healthy" else "unhealthy")
                  (aliasUrl cutover)
                (decide (countTarget rows target > 0))] := by
              rw [exec_change (by trivial) he, hu]
              rfl
            rw [after_ok, after_ok]
            refine ih hrest fun b hb k hk => ?_
            have hne : name ≠ k :=
              fun he => hsep (name, some target) List.mem_cons_self b (List.mem_cons_of_mem _ hb)
              (Option.mem_def.mp (he ▸ hk))
            rw [hm, ← hc b (List.mem_cons_of_mem _ hb) k hk]
            unfold countTarget
            rw [List.countP_append, List.countP_singleton, if_neg (by simp [Db.aliasFor, hne]),
              Nat.add_zero]

def fullPlan (drv : Driver) (net : Net) (cutover : Bool) (db : Db) : List Stmt :=
  syncPlan net db ++
    aliasPlan (aliasUrl cutover) ((syncPlan net db).foldl (change drv) db.models) (aliasRows db)

theorem aliasPlan_known (url : Option String) (rows : List ModelRow) (db : Db)
    (named : List (String × Option String)) :
    ∀ s ∈ aliasPlan url rows named, onRegistry s ∧ Known db s := by
  induction named with
  | nil => exact fun s hs => absurd hs List.not_mem_nil
  | cons a named ih =>
      rcases a with ⟨name, _ | target⟩
      · exact ih
      · intro s hs
        rcases List.mem_cons.mp hs with rfl | hs
        · exact ⟨trivial, trivial⟩
        · rcases List.mem_cons.mp hs with rfl | hs
          · exact ⟨trivial, trivial⟩
          · exact ih s hs

theorem fullPlan_known (net : Net) (db : Db) : ∀ s ∈ fullPlan drv net cutover db, onRegistry s ∧
    Known db s := by
  intro s hs
  rcases List.mem_append.mp hs with hs | hs
  · exact DrainOnStop.syncPlan_known net db s hs
  · exact aliasPlan_known _ _ _ _ s hs

theorem run_syncBody_plan (v : View) :
    run (View.answer drv env) (syncBody cutover) v =
      after (perform drv env cutover (fullPlan drv env.net cutover v.db) v) (fun _ u =>
        (.ok ((inventory v.db).map (summaryOf env.net)), u)) := by
  rw [run_syncBody, fullPlan, perform_append, after_after]
  obtain ⟨u, hu, -, hend⟩ := perform_eq drv env cutover (DrainOnStop.syncPlan_known env.net v.db)
  revert hend
  cases failure drv env v.ops (syncPlan env.net v.db) with
  | some f =>
      rintro ⟨hp, -⟩
      rw [hp]
      rfl
  | none =>
      rintro ⟨hp, -, hd⟩
      rw [hd] at hu
      rw [hp, after_ok, after_ok, run_syncAliases_plan (aliases_apart v.db)
        fun a _ t _ => by rw [hu]]

/-- The statements that take effect in a sync that starts as operation number `n`. -/
def made (drv : Driver) (env : Env) (cutover : Bool) (db : Db) (n : Nat) : List Stmt :=
  done drv env (n + 1) (fullPlan drv env.net cutover db)

def written (drv : Driver) (env : Env) (cutover : Bool) (db : Db) (n : Nat) : List ModelRow :=
  (made drv env cutover db n).foldl (change drv) db.models

section Ends

variable {db : Db} {n : Nat}

theorem syncEnd_failed {b : Bool} {x : PyExc} (hn : env.fault n = none)
    (hf : failure drv env (n + 1) (fullPlan drv env.net cutover db) = some (b, x)) :
    (syncEnd drv env cutover db n).1 =
        undone env (n + 1 + (made drv env cutover db n).length + 1)
          (if b then x else raising drv cutover x) ∧
      (syncEnd drv env cutover db n).2.models = if cutover then written drv env cutover db n
        else db.models := by
  obtain ⟨u, hu, -, hend⟩ :=
    perform_eq drv env cutover (v := ⟨db, n + 1⟩) (fullPlan_known env.net db)
  simp only at hend
  rw [hf] at hend
  obtain ⟨hp, ho⟩ := hend
  unfold syncEnd
  rw [hn, run_syncBody_plan, hp, DrainOnStop.after_error]
  simp only
  refine ⟨by rw [ho]; rfl, ?_⟩
  cases cutover with
  | true => exact hu
  | false => rfl

theorem syncEnd_uncommitted {x : PyExc} (hn : env.fault n = none)
    (hf : failure drv env (n + 1) (fullPlan drv env.net cutover db) = none)
    (hc : env.fault (n + 1 + (fullPlan drv env.net cutover db).length) = some x) :
    (syncEnd drv env cutover db n).1 = undone env
    (n + 1 + (fullPlan drv env.net cutover db).length + 1) x ∧
      (syncEnd drv env cutover db n).2.models = if cutover then written drv env cutover db n
        else db.models := by
  obtain ⟨u, hu, -, hend⟩ :=
    perform_eq drv env cutover (v := ⟨db, n + 1⟩) (fullPlan_known env.net db)
  simp only at hend
  rw [hf] at hend
  obtain ⟨hp, ho, -⟩ := hend
  unfold syncEnd
  rw [hn, run_syncBody_plan, hp, after_ok]
  simp only
  rw [ho, hc]
  refine ⟨rfl, ?_⟩
  cases cutover with
  | true => exact hu
  | false => rfl

theorem syncEnd_committed (hn : env.fault n = none)
    (hf : failure drv env (n + 1) (fullPlan drv env.net cutover db) = none)
    (hc : env.fault (n + 1 + (fullPlan drv env.net cutover db).length) = none) :
    (syncEnd drv env cutover db n).1 = .ok (.hosts ((inventory db).map (summaryOf env.net))) ∧
      (syncEnd drv env cutover db n).2.models = written drv env cutover db n := by
  obtain ⟨u, hu, -, hend⟩ :=
    perform_eq drv env cutover (v := ⟨db, n + 1⟩) (fullPlan_known env.net db)
  simp only at hend
  rw [hf] at hend
  obtain ⟨hp, ho, -⟩ := hend
  unfold syncEnd
  rw [hn, run_syncBody_plan, hp, after_ok]
  simp only
  rw [ho, hc]
  exact ⟨rfl, hu⟩

end Ends

theorem failure_aliasPlan (url url' : Option String) (rows : List ModelRow)
    (named : List (String × Option String)) (n : Nat) :
    failure drv env n (aliasPlan url rows named) = failure drv env n (aliasPlan url' rows named) ∧
      (done drv env n (aliasPlan url rows named)).length =
        (done drv env n (aliasPlan url' rows named)).length ∧
      (aliasPlan url rows named).length = (aliasPlan url' rows named).length := by
  induction named generalizing n with
  | nil => exact ⟨rfl, rfl, rfl⟩
  | cons a named ih =>
      rcases a with ⟨name, _ | target⟩
      · exact ih n
      · obtain ⟨hf, hd, hl⟩ := ih (n + 1 + 1)
        simp only [aliasPlan, failure, done, rejection, accepts, List.length_cons, and_true]
        refine ⟨?_, ?_, by rw [hl]⟩
        · cases env.fault n with
          | some x => rfl
          | none =>
              cases env.fault (n + 1) with
              | some x => rfl
              | none => exact hf
        · by_cases h : env.fault n = none
          · rw [if_pos h, if_pos h]
            by_cases h' : env.fault (n + 1) = none
            · rw [if_pos h', if_pos h']
              simp only [List.length_cons, hd]
            · rw [if_neg h', if_neg h']
          · rw [if_neg h, if_neg h]

theorem failure_append (n : Nat) (ss ss' : List Stmt) :
    failure drv env n (ss ++ ss') = (failure drv env n ss).or
      (failure drv env (n + ss.length) ss') := by
  induction ss generalizing n with
  | nil => rfl
  | cons s ss ih =>
      rw [List.cons_append, failure, failure]
      cases env.fault n with
      | some x => rfl
      | none =>
          cases rejection drv s with
          | some x => rfl
          | none =>
              simp only
              rw [ih, List.length_cons]
              have hn : n + 1 + ss.length = n + (ss.length + 1) := by omega
              rw [hn]

theorem done_step {n : Nat} {s : Stmt} (hf : env.fault n = none) (hr : rejection drv s = none)
    (ss : List Stmt) :
    done drv env n (s :: ss) = s :: done drv env (n + 1) ss := if_pos ⟨hf, rejection_none.mp hr⟩

theorem done_stop {n : Nat} {s : Stmt} (h : env.fault n = none → rejection drv s ≠ none)
    (ss : List Stmt) :
    done drv env n (s :: ss) = [] := if_neg fun hd => h hd.1 (rejection_none.mpr hd.2)

theorem done_append (n : Nat) (ss ss' : List Stmt) :
    done drv env n (ss ++ ss') =
      if failure drv env n ss = none then ss ++ done drv env (n + ss.length) ss'
        else done drv env n ss := by
  induction ss generalizing n with
  | nil => rfl
  | cons s ss ih =>
      rw [List.cons_append, failure]
      cases hf : env.fault n with
      | some x =>
          have hstop : env.fault n = none → rejection drv s ≠ none := fun h => by
            rw [hf] at h
            cases h
          rw [done_stop hstop, done_stop hstop]
          rfl
      | none =>
          cases hr : rejection drv s with
          | some x =>
              have hstop : env.fault n = none → rejection drv s ≠ none := fun _ h => by
                rw [hr] at h
                cases h
              rw [done_stop hstop, done_stop hstop]
              rfl
          | none =>
              have hn : n + 1 + ss.length = n + (ss.length + 1) := by omega
              rw [done_step hf hr, done_step hf hr, ih, List.length_cons, hn]
              simp only
              split
              · rfl
              · rfl

theorem plans_fail_alike (net : Net) (db : Db) (n : Nat) :
    failure drv env n (fullPlan drv net true db) = failure drv env n (fullPlan drv net false db) ∧
      (done drv env n (fullPlan drv net true db)).length =
        (done drv env n (fullPlan drv net false db)).length ∧
      (fullPlan drv net true db).length = (fullPlan drv net false db).length := by
  obtain ⟨hf, hd, hl⟩ := @failure_aliasPlan drv env (aliasUrl true) (aliasUrl false)
    ((syncPlan net db).foldl (change drv) db.models) (aliasRows db) (n + (syncPlan net db).length)
  unfold fullPlan
  rw [failure_append, failure_append, done_append, done_append, hf, List.length_append,
    List.length_append, hl]
  refine ⟨rfl, ?_, rfl⟩
  split
  · rw [List.length_append, List.length_append, hd]
  · rfl

theorem foldl_aliasPlan (url : Option String) (rows base : List ModelRow)
    (named : List (String × Option String)) :
    (aliasPlan url rows named).foldl (change drv) base =
      base ++ named.filterMap (fun a => a.2.map (fun target => aliasRow url rows a.1 target)) := by
  induction named generalizing base with
  | nil => exact (List.append_nil base).symm
  | cons a named ih =>
      rcases a with ⟨name, _ | target⟩
      · exact ih base
      · exact (ih (base ++ [aliasRow url rows name target])).trans (List.append_assoc _ _ _)

theorem written_all {db : Db} {n : Nat} (hf :
    failure drv env (n + 1) (fullPlan drv env.net cutover db) = none) :
    written drv env cutover db n = (syncPlan env.net db).foldl (change drv) db.models ++
      (aliasRows db).filterMap (fun a => a.2.map (fun target =>
        aliasRow (aliasUrl cutover) ((syncPlan env.net db).foldl (change drv) db.models) a.1 target)) := by
  have hd : made drv env cutover db n = fullPlan drv env.net cutover db := by
    obtain ⟨u, -, -, hend⟩ :=
      perform_eq drv env cutover (v := ⟨db, n + 1⟩) (fullPlan_known env.net db)
    simp only at hend
    rw [hf] at hend
    exact hend.2.2
  rw [written, hd, fullPlan, List.foldl_append, foldl_aliasPlan]

theorem written_perm_iff {db : Db} {n : Nat} (hf :
    failure drv env (n + 1) (fullPlan drv env.net true db) = none) :
    (written drv env true db n).Perm (written drv env false db n) ↔
      aliasesOn (db.setting "v011.role_aliases.enabled") = false := by
  have hf' := hf
  rw [(plans_fail_alike env.net db (n + 1)).1] at hf'
  rw [written_all hf, written_all hf', List.perm_append_left_iff]
  unfold aliasRows
  cases aliasesOn (db.setting "v011.role_aliases.enabled") with
  | false => exact iff_of_true (List.Perm.refl _) rfl
  | true =>
      refine iff_of_false (fun hp => ?_) nofun
      have hm := hp.mem_iff.mp List.mem_cons_self
      obtain ⟨a, -, ha⟩ := List.mem_filterMap.mp hm
      obtain ⟨target, -, he⟩ := Option.map_eq_some_iff.mp ha
      exact absurd (congrArg ModelRow.backendUrl he) nofun

theorem undone_inj {k : Nat} {x y : PyExc} :
    undone env k x = undone env k y ↔ env.fault k ≠ none ∨ shown x = shown y := by
  unfold undone
  cases env.fault k with
  | some z => exact iff_of_true rfl (.inl nofun)
  | none =>
      constructor
      · intro h
        exact .inr (SyncResult.error.inj (Except.ok.inj h))
      · rintro (h | h)
        · exact absurd rfl h
        · rw [h]

/-- Nothing fails and no aliases are asked for; or the connection is refused; or
what the adapter has stored when something fails is what was there, and the
error reads the same in both modes. -/
def Alike (drv : Driver) (env : Env) (db : Db) (n : Nat) : Prop :=
  env.fault n = none →
    match failure drv env (n + 1) (fullPlan drv env.net true db) with
    | some (b, x) =>
        (written drv env true db n).Perm db.models ∧
          (b = true ∨ shown (drv.wrap x) = shown x ∨
            env.fault (n + 1 + (made drv env true db n).length + 1) ≠ none)
    | none =>
        match env.fault (n + 1 + (fullPlan drv env.net true db).length) with
        | some _ => (written drv env true db n).Perm db.models
        | none => aliasesOn (db.setting "v011.role_aliases.enabled") = false

theorem syncEnd_alike_iff (db : Db) (n : Nat) :
    (syncEnd drv env true db n).1 = (syncEnd drv env false db n).1 ∧
        (syncEnd drv env true db n).2.models.Perm (syncEnd drv env false db n).2.models ↔
          Alike drv env db n := by
  unfold Alike
  cases hn : env.fault n with
  | some x =>
      refine iff_of_true ?_ nofun
      unfold syncEnd
      rw [hn]
      exact ⟨rfl, List.Perm.refl _⟩
  | none =>
      obtain ⟨hfail, hlen, hplan⟩ := @plans_fail_alike drv env env.net db (n + 1)
      rw [forall_prop_of_true rfl]
      cases hf : failure drv env (n + 1) (fullPlan drv env.net true db) with
      | some f =>
          obtain ⟨b, x⟩ := f
          obtain ⟨hr, hm⟩ := syncEnd_failed hn hf
          obtain ⟨hr', hm'⟩ := syncEnd_failed hn (hfail.symm.trans hf)
          have hl : (made drv env false db n).length = (made drv env true db n).length := hlen.symm
          rw [hr, hr', hm, hm', if_pos rfl, if_neg Bool.false_ne_true, hl, undone_inj, and_comm]
          refine and_congr_right fun _ => ?_
          cases b with
          | true => exact iff_of_true (.inr rfl) (.inl rfl)
          | false => exact or_comm.trans (or_iff_right Bool.false_ne_true).symm
      | none =>
          cases hc : env.fault (n + 1 + (fullPlan drv env.net true db).length) with
          | some x =>
              obtain ⟨hr, hm⟩ := syncEnd_uncommitted hn hf hc
              obtain ⟨hr', hm'⟩ := syncEnd_uncommitted hn (hfail.symm.trans hf) (hplan ▸ hc)
              rw [hr, hr', hm, hm', if_pos rfl, if_neg Bool.false_ne_true, hplan]
              exact and_iff_right rfl
          | none =>
              obtain ⟨hr, hm⟩ := syncEnd_committed hn hf hc
              obtain ⟨hr', hm'⟩ := syncEnd_committed hn (hfail.symm.trans hf) (hplan ▸ hc)
              rw [hr, hr', hm, hm', written_perm_iff hf]
              exact and_iff_right rfl

/-- The two modes leave the same registry and give the same result exactly when they are alike. -/
theorem cutover_alike_iff (drv : Driver) (env : Env) (w : World) :
    (run (env.answer drv) (syncRegistry true) w).1 =
    (run (env.answer drv) (syncRegistry false) w).1 ∧
        (run (env.answer drv) (syncRegistry true) w).2.db.models.Perm
          (run (env.answer drv) (syncRegistry false) w).2.db.models ↔ Alike drv env w.db w.ops := by
  obtain ⟨hr, hd⟩ := sync_run drv env true w
  obtain ⟨hr', hd'⟩ := sync_run drv env false w
  rw [hr, hr', hd, hd', syncEnd_alike_iff]

def aliasDb : Db :=
  { RegistryGate.servedDb "qwen3.6-35b-a3b" with settings := [("v011.role_aliases.enabled",
    "true")] }

/-- Nothing fails, and the URL of the stored aliases is empty in one mode and missing in the
other. -/
theorem aliases_differ : ¬ ∀ (drv : Driver) (env : Env) (w : World),
    (run (env.answer drv) (syncRegistry true) w).1 =
    (run (env.answer drv) (syncRegistry false) w).1 ∧
      (run (env.answer drv) (syncRegistry true) w).2.db.models.Perm
        (run (env.answer drv) (syncRegistry false) w).2.db.models := by
  intro hall
  have h := hall plainDriver { net := RegistryGate.servingNet "qwen3.6-35b-a3b" } { db := aliasDb }
  rw [(sync_run _ _ true _).1, (sync_run _ _ true _).2, (sync_run _ _ false _).1,
    (sync_run _ _ false _).2,
    syncEnd_alike_iff] at h
  have hoff : aliasesOn (some "true") = false := h rfl
  exact absurd hoff (by decide)

end ServerManager.CutoverParity
