import ServerManager.Placement
import ServerManager.Storage
import Mathlib.Data.String.Basic
import Mathlib.Data.Prod.Lex

namespace ServerManager.PlacementPolicy

open Interaction PyJson Orm Effects Storage ProxmoxVm Placement

section Least

variable {α : Type} {le : α → α → Bool} {l : List α}

theorem least_of_head (htrans : ∀ a b c, le a b → le b c → le a c)
    (htotal : ∀ a b, le a b || le b a) {p : α → Bool} {a : α}
    (h : ((l.mergeSort le).filter p).head? = some a) : a ∈ l ∧ p a = true ∧ ∀ b ∈ l, p b = true →
    b = a ∨ le a b = true := by
  have hsort : ((l.mergeSort le).filter p).Pairwise (fun x y => le x y = true) :=
    (List.pairwise_mergeSort htrans htotal l).filter p
  have hmem : ∀ b, b ∈ (l.mergeSort le).filter p ↔ b ∈ l ∧ p b = true := by
    intro b
    rw [List.mem_filter, (List.mergeSort_perm l le).mem_iff]
  obtain ⟨rest, hrest⟩ := List.head?_eq_some_iff.mp h
  rw [hrest] at hsort hmem
  obtain ⟨hl, hp⟩ := (hmem a).mp List.mem_cons_self
  refine ⟨hl, hp, ?_⟩
  intro b hb hpb
  cases List.mem_cons.mp ((hmem b).mpr ⟨hb, hpb⟩) with
  | inl he => exact .inl he
  | inr hr => exact .inr ((List.pairwise_cons.mp hsort).1 b hr)

theorem mergeSort_congr (htrans : ∀ a b c, le a b → le b c → le a c)
    (htotal : ∀ a b, le a b || le b a)
    (hanti : ∀ a ∈ l, ∀ b ∈ l, le a b = true → le b a = true → a = b) {l' : List α}
    (hp : l'.Perm l) :
    l'.mergeSort le = l.mergeSort le := by
  have hperm : (l'.mergeSort le).Perm (l.mergeSort le) :=
    (List.mergeSort_perm l' le).trans (hp.trans (List.mergeSort_perm l le).symm)
  apply List.Perm.eq_of_pairwise _ (List.pairwise_mergeSort htrans htotal l')
    (List.pairwise_mergeSort htrans htotal l) hperm
  intro a b ha hb
  exact hanti a (hp.subset (List.mem_mergeSort.mp ha)) b (List.mem_mergeSort.mp hb)

end Least

def nodeRow : Json → Option (String × Json)
  | .obj fs =>
      (Dict.get? fs "node").map fun n => (n.pyStr, (Dict.get? fs "status").getD (.str "unknown"))
  | _ => none

def rowsOf : Json → Option (List Json)
  | .arr rows => some rows
  | _ => none

/-- The nodes of PVE's listing with their statuses; one that fails has none. -/
def reported : Except PyExc Json → List (String × Json)
  | .ok data => ((rowsOf (data.orElse (.arr []))).bind (List.mapM nodeRow)).getD []
  | .error _ => []

/-- PVE answers with this listing and the tables are those of `db`. -/
def answers (listing : Except PyExc Json) (db : Db) : Unit → (e : Eff) → Ans e → Unit → Prop
  | _, .pve .nodes, a, _ => a = listing
  | _, .db .placedNodes, a, _ => a = db.placedNodes
  | _, .db .flush, a, _ => a = .ok ()
  | _, _, _, _ => False

/-- The program returns `d` there. -/
def Gives (listing : Except PyExc Json) (db : Db) (p : Py PlacementDecision)
    (d : PlacementDecision) : Prop :=
  ∃ tr, Exec (answers listing db) () p tr () (.ret d)

def Decides (listing : Except PyExc Json) (db : Db) (runtimeClass templateNode : String)
    (d : PlacementDecision) : Prop :=
  Gives listing db (selectNode runtimeClass templateNode) d

def usable (nodes : List (String × Json)) : List String :=
  (nodes.filter (fun p => p.2.isStr "online" && !excludedNodes.contains p.1)).map (·.1)

def scored (runtimeClass : String) (db : Db) (nodes : List (String × Json)) :
    List PlacementDecision :=
  (usable nodes).map (scoreNode runtimeClass db.placedNodes db.placedNodes)

def eligible (d : PlacementDecision) : Bool := !d.rejected && d.node ≠ ""

def noEligibleNode : PlacementDecision :=
  { node := "", score := 0, rejected := true, rejectionReason := some "no_eligible_node" }

theorem mapM_loop_answers {α β : Type} {f : α → Py β} {g : α → Option β}
    (hret : ∀ a b, g a = some b → f a = .ret b)
    (hraise : ∀ a, g a = none → ∃ x, f a = .raise x) (as : List α) (acc : List β) :
    (∃ bs, as.mapM g = some bs ∧ List.mapM.loop f as acc = .ret (acc.reverse ++ bs)) ∨
      as.mapM g = none ∧ ∃ x, List.mapM.loop f as acc = .raise x := by
  induction as generalizing acc with
  | nil => exact .inl ⟨[], rfl, by simp [List.mapM.loop]; rfl⟩
  | cons a as ih =>
      cases hg : g a with
      | none =>
          obtain ⟨x, hx⟩ := hraise a hg
          refine .inr ⟨by simp [List.mapM_cons, hg], x, ?_⟩
          rw [List.mapM.loop, hx]
          rfl
      | some b =>
          have hloop : List.mapM.loop f (a :: as) acc = List.mapM.loop f as (b :: acc) := by
            rw [List.mapM.loop, hret a b hg]
            rfl
          rw [hloop]
          cases ih (b :: acc) with
          | inl h =>
              obtain ⟨bs, hbs, hl⟩ := h
              exact .inl ⟨b :: bs, by simp [List.mapM_cons, hg, hbs], by simp [hl]⟩
          | inr h => exact .inr ⟨by simp [List.mapM_cons, hg, h.1], h.2⟩

theorem texts_noNodes {texts : List String} {bs : List (String × Json)}
    (h : (texts.map Json.str).mapM nodeRow = some bs) : bs = [] := by
  cases texts with
  | nil => cases h; rfl
  | cons t texts => simp [List.mapM_cons, nodeRow] at h

theorem listed_rows {f : Json → Py (String × Json)}
    (hret : ∀ a b, nodeRow a = some b → f a = .ret b)
    (hraise : ∀ a, nodeRow a = none → ∃ x, f a = .raise x) (rows : List Json) :
    (rows.mapM f).handle (fun _ => .ret []) = .ret ((rows.mapM nodeRow).getD []) := by
  show (List.mapM.loop f rows []).handle (fun _ => .ret []) = _
  cases mapM_loop_answers hret hraise rows [] with
  | inl h =>
      obtain ⟨bs, hbs, hl⟩ := h
      rw [hl, hbs]
      rfl
  | inr h =>
      obtain ⟨hbs, x, hl⟩ := h
      rw [hl, hbs]
      rfl

theorem listed_texts {f : Json → Py (String × Json)}
    (hret : ∀ a b, nodeRow a = some b → f a = .ret b)
    (hraise : ∀ a, nodeRow a = none → ∃ x, f a = .raise x) (texts : List String) :
    ((texts.map Json.str).mapM f).handle (fun _ => .ret []) = .ret [] := by
  rw [listed_rows hret hraise]
  cases h : (texts.map Json.str).mapM nodeRow with
  | none => rfl
  | some bs => rw [texts_noNodes h]; rfl

theorem listed {f : Json → Py (String × Json)} (hret : ∀ a b, nodeRow a = some b → f a = .ret b)
    (hraise : ∀ a, nodeRow a = none → ∃ x, f a = .raise x) (listing : Except PyExc Json) :
    ((orRaise listing).bind fun data => (listOf (data.orElse (.arr []))).bind fun rows =>
    rows.mapM f).handle
        (fun _ => .ret []) = .ret (reported listing) := by
  cases listing with
  | error x => rfl
  | ok data =>
      show ((listOf (data.orElse (.arr []))).bind fun rows => rows.mapM f).handle
        (fun _ => .ret []) =
        .ret (((rowsOf (data.orElse (.arr []))).bind (List.mapM nodeRow)).getD [])
      generalize data.orElse (.arr []) = x
      cases x with
      | null | bool _ | int _ | float _ => rfl
      | str s =>
          have h := listed_texts hret hraise (s.toList.map fun c => String.ofList [c])
          rw [List.map_map] at h
          exact h
      | obj fs =>
          have h := listed_texts hret hraise (fs.map fun p => p.1)
          rw [List.map_map] at h
          exact h
      | arr rows => exact listed_rows hret hraise rows

theorem candidateNodes_eq :
    candidateNodes = .call (.pve .nodes) (fun (listing : Except PyExc Json) =>
      .ret (usable (reported listing))) := by
  refine congrArg (Prog.call (Eff.pve .nodes)) (funext fun (listing : Except PyExc Json) => ?_)
  have h : ∀ p : Py (List (String × Json)), p = .ret (reported listing) →
      (p.bind fun nodes => .ret (usable nodes)) = .ret (usable (reported listing)) := by
    intro p hp
    rw [hp]
    rfl
  refine h _ (listed ?_ ?_ listing)
  · intro a b hb
    cases a with
    | obj fs =>
        cases hg : Dict.get? fs "node" with
        | none => simp [nodeRow, hg] at hb
        | some n =>
            simp only [nodeRow, hg, Option.map_some, Option.some.injEq] at hb
            simp only [hg, ← hb]
            rfl
    | null | bool _ | int _ | float _ | str _ | arr _ => cases hb
  · intro a ha
    cases a with
    | obj fs =>
        cases hg : Dict.get? fs "node" with
        | none => exact ⟨_, by simp only [hg]; rfl⟩
        | some n => simp [nodeRow, hg] at ha
    | null | bool _ | int _ | float _ | str _ | arr _ => exact ⟨_, rfl⟩

def placed (runtimeClass templateNode : String) (db : Db) (nodes : List (String × Json)) :
    PlacementDecision :=
  (((scored runtimeClass db nodes).mergeSort (ranksBefore templateNode)).filter eligible).head?.getD
    noEligibleNode

def pinned (runtimeClass templateNode : String) : PlacementDecision :=
  { node := templateNode, score := 100, reasons := [s!"{runtimeClass}_pinned_to_template_node"] }

section Gives

variable {listing : Except PyExc Json} {db : Db} {d : PlacementDecision}

theorem gives_ret {x : PlacementDecision} : Gives listing db (.ret x) d ↔ d = x := by
  constructor
  · rintro ⟨tr, h⟩
    cases h
    rfl
  · rintro rfl
    exact ⟨[], .refl _ _⟩

theorem gives_call {e : Eff} {k : Ans e → Py PlacementDecision} {a : Ans e}
    (ha : ∀ b, answers listing db () e b () ↔ b = a) :
    Gives listing db (.call e k) d ↔ Gives listing db (k a) d := by
  constructor
  · rintro ⟨tr, h⟩
    cases h with
    | call hb h =>
        cases (ha _).mp hb
        exact ⟨_, h⟩
  · rintro ⟨tr, h⟩
    exact ⟨_, .call ((ha a).mpr rfl) h⟩

theorem gives_counts {rest : List (String × String) → List (String × String) →
    Py PlacementDecision} :
    Gives listing db (flush >>= fun _ => placedNodes >>= fun total => placedNodes >>= rest total)
      d ↔
      Gives listing db (rest db.placedNodes db.placedNodes) d := by
  refine (gives_call (e := .db .flush) (a := (.ok () : Except PyExc Unit)) fun _ => Iff.rfl).trans
    ?_
  refine (gives_call (e := .db .placedNodes) (a := db.placedNodes) fun _ => Iff.rfl).trans ?_
  exact gives_call (e := .db .placedNodes) (a := db.placedNodes) fun _ => Iff.rfl

end Gives

theorem decides_pinned {cls : String} (hcls : cls ∈ templatePinnedClasses)
    (listing : Except PyExc Json) (db : Db)
    (tn : String) (d : PlacementDecision) : Decides listing db cls tn d ↔ d = pinned cls tn := by
  refine gives_counts.trans ?_
  simp only [List.contains_iff_mem, hcls, if_true]
  exact gives_ret

theorem decides_placed {cls : String} (hcls : cls ∉ templatePinnedClasses)
    (listing : Except PyExc Json) (db : Db)
    (tn : String) (d : PlacementDecision) : Decides listing db cls tn d ↔
    d = placed cls tn db (reported listing) := by
  refine gives_counts.trans ?_
  simp only [List.contains_iff_mem, hcls, if_false, candidateNodes_eq]
  refine (gives_call (e := .pve .nodes) (a := listing) fun _ => Iff.rfl).trans ?_
  show Gives listing db (Prog.bind (.ret (usable (reported listing))) _) d ↔ _
  simp only [Prog.bind]
  split
  next heq =>
    have hplaced : placed cls tn db (reported listing) = _ :=
      congrArg (fun l => (List.head? l).getD noEligibleNode) heq
    rw [hplaced]
    exact gives_ret
  next heq =>
    have hplaced : placed cls tn db (reported listing) = _ :=
      congrArg (fun l => (List.head? l).getD noEligibleNode) heq
    rw [hplaced]
    exact gives_ret

def Online (listing : Except PyExc Json) (n : String) : Prop :=
  ∃ p ∈ reported listing, p.1 = n ∧ p.2.isStr "online" = true

def workers (db : Db) (n : String) : Nat :=
  db.runtimes.countP (fun x => x.row.actualState ≠ .absent && x.row.node = some n)

def inferenceWorkers (db : Db) (n : String) : Nat :=
  db.runtimes.countP (fun x => x.row.actualState ≠ .absent && x.row.node = some n &&
    inferenceRuntimeClasses.contains x.row.runtimeClass)

/-- The hard filters. -/
structure Suitable (listing : Except PyExc Json) (db : Db) (cls n : String) : Prop where
  online : Online listing n
  kept : n ∉ excludedNodes
  uncapped : cls ∈ inferenceRuntimeClasses → n ∈ inferenceNodes →
    inferenceWorkers db n < maxWorkersPerInferenceNode

def policyScore (cls : String) (db : Db) (n : String) : Int :=
  if n = generalPreferredNode then 100
  else if n ∈ inferenceNodes then if cls ∈ inferenceRuntimeClasses then 40 else -20
  else 20 - 2 * workers db n

/-- `(-score, node != template_node, node)`, in the lexicographic order. -/
def sortKey (templateNode : String) (score : Int) (n : String) : ℤ ×ₗ Bool ×ₗ String :=
  toLex (-score, toLex (decide (n ≠ templateNode), n))

theorem ranksBefore_iff (tn : String) (a b : PlacementDecision) :
    ranksBefore tn a b = true ↔ sortKey tn a.score a.node ≤ sortKey tn b.score b.node := by
  have hkey : sortKey tn a.score a.node ≤ sortKey tn b.score b.node ↔
      -a.score < -b.score ∨ -a.score = -b.score ∧
        (decide (a.node ≠ tn) < decide (b.node ≠ tn) ∨ decide (a.node ≠ tn) = decide (b.node ≠ tn) ∧
          a.node ≤ b.node) := by
    rw [sortKey, sortKey, Prod.Lex.toLex_le_toLex, Prod.Lex.toLex_le_toLex]
  rw [hkey]
  by_cases hs : a.score = b.score
  · by_cases ha : a.node = tn <;> by_cases hb : b.node = tn <;> simp [ranksBefore, hs, ha, hb]
  · simp only [ranksBefore, ne_eq, hs, not_false_eq_true, if_true, decide_eq_true_eq]
    omega

theorem ranksBefore_trans (tn : String) (a b c : PlacementDecision) (hab : ranksBefore tn a b)
    (hbc : ranksBefore tn b c) :
    ranksBefore tn a c :=
  (ranksBefore_iff tn a c).mpr (le_trans ((ranksBefore_iff tn a b).mp hab)
    ((ranksBefore_iff tn b c).mp hbc))

theorem ranksBefore_total (tn : String) (a b : PlacementDecision) :
    ranksBefore tn a b || ranksBefore tn b a := by
  rw [Bool.or_eq_true, ranksBefore_iff, ranksBefore_iff]
  exact le_total _ _

theorem node_of_ranks {tn : String} {a b : PlacementDecision} (hab : ranksBefore tn a b)
    (hba : ranksBefore tn b a) :
    a.node = b.node := by
  have h := le_antisymm ((ranksBefore_iff tn a b).mp hab) ((ranksBefore_iff tn b a).mp hba)
  have hn := congrArg (fun k => (ofLex (ofLex k).2).2) h
  exact hn

theorem scoreNode_node (cls : String) (total inference : List (String × String)) (n : String) :
    (scoreNode cls total inference n).node = n := by
  unfold scoreNode
  split_ifs <;> rfl

theorem placedNodes_count (db : Db) {n : String} (hn : n ≠ "") (p : String → Bool) :
    (db.placedNodes.filter (fun q => q.1 = n && q.1 ≠ "" && p q.2)).length =
      db.runtimes.countP (fun x => x.row.actualState ≠ .absent && x.row.node = some n &&
        p x.row.runtimeClass) := by
  unfold Db.placedNodes
  induction db.runtimes with
  | nil => rfl
  | cons x xs ih =>
      rw [List.countP_cons, ← ih]
      by_cases ha : x.row.actualState = .absent
      · simp [ha]
      · cases hx : x.row.node with
        | none => simp [ha, hx]
        | some m =>
            by_cases hm : m = n
            · subst hm
              by_cases hc : p x.row.runtimeClass <;> simp [ha, hx, hn, hc]
            · simp [ha, hx, hm]

theorem workerCount_eq (db : Db) {n : String} (hn : n ≠ "") :
    workerCount db.placedNodes n = workers db n := by
  simpa [workerCount, workers] using placedNodes_count db hn fun _ => true

theorem inferenceWorkerCount_eq (db : Db) {n : String} (hn : n ≠ "") :
    inferenceWorkerCount db.placedNodes n = inferenceWorkers db n :=
  placedNodes_count db hn inferenceRuntimeClasses.contains

theorem eligible_scoreNode (cls : String) (db : Db) {n : String} (hn : n ≠ "") :
    eligible (scoreNode cls db.placedNodes db.placedNodes n) = true ↔
      (cls ∈ inferenceRuntimeClasses → n ∈ inferenceNodes →
        inferenceWorkers db n < maxWorkersPerInferenceNode) := by
  have hpref : generalPreferredNode ∉ inferenceNodes := by decide
  have hnode := scoreNode_node cls db.placedNodes db.placedNodes n
  simp only [eligible, hnode, ne_eq, hn, not_false_eq_true, decide_true, Bool.and_true,
    Bool.not_eq_true',
    ← inferenceWorkerCount_eq db hn]
  unfold scoreNode
  split_ifs with hp hi hc hcap
  · subst hp
    simp [hpref]
  · simp_all
  · simp_all
  · simp_all
  · simp_all

theorem score_scoreNode (cls : String) (db : Db) {n : String} (hn : n ≠ "")
    (he : eligible (scoreNode cls db.placedNodes db.placedNodes n) = true) :
    (scoreNode cls db.placedNodes db.placedNodes n).score = policyScore cls db n := by
  revert he
  unfold scoreNode policyScore
  split_ifs with hp hi hc hcap <;> simp_all [eligible, workerCount_eq]

theorem mem_usable {listing : Except PyExc Json} {n : String} :
    n ∈ usable (reported listing) ↔ Online listing n ∧ n ∉ excludedNodes := by
  simp only [usable, Online, List.mem_map, List.mem_filter, Bool.and_eq_true, Bool.not_eq_true',
    List.contains_eq_mem,
    decide_eq_false_iff_not]
  constructor
  · rintro ⟨p, ⟨hp, hs, hx⟩, rfl⟩
    exact ⟨⟨p, hp, rfl, hs⟩, hx⟩
  · rintro ⟨⟨p, hp, rfl, hs⟩, hx⟩
    exact ⟨p, ⟨hp, hs, hx⟩, rfl⟩

section Choice

variable {listing : Except PyExc Json} {db : Db} {cls tn n : String}

theorem suitable_iff (hn : n ≠ "") : Suitable listing db cls n ↔
    n ∈ usable (reported listing) ∧ eligible (scoreNode cls db.placedNodes db.placedNodes n) =
      true := by
  rw [mem_usable, eligible_scoreNode cls db hn]
  constructor
  · intro h
    exact ⟨⟨h.online, h.kept⟩, h.uncapped⟩
  · rintro ⟨⟨ho, hk⟩, hu⟩
    exact ⟨ho, hk, hu⟩

theorem placed_accepted (h : (placed cls tn db (reported listing)).rejected = false) :
    (placed cls tn db (reported listing)).node ≠ "" ∧
    Suitable listing db cls (placed cls tn db (reported listing)).node ∧
      (placed cls tn db (reported listing)).score =
        policyScore cls db (placed cls tn db (reported listing)).node ∧
      ∀ m, m ≠ "" → Suitable listing db cls m →
        sortKey tn (policyScore cls db (placed cls tn db (reported listing)).node)
          (placed cls tn db (reported listing)).node ≤
          sortKey tn (policyScore cls db m) m := by
  have hlist : ∀ l : List PlacementDecision, (l.head?.getD noEligibleNode).rejected = false →
      l.head? = some (l.head?.getD noEligibleNode) := by
    intro l hl
    cases l with
    | nil => cases hl
    | cons d l => rfl
  have hhead := hlist _ h
  obtain ⟨hmem, hel, hleast⟩ := least_of_head (ranksBefore_trans tn) (ranksBefore_total tn) hhead
  change placed cls tn db (reported listing) ∈ scored cls db (reported listing) at hmem
  change eligible (placed cls tn db (reported listing)) = true at hel
  change ∀ b ∈ scored cls db (reported listing), eligible b = true →
    b = placed cls tn db (reported listing) ∨
      ranksBefore tn (placed cls tn db (reported listing)) b = true at hleast
  obtain ⟨n, hn, hd⟩ := List.mem_map.mp hmem
  generalize placed cls tn db (reported listing) = d at *
  subst hd
  have hnode := scoreNode_node cls db.placedNodes db.placedNodes n
  have hne : n ≠ "" := by
    rintro rfl
    simp [eligible, hnode] at hel
  have hscore := score_scoreNode cls db hne hel
  rw [hnode, hscore]
  refine ⟨hne, (suitable_iff hne).mpr ⟨hn, hel⟩, rfl, ?_⟩
  intro m hm hsuit
  obtain ⟨hu, he⟩ := (suitable_iff hm).mp hsuit
  have hms := score_scoreNode cls db hm he
  have hmn := scoreNode_node cls db.placedNodes db.placedNodes m
  cases hleast _ (List.mem_map_of_mem hu) he with
  | inl heq =>
      have hmn' : m = n := by rw [← hmn, heq, hnode]
      rw [hmn']
  | inr hle =>
      have hkey := (ranksBefore_iff tn _ _).mp hle
      rw [hscore, hms, hnode, hmn] at hkey
      exact hkey

theorem placed_rejected (h : (placed cls tn db (reported listing)).rejected = true) (hn : n ≠ "") :
    ¬ Suitable listing db cls n := by
  intro hs
  obtain ⟨hu, he⟩ := (suitable_iff hn).mp hs
  have hin : scoreNode cls db.placedNodes db.placedNodes n ∈
      ((scored cls db (reported listing)).mergeSort (ranksBefore tn)).filter eligible := by
    apply List.mem_filter.mpr
    exact ⟨List.mem_mergeSort.mpr (List.mem_map_of_mem hu), he⟩
  have hall : ∀ d ∈ ((scored cls db (reported listing)).mergeSort (ranksBefore tn)).filter eligible,
      d.rejected = false := by
    intro d hd
    have hel : eligible d = true := (List.mem_filter.mp hd).2
    simp only [eligible, Bool.and_eq_true, Bool.not_eq_true'] at hel
    exact hel.1
  unfold placed at h
  generalize ((scored cls db (reported listing)).mergeSort (ranksBefore tn)).filter eligible =
    l at h hin hall
  cases l with
  | nil => exact List.not_mem_nil hin
  | cons d l =>
      have hd := hall d List.mem_cons_self
      exact Bool.false_ne_true (hd.symm.trans h)

end Choice

theorem placedNodes_perm {db db' : Db} (h : db'.runtimes.Perm db.runtimes) :
    db'.placedNodes.Perm db.placedNodes :=
  h.filterMap _

theorem scoreNode_perm {rows rows' : List (String × String)} (h : rows'.Perm rows)
    (cls n : String) :
    scoreNode cls rows' rows' n = scoreNode cls rows rows n := by
  have htotal : workerCount rows' n = workerCount rows n := (h.filter _).length_eq
  have hinference : inferenceWorkerCount rows' n = inferenceWorkerCount rows n :=
    (h.filter _).length_eq
  simp only [scoreNode, htotal, hinference]

theorem placed_perm {nodes nodes' : List (String × Json)} {db db' : Db} (hn : nodes'.Perm nodes)
    (hdb : db'.runtimes.Perm db.runtimes) (cls tn : String) :
    placed cls tn db' nodes' = placed cls tn db nodes := by
  have husable : (usable nodes').Perm (usable nodes) := (hn.filter _).map _
  have hsame : scoreNode cls db'.placedNodes db'.placedNodes =
      scoreNode cls db.placedNodes db.placedNodes := by
    funext n
    exact scoreNode_perm (placedNodes_perm hdb) cls n
  have hscored : (scored cls db' nodes').Perm (scored cls db nodes) := by
    unfold scored
    rw [hsame]
    exact husable.map _
  have hanti : ∀ a ∈ scored cls db nodes, ∀ b ∈ scored cls db nodes,
      ranksBefore tn a b = true → ranksBefore tn b a = true → a = b := by
    intro a ha b hb hab hba
    obtain ⟨n, -, rfl⟩ := List.mem_map.mp ha
    obtain ⟨m, -, rfl⟩ := List.mem_map.mp hb
    have hnodes := node_of_ranks hab hba
    rw [scoreNode_node, scoreNode_node] at hnodes
    rw [hnodes]
  unfold placed
  rw [mergeSort_congr (ranksBefore_trans tn) (ranksBefore_total tn) hanti hscored]

theorem reported_rows (nodes : List (String × Json)) :
    reported (.ok (.arr (nodes.map fun p => .obj [("node", .str p.1), ("status", p.2)]))) =
      nodes := by
  have hrows : (nodes.map fun p => Json.obj [("node", .str p.1), ("status", p.2)]).mapM nodeRow =
      some nodes := by
    induction nodes with
    | nil => rfl
    | cons p nodes ih =>
        rw [List.map_cons, List.mapM_cons, ih]
        rfl
  cases nodes with
  | nil => rfl
  | cons p nodes => exact congrArg (Option.getD · []) hrows

theorem scored_optimal {cls : String} (hcls : cls ∉ templatePinnedClasses) (tn : String)
    (listing : Except PyExc Json)
    (hnames : ∀ p ∈ reported listing, p.1 ≠ "") (db : Db) :
    ∃ d, (∀ x, Decides listing db cls tn x ↔ x = d) ∧
      (d.rejected = true ↔ ∀ n, ¬ Suitable listing db cls n) ∧
      (d.rejected = false → Suitable listing db cls d.node ∧ d.score = policyScore cls db d.node ∧
        ∀ n, Suitable listing db cls n → sortKey tn (policyScore cls db d.node) d.node ≤ sortKey tn (policyScore cls db n) n) ∧
      ∀ listing' db', (reported listing').Perm (reported listing) → db'.runtimes.Perm db.runtimes →
        ∀ x, Decides listing' db' cls tn x ↔ x = d := by
  have hname : ∀ n, Suitable listing db cls n → n ≠ "" := by
    rintro n ⟨⟨p, hp, rfl, -⟩, -, -⟩
    exact hnames p hp
  refine ⟨placed cls tn db (reported listing), decides_placed hcls listing db tn, ?_, ?_, ?_⟩
  · constructor
    · intro hr n hs
      exact placed_rejected hr (hname n hs) hs
    · intro hnone
      cases hr : (placed cls tn db (reported listing)).rejected with
      | true => rfl
      | false => exact absurd (placed_accepted hr).2.1 (hnone _)
  · intro hr
    obtain ⟨-, hs, hscore, hmin⟩ := placed_accepted hr
    exact ⟨hs, hscore, fun n hn => hmin n (hname n hn) hn⟩
  · intro listing' db' hp hdb x
    rw [decides_placed hcls, placed_perm hp hdb]

def twoNodes : Except PyExc Json :=
  .ok (.arr [.obj [("node", .str "miam00111"), ("status", .str "online")],
    .obj [("node", .str "miam-00135"), ("status", .str "online")]])

theorem twoNodes_optimal :
    (∀ p ∈ reported twoNodes, p.1 ≠ "") ∧ ∃ d,
    (∀ x, Decides twoNodes {} "inference" "miam00111" x ↔ x = d) ∧
      (d.rejected = true ↔ ∀ n, ¬ Suitable twoNodes {} "inference" n) ∧
      (d.rejected = false → Suitable twoNodes {} "inference" d.node ∧
        d.score = policyScore "inference" {} d.node ∧
        ∀ n, Suitable twoNodes {} "inference" n →
          sortKey "miam00111" (policyScore "inference" {} d.node) d.node ≤ sortKey "miam00111" (policyScore "inference" {} n) n) ∧
      ∀ listing' db', (reported listing').Perm (reported twoNodes) →
        db'.runtimes.Perm ({} : Db).runtimes →
        ∀ x, Decides listing' db' "inference" "miam00111" x ↔ x = d := by
  have hnames : ∀ p ∈ reported twoNodes, p.1 ≠ "" := by decide
  exact ⟨hnames, scored_optimal (by decide) "miam00111" twoNodes hnames {}⟩

theorem hardFilters_iff (listing : Except PyExc Json) (db : Db) (cls tn : String) :
    (∀ d, Decides listing db cls tn d → d.rejected = false → Suitable listing db cls d.node) ↔
      (cls ∈ templatePinnedClasses → Online listing tn ∧ tn ∉ excludedNodes) := by
  constructor
  · intro h hcls
    have hs := h _ ((decides_pinned hcls listing db tn _).mpr rfl) rfl
    exact ⟨hs.online, hs.kept⟩
  · intro h d hd hr
    by_cases hcls : cls ∈ templatePinnedClasses
    · have hfree : ∀ c ∈ templatePinnedClasses, c ∉ inferenceRuntimeClasses := by decide
      obtain ⟨honline, hkept⟩ := h hcls
      rw [(decides_pinned hcls listing db tn d).mp hd]
      exact ⟨honline, hkept, fun hc => absurd hc (hfree cls hcls)⟩
    · rw [decides_placed hcls] at hd
      subst hd
      exact (placed_accepted hr).2.1

def offline : Except PyExc Json :=
  .ok (.arr [.obj [("node", .str "miam00111"), ("status", .str "offline")]])

theorem sandbox_placed_offline :
    ∃ d, Decides offline {} "sandbox" "miam00111" d ∧ d.rejected = false ∧
      ¬ Suitable offline {} "sandbox" d.node := by
  refine ⟨pinned "sandbox" "miam00111", (decides_pinned (by decide) _ _ _ _).mpr rfl, rfl, ?_⟩
  rintro ⟨⟨p, hp, -, hs⟩, -, -⟩
  have hno : ∀ p ∈ reported offline, p.2.isStr "online" = false := by decide
  exact Bool.false_ne_true ((hno p hp).symm.trans hs)

end ServerManager.PlacementPolicy
