import Mathlib.Data.List.Nodup
import Mathlib.Data.Int.Order.Basic

namespace ServerManager.RecencyList

variable {α β κ : Type} [DecidableEq κ]

def Ranked (rank : α → Int) (l : List α) : Prop := l.Pairwise (fun a b => rank a < rank b)

/-- An order that goes by the rank, however it breaks ties. -/
structure Refines (rank : α → Int) (le : α → α → Bool) : Prop where
  trans : ∀ a b c, le a b = true → le b c = true → le a c = true
  total : ∀ a b, (le a b || le b a) = true
  of_lt : ∀ a b, rank a < rank b → le a b = true
  rank_le : ∀ a b, le a b = true → rank a ≤ rank b

variable {rank : α → Int} {le : α → α → Bool} {l l' : List α}

theorem Ranked.inj (h : Ranked rank l) {a b : α} (ha : a ∈ l) (hb : b ∈ l) (hab : rank a = rank b) :
    a = b := by
  have hn : (l.map rank).Nodup := (List.pairwise_map.mpr h).imp fun hlt => ne_of_lt hlt
  exact List.inj_on_of_nodup_map hn ha hb hab

theorem Ranked.mergeSort_eq (h : Ranked rank l) (hr : Refines rank le) (hp : l.Perm l') :
    l'.mergeSort le = l := by
  have hle : l.Pairwise (fun a b => le a b = true) := h.imp fun hab => hr.of_lt _ _ hab
  have hsort : (l'.mergeSort le).Pairwise (fun a b => le a b = true) :=
    List.pairwise_mergeSort hr.trans hr.total l'
  have hperm : (l'.mergeSort le).Perm l := (List.mergeSort_perm l' le).trans hp.symm
  apply List.Perm.eq_of_pairwise _ hsort hle hperm
  intro a b ha hb hab hba
  have hrank : rank a = rank b := le_antisymm (hr.rank_le _ _ hab) (hr.rank_le _ _ hba)
  exact h.inj (hperm.subset ha) hb hrank

theorem ranked_mergeSort (hr : Refines rank le) (hn : (l.map rank).Nodup) :
    Ranked rank (l.mergeSort le) := by
  have hsort : (l.mergeSort le).Pairwise (fun a b => le a b = true) :=
    List.pairwise_mergeSort hr.trans hr.total l
  have hperm : ((l.mergeSort le).map rank).Perm (l.map rank) := (List.mergeSort_perm l le).map rank
  have hne : (l.mergeSort le).Pairwise (fun a b => rank a ≠ rank b) :=
    List.pairwise_map.mp (hperm.nodup_iff.mpr hn)
  refine (hsort.and hne).imp fun h => ?_
  exact lt_of_le_of_ne (hr.rank_le _ _ h.1) h.2

theorem Ranked.nodup (h : Ranked rank l) : (l.map rank).Nodup :=
  (List.pairwise_map.mpr h).imp fun hlt => ne_of_lt hlt

theorem Ranked.filter (h : Ranked rank l) (p : α → Bool) : Ranked rank (l.filter p) :=
  List.Pairwise.filter p h

theorem ranked_map (f : α → α) (hf : ∀ a ∈ l, rank (f a) = rank a) (h : Ranked rank l) :
    Ranked rank (l.map f) := by
  apply List.pairwise_map.mpr
  refine List.Pairwise.imp_of_mem ?_ h
  intro a b ha hb hab
  rw [hf a ha, hf b hb]
  exact hab

theorem ranked_cons {a : α} (h : Ranked rank l) (ha : ∀ b ∈ l, rank a < rank b) :
    Ranked rank (a :: l) :=
  List.pairwise_cons.mpr ⟨ha, h⟩

variable {key : α → κ} {k : κ}

def toFront (key : α → κ) (k : κ) (l : List α) : List α :=
  l.filter (fun a => key a = k) ++ l.filter (fun a => key a ≠ k)

theorem toFront_perm (key : α → κ) (k : κ) (l : List α) : (toFront key k l).Perm l := by
  have h := List.filter_append_perm (fun a => decide (key a = k)) l
  simpa [toFront] using h

theorem toFront_map (f : α → β) {key' : β → κ} (h : ∀ a ∈ l, key' (f a) = key a) :
    toFront key' k (l.map f) = (toFront key k l).map f := by
  have hin : ∀ p : κ → Bool, (l.map f).filter (fun b => p (key' b)) =
      (l.filter (fun a => p (key a))).map f := by
    intro p
    rw [List.filter_map]
    congr 1
    apply List.filter_congr
    intro a ha
    simp [h a ha]
  rw [toFront, toFront, List.map_append, ← hin fun x => decide (x = k),
    ← hin fun x => decide (x ≠ k)]

theorem ranked_toFront (hn : (l.map key).Nodup)
    (hrest : Ranked rank (l.filter (fun a => key a ≠ k)))
    (hlow : ∀ a ∈ l, key a = k → ∀ b ∈ l, key b ≠ k → rank a < rank b) :
    Ranked rank (toFront key k l) := by
  have hone : Ranked rank (l.filter (fun a => key a = k)) := by
    have hne : (l.filter (fun a => key a = k)).Pairwise (fun a b => key a ≠ key b) :=
      List.Pairwise.filter _ (List.pairwise_map.mp hn)
    refine List.Pairwise.imp_of_mem ?_ hne
    intro a b ha hb hab
    simp only [List.mem_filter, decide_eq_true_eq] at ha hb
    exact absurd (ha.2.trans hb.2.symm) hab
  refine List.pairwise_append.mpr ⟨hone, hrest, fun a ha b hb => ?_⟩
  simp only [List.mem_filter, decide_eq_true_eq] at ha hb
  exact hlow a ha.1 ha.2 b hb.1 hb.2

theorem toFront_eq_cons {a : α} (hn : (l.map key).Nodup) (ha : a ∈ l) (hk : key a = k) :
    toFront key k l = a :: l.filter (fun b => key b ≠ k) := by
  have hone : l.filter (fun b => key b = k) = [a] := by
    have hmem : a ∈ l.filter (fun b => key b = k) := List.mem_filter.mpr ⟨ha, by simpa using hk⟩
    have hne : (l.filter (fun b => key b = k)).Pairwise (fun b c => key b ≠ key c) :=
      List.Pairwise.filter _ (List.pairwise_map.mp hn)
    have hkeys : ∀ b ∈ l.filter (fun b => key b = k), key b = k := fun b hb => by
      simpa using (List.mem_filter.mp hb).2
    generalize l.filter (fun b => key b = k) = one at hmem hne hkeys
    cases one with
    | nil => exact absurd hmem List.not_mem_nil
    | cons b one =>
        cases one with
        | nil => rw [List.mem_singleton.mp hmem]
        | cons c one =>
            have hbc := (List.pairwise_cons.mp hne).1 c List.mem_cons_self
            exact absurd ((hkeys b List.mem_cons_self).trans (hkeys c (by simp)).symm) hbc
  rw [toFront, hone, List.singleton_append]

variable {order : List κ}

def arrange (key : α → κ) (order : List κ) (l : List α) : List α :=
  order.filterMap (fun k => l.find? (fun a => key a = k))

theorem find_key (hn : (l.map key).Nodup) {a : α} (ha : a ∈ l) :
    l.find? (fun b => key b = key a) = some a := by
  cases hf : l.find? (fun b => key b = key a) with
  | none =>
      have hno : ¬ decide (key a = key a) = true := List.find?_eq_none.mp hf a ha
      simp at hno
  | some b =>
      have hk : key b = key a := by simpa using List.find?_some hf
      rw [List.inj_on_of_nodup_map hn (List.mem_of_find?_eq_some hf) ha hk]

theorem mem_arrange (hn : (l.map key).Nodup) (hp : order.Perm (l.map key)) {a : α} :
    a ∈ arrange key order l ↔ a ∈ l := by
  constructor
  · intro h
    obtain ⟨k, -, hk⟩ := List.mem_filterMap.mp h
    exact List.mem_of_find?_eq_some hk
  · intro h
    exact List.mem_filterMap.mpr ⟨key a, hp.symm.subset (List.mem_map_of_mem h), find_key hn h⟩

theorem arrange_keys (hn : (l.map key).Nodup) (hp : order ⊆ l.map key) :
    (arrange key order l).map key = order := by
  induction order with
  | nil => rfl
  | cons k order ih =>
      obtain ⟨a, ha, rfl⟩ := List.mem_map.mp (hp List.mem_cons_self)
      have hrest := ih fun x hx => hp (List.mem_cons_of_mem _ hx)
      have hcons : arrange key (key a :: order) l = a :: arrange key order l :=
        List.filterMap_cons_some (f := fun k => l.find? (fun b => key b = k)) (find_key hn ha)
      rw [hcons, List.map_cons, hrest]

theorem arrange_perm (hn : (l.map key).Nodup) (hp : order.Perm (l.map key)) :
    (arrange key order l).Perm l := by
  have hkeys := arrange_keys hn hp.subset
  have hn' : (arrange key order l).Nodup := by
    apply List.Nodup.of_map key
    rw [hkeys]
    exact hp.nodup_iff.mpr hn
  exact (List.perm_ext_iff_of_nodup hn' (hn.of_map)).mpr fun a => mem_arrange hn hp

theorem arrange_map (f : α → β) {key' : β → κ} (h : ∀ a, key' (f a) = key a) :
    arrange key' order (l.map f) = (arrange key order l).map f := by
  rw [arrange, arrange, List.map_filterMap]
  apply List.filterMap_congr
  intro k _
  rw [List.find?_map]
  congr 2
  funext a
  simp [h a]

theorem ranked_arrange {c : Int} (hn : (l.map key).Nodup) (hp : order.Perm (l.map key))
    (hr : ∀ a ∈ l, rank a = c + order.idxOf (key a)) : Ranked rank (arrange key order l) := by
  have hkeys := arrange_keys hn hp.subset
  have hno : order.Nodup := hp.nodup_iff.mpr hn
  have hidx : order.Pairwise (fun x y => order.idxOf x < order.idxOf y) := by
    apply List.pairwise_iff_getElem.mpr
    intro i j hi hj hij
    rw [hno.idxOf_getElem i hi, hno.idxOf_getElem j hj]
    exact hij
  have hmap : ((arrange key order l).map key).Pairwise
      (fun x y => order.idxOf x < order.idxOf y) := by
    rw [hkeys]
    exact hidx
  refine List.Pairwise.imp_of_mem ?_ (List.pairwise_map.mp hmap)
  intro a b ha hb hab
  rw [hr a ((mem_arrange hn hp).mp ha), hr b ((mem_arrange hn hp).mp hb)]
  omega

end ServerManager.RecencyList
