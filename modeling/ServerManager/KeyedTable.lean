import Mathlib.Data.List.Nodup

namespace ServerManager.KeyedTable

variable {α κ : Type} [DecidableEq κ]

/-- `INSERT … ON CONFLICT (key) DO UPDATE` of all columns. -/
def upsert (key : α → κ) (rows : List α) (row : α) : List α :=
  if rows.any (fun r => decide (key r = key row))
    then rows.map (fun r => if key r = key row then row else r)
  else rows ++ [row]

def lookup (key : α → κ) (rows : List α) (k : κ) : Option α :=
  rows.find? (fun r => decide (key r = k))

theorem lookup_cons (key : α → κ) (r : α) (rows : List α) (k : κ) :
    lookup key (r :: rows) k = if key r = k then some r else lookup key rows k := by
  unfold lookup
  by_cases h : key r = k
  · rw [List.find?_cons_of_pos (by simpa using h), if_pos h]
  · rw [List.find?_cons_of_neg (by simpa using h), if_neg h]

theorem lookup_append (key : α → κ) (rows : List α) (r : α) (k : κ) :
    lookup key (rows ++ [r]) k = (lookup key rows k).or (if key r = k then some r else none) := by
  unfold lookup
  rw [List.find?_append]
  congr 1
  exact (lookup_cons key r [] k).trans (by rfl)

theorem lookup_upsert (key : α → κ) (rows : List α) (row : α) (k : κ) :
    lookup key (upsert key rows row) k = if key row = k then some row else lookup key rows k := by
  unfold upsert
  split
  next hany =>
    have hmap : ∀ rows : List α, lookup key (rows.map (fun r => if key r = key row then row else r))
        k =
        if key row = k ∧ rows.any (fun r => decide (key r = k)) then some row
          else lookup key rows k := by
      intro rows
      induction rows with
      | nil => simp [lookup]
      | cons r rows ih =>
          rw [List.map_cons, lookup_cons, lookup_cons, ih]
          by_cases hr : key r = key row
          · by_cases hk : key row = k
            · simp [hr, hk]
            · simp [hr, hk]
          · by_cases hk : key row = k
            · subst hk
              simp [hr]
            · simp [hr, hk]
    rw [hmap]
    by_cases hk : key row = k
    · subst hk
      rw [if_pos ⟨rfl, hany⟩, if_pos rfl]
    · rw [if_neg fun h => hk h.1, if_neg hk]
  next hno =>
    rw [lookup_append]
    by_cases hk : key row = k
    · have hnone : lookup key rows k = none := by
        refine List.find?_eq_none.mpr fun r hr he => hno (List.any_eq_true.mpr ⟨r, hr, ?_⟩)
        rw [hk]
        exact he
      rw [hnone, if_pos hk]
      rfl
    · rw [if_neg hk, if_neg hk, Option.or_none]

theorem lookup_upserts {key : α → κ} {row : κ → α} (hrow : ∀ k, key (row k) = k) (keys : List κ)
    (rows : List α) (k : κ) :
    lookup key (keys.foldl (fun rows k => upsert key rows (row k)) rows) k = if k ∈
      keys then some (row k) else lookup key rows k := by
  induction keys generalizing rows with
  | nil => rfl
  | cons j keys ih =>
      rw [List.foldl_cons, ih, lookup_upsert, hrow]
      by_cases hk : k ∈ keys
      · rw [if_pos hk, if_pos (List.mem_cons_of_mem _ hk)]
      · by_cases hj : j = k
        · subst hj
          rw [if_neg hk, if_pos rfl, if_pos List.mem_cons_self]
        · rw [if_neg hk, if_neg hj, if_neg (fun h =>
            (List.mem_cons.mp h).elim (fun he => hj he.symm) hk)]

theorem lookup_filter (key : α → κ) (keep : κ → Bool) (rows : List α) (k : κ) :
    lookup key (rows.filter (fun r => keep (key r))) k = if keep k then lookup key rows k
      else none := by
  induction rows with
  | nil => simp [lookup]
  | cons r rows ih =>
      rw [List.filter_cons]
      by_cases hr : key r = k
      · subst hr
        by_cases hk : keep (key r)
        · rw [if_pos hk, lookup_cons, lookup_cons, if_pos rfl, if_pos hk, if_pos rfl]
        · rw [if_neg hk, ih, if_neg hk, if_neg hk]
      · rw [lookup_cons, if_neg hr]
        split
        · rw [lookup_cons, if_neg hr, ih]
        · exact ih

theorem mem_upsert {key : α → κ} {rows : List α} {row r : α} (h : r ∈ upsert key rows row) :
    r = row ∨ r ∈ rows := by
  unfold upsert at h
  split at h
  · obtain ⟨r', hr', rfl⟩ := List.mem_map.mp h
    split
    · exact .inl rfl
    · exact .inr hr'
  · rcases List.mem_append.mp h with h | h
    · exact .inr h
    · exact .inl (List.mem_singleton.mp h)

theorem upsert_nodup {key : α → κ} {rows : List α} (h : (rows.map key).Nodup) (row : α) :
    ((upsert key rows row).map key).Nodup := by
  unfold upsert
  split
  · have hkeys : (rows.map (fun r => if key r = key row then row else r)).map key =
        rows.map key := by
      rw [List.map_map]
      refine List.map_congr_left fun r _ => ?_
      by_cases hr : key r = key row
      · simp [hr]
      · simp [hr]
    rw [hkeys]
    exact h
  · next hno =>
      rw [List.map_append, List.nodup_append]
      refine ⟨h, List.nodup_singleton _, fun k hk k' hk' he => hno ?_⟩
      obtain ⟨r, hr, rfl⟩ := List.mem_map.mp hk
      rw [List.mem_singleton.mp hk'] at he
      exact List.any_eq_true.mpr ⟨r, hr, decide_eq_true he⟩

theorem mem_upserts {key : α → κ} {β : Type} {row : β → α} {keys : List β} {rows : List α}
    (h : (rows.map key).Nodup) :
    ((keys.foldl (fun rows k => upsert key rows (row k)) rows).map key).Nodup ∧
      ∀ r ∈ keys.foldl (fun rows k => upsert key rows (row k)) rows, r ∈ rows ∨ ∃ k ∈ keys,
        r = row k := by
  induction keys generalizing rows with
  | nil => exact ⟨h, fun r hr => .inl hr⟩
  | cons j keys ih =>
      obtain ⟨hn, hm⟩ := ih (upsert_nodup h (row j))
      refine ⟨hn, fun r hr => ?_⟩
      rcases hm r hr with hr | ⟨k, hk, rfl⟩
      · rcases mem_upsert hr with rfl | hr
        · exact .inr ⟨j, List.mem_cons_self, rfl⟩
        · exact .inl hr
      · exact .inr ⟨k, List.mem_cons_of_mem _ hk, rfl⟩

theorem filter_upsert {key : α → κ} (keep : κ → Bool) (rows : List α) (row : α) :
    (upsert key rows row).filter (fun r => keep (key r)) =
      if keep (key row) then upsert key (rows.filter (fun r => keep (key r))) row
        else rows.filter (fun r => keep (key r)) := by
  have hmap : (rows.map (fun r => if key r = key row then row else r)).filter
      (fun r => keep (key r)) =
      (rows.filter (fun r => keep (key r))).map (fun r => if key r = key row then row else r) := by
    rw [List.filter_map]
    refine congrArg (List.map _) (List.filter_congr fun r _ => ?_)
    by_cases hr : key r = key row
    · rw [Function.comp_apply, if_pos hr, hr]
    · rw [Function.comp_apply, if_neg hr]
  have hany : keep (key row) = true →
      (rows.filter (fun r => keep (key r))).any (fun r => decide (key r = key row)) =
        rows.any (fun r => decide (key r = key row)) := by
    intro hk
    rw [List.any_filter]
    refine List.any_congr rfl fun r => ?_
    by_cases hr : key r = key row
    · rw [hr, hk, Bool.true_and]
    · rw [decide_eq_false hr, Bool.and_false]
  rw [upsert]
  cases hk : keep (key row) with
  | true =>
      rw [if_pos rfl, upsert, hany hk]
      split
      · exact hmap
      · rw [List.filter_append, List.filter_singleton, hk, cond_true]
  | false =>
      rw [if_neg Bool.false_ne_true]
      split
      · rw [hmap]
        refine (List.map_congr_left fun r hr => ?_).trans (List.map_id _)
        have hne : key r ≠ key row := by
          rintro he
          have hkeep := (List.mem_filter.mp hr).2
          rw [he, hk] at hkeep
          cases hkeep
        rw [if_neg hne, id]
      · rw [List.filter_append, List.filter_singleton, hk, cond_false, List.append_nil]

end ServerManager.KeyedTable
