import Mathlib.Data.List.Perm.Basic
import Mathlib.Algebra.Order.Floor.Div
import Mathlib.Algebra.Order.Group.Int

namespace ServerManager.ServiceQueue

variable {α : Type} {stamp : α → Int} {T : Int} {k : Nat}

def waiting (stamp : α → Int) (T : Int) (l : List α) : Nat := l.countP (fun a => stamp a ≤ T)

theorem waiting_le_length (l : List α) : waiting stamp T l ≤ l.length := List.countP_le_length

theorem waiting_perm {l l' : List α} (h : l.Perm l') : waiting stamp T l = waiting stamp T l' :=
  h.countP_eq _

theorem waiting_sorted {a : α} {l : List α} (hs : (a :: l).Pairwise (fun a b => stamp a ≤ stamp b))
    (ha : T < stamp a) : waiting stamp T l = 0 := by
  apply List.countP_eq_zero.mpr
  intro b hb hle
  have hab : stamp a ≤ stamp b := List.rel_of_pairwise_cons hs hb
  have hbT : stamp b ≤ T := by simpa using hle
  omega

theorem waiting_drop {l : List α} (hs : l.Pairwise (fun a b => stamp a ≤ stamp b)) (k : Nat) :
    waiting stamp T (l.drop k) = waiting stamp T l - k := by
  induction l generalizing k with
  | nil => simp [waiting]
  | cons a l ih =>
      cases k with
      | zero => rfl
      | succ k =>
          have hl := ih (List.Pairwise.of_cons hs) k
          by_cases ha : stamp a ≤ T
          · have hcons : waiting stamp T (a :: l) = waiting stamp T l + 1 := by simp [waiting, ha]
            simp only [List.drop_succ_cons, hl, hcons]
            omega
          · have hz := waiting_sorted hs (not_le.mp ha)
            have hcons : waiting stamp T (a :: l) = waiting stamp T l := by simp [waiting, ha]
            simp only [List.drop_succ_cons, hl, hcons, hz]
            omega

/-- A round over the queue `q` of the items: those in `S`, and the first `k` are
among them, get a stamp of their own time, and the others stay as they are. -/
structure Round (stamp : α → Int) (T : Int) (k : Nat) (l q : List α) (S : α → Prop) (g : α → α) :
    Prop where
  queue : q.Perm l
  sorted : q.Pairwise (fun a b => stamp a ≤ stamp b)
  front : ∀ a ∈ q.take k, S a
  served : ∀ a ∈ l, S a → T < stamp (g a)
  skipped : ∀ a ∈ l, ¬ S a → g a = a

variable {l l' q : List α} {S : α → Prop} {g : α → α} {ss : List (α → Prop)}

/-- A round leaves `k` fewer waiting. -/
theorem Round.waiting_map (h : Round stamp T k l q S g) :
    waiting stamp T (l.map g) ≤ waiting stamp T l - k := by
  have hq : waiting stamp T (l.map g) = waiting stamp T (q.map g) :=
    waiting_perm (h.queue.symm.map g)
  have hsplit : waiting stamp T (q.map g) =
      waiting stamp T ((q.take k).map g) + waiting stamp T ((q.drop k).map g) := by
    unfold waiting
    rw [← List.countP_append, ← List.map_append, List.take_append_drop]
  have hfront : waiting stamp T ((q.take k).map g) = 0 := by
    apply List.countP_eq_zero.mpr
    intro b hb hle
    obtain ⟨a, ha, rfl⟩ := List.mem_map.mp hb
    have hserved := h.served a (h.queue.subset (List.mem_of_mem_take ha)) (h.front a ha)
    have hbT : stamp (g a) ≤ T := by simpa using hle
    omega
  have hback : waiting stamp T ((q.drop k).map g) ≤ waiting stamp T (q.drop k) := by
    unfold waiting
    rw [List.countP_map]
    apply List.countP_mono_left
    intro a ha hle
    have hm : a ∈ l := h.queue.subset (List.mem_of_mem_drop ha)
    by_cases hS : S a
    · have hserved := h.served a hm hS
      have haT : stamp (g a) ≤ T := by simpa using hle
      omega
    · simpa [h.skipped a hm hS] using hle
  have hdrop : waiting stamp T (q.drop k) = waiting stamp T q - k := waiting_drop h.sorted k
  have hperm : waiting stamp T q = waiting stamp T l := waiting_perm h.queue
  omega

/-- Rounds one after the other, and whom each of them served. -/
inductive Rounds (stamp : α → Int) (T : Int) (k : Nat) : List α → List (α → Prop) → List α → Prop
  | nil (l : List α) : Rounds stamp T k l [] l
  | next {l q l' : List α} {S : α → Prop} {g : α → α} {ss : List (α → Prop)} :
      Round stamp T k l q S g → Rounds stamp T k (l.map g) ss l' → Rounds stamp T k l (S :: ss) l'

theorem Rounds.waiting_le (h : Rounds stamp T k l ss l') :
    waiting stamp T l' ≤ waiting stamp T l - ss.length * k := by
  induction h with
  | nil l => simp
  | @next l q l' S g ss hr _ ih =>
      have hone := hr.waiting_map
      have hlen : (S :: ss).length * k = ss.length * k + k := by simp [Nat.succ_mul]
      omega

theorem Rounds.mem_of_skipped (h : Rounds stamp T k l ss l') {a : α} (ha : a ∈ l)
    (hs : ∀ S ∈ ss, ¬ S a) :
    a ∈ l' := by
  induction h with
  | nil l => exact ha
  | @next l q l' S g ss hr _ ih =>
      have hg : g a = a := hr.skipped a ha (hs S List.mem_cons_self)
      have hm : a ∈ l.map g := List.mem_map.mpr ⟨a, ha, hg⟩
      exact ih hm fun S' hS' => hs S' (List.mem_cons_of_mem _ hS')

theorem Rounds.none_waiting (h : Rounds stamp T k l ss l') (hk : 1 ≤ k)
    (hm : l.length ⌈/⌉ k ≤ ss.length) :
    ∀ a ∈ l', T < stamp a := by
  have hn : l.length ≤ ss.length * k := by
    have hdiv := (ceilDiv_le_iff_le_mul (Nat.lt_of_lt_of_le Nat.zero_lt_one hk)).mp hm
    rwa [Nat.mul_comm] at hdiv
  have hle := h.waiting_le
  have hlen : waiting stamp T l ≤ l.length := waiting_le_length l
  have hz : waiting stamp T l' = 0 := by omega
  intro a ha
  have hna := List.countP_eq_zero.mp hz a ha
  simpa using hna

theorem Rounds.all_served (h : Rounds stamp T k l ss l') (hk : 1 ≤ k)
    (hm : l.length ⌈/⌉ k ≤ ss.length) {a : α}
    (ha : a ∈ l) (hT : stamp a ≤ T) : ∃ S ∈ ss, S a := by
  by_contra hno
  push Not at hno
  have hlt := h.none_waiting hk hm a (h.mem_of_skipped ha hno)
  omega

end ServerManager.ServiceQueue
