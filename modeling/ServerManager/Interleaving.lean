import ServerManager.Interaction
import Mathlib.Logic.Function.Basic

namespace ServerManager.Interleaving

open Interaction

variable {E : Type} {A : E → Type} {ε α W γ : Type}

/-- A process: what is left of its program and the calls it has made so far. -/
structure Proc (E : Type) (A : E → Type) (ε α : Type) where
  prog : Prog E A ε α
  trace : Trace E A

structure Conf (W : Type) (E : Type) (A : E → Type) (ε α : Type) where
  world : W
  procs : Nat → Proc E A ε α

def start (w : W) (progs : Nat → Prog E A ε α) : Conf W E A ε α := ⟨w, fun i => ⟨progs i, []⟩⟩

/-- One process makes one call and the shared world answers it. -/
inductive Step (step : Nat → W → (e : E) → A e → W → Prop) :
    Conf W E A ε α → Nat → Event E A → Conf W E A ε α → Prop
  | call {c : Conf W E A ε α} {i : Nat} {e : E} {k : A e → Prog E A ε α} {a : A e} {w : W} :
      (c.procs i).prog = .call e k → step i c.world e a w →
      Step step c i ⟨e, a⟩
        ⟨w, Function.update c.procs i ⟨k a, (c.procs i).trace ++ [⟨e, a⟩]⟩⟩

/-- Configurations reached by steps that all satisfy `P`, a condition on the
configuration before the step, the process that moves and its call. -/
inductive Reach (step : Nat → W → (e : E) → A e → W → Prop)
    (P : Conf W E A ε α → Nat → Event E A → Prop) (c₀ : Conf W E A ε α) :
    Conf W E A ε α → Prop
  | refl : Reach step P c₀ c₀
  | tail {c d : Conf W E A ε α} {i : Nat} {ev : Event E A} :
      Reach step P c₀ c → P c i ev → Step step c i ev d → Reach step P c₀ d

variable {step : Nat → W → (e : E) → A e → W → Prop}
  {P : Conf W E A ε α → Nat → Event E A → Prop}

theorem Step.trace_self {c d : Conf W E A ε α} {i : Nat} {ev : Event E A} (h : Step step c i ev d) :
    (d.procs i).trace = (c.procs i).trace ++ [ev] := by
  cases h with
  | call => simp only [Function.update_self]

theorem Step.proc_other {c d : Conf W E A ε α} {i j : Nat} {ev : Event E A} (h : Step step c i ev d)
    (hj : j ≠ i) :
    d.procs j = c.procs j := by
  cases h with
  | call => simp only [Function.update_of_ne hj]

theorem Step.world {c d : Conf W E A ε α} {i : Nat} {e : E} {a : A e} (h : Step step c i ⟨e, a⟩ d) :
    step i c.world e a d.world := by
  cases h with
  | call _ hw => exact hw

theorem Reach.trans {c d e : Conf W E A ε α} (h : Reach step P c d) (h' : Reach step P d e) :
    Reach step P c e := by
  induction h' with
  | refl => exact h
  | tail _ hp hs ih => exact .tail ih hp hs

theorem Reach.mono {P' : Conf W E A ε α → Nat → Event E A → Prop} {c d : Conf W E A ε α}
    (h : Reach step P c d) (hP : ∀ c i ev, P c i ev → P' c i ev) : Reach step P' c d := by
  induction h with
  | refl => exact .refl
  | tail _ hp hs ih => exact .tail ih (hP _ _ _ hp) hs

theorem log_end {past past' : Trace E A} {p q : Prog E A ε α} {tr : Trace E A}
    (h : Exec log past p tr past' q) :
    past' = past ++ tr := by
  induction h with
  | refl => exact (List.append_nil _).symm
  | call hs _ ih => rw [ih, hs, List.append_assoc, List.singleton_append]

theorem Reach.exec {w : W} {progs : Nat → Prog E A ε α} {c : Conf W E A ε α}
    (h : Reach step P (start w progs) c) (i : Nat) :
    Exec log [] (progs i) (c.procs i).trace (c.procs i).trace (c.procs i).prog := by
  induction h with
  | refl => exact .refl [] (progs i)
  | @tail c d k ev _ _ hs ih =>
      by_cases hi : i = k
      · subst hi
        cases hs with
        | @call e q a w' hc _ =>
            rw [hc] at ih
            have hlast : Exec log (c.procs i).trace (.call e q) [⟨e, a⟩]
                ((c.procs i).trace ++ [⟨e, a⟩]) (q a) :=
              .call rfl (.refl _ _)
            simpa only [Function.update_self] using ih.trans hlast
      · rw [hs.proc_other hi]
        exact ih

theorem Reach.promised {w : W} {progs : Nat → Prog E A ε α} {c : Conf W E A ε α}
    (h : Reach step P (start w progs) c) {i : Nat}
    {G : Trace E A → E → Prop} {Q : Trace E A → α → Prop} {X : Trace E A → ε → Prop}
    (hsat : Sat log G Q X (progs i) [])
    {before after : Trace E A} {e : E} {a : A e}
    (htr : (c.procs i).trace = before ++ ⟨e, a⟩ :: after) : G before e := by
  have hx := h.exec i
  rw [htr] at hx
  obtain ⟨u, u', k, hbefore, -, -⟩ := hx.split
  have hpast : u = before := log_end hbefore
  exact hpast ▸ (hsat.exec hbefore).1

/-- What is common to all states of a run and how each process sees it. A
process is verified against its own view of type `γ`, which moves by `view`
and where it promises `G`; the promises of all processes keep the global
invariant, and the invariant makes the answers agree with the views. -/
structure Protocol (step : Nat → W → (e : E) → A e → W → Prop)
    (P : Conf W E A ε α → Nat → Event E A → Prop) (γ : Type) where
  inv : Conf W E A ε α → (Nat → γ) → Prop
  view : γ → (e : E) → A e → γ → Prop
  G : γ → E → Prop
  keeps : ∀ {c d : Conf W E A ε α} {g : Nat → γ} {i : Nat} {e : E} {a : A e},
    inv c g → G (g i) e → P c i ⟨e, a⟩ → Step step c i ⟨e, a⟩ d →
      ∃ g', view (g i) e a g' ∧ inv d (Function.update g i g')

/-- The rest of every process meets its promises from its view. -/
def Protocol.Verified (π : Protocol (ε := ε) (α := α) step P γ) (c : Conf W E A ε α) (g : Nat → γ) :
    Prop :=
  π.inv c g ∧ ∀ i, Sat π.view π.G (fun _ _ => True) (fun _ _ => True) (c.procs i).prog (g i)

theorem Protocol.next (π : Protocol (ε := ε) (α := α) step P γ) {c d : Conf W E A ε α} {g : Nat → γ}
    {i : Nat}
    {ev : Event E A} (h : π.Verified c g) (hp : P c i ev) (hs : Step step c i ev d) :
    ∃ g', π.Verified d g' := by
  obtain ⟨hi, hv⟩ := h
  have hs' := hs
  cases hs with
  | @call e k a w hc hw =>
      have hsat := hv i
      rw [hc] at hsat
      obtain ⟨g', hg, hinv⟩ := π.keeps hi hsat.1 hp hs'
      refine ⟨Function.update g i g', hinv, fun j => ?_⟩
      by_cases hj : j = i
      · subst j
        simpa only [Function.update_self] using hsat.2 a g' hg
      · simpa only [Function.update_of_ne hj] using hv j

theorem Protocol.reach (π : Protocol (ε := ε) (α := α) step P γ) {c₀ c : Conf W E A ε α}
    {g : Nat → γ}
    (h : π.Verified c₀ g) (hr : Reach step P c₀ c) : ∃ g', π.Verified c g' := by
  induction hr with
  | refl => exact ⟨g, h⟩
  | tail _ hp hs ih =>
      obtain ⟨g', hg⟩ := ih
      exact π.next hg hp hs

/-- Processes verified against their own traces and their part of the world:
each promises its own `G i`, the promises keep `inv`, and `inv` makes that
part of the world move by `F`. -/
structure Lawful {L : Type} (part : Nat → W → L) (F : L → (e : E) → A e → L → Prop)
    (G : Nat → L × Trace E A → E → Prop) (inv : Conf W E A ε α → Prop) (c : Conf W E A ε α) :
    Prop where
  inv : inv c
  progs : ∀ i, Sat (traced F) (G i) (fun _ _ => True) (fun _ _ => True) (c.procs i).prog
    (part i c.world, (c.procs i).trace)

section Lawful

variable {L : Type} {part : Nat → W → L} {F : L → (e : E) → A e → L → Prop}
  {G : Nat → L × Trace E A → E → Prop}
  {inv : Conf W E A ε α → Prop}

theorem Lawful.promise {c d : Conf W E A ε α} {i : Nat} {ev : Event E A} (h : Lawful part F G inv c)
    (hs : Step step c i ev d) : G i (part i c.world, (c.procs i).trace) ev.1 := by
  cases hs with
  | call hc _ =>
      have hsat := h.progs i
      rw [hc] at hsat
      exact hsat.1

theorem Lawful.reach
    (keeps : ∀ {c d : Conf W E A ε α} {i : Nat} {e : E} {a : A e}, inv c →
      G i (part i c.world, (c.procs i).trace) e → P c i ⟨e, a⟩ → Step step c i ⟨e, a⟩ d →
        inv d ∧ F (part i c.world) e a (part i d.world) ∧ ∀ j, j ≠ i → part j d.world = part j c.world)
    {c₀ c : Conf W E A ε α} (h : Lawful part F G inv c₀) (hr : Reach step P c₀ c) :
    Lawful part F G inv c := by
  induction hr with
  | refl => exact h
  | @tail c d i ev _ hp hs ih =>
      obtain ⟨hd, hF, ho⟩ := keeps ih.inv (ih.promise hs) hp hs
      refine ⟨hd, fun j => ?_⟩
      cases hs with
      | @call e k a w hc hw =>
          by_cases hj : j = i
          · subst j
            have hsat := ih.progs i
            rw [hc] at hsat
            simp only [Function.update_self]
            exact hsat.2 a (part i w, (c.procs i).trace ++ [⟨e, a⟩]) ⟨hF, rfl⟩
          · have hpart : part j w = part j c.world := ho j hj
            simpa only [Function.update_of_ne hj, hpart] using ih.progs j

end Lawful

section Play

variable {T : Type}

structure Board (T : Type) (E : Type) (A : E → Type) (ε α : Type) where
  state : T
  procs : List (Proc E A ε α)

/-- The processes that are not on the board do what `idle` does. -/
def Board.conf (π : T → W) (idle : Proc E A ε α) (b : Board T E A ε α) : Conf W E A ε α :=
  ⟨π b.state, fun i => (b.procs[i]?).getD idle⟩

def Board.next (oracle : Nat → T → (e : E) → Option (A e × T)) (b : Board T E A ε α) (i : Nat) :
    Option (Board T E A ε α) :=
  match b.procs[i]? with
  | some ⟨.call e k, tr⟩ =>
      match oracle i b.state e with
      | some (a, t) => some ⟨t, b.procs.set i ⟨k a, tr ++ [⟨e, a⟩]⟩⟩
      | none => none
  | _ => none

/-- One call for each entry of the schedule, up to the first that is not possible. -/
def Board.play (oracle : Nat → T → (e : E) → Option (A e × T)) :
    List Nat → Board T E A ε α → Board T E A ε α
  | [], b => b
  | i :: is, b =>
      match b.next oracle i with
      | some b' => b'.play oracle is
      | none => b

/-- The next call of process `i` is a call of this kind, and it has an answer. -/
def Board.offers (oracle : Nat → T → (e : E) → Option (A e × T)) (i : Nat) (kind : E → Bool)
    (b : Board T E A ε α) : Bool :=
  match b.procs[i]? with
  | some ⟨.call e _, _⟩ => kind e && (oracle i b.state e).isSome
  | _ => false

/-- The whole schedule is possible, and each of its calls is of this kind. -/
def Board.follows (oracle : Nat → T → (e : E) → Option (A e × T)) (kind : Nat → E → Bool) :
    List Nat → Board T E A ε α → Bool
  | [], _ => true
  | i :: is, b => b.offers oracle i (kind i) && (b.play oracle [i]).follows oracle kind is

theorem Board.offers_step {π : T → W} {oracle : Nat → T → (e : E) → Option (A e × T)}
    (idle : Proc E A ε α)
    (h : ∀ i t e a t', oracle i t e = some (a, t') → step i (π t) e a (π t'))
    {b : Board T E A ε α} {i : Nat} {kind : E → Bool} (hb : b.offers oracle i kind = true) :
    ∃ e a, kind e = true ∧ Step step (b.conf π idle) i ⟨e, a⟩
      ((b.play oracle [i]).conf π idle) := by
  unfold Board.offers at hb
  split at hb
  next e k tr hp =>
      obtain ⟨hk, hs⟩ := Bool.and_eq_true_iff.mp hb
      obtain ⟨⟨a, t⟩, ho⟩ := Option.isSome_iff_exists.mp hs
      have hproc : (b.conf π idle).procs i = ⟨.call e k, tr⟩ := by simp [Board.conf, hp]
      have hi : i < b.procs.length := (List.getElem?_eq_some_iff.mp hp).1
      have hnext : b.play oracle [i] = ⟨t, b.procs.set i ⟨k a, tr ++ [⟨e, a⟩]⟩⟩ := by
        simp [Board.play, Board.next, hp, ho]
      have hst : Step step (b.conf π idle) i ⟨e, a⟩ _ :=
        .call (congrArg Proc.prog hproc) (h i b.state e a t ho)
      have he : (⟨π t, Function.update (b.conf π idle).procs i
          ⟨k a, ((b.conf π idle).procs i).trace ++ [⟨e, a⟩]⟩⟩ : Conf W E A ε α) =
          Board.conf π idle ⟨t, b.procs.set i ⟨k a, tr ++ [⟨e, a⟩]⟩⟩ := by
        rw [hproc]
        refine congrArg (Conf.mk (π t)) (funext fun j => ?_)
        by_cases hj : j = i
        · subst hj
          simp [hi]
        · simp [Board.conf, Function.update_of_ne hj, List.getElem?_set_ne (Ne.symm hj)]
      rw [he] at hst
      exact ⟨e, a, hk, hnext ▸ hst⟩
  · cases hb

theorem Board.play_cons {oracle : Nat → T → (e : E) → Option (A e × T)} {b : Board T E A ε α}
    {i : Nat}
    {kind : E → Bool} (hb : b.offers oracle i kind = true) (is : List Nat) :
    b.play oracle (i :: is) = (b.play oracle [i]).play oracle is := by
  unfold Board.offers at hb
  split at hb
  next e k tr hp =>
      obtain ⟨-, hs⟩ := Bool.and_eq_true_iff.mp hb
      obtain ⟨⟨a, t⟩, ho⟩ := Option.isSome_iff_exists.mp hs
      simp [Board.play, Board.next, hp, ho]
  · cases hb

theorem Board.follows_reach {π : T → W} {oracle : Nat → T → (e : E) → Option (A e × T)}
    (idle : Proc E A ε α)
    (h : ∀ i t e a t', oracle i t e = some (a, t') → step i (π t) e a (π t'))
    {kind : Nat → E → Bool}
    (hk : ∀ c i ev, kind i ev.1 = true → P c i ev) {is : List Nat} {b : Board T E A ε α}
    (hb : b.follows oracle kind is = true) :
    Reach step P (b.conf π idle) ((b.play oracle is).conf π idle) := by
  induction is generalizing b with
  | nil => exact .refl
  | cons i is ih =>
      obtain ⟨ho, hf⟩ := Bool.and_eq_true_iff.mp hb
      obtain ⟨e, a, hke, hs⟩ := Board.offers_step idle h ho
      rw [Board.play_cons ho]
      exact (Reach.tail .refl (hk _ i ⟨e, a⟩ hke) hs).trans (ih hf)

end Play

end ServerManager.Interleaving
