import ServerManager.Api
import ServerManager.Replay

namespace ServerManager.Rehearsals

open Interaction Interleaving Orm Effects Config Api Storage Replay

variable {O R : Type}

abbrev Parties (R : Type) := Conf (World R) Eff Ans PyExc Unit

abbrev Played (O : Type) := Board (Machine O) Eff Ans PyExc Unit

/-- The requests of the list, and beyond it always the same one. -/
def cast (qs : List Request) (q : Request) (i : Nat) : Request := (qs[i]?).getD q

def opening (cfg : Settings) (db : Db) (o : O) (qs : List Request) : Played O :=
  ⟨⟨db, qs.map (fun _ => {}), 0, [], o⟩, qs.map (fun q => ⟨q.prog cfg, []⟩)⟩

def shown (cfg : Settings) (π : O → R) (q : Request) (b : Played O) : Parties R :=
  b.conf (Machine.world π) ⟨q.prog cfg, []⟩

def traceOf (b : Played O) (i : Nat) : PyTrace := ((b.procs[i]?).map Proc.trace).getD []

theorem shown_trace (cfg : Settings) (π : O → R) (q : Request) (b : Played O) (i : Nat) :
    ((shown cfg π q b).procs i).trace = traceOf b i := by
  change ((b.procs[i]?).getD _).trace = ((b.procs[i]?).map Proc.trace).getD []
  cases b.procs[i]? with
  | none => rfl
  | some p => rfl

theorem shown_db (cfg : Settings) (π : O → R) (q : Request) (b : Played O) :
    (shown cfg π q b).world.db = b.state.db := rfl

theorem opening_sessions (cfg : Settings) (π : O → R) (db : Db) (o : O) (qs : List Request)
    (j : Nat) :
    ((opening cfg db o qs).state.world π).sessions j = {} := by
  have h : ((qs.map (fun _ => ({} : Session)))[j]?).getD {} = {} := by
    rw [List.getElem?_map]
    cases qs[j]? with
    | none => rfl
    | some q => rfl
  exact h

theorem shown_opening (cfg : Settings) (π : O → R) (db : Db) (o : O) (qs : List Request)
    (q : Request) :
    shown cfg π q (opening cfg db o qs) =
      Interleaving.start ((opening cfg db o qs).state.world π) fun i => (cast qs q i).prog cfg := by
  refine congrArg (Conf.mk _) (funext fun i => ?_)
  have h : ((qs.map (fun q => (⟨q.prog cfg, []⟩ : Proc Eff Ans PyExc Unit)))[i]?).getD
      ⟨q.prog cfg, []⟩ =
      ⟨(cast qs q i).prog cfg, []⟩ := by
    rw [List.getElem?_map]
    unfold cast
    cases qs[i]? with
    | none => rfl
    | some q => rfl
  exact h

end ServerManager.Rehearsals
