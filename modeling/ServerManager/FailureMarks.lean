import ServerManager.CreateCalls
import ServerManager.PassCalls

namespace ServerManager.FailureMarks

open Interaction PyJson Orm Effects Config ProxmoxVm Provisioning Reconciliation Api Storage Calls
  Sessions Frames
open JobCalls JobRuns CreateCalls PassCalls

def Spared (l c : AgentRuntime) : Prop := c.actualState = .error → l.actualState = .error

def Harmless : Write → Prop
  | .updateRuntime l c _ => Spared l c
  | .insertRuntime _ | .insertJob _ | .updateJob .. => False
  | _ => True

def mild : Eff → Prop
  | .sys .uuid4 | .db (.addRuntime _) | .db (.addJob _) | .db (.modifyJob ..) | .db (.getJob _)
  | .db (.findJob _)
  | .db .close => False
  | .db (.modify _ _ f) => ∀ x, (f x).actualState = .error → x.actualState = .error
  | _ => True

/-- The session has the jobs `js`, and nothing in it sets ERROR. -/
structure Mild (js : List JobObj) (s : Session) : Prop where
  objs : ∀ o ∈ s.objs, o.loaded.runtimeId = o.cur.runtimeId ∧ Spared o.loaded o.cur
  new : ∀ x ∈ s.new, Harmless x
  txn : ∀ x ∈ s.txn, Harmless x
  jobs : s.jobs = js

def InStep (js : List JobObj) : Prop := ∀ o ∈ js, o.cur = o.loaded

section Session

variable {R : Type} {rem : Remote R} {js : List JobObj} {s s' : Session} {e : Eff} {a : Ans e}

theorem mild_empty : Mild [] {} :=
  ⟨fun _ h => absurd h List.not_mem_nil, fun _ h => absurd h List.not_mem_nil,
    fun _ h => absurd h List.not_mem_nil, rfl⟩

theorem Mild.loaded (h : Mild js s) {os : List Obj}
    (ho : ∀ o ∈ os, o ∈ s.objs ∨ ∃ r, o = ⟨r, r, false⟩) :
    Mild js { s with objs := os } := by
  refine ⟨fun o hm => ?_, h.new, h.txn, h.jobs⟩
  rcases ho o hm with hm | ⟨r, rfl⟩
  · exact h.objs o hm
  · exact ⟨rfl, id⟩

theorem harmless_stamped {x : Write} (h : Harmless x) (t : Time) : Harmless (stamped t x) := by
  cases x with
  | insertRuntime r => exact h
  | updateRuntime | updateJob | updateStep | insertJob | insertStep | insertEvent | insertBridge =>
      exact h

theorem writes_inStep (h : InStep js) : js.flatMap JobObj.write = [] := by
  apply List.flatMap_eq_nil_iff.mpr
  intro o ho
  simp [JobObj.write, h o ho]

theorem inserted_harmless {ws : List Write} (h : ∀ x ∈ ws, Harmless x) :
    Session.inserted ws = [] ∧ Session.insertedJobs ws = [] := by
  induction ws with
  | nil => exact ⟨rfl, rfl⟩
  | cons x ws ih =>
      have hx := h x List.mem_cons_self
      have hws := ih fun y hy => h y (List.mem_cons_of_mem _ hy)
      cases x with
      | insertRuntime | insertJob => exact False.elim hx
      | updateRuntime | updateJob | updateStep | insertStep | insertEvent | insertBridge =>
          exact hws

theorem new_stamped (h : ∀ x ∈ s.new, Harmless x) (t : Time) : ∀ x ∈ s.new.map (stamped t),
    Harmless x := by
  intro x hx
  obtain ⟨y, hy, rfl⟩ := List.mem_map.mp hx
  exact harmless_stamped (h y hy) t

theorem Mild.pending (h : Mild js s) (hjs : InStep js) (t : Time) : ∀ x ∈ s.pending t,
    Harmless x := by
  intro x hx
  rw [Session.pending, h.jobs, writes_inStep hjs, List.append_nil] at hx
  rcases List.mem_append.mp hx with hx | hx
  · obtain ⟨o, ho, hx⟩ := List.mem_flatMap.mp hx
    unfold Obj.write at hx
    split at hx
    · rw [List.mem_singleton.mp hx]
      exact (h.objs o ho).2
    · cases hx
  · exact new_stamped h.new t x hx

theorem Mild.flush (h : Mild js s) (hjs : InStep js) (t : Time) : Mild js (s.flush t) := by
  obtain ⟨hr, -⟩ := inserted_harmless (new_stamped h.new t)
  obtain ⟨-, hj⟩ := inserted_harmless h.new
  refine ⟨fun o ho => ?_, fun _ hx => absurd hx List.not_mem_nil, fun x hx => ?_, ?_⟩
  · rw [Session.flush, hr, List.append_nil] at ho
    obtain ⟨o', -, rfl⟩ := List.mem_map.mp ho
    exact ⟨rfl, id⟩
  · rcases List.mem_append.mp hx with hx | hx
    · exact h.txn x hx
    · exact h.pending hjs t x hx
  · rw [Session.flush, hj, List.append_nil, h.jobs]
    have hsame : ∀ o ∈ js, (⟨o.cur, o.cur⟩ : JobObj) = o := by
      rintro ⟨l, c⟩ ho
      have hc : c = l := hjs _ ho
      rw [hc]
    rw [List.map_congr_left hsame, List.map_id']

theorem Mild.modify (h : Mild js s) {rid : Uuid} {b : Bool} {f : AgentRuntime → AgentRuntime}
    (hf : ∀ x, (f x).actualState = .error → x.actualState = .error) :
    Mild js (s.modify rid b f) := by
  refine ⟨fun o ho => ?_, h.new, h.txn, h.jobs⟩
  obtain ⟨o', ho', rfl⟩ := List.mem_map.mp ho
  obtain ⟨hk, hs⟩ := h.objs o' ho'
  split
  · exact ⟨hk, fun he => hs (hf _ he)⟩
  · exact ⟨hk, hs⟩

theorem Mild.next (h : Mild js s) (hjs : InStep js) (he : mild e) (hs : sessionStep rem s e a s') :
    Mild js s' := by
  obtain ⟨i, w, w', rfl, hs, rfl⟩ := hs
  have ht := step_turn hs
  generalize w'.sessions i = s' at ht
  cases ht with
  | keep => exact h
  | @load rid r _ _ =>
      obtain ⟨os, hos⟩ := load_objs (w.sessions i) r
      rw [hos]
      refine h.loaded fun o ho => ?_
      have hm : o ∈ ((w.sessions i).load r).2.objs := by rwa [hos]
      exact (mem_load hm).imp_right fun ⟨ho, _⟩ => ⟨r, ho⟩
  | loadAll q =>
      obtain ⟨os, hos⟩ := loadAll_objs (Query.run q (w.view i)) (w.sessions i)
      rw [hos]
      refine h.loaded fun o ho => ?_
      have hm : o ∈ ((w.sessions i).loadAll (Query.run q (w.view i))).2.objs := by rwa [hos]
      exact (mem_loadAll hm).imp_right fun ⟨r, _, ho, _⟩ => ⟨r, ho⟩
  | jobs js' hj =>
      unfold onJobs at hj
      split at hj
      all_goals exact False.elim (by first | exact he | exact hj)
  | modify rid b f => exact h.modify he
  | @add _ x hx =>
      refine ⟨h.objs, fun y hy => ?_, h.txn, h.jobs⟩
      rcases List.mem_append.mp hy with hy | hy
      · exact h.new y hy
      · rw [List.mem_singleton.mp hy]
        unfold adds at hx
        split at hx
        all_goals cases hx
        all_goals first | exact trivial | exact False.elim he
  | flush => exact h.flush hjs w.clock
  | rollback hd =>
      obtain ⟨j, hj, -⟩ := hd
      exact False.elim (h.new _ (job_pending hj))
  | commit => exact ⟨h.objs, h.new, fun _ hx => absurd hx List.not_mem_nil, h.jobs⟩
  | close => exact False.elim he

end Session

def failing : Eff → Prop
  | .db (.modifyJob _ f) => ∀ j, (f j).state = .failed
  | _ => False

def Erred (past : PyTrace) : Prop := ∃ ev ∈ past, failing ev.1

def Fails (l c : ProvisioningJob) : Prop := l.state ≠ .failed ∧ c.state = .failed

/-- The statements concern the rows whose keys the process has drawn, and set
ERROR only together with FAILED. -/
structure Kept (past : PyTrace) (ws : List Write) : Prop where
  row : ∀ r, .insertRuntime r ∈ ws → r.actualState ≠ .error
  job : ∀ j, .insertJob j ∈ ws → keysOf past = [j.runtimeId, j.jobId] ∧ ¬ Erred past
  state : ∀ l c, .updateJob l c ∈ ws → (∃ rid, keysOf past = [rid, l.jobId]) ∧
    (Erred past → Fails l c)
  error : ∀ l c d, .updateRuntime l c d ∈ ws →
    Spared l c ∨ Erred past ∧ ∃ y z, .updateJob y z ∈ ws ∧ keysOf past = [l.runtimeId, y.jobId]
  filed : ∀ rid jid, keysOf past = [rid, jid] → Committed past ∨ ∃ j, .insertJob j ∈ ws

def Promise (s : Session × PyTrace) : Eff → Prop
  | .sys .uuid4 => (keysOf s.2).length < 2 ∧ ¬ Committed s.2
  | .db .commit => Kept s.2 s.1.txn
  | _ => True

section Past

variable {past : PyTrace} {e : Eff} {a : Ans e}

theorem Erred.append (h : Erred past) (tr : PyTrace) : Erred (past ++ tr) := by
  obtain ⟨ev, hev, hf⟩ := h
  exact ⟨ev, List.mem_append_left _ hev, hf⟩

theorem erred_snoc (he : ¬ failing e) (h : Erred (past ++ [⟨e, a⟩])) : Erred past := by
  obtain ⟨ev, hev, hf⟩ := h
  rcases List.mem_append.mp hev with hev | hev
  · exact ⟨ev, hev, hf⟩
  · rw [List.mem_singleton.mp hev] at hf
    exact absurd hf he

theorem mild_calls (he : mild e) : e ≠ .sys .uuid4 ∧ ¬ failing e := by
  constructor
  · rintro rfl
    exact he
  · intro hf
    unfold failing at hf
    split at hf
    · exact he
    · exact hf

end Past

/-- The keys `ks` are drawn, their rows are on record, and no failure is marked. -/
structure Working (js : List JobObj) (ks : List Uuid) (s : Session × PyTrace) : Prop where
  session : Mild js s.1
  keys : keysOf s.2 = ks
  sound : ¬ Erred s.2
  filed : ks = [] ∨ Committed s.2

section Processes

variable {R : Type} {rem : Remote R} {js : List JobObj} {ks : List Uuid} {s s' : Session × PyTrace}
  {e : Eff} {a : Ans e}

theorem Working.next (h : Working js ks s) (hjs : InStep js) (he : mild e)
    (ht : traced (sessionStep rem) s e a s') :
    Working js ks s' := by
  obtain ⟨hs, hp⟩ := ht
  obtain ⟨hu, hf⟩ := mild_calls he
  refine ⟨h.session.next hjs he hs, ?_, fun hx => h.sound ?_, h.filed.imp_right fun hc => ?_⟩
  · rw [hp, keysOf_snoc hu]
    exact h.keys
  · rw [hp] at hx
    exact erred_snoc hf hx
  · rw [hp]
    exact hc.append _

theorem Working.kept (h : Working js ks s) : Kept s.2 s.1.txn where
  row _ hm := False.elim (h.session.txn _ hm)
  job _ hm := False.elim (h.session.txn _ hm)
  state _ _ hm := False.elim (h.session.txn _ hm)
  error _ _ _ hm := .inl (h.session.txn _ hm)
  filed rid jid hk := by
    refine .inl (h.filed.resolve_left fun hks => ?_)
    rw [h.keys, hks] at hk
    cases hk

theorem Working.promise (h : Working js ks s) (he : mild e) : Promise s e := by
  unfold Promise
  split
  · exact False.elim he
  · exact h.kept
  · trivial

theorem sat_working {α : Type} {p : Py α} (ho : Only mild p) (hjs : InStep js)
    (h : Working js ks s) :
    Sat (traced (sessionStep rem)) Promise (fun s _ => Working js ks s) (fun s _ => Working js ks s)
      p s := by
  refine (ho.keeps (fun s e a s' he h ht => h.next hjs he ht) h).weaken ?_
  intro s e he
  exact he.2.promise he.1

theorem working_start : Working [] [] ({}, []) :=
  ⟨mild_empty, rfl, fun ⟨_, hev, _⟩ => absurd hev List.not_mem_nil, .inl rfl⟩

/-- A session that has been closed is as good as a new one. -/
def easy (e : Eff) : Prop := mild e ∨ e = .db .close

theorem easy_observes (h : observes e) : easy e := by
  refine .inl ?_
  cases e with
  | pve | kea => trivial
  | db c => exact False.elim h
  | sys c =>
      cases c with
      | uuid4 => exact False.elim h
      | now | sleep | polls | randbelow | tokenUrlsafe | guestExec | leaseInventory | ipNeigh =>
          trivial

theorem Working.easy (h : Working [] [] s) (he : easy e) (ht : traced (sessionStep rem) s e a s') :
    Working [] [] s' := by
  rcases he with he | rfl
  · exact h.next (fun _ h => absurd h List.not_mem_nil) he ht
  · obtain ⟨hs, hp⟩ := ht
    refine ⟨?_, ?_, fun hx => h.sound ?_, .inl rfl⟩
    · rw [session_close hs]
      exact mild_empty
    · rw [hp, keysOf_snoc Eff.noConfusion]
      exact h.keys
    · rw [hp] at hx
      exact erred_snoc id hx

theorem only_easyCommit : Only easy commit := only_commit (.inl trivial) (.inl trivial)

theorem only_easyEvent (ev : RuntimeEvent) : Only easy (addEvent ev) :=
  only_call (.inl trivial) fun _ => only_ret _

theorem only_easyModify (rid : Uuid) {f : AgentRuntime → AgentRuntime}
    (hf : ∀ x, (f x).actualState = .error → x.actualState = .error) : Only easy (modify rid f) :=
  only_call (.inl hf) fun _ => only_ret _

theorem only_setDesiredState (rid : Uuid) (desired reason actor : String) :
    Only easy (setDesiredState rid desired reason actor) := by
  refine only_withSession (.inr rfl) (Only.bind (only_call (.inl trivial) fun _ => only_ret _)
    fun found => ?_)
  split
  · exact only_raised _ _
  · split
    · exact only_raised _ _
    · refine Only.bind (only_easyModify rid fun _ h => h) fun _ =>
        Only.bind (only_easyEvent _) fun _ => ?_
      exact only_easyCommit

theorem only_supersede (rid : Uuid) (by_ : Option Uuid) (reason : Option String) (actor : String) :
    Only easy (supersedeAgentRuntime rid by_ reason actor) := by
  have hmark : ∀ live, Only easy (markSuperseded rid live reason actor) := by
    intro live
    refine Only.bind (only_easyModify rid fun _ h => ActualState.noConfusion h) fun _ => ?_
    refine Only.bind (only_call (.inl trivial) fun _ => only_ret _) fun t => ?_
    refine Only.bind (only_call (.inl fun _ h => h) fun _ => only_ret _) fun _ => ?_
    exact Only.bind (only_easyEvent _) fun _ => only_easyCommit
  refine only_withSession (.inr rfl) (Only.bind (only_call (.inl trivial) fun _ => only_ret _)
    fun found => ?_)
  split
  · exact only_raised _ _
  · split
    · exact only_raised _ _
    · refine Only.bind (only_call (.inl trivial) fun _ => only_ret _) fun live => ?_
      split
      · exact only_raised _ _
      · refine Only.ite (only_raised _ _) (Only.ite (only_raised _ _)
          (Only.ite (only_raised _ _) ?_))
        exact Only.ite (only_raised _ _) (hmark _)

theorem only_destroy (cfg : Settings) (rid : Uuid) (actor : String) :
    Only easy (destroyAgentRuntime cfg rid actor) := by
  have hpve : ∀ c, Only easy (pve c >>= fun _ => pure ()) := fun c =>
    Only.bind (only_pve (.inl trivial)) fun _ => only_pure _
  refine only_withSession (.inr rfl) (Only.bind (only_call (.inl trivial) fun _ => only_ret _)
    fun found => ?_)
  split
  · exact only_raised _ _
  · split
    next n v _ _ =>
        refine Only.bind (Only.tryCatch ?_ fun x => ?_) fun _ =>
          Only.bind (only_easyEvent _) fun _ => ?_
        · exact (only_verifyOwnership _ _ _ _).mono fun _ he => easy_observes he
        · refine Only.ite ?_ (only_throw _)
          exact Only.bind (only_easyEvent _) fun _ => Only.bind only_easyCommit fun _ =>
            only_raised _ _
        · refine Only.bind only_easyCommit fun _ => ?_
          refine Only.bind (Only.tryCatch (hpve _) fun _ => hpve _) fun _ =>
            Only.bind (hpve _) fun _ => ?_
          refine Only.bind (only_easyModify rid fun _ h => ActualState.noConfusion h) fun _ => ?_
          refine Only.bind (only_easyEvent _) fun _ => Only.bind ?_ fun _ => only_easyCommit
          exact only_releaseReservation _ _ _ _ (fun _ => .inl trivial) fun _ => .inl trivial
    · exact only_raised _ _

theorem covers_easy {L : Type} : Covers (fun (_ : L × PyTrace) e => easy e) := by
  refine ⟨fun s e he => ?_, fun s k => ?_, fun s r e hl he => ?_⟩
  · cases e with
    | pve | kea => exact .inl trivial
    | sys c =>
        cases c with
        | uuid4 => exact False.elim he
        | now | sleep | polls | randbelow | tokenUrlsafe | guestExec | leaseInventory | ipNeigh =>
            exact .inl trivial
    | db c =>
        cases c with
        | close => exact .inr rfl
        | addEvent | selectRuntimes | flush | commit => exact .inl trivial
        | getRuntime | getJob | findJob | placedNodes | findStep | modify | modifyJob | setStep
        | addRuntime | addJob
        | addStep | addBridge => exact False.elim he
  · exact .inl fun _ h => h
  · cases he with
    | observe ho => exact easy_observes ho
    | event | flush | start | shutdown | stop => exact .inl trivial
    | modify hf => exact .inl hf.error

theorem sat_easy {α : Type} {p : Py α} {Q : Session × PyTrace → α → Prop}
    {X : Session × PyTrace → PyExc → Prop}
    (h : Sat (traced (sessionStep rem)) (fun _ e => easy e) Q X p s) (hw : Working [] [] s) :
    Sat (traced (sessionStep rem)) Promise (fun _ _ => True) (fun _ _ => True) p s := by
  induction p generalizing s with
  | ret a => exact trivial
  | raise x => exact trivial
  | call e k ih =>
      refine ⟨?_, fun a s' ht => ih a (h.2 a s' ht) (hw.easy h.1 ht)⟩
      rcases h.1 with he | rfl
      · exact hw.promise he
      · trivial

theorem keyed_sessions : Keyed (sessionStep rem) := by
  rintro l l' rid a ⟨i, w, w', rfl, hs, rfl⟩ r hr
  have hl := step_local hs
  exact (hl r hr).1

theorem filing_sound {b : Bool} {past : PyTrace} (h : Filing b ks past) : ¬ Erred past := by
  rintro ⟨⟨e, a⟩, hev, he⟩
  have hs := h.calls _ hev
  cases e with
  | pve | kea | sys => exact he
  | db c =>
      cases c with
      | modifyJob jid f =>
          have hj := (hs ⟨jid, "", jid, "", "", .queued, none⟩).symm.trans (he _)
          cases hj
      | getRuntime | getJob | findJob | selectRuntimes | placedNodes | findStep | modify | setStep
      | addRuntime | addJob
      | addStep | addEvent | addBridge | flush | commit | close => exact he

theorem promise_opening {cfg : Settings} {req : ProvisionRequest} {actor : String}
    (h : Opening cfg req actor s e) :
    Promise s e := by
  cases h with
  | drawRow hf => exact ⟨by simp [hf.keys], hf.unrecorded⟩
  | drawJob t t' hf => exact ⟨by simp [hf.keys], hf.unrecorded⟩
  | @commit past rid jid t t' hf =>
      refine ⟨fun r hr => ?_, fun j hj => ?_, fun l c hm => ?_, fun l c d hm => ?_, fun _ _ _ => ?_⟩
      · have hr : r = submittedRow cfg req rid t t' := by simpa using hr
        rw [hr, submittedRow]
        split <;> exact fun h => ActualState.noConfusion h
      · have hj : j = theJob req actor jid rid := by simpa using hj
        rw [hj]
        exact ⟨hf.keys, filing_sound hf⟩
      · simp at hm
      · simp at hm
      · exact .inr ⟨theJob req actor jid rid, by simp⟩
  | @commitJob past rid jid t t' hf =>
      refine ⟨fun r hr => ?_, fun j hj => ?_, fun l c hm => ?_, fun l c d hm => ?_, fun _ _ _ => ?_⟩
      · simp at hr
      · simp at hj
      · obtain ⟨rfl, rfl⟩ : l = theJob req actor jid rid ∧ c = jobRunning (theJob req actor jid rid) := by simpa using hm
        exact ⟨⟨rid, hf.keys⟩, fun he => absurd he (filing_sound hf)⟩
      · simp at hm
      · exact .inl (hf.commits.mpr rfl)
  | find | now | addRow | sendRow | addJob | addEvent | send | getJob | take | getRow | sendJob =>
      trivial

/-- A job that is about to commit its outcome: the object of its own row may
read ERROR once the job is marked. -/
structure Ending (J J' : ProvisioningJob) (rid : Uuid) (s : Session × PyTrace) : Prop where
  objs : ∀ o ∈ s.1.objs, o.loaded.runtimeId = o.cur.runtimeId ∧
    (Spared o.loaded o.cur ∨ o.cur.runtimeId = rid ∧ Erred s.2)
  new : ∀ x ∈ s.1.new, Harmless x
  txn : ∀ x ∈ s.1.txn, Harmless x
  jobs : s.1.jobs = [⟨J, J'⟩]
  keys : keysOf s.2 = [rid, J.jobId]
  filed : Committed s.2
  state : Erred s.2 → Fails J J'

section Ending

variable {J J' : ProvisioningJob} {rid : Uuid}

theorem Ending.call (h : Ending J J' rid s) {os : List Obj} {ws : List Write} (hu : e ≠ .sys .uuid4)
    (hf : ¬ failing e)
    (ho : ∀ o ∈ os, o.loaded.runtimeId = o.cur.runtimeId ∧
      (Spared o.loaded o.cur ∨ o.cur.runtimeId = rid ∧ Erred s.2)) (hw : ∀ x ∈ ws, Harmless x) :
    Ending J J' rid ({ s.1 with objs := os, new := ws }, s.2 ++ [⟨e, a⟩]) := by
  refine ⟨fun o hm => ?_, hw, h.txn, h.jobs, ?_, h.filed.append _,
    fun he => h.state (erred_snoc hf he)⟩
  · exact ⟨(ho o hm).1, (ho o hm).2.imp_right fun ⟨hk, he⟩ => ⟨hk, he.append _⟩⟩
  · rw [keysOf_snoc hu]
    exact h.keys

theorem Ending.event (h : Ending J J' rid s) {ev : RuntimeEvent} {a : Ans (.db (.addEvent ev))}
    (ht : traced (sessionStep rem) s (.db (.addEvent ev)) a s') : Ending J J' rid s' := by
  obtain ⟨hs, hp⟩ := ht
  have hs' : s'.1 = { s.1 with new := s.1.new ++ [.insertEvent ev] } := session_add hs rfl
  have hnew : ∀ x ∈ s.1.new ++ [.insertEvent ev], Harmless x := by
    intro x hx
    rcases List.mem_append.mp hx with hx | hx
    · exact h.new x hx
    · rw [List.mem_singleton.mp hx]
      trivial
  have hn : Ending J J' rid ({ s.1 with new := s.1.new ++ [.insertEvent ev] },
      s.2 ++ [⟨.db (.addEvent ev), a⟩]) :=
    h.call Eff.noConfusion id h.objs hnew
  rw [← hs', ← hp] at hn
  exact hn

theorem Ending.mark (h : Ending J J' rid s) (he : Erred s.2)
    {a : Ans (.db (.modify rid false markFailed))}
    (ht : traced (sessionStep rem) s (.db (.modify rid false markFailed)) a s') :
    Ending J J' rid s' := by
  obtain ⟨hs, hp⟩ := ht
  have hs' : s'.1 = s.1.modify rid false markFailed := session_modify hs
  have hobjs : ∀ o ∈ (s.1.modify rid false markFailed).objs, o.loaded.runtimeId = o.cur.runtimeId ∧
      (Spared o.loaded o.cur ∨ o.cur.runtimeId = rid ∧ Erred s.2) := by
    intro o hm
    obtain ⟨o', ho', rfl⟩ := List.mem_map.mp hm
    split
    next hk => exact ⟨(h.objs o' ho').1, .inr ⟨hk, he⟩⟩
    · exact h.objs o' ho'
  have hn : Ending J J' rid (s.1.modify rid false markFailed,
      s.2 ++ [⟨.db (.modify rid false markFailed), a⟩]) :=
    h.call Eff.noConfusion id hobjs h.new
  rw [← hs', ← hp] at hn
  exact hn

theorem Working.ending (h : Working [⟨J, J⟩] [rid, J.jobId] s)
    {f : ProvisioningJob → ProvisioningJob}
    (hf : failing (.db (.modifyJob J.jobId f)) → Fails J { f J with jobId := J.jobId })
    {a : Ans (.db (.modifyJob J.jobId f))}
    (ht : traced (sessionStep rem) s (.db (.modifyJob J.jobId f)) a s') :
    Ending J { f J with jobId := J.jobId } rid s' := by
  obtain ⟨hs, hp⟩ := ht
  have hs' : s'.1 = s.1.modifyJob J.jobId f := session_modifyJob hs
  refine ⟨fun o ho => ?_, ?_, ?_, ?_, ?_, ?_, fun he => ?_⟩
  · rw [hs'] at ho
    exact ⟨(h.session.objs o ho).1, .inl (h.session.objs o ho).2⟩
  · rw [hs']
    exact h.session.new
  · rw [hs']
    exact h.session.txn
  · rw [hs', Session.modifyJob, h.session.jobs]
    simp
  · rw [hp, keysOf_snoc Eff.noConfusion]
    exact h.keys
  · rw [hp]
    exact (h.filed.resolve_left (List.cons_ne_nil _ _)).append _
  · refine hf (Classical.byContradiction fun hno => h.sound ?_)
    rw [hp] at he
    exact erred_snoc hno he

theorem Ending.sent (h : Ending J J' rid s) {t : Time} {x : Write} (hx : x ∈ (s.1.flush t).txn) :
    Harmless x ∨ x = .updateJob J J' ∨ ∃ o ∈ s.1.objs,
      x = .updateRuntime o.loaded o.cur o.dirty := by
  rcases List.mem_append.mp hx with hx | hx
  · exact .inl (h.txn x hx)
  · rw [Session.pending, h.jobs, List.append_assoc] at hx
    rcases List.mem_append.mp hx with hx | hx
    · obtain ⟨o, ho, hx⟩ := List.mem_flatMap.mp hx
      unfold Obj.write at hx
      split at hx
      · exact .inr (.inr ⟨o, ho, List.mem_singleton.mp hx⟩)
      · cases hx
    · rcases List.mem_append.mp hx with hx | hx
      · obtain ⟨o, ho, hx⟩ := List.mem_flatMap.mp hx
        rw [List.mem_singleton.mp ho, JobObj.write] at hx
        split at hx
        · exact .inr (.inl (List.mem_singleton.mp hx))
        · cases hx
      · exact .inl (new_stamped h.new t x hx)

theorem Ending.marked (h : Ending J J' rid s) (he : Erred s.2) (t : Time) :
    .updateJob J J' ∈ (s.1.flush t).txn := by
  obtain ⟨hl, hc⟩ := h.state he
  have hne : J'.state ≠ J.state := by
    rw [hc]
    exact hl.symm
  refine List.mem_append_right _ ?_
  rw [Session.pending, h.jobs]
  simp [JobObj.write, hne]

theorem Ending.kept (h : Ending J J' rid s) (t : Time) (ev : Event Eff Ans)
    (hu : ev.1 ≠ .sys .uuid4)
    (hf : ¬ failing ev.1) : Kept (s.2 ++ [ev]) (s.1.flush t).txn := by
  obtain ⟨e, a⟩ := ev
  have hk : keysOf (s.2 ++ [⟨e, a⟩]) = [rid, J.jobId] := (keysOf_snoc hu).trans h.keys
  refine ⟨fun r hr => ?_, fun j hj => ?_, fun l c hm => ?_, fun l c d hm => ?_,
    fun _ _ _ => .inl (h.filed.append _)⟩
  · rcases h.sent hr with hr | hr | ⟨o, -, hr⟩
    · exact False.elim hr
    · cases hr
    · cases hr
  · rcases h.sent hj with hj | hj | ⟨o, -, hj⟩
    · exact False.elim hj
    · cases hj
    · cases hj
  · rcases h.sent hm with hm | hm | ⟨o, -, hm⟩
    · exact False.elim hm
    · cases hm
      exact ⟨⟨rid, hk⟩, fun he => h.state (erred_snoc hf he)⟩
    · cases hm
  · rcases h.sent hm with hm | hm | ⟨o, ho, hm⟩
    · exact .inl hm
    · cases hm
    · cases hm
      obtain ⟨hid, hs | ⟨hrid, he⟩⟩ := h.objs o ho
      · exact .inl hs
      · refine .inr ⟨he.append _, J, J', h.marked he t, ?_⟩
        rw [hid, hrid]
        exact hk

theorem Ending.commit (h : Ending J J' rid s) :
    Sat (traced (sessionStep rem)) Promise (fun _ _ => True) (fun _ _ => False) commit s := by
  refine (sat_bind _ _ _).mpr ⟨trivial, ?_⟩
  rintro a ⟨s', past'⟩ ⟨hs, hp⟩
  obtain ⟨rfl, t, hs'⟩ := session_sent hs fun j hj => h.new _ hj
  refine ⟨?_, fun _ _ _ => trivial⟩
  have hs' : s' = s.1.flush t := hs'
  have hp' : past' = _ := hp
  rw [hs', hp']
  exact h.kept t _ Eff.noConfusion id

end Ending

theorem mild_allows (ns as : List String) : Allows mild (fun _ _ => True) ns as where
  aside _ he _ := (easy_observes he).resolve_right fun hc => by rw [hc] at he; exact he
  read _ he _ _ _ _ := (easy_observes he).resolve_right fun hc => by rw [hc] at he; exact he
  book e he := by
    unfold books at he
    split at he
    all_goals first | exact trivial | exact False.elim he
  step _ _ := ⟨trivial, trivial⟩
  event _ _ := trivial

theorem mild_deploys (rid : Uuid) (spec : VMSpec) (node : String) (vmid : Int) :
    Deploys mild rid spec node vmid where
  config _ := trivial
  start := trivial
  kea _ := trivial
  mac _ := fun _ h => h
  reserved _ := fun _ h => h
  notes _ _ _ := fun _ h => h
  others := trivial

theorem mild_provisionVm (cfg : Settings) (jid : Uuid) (runtime : AgentRuntime) :
    Only mild (provisionVm cfg jid runtime) := by
  rw [provisionVm_eq]
  refine Only.bind (only_validate _ _ (mild_allows _ [])) fun _ => ?_
  refine Only.bind (only_placeVm _ _ _ (mild_allows _ _)) fun node => ?_
  refine Only.bind (only_cloneVm _ _ _ _ _ (mild_allows _ _) trivial (fun _ => trivial) fun _ _ =>
    trivial) fun x => ?_
  exact only_deploy _ _ _ _ _ (mild_allows _ _) trivial trivial trivial (mild_deploys _ _ _ _)

theorem mild_bootstrapHermes (jid : Uuid) (runtime : AgentRuntime) :
    Only mild (bootstrapHermes jid runtime) :=
  only_bootstrapHermes _ _ (mild_allows _ []) (fun _ _ _ _ h => h) (fun _ _ => trivial) fun _ h => h

variable {J : ProvisioningJob} {rid : Uuid}

theorem inStep_one (J : ProvisioningJob) : InStep [⟨J, J⟩] := by
  intro o ho
  rw [List.mem_singleton.mp ho]

theorem failJob_promises (h : Working [⟨J, J⟩] [rid, J.jobId] s) (hJ : J.state ≠ .failed)
    (x : PyExc) :
    Sat (traced (sessionStep rem)) Promise (fun _ _ => True) (fun _ _ => True)
      (failJob J.jobId rid x) s := by
  refine (sat_bind _ _ _).mpr ⟨trivial, fun a s₁ h₁ => ?_⟩
  have hend := h.ending (fun _ => ⟨hJ, rfl⟩) h₁
  have herr : Erred s₁.2 := by
    rw [h₁.2]
    exact ⟨_, List.mem_append_right _ List.mem_cons_self, fun _ => rfl⟩
  refine (sat_bind _ _ _).mpr ⟨trivial, fun a s₂ h₂ => ?_⟩
  have hmark := hend.mark herr h₂
  refine (sat_bind _ _ _).mpr ⟨trivial, fun a s₃ h₃ => ?_⟩
  exact (hmark.event h₃).commit.mono (fun _ _ h => h) fun _ _ h => False.elim h

theorem completeJob_promises {cfg : Settings} {runtime : AgentRuntime}
    (h : Working [⟨J, J⟩] [rid, J.jobId] s) :
    Sat (traced (sessionStep rem)) Promise (fun _ _ => True)
      (fun s _ => Working [⟨J, J⟩] [rid, J.jobId] s)
      (completeJob cfg J.jobId runtime) s := by
  have hJs := inStep_one J
  refine Sat.seq (sat_working (mild_provisionVm _ _ _) hJs h) fun s x h => ?_
  refine Sat.seq (sat_working (mild_bootstrapHermes _ _) hJs h) fun s _ h => ?_
  refine (sat_bind _ _ _).mpr ⟨trivial, fun a s₁ h₁ => ?_⟩
  have hrun : mild (.db (.modify runtime.runtimeId false (placed x.1 x.2))) :=
    fun _ he => ActualState.noConfusion he
  have h := h.next hJs hrun h₁
  refine (sat_bind _ _ _).mpr ⟨trivial, fun a s₂ h₂ => ?_⟩
  have hend := h.ending (fun hf => JobState.noConfusion (hf J)) h₂
  refine (sat_bind _ _ _).mpr ⟨trivial, fun a s₃ h₃ => ?_⟩
  exact (hend.event h₃).commit.mono (fun _ _ h => h) fun _ _ h => False.elim h

theorem create_promises (cfg : Settings) (req : ProvisionRequest) (actor : String) :
    Sat (traced (sessionStep rem)) Promise (fun _ _ => True) (fun _ _ => True)
      ((Request.create req actor).prog cfg)
      ({}, []) := by
  refine create_sat (fun _ _ h => promise_opening h) (fun _ => True) (fun _ => True)
    (fun _ _ => trivial)
    (fun rid jid t t' past hf => ?_) fun _ _ => ⟨trivial, trivial⟩
  have hw : Working [⟨jobRunning (theJob req actor jid rid), jobRunning (theJob req actor jid rid)⟩]
      [rid, jid]
      (filed (submittedRow cfg req rid t t') (jobRunning (theJob req actor jid rid))
        (jobRunning (theJob req actor jid rid)), past) := by
    refine ⟨⟨fun o ho => ?_, fun _ h => absurd h List.not_mem_nil,
      fun _ h => absurd h List.not_mem_nil, rfl⟩, hf.keys,
      filing_sound hf, .inr (hf.commits.mpr rfl)⟩
    rw [List.mem_singleton.mp ho]
    exact ⟨rfl, id⟩
  refine (completeJob_promises hw).mono (fun _ _ _ => trivial) fun s x hs => ?_
  exact failJob_promises hs (fun h => JobState.noConfusion h) x

theorem request_promises (cfg : Settings) (q : Request) :
    Sat (traced (sessionStep rem)) Promise (fun _ _ => True) (fun _ _ => True) (q.prog cfg)
      ({}, []) := by
  have hother : ∀ {p : Py Unit}, Only easy p →
      Sat (traced (sessionStep rem)) Promise (fun _ _ => True) (fun _ _ => True) p ({}, []) := by
    intro p hp
    have hkeep :=
      hp.keeps (T := traced (sessionStep rem)) (I := fun _ => True) (fun _ _ _ _ _ _ _ => trivial)
      (s := ({}, [])) trivial
    exact sat_easy (hkeep.weaken fun _ _ he => he.1) working_start
  cases q with
  | create req actor => exact create_promises cfg req actor
  | desiredState rid desired reason actor =>
      exact hother (only_setDesiredState rid desired reason actor)
  | supersede rid by_ reason actor => exact hother (only_supersede rid by_ reason actor)
  | destroy rid actor => exact hother (only_destroy cfg rid actor)
  | reconcileOne rs rid =>
      exact sat_easy (reconcileOne_sat keyed_sessions covers_easy cfg rs fun _ => .inl trivial)
        working_start
  | reconcileEvery rs =>
      exact sat_easy (reconcileEvery_sat keyed_sessions covers_easy cfg rs fun _ _ => .inl trivial)
        working_start

end Processes

end ServerManager.FailureMarks
