import ServerManager.AddressStages
import ServerManager.SubmitOnce

namespace ServerManager.AddressRace

open Interaction Interleaving PyJson Orm Effects Config Provisioning Api Storage Sessions Frames
open Calls JobCalls JobRows JobRuns JobOutcome CreateCalls SubmitOnce Rehearsals Replay AddressCheck
  AddressStages

inductive RowCall (rid : Uuid) : Eff → Prop
  | beside {e : Eff} : beside rid e → RowCall rid e
  | flush : RowCall rid (.db .flush)
  | commit : RowCall rid (.db .commit)
  | others : RowCall rid (othersRead rid)
  | note (f : Dict → Dict) : RowCall rid (metaCall rid f)
  | columns {f : AgentRuntime → AgentRuntime} : Tracked f → RowCall rid (.db (.modify rid false f))

variable {R : Type} {rem : Remote R} {w w' : World R} {i : Nat} {rid jid : Uuid} {e : Eff}
  {a : Ans e}

theorem rowCall_job (h : JobCall jid rid e) : RowCall rid e := by
  cases h with
  | routine hr =>
      rcases hr with hr | hr
      · refine .beside ?_
        unfold observes at hr
        split at hr
        all_goals first | exact trivial | exact False.elim hr
      · unfold ledger at hr
        split at hr
        all_goals first | exact .beside trivial | exact .flush | exact .commit | exact False.elim hr
  | clone | setConfig | start | kea | done | failed => exact .beside trivial
  | others => exact .others
  | note key v => exact .note fun d => Dict.set d key v
  | reserved x => exact .note (recordedReservation x)
  | state agent => exact .columns (tracked_stateColumns agent)
  | placed v n => exact .columns (tracked_placed v n)
  | error => exact .columns tracked_markFailed

theorem rowCall_holds {sent now : AgentRuntime} {dirty : Bool} (h : RowCall rid e)
    (hs : w.step rem i e a w')
    (hh : Holds w.db (w.sessions i) rid sent now dirty) :
    ∃ sent' now' dirty', Holds w'.db (w'.sessions i) rid sent' now' dirty' ∧
      (sent' = sent ∨ e = .db .flush ∧ sent' = now) := by
  cases h with
  | beside hb => exact ⟨sent, now, dirty, holds_beside hs hb hh, .inl rfl⟩
  | flush => exact ⟨now, now, false, (holds_flush hs hh).2, .inr ⟨rfl, rfl⟩⟩
  | commit => exact ⟨sent, now, dirty, (holds_commit hs hh).1, .inl rfl⟩
  | others =>
      have hrows : ∀ r ∈ Query.run (.others rid) (w.view i), r.runtimeId ≠ rid := by
        intro r hr
        simpa using (List.mem_filter.mp hr).2
      refine ⟨sent, now, dirty, ?_, .inl rfl⟩
      rw [show w' = _ from hs.2, setSession_self]
      exact holds_loadAll hh hrows
  | note f =>
      refine ⟨sent, { now with ownershipMeta := f now.ownershipMeta }, true, ?_, .inl rfl⟩
      rw [show w' = _ from hs, setSession_self]
      exact holds_assignMeta hh f
  | columns hf => exact ⟨sent, _, dirty, holds_assign hs hh hf, .inl rfl⟩

/-- The row is committed, and what its job may still write to it fits as well. -/
def Posted (w : World R) (i : Nat) (past : PyTrace) (rid : Uuid) : Prop :=
  ∃ r, w.db.runtime? rid = some r ∧ Fits rid past r ∧
    ((∃ o ∈ (w.sessions i).objs, o.cur.runtimeId = rid) → ∃ sent now dirty,
      Holds w.db (w.sessions i) rid sent now dirty ∧ ∀ rows, Heard rid rows past → ipOf r = ipOf sent)

theorem Posted.other {past : PyTrace} (h : Posted w i past rid)
    (hdb : w'.db.runtime? rid = w.db.runtime? rid)
    (hs : w'.sessions i = w.sessions i) : Posted w' i past rid := by
  obtain ⟨r, hr, hf, hh⟩ := h
  refine ⟨r, hdb.trans hr, hf, fun ho => ?_⟩
  rw [hs] at ho
  obtain ⟨sent, now, dirty, hh, hip⟩ := hh ho
  refine ⟨sent, now, dirty, ?_, hip⟩
  rw [hs]
  refine ⟨?_, hh.key, hh.has, hh.obj, hh.keys, hh.new, hh.tracks⟩
  rw [seenRow, hdb]
  exact hh.row

theorem fits_snoc {past : PyTrace} {r : AgentRuntime} (he : e ≠ othersRead rid) :
    Fits rid (past ++ [⟨e, a⟩]) r ↔ Fits rid past r := by
  unfold Fits
  simp only [heard_snoc he]

theorem Posted.work {past : PyTrace} (h : Posted w i past rid) (hc : RowCall rid e)
    (hv : ∀ o ∈ (w.sessions i).objs, o.cur.runtimeId = rid → View rid past o)
    (ho : ∃ o ∈ (w.sessions i).objs, o.cur.runtimeId = rid)
    (hp : e = othersRead rid → Published rid (w.sessions i, past)) (hs : w.step rem i e a w') :
    Posted w' i (past ++ [⟨e, a⟩]) rid := by
  obtain ⟨r, hr, hf, hh⟩ := h
  obtain ⟨sent, now, dirty, hh, hip⟩ := hh ho
  obtain ⟨hsent, hnow, hsame⟩ : View rid past ⟨sent, now, dirty⟩ := by
    obtain ⟨o, hm, hk⟩ := hh.has
    exact hh.obj o hm hk ▸ hv o hm hk
  obtain ⟨sent', now', dirty', hh', hmove⟩ := rowCall_holds hc hs hh
  by_cases he : e = othersRead rid
  · subst he
    obtain ⟨-, hcalm, hno, x, hx, haddr⟩ := hp rfl
    -- nothing under way touches the row, so it stands as it was sent
    have hrow : sent = r := by
      have hseen : (w.sessions i).txn.foldl (onRow rid) (w.db.runtime? rid) = some sent := hh.row
      rw [foldl_aside hcalm, hr] at hseen
      exact (Option.some.inj hseen).symm
    have hipx : ipOf sent = some (.str x) := by
      obtain ⟨o, hm, hk⟩ := hh.has
      have hl := haddr o hm hk
      rwa [hh.obj o hm hk] at hl
    have hidle : r.actualState ≠ .running :=
      fun hrun => (hf.1 hrun).elim fun rows hrows => hno rows hrows
    have hdb : w'.db = w.db := (step_db hs).resolve_right fun hc => by cases hc.1
    refine ⟨r, hdb ▸ hr, ⟨fun hrun => absurd hrun hidle,
      fun rows _ => ⟨x, hx, hrow ▸ hipx, fun hrun => absurd hrun hidle⟩⟩,
      fun _ => ⟨sent', now', dirty', hh', fun _ _ => ?_⟩⟩
    rw [hmove.resolve_right (fun hm => by cases hm.1), hrow]
  · by_cases hcom : e = .db .commit
    · subst hcom
      obtain ⟨-, hrow⟩ := holds_commit hs hh
      refine ⟨sent, hrow, (fits_snoc he).mpr hsent,
        fun _ => ⟨sent', now', dirty', hh', fun _ _ => ?_⟩⟩
      rw [hmove.resolve_right (fun hm => by cases hm.1)]
    · have hdb : w'.db = w.db := (step_db hs).resolve_right fun hc => hcom hc.1
      refine ⟨r, hdb ▸ hr, (fits_snoc he).mpr hf,
        fun _ => ⟨sent', now', dirty', hh', fun rows hrows => ?_⟩⟩
      have hrows' := (heard_snoc he).mp hrows
      rcases hmove with rfl | ⟨-, rfl⟩
      · exact hip rows hrows'
      · exact (hip rows hrows').trans (hsame rows hrows')

def Works (cfg : Settings) (req : ProvisionRequest) (actor : String) (s : Session × PyTrace)
    (e : Eff) : Prop :=
  Opening cfg req actor s e ∨ (∃ rid jid, AtWork rid jid s e) ∨ e = .db .close

theorem filing_unheard {b : Bool} {ks : List Uuid} {past : PyTrace} (h : Filing b ks past)
    (rows : List AgentRuntime) :
    ¬ Heard rid rows past := fun hr => h.calls _ hr

theorem submittedRow_absent (cfg : Settings) (req : ProvisionRequest) (rid : Uuid) (t t' : Time) :
    (submittedRow cfg req rid t t').actualState ≠ .running := by
  unfold submittedRow
  split
  · exact ActualState.noConfusion
  · exact ActualState.noConfusion

theorem create_works (cfg : Settings) (req : ProvisionRequest) (actor : String) :
    Sat (traced (sessionStep rem)) (Works cfg req actor) (fun _ _ => True) (fun _ _ => True)
      ((Request.create req actor).prog cfg) ({}, []) := by
  refine create_sat (fun _ _ h => .inl h) (fun _ => True) (fun _ => True) (fun _ _ => trivial)
    (fun rid jid t t' past hf => ?_) fun _ _ => ⟨.inr (.inr rfl), trivial⟩
  obtain ⟨hk, -⟩ := submittedRow_keys cfg req rid t t'
  have habsent := submittedRow_absent cfg req rid t t'
  generalize submittedRow cfg req rid t t' = row at hk habsent
  have hnone : ∀ {α : Type} {x : α}, x ∉ ([] : List α) := List.not_mem_nil
  have hobjs : ∀ o ∈ [(⟨row, row, false⟩ : Obj)], o.cur.runtimeId = rid ∧
      o.loaded.runtimeId = rid := by
    intro o ho
    rw [List.mem_singleton.mp ho]
    exact ⟨hk, hk⟩
  have hs : Stage rid jid none Idle (filed row (jobRunning (theJob req actor jid rid))
      (jobRunning (theJob req actor jid rid)), past) := by
    refine ⟨⟨fun o ho _ => ?_, fun o ho hn => absurd (hobjs o ho).1 hn, fun o ho => ?_,
      ⟨_, List.mem_singleton.mpr rfl, hk⟩,
      fun _ hx => absurd hx hnone, fun _ hx => absurd hx hnone⟩, hf.keys, hf.commits.mpr rfl, fun rows => ?_,
      fun _ => ⟨hobjs, fun _ _ _ hx => absurd hx hnone, fun _ _ _ hx => absurd hx hnone⟩⟩
    · rw [List.mem_singleton.mp ho]
      exact ⟨habsent, habsent⟩
    · rw [List.mem_singleton.mp ho]
    · exact ⟨fun hr => absurd hr (filing_unheard hf rows), fun h => by cases h⟩
  refine ((completeJob_stages cfg row hk hs).weaken fun _ _ h => .inr (.inl ⟨rid, jid, h⟩)).mono
    (fun _ _ _ => trivial) ?_
  intro s x hl
  exact ((failJob_stages row x hk hl).weaken fun _ _ h => .inr (.inl ⟨rid, jid, h⟩))

section Works

variable {cfg : Settings} {req : ProvisionRequest} {actor : String} {s : Session} {past : PyTrace}

theorem works_next (h : Works cfg req actor (s, past) e) (hk : keysOf past = [rid, jid])
    (hc : Committed past) :
    e = .db .close ∨ RowCall rid e ∧ (∀ o ∈ s.objs, o.cur.runtimeId = rid → View rid past o) ∧
      (∃ o ∈ s.objs, o.cur.runtimeId = rid) ∧ (e = othersRead rid → Published rid (s, past)) := by
  rcases h with h | ⟨rid', jid', h⟩ | rfl
  · -- the calls between the commit of the request and the steps of its job
    have hfiled : ∀ {jid' rid' : Uuid} {t t' : Time} {s' : Session}, Filing true [rid', jid'] past →
        s'.objs = [⟨submittedRow cfg req rid' t t', submittedRow cfg req rid' t t', false⟩] →
          RowCall rid' e →
          e ≠ othersRead rid' → RowCall rid e ∧
            (∀ o ∈ s'.objs, o.cur.runtimeId = rid → View rid past o) ∧
            (∃ o ∈ s'.objs, o.cur.runtimeId = rid) ∧
              (e = othersRead rid → Published rid (s', past)) := by
      intro jid' rid' t t' s' hf hobjs hcall hno
      have hpair : [rid', jid'] = [rid, jid] := hf.keys.symm.trans hk
      obtain rfl : rid' = rid := (List.cons.inj hpair).1
      have hrow : ∀ o ∈ s'.objs, o = ⟨submittedRow cfg req rid' t t',
          submittedRow cfg req rid' t t', false⟩ := by
        intro o ho
        rw [hobjs] at ho
        exact List.mem_singleton.mp ho
      have hmem : ⟨submittedRow cfg req rid' t t', submittedRow cfg req rid' t t', false⟩ ∈
          s'.objs := by
        rw [hobjs]
        exact List.mem_singleton.mpr rfl
      have habsent := submittedRow_absent cfg req rid' t t'
      have hunheard : ∀ rows, ¬ Heard rid' rows past := filing_unheard hf
      refine ⟨hcall, fun o ho _ => ?_, ⟨_, hmem, (submittedRow_keys cfg req rid' t t').1⟩,
        fun hx => absurd hx hno⟩
      rw [hrow o ho]
      exact ⟨⟨fun hr => absurd hr habsent, fun rows hr => absurd hr (hunheard rows)⟩,
        ⟨fun hr => absurd hr habsent, fun rows hr => absurd hr (hunheard rows)⟩, fun _ _ => rfl⟩
    have hopen : ∀ {ks : List Uuid}, ¬ Filing false ks past := fun hf => hf.unrecorded hc
    refine .inr ?_
    cases h with
    | find => cases hk
    | drawRow hf | now hf | addRow _ hf | sendRow _ hf | drawJob _ _ hf | addJob _ _ hf
    | addEvent _ _ hf | send _ _ hf
    | commit _ _ hf => exact absurd hf hopen
    | getJob t t' hf => exact hfiled hf rfl (.beside trivial) fun h => by cases h
    | take t t' hf => exact hfiled hf rfl (.beside trivial) fun h => by cases h
    | getRow t t' hf => exact hfiled hf rfl (.beside trivial) fun h => by cases h
    | sendJob t t' hf => exact hfiled hf rfl .flush fun h => by cases h
    | commitJob t t' hf => exact hfiled hf rfl .commit fun h => by cases h
  · have hpair : [rid', jid'] = [rid, jid] := h.keys.symm.trans hk
    obtain rfl : rid' = rid := (List.cons.inj hpair).1
    exact .inr ⟨rowCall_job h.call, h.desk.objs, h.desk.has, h.read⟩
  · exact .inl rfl

theorem works_aside (h : Works cfg req actor (s, past) (.db .commit)) :
    ∃ rid jid, keysOf past = [rid, jid] ∧ ∀ x ∈ s.txn, ∀ k, k ≠ rid → Aside k x := by
  rcases h with h | ⟨rid, jid, h⟩ | h
  · cases h with
    | @commit _ rid jid t t' hf =>
        refine ⟨rid, jid, hf.keys, fun x hx k hk => ?_⟩
        rcases List.mem_cons.mp hx with rfl | hx
        · exact fun hr => hk (hr.symm.trans (submittedRow_keys cfg req rid t t').1)
        · rcases List.mem_cons.mp hx with rfl | hx
          · trivial
          · rw [List.mem_singleton.mp hx]
            trivial
    | @commitJob _ rid jid t t' hf =>
        refine ⟨rid, jid, hf.keys, fun x hx k hk => ?_⟩
        rw [List.mem_singleton.mp hx]
        trivial
  · exact ⟨rid, jid, h.keys, h.desk.txn⟩
  · cases h

theorem works_draw (h : Works cfg req actor (s, past) (.sys .uuid4)) : ¬ Committed past := by
  rcases h with h | ⟨rid, jid, h⟩ | h
  · cases h with
    | drawRow hf => exact hf.unrecorded
    | drawJob _ _ hf => exact hf.unrecorded
  · exact absurd rfl (job_draws h.call)
  · cases h

theorem works_files (h : Works cfg req actor (s, past) (.db .commit)) (hc : ¬ Committed past) :
    ∃ rid jid t t', Filing false [rid, jid] past ∧
      s = { filed (submittedRow cfg req rid t t') (theJob req actor jid rid) (theJob req actor jid
        rid) with
        txn :=
          [.insertRuntime (submittedRow cfg req rid t t'), .insertJob (theJob req actor jid rid),
          .insertEvent (theEvent req actor rid)] } := by
  rcases h with h | ⟨rid, jid, h⟩ | h
  · cases h with
    | commit t t' hf => exact ⟨_, _, t, t', hf, rfl⟩
    | commitJob t t' hf => exact absurd (hf.commits.mpr rfl) hc
  · exact absurd h.filed hc
  · cases h

theorem commit_elsewhere (h : Works cfg req actor (w.sessions i, past) (.db .commit))
    {u : Ans (.db .commit)}
    (hs : w.step rem i (.db .commit) u w') :
    ∃ rid jid, keysOf past = [rid, jid] ∧ ∀ k, k ≠ rid → w'.db.runtime? k = w.db.runtime? k := by
  obtain ⟨rid, jid, hkeys, ha⟩ := works_aside h
  obtain ⟨-, t, hdb⟩ := step_commit hs
  refine ⟨rid, jid, hkeys, fun k hk => ?_⟩
  rw [hdb, applyAll_row, foldl_aside]
  exact fun x hx => ha x hx k hk

theorem posted_new (h : Works cfg req actor (w.sessions i, past) (.db .commit))
    (hc : ¬ Committed past)
    (hk : keysOf past = [rid, jid]) (hno : w.db.runtime? rid = none) {u : Ans (.db .commit)}
    (hs : w.step rem i (.db .commit) u w') : Posted w' i (past ++ [⟨.db .commit, u⟩]) rid := by
  obtain ⟨rid', jid', t, t', hf, hses⟩ := works_files h hc
  have hpair : [rid', jid'] = [rid, jid] := hf.keys.symm.trans hk
  obtain rfl : rid' = rid := (List.cons.inj hpair).1
  obtain ⟨hses', t'', hdb⟩ := step_commit hs
  rw [hses] at hses' hdb
  obtain ⟨hkey, -⟩ := submittedRow_keys cfg req rid' t t'
  have habsent := submittedRow_absent cfg req rid' t t'
  generalize submittedRow cfg req rid' t t' = row at *
  have hrow : w'.db.runtime? rid' = some row := by
    rw [hdb, applyAll_row, hno]
    simp [onRow, hkey]
  have hunheard : ∀ rows, ¬ Heard rid' rows (past ++ [⟨.db .commit, u⟩]) := fun rows hr =>
    filing_unheard hf rows ((heard_snoc fun h => by cases h).mp hr)
  refine ⟨row, hrow, ⟨fun hr => absurd hr habsent, fun rows hr => absurd hr (hunheard rows)⟩,
    fun _ =>
    ⟨row, row, false,
      ⟨?_, ⟨hkey, hkey⟩, ?_, fun o ho _ => ?_, fun o ho => ?_, fun x hx => ?_, merge_self row⟩, fun _ _ => rfl⟩⟩
  all_goals rw [hses'] at *
  · exact hrow
  · exact ⟨_, List.mem_singleton.mpr rfl, hkey⟩
  · exact List.mem_singleton.mp ho
  · rw [List.mem_singleton.mp ho]
  · cases hx

end Works

variable {cfg : Settings} {req : ProvisionRequest} {actor : String} {c d : Parties R}
  {used : List Uuid} {l : Nat}
  {x : String}

structure Keyed (used : List Uuid) (c : Parties R) : Prop where
  drawn : ∀ i, ∀ u ∈ keysOf (c.procs i).trace, u ∈ c.world.uuids ∧ u ∉ used
  spent : ∀ u ∈ used, u ∈ c.world.uuids
  apart : ∀ i k u, u ∈ keysOf (c.procs i).trace → u ∈ keysOf (c.procs k).trace → i = k

theorem Keyed.next (h : Keyed used c) (hs : Step (fun i => World.step rem i) c i ⟨e, a⟩ d) :
    Keyed used d := by
  have hkeep := fun u => step_uuids hs.world u
  by_cases hu : e = .sys .uuid4
  · subst hu
    obtain ⟨hnew, hw⟩ := hs.world
    have huu : d.world.uuids = a :: c.world.uuids := congrArg World.uuids hw
    have hkeys : ∀ k v, v ∈ keysOf (d.procs k).trace → v ∈ keysOf (c.procs k).trace ∨ k = i ∧
        v = a := by
      intro k v hv
      rcases traces hs k with ht | ⟨rfl, ht⟩
      · rw [ht] at hv
        exact .inl hv
      · rw [ht, keysOf, List.filterMap_append] at hv
        exact (List.mem_append.mp hv).imp_right fun hv =>
          ⟨rfl, (Option.some.inj (by simpa [drawnKey] using hv)).symm⟩
    refine ⟨fun k v hv => ?_, fun v hv => hkeep v (h.spent v hv), fun k m v hk hm => ?_⟩
    · rcases hkeys k v hv with hv | ⟨-, rfl⟩
      · exact ⟨hkeep v (h.drawn k v hv).1, (h.drawn k v hv).2⟩
      · refine ⟨?_, fun hv => hnew (h.spent _ hv)⟩
        rw [huu]
        exact List.mem_cons_self
    · rcases hkeys k v hk with hk | ⟨rfl, rfl⟩
      · rcases hkeys m v hm with hm | ⟨-, rfl⟩
        · exact h.apart k m v hk hm
        · exact absurd (h.drawn k _ hk).1 hnew
      · rcases hkeys m _ hm with hm | ⟨rfl, -⟩
        · exact absurd (h.drawn m _ hm).1 hnew
        · rfl
  · have hkeys := keys_same hs hu
    refine ⟨fun k v hv => ?_, fun v hv => hkeep v (h.spent v hv), fun k m v hk hm => ?_⟩
    · rw [hkeys k] at hv
      exact ⟨hkeep v (h.drawn k v hv).1, (h.drawn k v hv).2⟩
    · rw [hkeys] at hk hm
      exact h.apart k m v hk hm

def Owner (c : Parties R) (i : Nat) (rid : Uuid) : Prop :=
  ∃ jid, keysOf (c.procs i).trace = [rid, jid] ∧ Committed (c.procs i).trace

theorem Owner.unique (hi : Owner c i rid) (hl : Owner c l rid) (h : Keyed used c) : i = l := by
  obtain ⟨jid, hk, -⟩ := hi
  obtain ⟨jid', hk', -⟩ := hl
  exact h.apart i l rid (by simp [hk]) (by simp [hk'])

section Turn

variable (hs : Step (fun i => World.step rem i) c i ⟨e, a⟩ d)
  (hp : Works cfg req actor (c.world.sessions i, (c.procs i).trace) e)

include hs hp

theorem owner_after (h : Owner c l rid) : Owner d l rid := by
  obtain ⟨jid, hk, hc⟩ := h
  refine ⟨jid, ?_, committed_later hs hc⟩
  rcases traces hs l with ht | ⟨rfl, ht⟩
  · rw [ht, hk]
  · have hu : e ≠ .sys .uuid4 := by
      rintro rfl
      exact works_draw hp hc
    rw [ht, keysOf_snoc hu, hk]

theorem owner_before (h : Owner d l rid) :
    Owner c l rid ∨ l = i ∧ e = .db .commit ∧ ¬ Committed (c.procs i).trace ∧
      ∃ jid, keysOf (c.procs i).trace = [rid, jid] := by
  obtain ⟨jid, hk, hc⟩ := h
  rcases traces hs l with ht | ⟨rfl, ht⟩
  · rw [ht] at hk hc
    exact .inl ⟨jid, hk, hc⟩
  · rw [ht] at hk hc
    by_cases hcom : e = .db .commit
    · subst hcom
      rw [keysOf_snoc Eff.noConfusion] at hk
      by_cases hc' : Committed (c.procs l).trace
      · exact .inl ⟨jid, hk, hc'⟩
      · exact .inr ⟨rfl, rfl, hc', jid, hk⟩
    · have hc' := committed_before hcom hc
      have hu : e ≠ .sys .uuid4 := by
        rintro rfl
        exact works_draw hp hc'
      rw [keysOf_snoc hu] at hk
      exact .inl ⟨jid, hk, hc'⟩

theorem heard_before {rows : List AgentRuntime} (h : Heard rid rows (d.procs l).trace) :
    Heard rid rows (c.procs l).trace ∨ l = i ∧
      (⟨othersRead rid, rows⟩ : Event Eff Ans) = ⟨e, a⟩ := by
  rcases traces hs l with ht | ⟨rfl, ht⟩
  · rw [ht] at h
    exact .inl h
  · rw [ht] at h
    exact (List.mem_append.mp h).imp_right fun h => ⟨rfl, List.mem_singleton.mp h⟩

theorem told {rows : List AgentRuntime} (ho : Owner c i rid)
    (he : (⟨othersRead rid, rows⟩ : Event Eff Ans) = ⟨e, a⟩) :
    some x ∈ rows.map addressOf ↔ Taken c.world.db rid x := by
  cases he
  obtain ⟨jid, hkeys, hc⟩ := ho
  rcases works_next hp hkeys hc with hx | ⟨-, -, -, hpub⟩
  · cases hx
  · exact read_rows (hpub rfl).owns hs.world x

end Turn

theorem addressOf_ipOf {r r' : AgentRuntime} (h : ipOf r = ipOf r') :
    addressOf r = addressOf r' := by
  unfold addressOf
  rw [show Dict.get? r.ownershipMeta "ip" = _ from h]
  rfl

theorem addressOf_some {r : AgentRuntime} (hx : x ≠ "") (h : ipOf r = some (.str x)) :
    addressOf r = some x := by
  unfold addressOf
  rw [show Dict.get? r.ownershipMeta "ip" = _ from h]
  simp [Json.truthy, hx, Json.pyStr]

/-- Of two jobs with one address the later one has heard of the earlier one. -/
structure Raced (old : Db) (c : Parties R) : Prop where
  known : ∀ k, c.world.db.runtime? k = old.runtime? k ∨ ∃ i, Owner c i k
  rows : ∀ i rid, Owner c i rid → Posted c.world i (c.procs i).trace rid
  clash : ∀ i rid rows x k r, Owner c i rid → Heard rid rows (c.procs i).trace →
    (c.world.db.runtime? rid).bind ipOf = some (.str x) → k ≠ rid → c.world.db.runtime? k = some r →
    addressOf r = some x →
      some x ∈ rows.map addressOf ∨ ∃ l, Owner c l k ∧ ∀ rows', Heard k rows' (c.procs l).trace →
        some x ∈ rows'.map addressOf

section Raced

variable {old : Db} (h : Raced old c) (hk : Keyed used c)
  (hs : Step (fun i => World.step rem i) c i ⟨e, a⟩ d)
  (hp : Works cfg req actor (c.world.sessions i, (c.procs i).trace) e)

include hk hs hp

theorem row_same (ho : Owner c l rid) (hl : l ≠ i) :
    d.world.db.runtime? rid = c.world.db.runtime? rid := by
  rcases step_db hs.world with hdb | ⟨rfl, -⟩
  · rw [hdb]
  · obtain ⟨rid', jid', hkeys, hsame⟩ := commit_elsewhere hp hs.world
    refine hsame rid ?_
    rintro rfl
    obtain ⟨jid, hk', -⟩ := ho
    exact hl (hk.apart l i rid (by simp [hk']) (by simp [hkeys]))

include h

theorem address_kept {rows : List AgentRuntime} (ho : Owner c l rid)
    (hr : Heard rid rows (c.procs l).trace) :
    (d.world.db.runtime? rid).bind ipOf = (c.world.db.runtime? rid).bind ipOf := by
  by_cases hl : l = i
  · subst hl
    rcases step_db hs.world with hdb | ⟨rfl, -⟩
    · rw [hdb]
    · obtain ⟨jid, hkeys, hc⟩ := ho
      rcases works_next hp hkeys hc with hcl | ⟨-, -, hhas, -⟩
      · cases hcl
      · obtain ⟨r, hrow, -, hh⟩ := h.rows l rid ⟨jid, hkeys, hc⟩
        obtain ⟨sent, now, dirty, hh, hip⟩ := hh hhas
        obtain ⟨-, hsent⟩ := holds_commit hs.world hh
        rw [hrow, hsent]
        exact (hip rows hr).symm
  · rw [row_same hk hs hp ho hl]

theorem row_before {k : Uuid} {r : AgentRuntime} (hr : d.world.db.runtime? k = some r)
    (hx : addressOf r = some x) :
    (∃ r', c.world.db.runtime? k = some r' ∧ addressOf r' = some x) ∨
      ∃ l, Owner d l k ∧ ∀ rows, ¬ Heard k rows (d.procs l).trace := by
  rcases step_db hs.world with hdb | ⟨rfl, -⟩
  · exact .inl ⟨r, hdb ▸ hr, hx⟩
  obtain ⟨rid, jid, hkeys, hsame⟩ := commit_elsewhere hp hs.world
  by_cases hkr : k = rid
  · subst hkr
    by_cases hheard : ∃ rows, Heard k rows (c.procs i).trace
    · obtain ⟨rows, hheard⟩ := hheard
      by_cases hc : Committed (c.procs i).trace
      · have ho : Owner c i k := ⟨jid, hkeys, hc⟩
        have hip := address_kept h hk hs hp ho hheard
        obtain ⟨r', hr', -, -⟩ := h.rows i k ho
        rw [hr, hr'] at hip
        exact .inl ⟨r', hr', (addressOf_ipOf hip).symm.trans hx⟩
      · obtain ⟨rid', jid', t, t', hf, -⟩ := works_files hp hc
        exact absurd hheard fun hx => hf.calls _ hx
    · refine .inr ⟨i, ⟨jid, ?_, ?_⟩, fun rows hrows => ?_⟩
      · rw [hs.trace_self, keysOf_snoc Eff.noConfusion, hkeys]
      · rw [hs.trace_self]
        exact List.mem_append_right _ List.mem_cons_self
      · rw [hs.trace_self] at hrows
        exact hheard ⟨rows, (heard_snoc fun hx => by cases hx).mp hrows⟩
  · exact .inl ⟨r, (hsame k hkr) ▸ hr, hx⟩

omit hk in
theorem known_next (k : Uuid) : d.world.db.runtime? k = old.runtime? k ∨ ∃ i, Owner d i k := by
  have hbefore : c.world.db.runtime? k = old.runtime? k ∨ ∃ i, Owner d i k := by
    rcases h.known k with hold | ⟨l, ho⟩
    · exact .inl hold
    · exact .inr ⟨l, owner_after hs hp ho⟩
  rcases step_db hs.world with hdb | ⟨rfl, -⟩
  · rwa [hdb]
  · obtain ⟨rid, jid, hkeys, hsame⟩ := commit_elsewhere hp hs.world
    by_cases hkr : k = rid
    · subst hkr
      refine .inr ⟨i, jid, ?_, ?_⟩
      · rw [hs.trace_self, keysOf_snoc Eff.noConfusion, hkeys]
      · rw [hs.trace_self]
        exact List.mem_append_right _ List.mem_cons_self
    · rwa [hsame k hkr]

theorem rows_next (hold : ∀ k, old.runtime? k ≠ none → k ∈ used) (ho : Owner d l rid) :
    Posted d.world l (d.procs l).trace rid := by
  rcases owner_before hs hp ho with ho | ⟨rfl, rfl, hc, jid, hkeys⟩
  · by_cases hl : l = i
    · subst hl
      obtain ⟨jid, hkeys, hc⟩ := ho
      have hpost := h.rows l rid ⟨jid, hkeys, hc⟩
      rw [hs.trace_self]
      rcases works_next hp hkeys hc with rfl | ⟨hcall, hview, hhas, hpub⟩
      · obtain ⟨r, hr, hf, -⟩ := hpost
        have hdb : d.world.db = c.world.db := (step_db hs.world).resolve_right fun hx => by
          cases hx.1
        have hclosed : (d.world.sessions l).objs = [] := by
          rw [show d.world = _ from hs.world, setSession_self]
        refine ⟨r, hdb ▸ hr, (fits_snoc fun hx => by cases hx).mpr hf, fun ⟨o, hm, _⟩ => ?_⟩
        rw [hclosed] at hm
        cases hm
      · exact hpost.work hcall hview hhas hpub hs.world
    · have hsame : (d.procs l).trace = (c.procs l).trace := by rw [hs.proc_other hl]
      rw [hsame]
      exact (h.rows l rid ho).other (row_same hk hs hp ho hl) (step_other hs.world hl)
  · rw [hs.trace_self]
    refine posted_new hp hc hkeys ?_ hs.world
    rcases h.known rid with hrow | ⟨l', ho'⟩
    · by_contra hne
      exact (hk.drawn l rid (by simp [hkeys])).2 (hold rid (hrow ▸ hne))
    · obtain ⟨jid', hkeys', hc'⟩ := ho'
      obtain rfl := hk.apart l' l rid (by simp [hkeys']) (by simp [hkeys])
      exact absurd hc' hc

theorem clash_next {rows : List AgentRuntime} {k : Uuid} {r : AgentRuntime} (ho : Owner d l rid)
    (hr : Heard rid rows (d.procs l).trace) (hip :
    (d.world.db.runtime? rid).bind ipOf = some (.str x)) (hne : k ≠ rid)
    (hrow : d.world.db.runtime? k = some r) (hx : addressOf r = some x) :
    some x ∈ rows.map addressOf ∨
      ∃ l, Owner d l k ∧ ∀ rows', Heard k rows' (d.procs l).trace →
        some x ∈ rows'.map addressOf := by
  obtain ⟨r', hrow', hx'⟩ | ⟨l', ho', hun⟩ := row_before h hk hs hp hrow hx
  swap
  · exact .inr ⟨l', ho', fun rows' hr' => absurd hr' (hun rows')⟩
  -- the job was on record when it asked
  have hc : Owner c l rid := by
    rcases owner_before hs hp ho with ho | ⟨rfl, rfl, hc, -⟩
    · exact ho
    · obtain ⟨rid', jid', t, t', hf, -⟩ := works_files hp hc
      rw [hs.trace_self] at hr
      exact absurd ((heard_snoc fun hx => by cases hx).mp hr) (filing_unheard hf rows)
  rcases heard_before hs hp hr with hr | ⟨rfl, he⟩
  · rw [address_kept h hk hs hp hc hr] at hip
    refine (h.clash l rid rows x k r' hc hr hip hne hrow' hx').imp_right ?_
    rintro ⟨l', ho', htold⟩
    refine ⟨l', owner_after hs hp ho', fun rows' hr' => ?_⟩
    rcases heard_before hs hp hr' with hr' | ⟨rfl, he⟩
    · exact htold rows' hr'
    · -- the other job asks now, and this one's address is there for it
      refine (told hs hp ho' he).mpr ?_
      obtain ⟨r₀, hr₀, hf, -⟩ := h.rows l rid hc
      rw [hr₀] at hip
      obtain ⟨y, hy, hy', -⟩ := hf.2 rows hr
      obtain rfl : y = x := by
        have hxy := hy'.symm.trans hip
        injection hxy with hxy
        injection hxy
      exact ⟨rid, r₀, hne.symm, hr₀, addressOf_some hy hip⟩
  · exact .inl ((told hs hp hc he).mpr ⟨k, r', hne, hrow', hx'⟩)

theorem Raced.next (hold : ∀ k, old.runtime? k ≠ none → k ∈ used) : Raced old d :=
  ⟨known_next h hs hp, fun _ _ => rows_next h hk hs hp hold,
    fun _ _ _ _ _ _ => clash_next h hk hs hp⟩

end Raced

structure Unbegun (w : World R) : Prop where
  sessions : ∀ i, w.sessions i = {}
  used : ∀ k, w.db.runtime? k ≠ none → k ∈ w.uuids

section Reached

variable {reqs : Nat → ProvisionRequest × String}

def Promises (cfg : Settings) (reqs : Nat → ProvisionRequest × String) (i : Nat) :
    Session × PyTrace → Eff → Prop :=
  Works cfg (reqs i).1 (reqs i).2

/-- The invariant, and what has become of the jobs of an earlier configuration. -/
def Since (old : Db) (used : List Uuid) (c d : Parties R) : Prop :=
  Keyed used d ∧ Raced old d ∧ ∀ i rid rows, Owner c i rid → Heard rid rows (c.procs i).trace →
    Owner d i rid ∧ Heard rid rows (d.procs i).trace ∧
      (d.world.db.runtime? rid).bind ipOf = (c.world.db.runtime? rid).bind ipOf

theorem since_next {old : Db} {b : Parties R} (h : Since old used b c)
    (hold : ∀ k, old.runtime? k ≠ none → k ∈ used)
    (hs : Step (fun i => World.step rem i) c i ⟨e, a⟩ d)
    (hp : Works cfg req actor (c.world.sessions i, (c.procs i).trace) e) : Since old used b d := by
  obtain ⟨hk, hr, hsince⟩ := h
  refine ⟨hk.next hs, hr.next hk hs hp hold, fun j rid rows ho hheard => ?_⟩
  obtain ⟨ho', hheard', hip⟩ := hsince j rid rows ho hheard
  refine ⟨owner_after hs hp ho', ?_, (address_kept hr hk hs hp ho' hheard').trans hip⟩
  rcases traces hs j with ht | ⟨rfl, ht⟩
  · rwa [ht]
  · rw [ht]
    exact List.mem_append_left _ hheard'

theorem since_reach {b : Parties R} {w : World R} (hw : Unbegun w)
    (h : Lawful (fun i (w : World R) => w.sessions i) (sessionStep rem) (Promises cfg reqs)
    (Since w.db w.uuids b) c)
    (hr : Reach (fun i => World.step rem i) (fun _ _ _ => True) c d) :
    Lawful (fun i (w : World R) => w.sessions i) (sessionStep rem) (Promises cfg reqs)
      (Since w.db w.uuids b) d := by
  refine Lawful.reach ?_ h hr
  intro c d i e a hc hp _ hs
  exact ⟨since_next hc hw.used hs hp, sessionStep_step hs.world, fun _ hj => step_other hs.world hj⟩

theorem since_start {w : World R} (hw : Unbegun w) :
    Lawful (fun i (w : World R) => w.sessions i) (sessionStep rem) (Promises cfg reqs)
      (Since w.db w.uuids (Interleaving.start w (creates cfg reqs)))
        (Interleaving.start w (creates cfg reqs)) := by
  have hnone : ∀ {α : Type} {x : α}, x ∉ ([] : List α) := List.not_mem_nil
  have hunowned : ∀ i rid, ¬ Owner (Interleaving.start w (creates cfg reqs)) i rid :=
    fun i rid h => h.elim fun _ h => hnone h.2
  refine ⟨⟨⟨fun i u hu => absurd hu hnone, fun u hu => hu, fun i k u hu => absurd hu hnone⟩,
    ⟨fun k => .inl rfl, fun i rid ho => absurd ho (hunowned i rid),
      fun i rid _ _ _ _ ho => absurd ho (hunowned i rid)⟩,
    fun i rid _ ho => absurd ho (hunowned i rid)⟩, fun i => ?_⟩
  have hsat : Sat (traced (sessionStep rem)) (Promises cfg reqs i) (fun _ _ => True)
      (fun _ _ => True)
      (creates cfg reqs i) ({}, []) := create_works cfg (reqs i).1 (reqs i).2
  rw [← hw.sessions i] at hsat
  exact hsat

/-- The runtime has been brought to RUNNING, with this address. -/
def Ran (db : Db) (k : Uuid) (ip : Option Json) : Prop :=
  ∃ r, db.runtime? k = some r ∧ r.actualState = .running ∧ ipOf r = ip

theorem ran_heard {old : Db} {ip : Option Json} (h : Raced old c) (ho : Owner c i rid)
    (hr : Ran c.world.db rid ip) :
    ∃ rows x, Heard rid rows (c.procs i).trace ∧ x ≠ "" ∧ ip = some (.str x) ∧
      some x ∉ rows.map addressOf := by
  obtain ⟨r, hrow, hrun, rfl⟩ := hr
  obtain ⟨r', hrow', hf, -⟩ := h.rows i rid ho
  obtain rfl := Option.some.inj (hrow.symm.trans hrow')
  obtain ⟨rows, hrows⟩ := hf.1 hrun
  obtain ⟨x, hx, hip, hno⟩ := hf.2 rows hrows
  exact ⟨rows, x, hrows, hx, hip, hno hrun⟩

/-- Two runtimes have not both been brought to RUNNING with one address, unless both are older than
the requests. -/
def NeverBoth (old now later : Db) : Prop :=
  ∀ k k' ip, k ≠ k' → (old.runtime? k = none ∨ old.runtime? k' = none) → Ran now k ip →
    ¬ Ran later k' ip

/-- In every interleaving of create requests, whatever addresses the guests report. -/
theorem never_both (cfg : Settings) (reqs : Nat → ProvisionRequest × String) {w : World R}
    (hw : Unbegun w)
    (hc : Reach (fun i => World.step rem i) (fun _ _ _ => True)
    (Interleaving.start w (creates cfg reqs)) c)
    (hd : Reach (fun i => World.step rem i) (fun _ _ _ => True) c d) :
    NeverBoth w.db c.world.db d.world.db := by
  have hlaw := since_reach hw (since_start hw) hc
  obtain ⟨hk, hr, -⟩ := hlaw.inv
  obtain ⟨hk', hr', hsince⟩ :=
    (since_reach hw ⟨⟨hk, hr, fun _ _ _ ho hh => ⟨ho, hh, rfl⟩⟩, hlaw.progs⟩ hd).inv
  intro k k' ip hne hnew hran hran'
  have hunowned : ∀ l u, w.db.runtime? u ≠ none → ¬ Owner d l u := by
    rintro l u hu ⟨jid, hkeys, -⟩
    exact (hk'.drawn l u (by simp [hkeys])).2 (hw.used u hu)
  rcases hr.known k with hold | ⟨i, ho⟩
  · -- the first runtime is older than the requests, so the second one is not
    obtain ⟨r, hrow, -, hip⟩ := hran
    rw [hold] at hrow
    have hk₀ : w.db.runtime? k ≠ none := by
      rw [hrow]
      exact Option.some_ne_none r
    have hk₁ : w.db.runtime? k' = none := hnew.resolve_left hk₀
    obtain ⟨r', hrow', -, hip'⟩ := id hran'
    obtain ⟨l, ho'⟩ : ∃ l, Owner d l k' := by
      refine (hr'.known k').resolve_left fun hsame => ?_
      rw [hrow', hk₁] at hsame
      cases hsame
    obtain ⟨rows, x, hheard, hx, rfl, hno⟩ := ran_heard hr' ho' hran'
    have hrow'' : d.world.db.runtime? k = some r := by
      rcases hr'.known k with hsame | ⟨l', ho''⟩
      · rw [hsame, hrow]
      · exact absurd ho'' (hunowned l' k hk₀)
    have hip₁ : (d.world.db.runtime? k').bind ipOf = some (.str x) := by
      rw [hrow']
      exact hip'
    rcases hr'.clash l k' rows x k r ho' hheard hip₁ hne hrow'' (addressOf_some hx hip) with hin | ⟨l', ho'', -⟩
    · exact hno hin
    · exact hunowned l' k hk₀ ho''
  · obtain ⟨rows, x, hheard, hx, rfl, hno⟩ := ran_heard hr ho hran
    obtain ⟨r, hrow, -, hip⟩ := hran
    obtain ⟨ho₁, hheard₁, hkept⟩ := hsince i k rows ho hheard
    obtain ⟨r', hrow', -, hip'⟩ := id hran'
    have hip₁ : (d.world.db.runtime? k).bind ipOf = some (.str x) := by
      rw [hkept, hrow]
      exact hip
    rcases hr'.clash i k rows x k' r' ho₁ hheard₁ hip₁ hne.symm hrow' (addressOf_some hx hip') with hin | ⟨l, ho', htold⟩
    · exact hno hin
    · -- both were created by the requests, and the second one had heard of the first
      obtain ⟨rows', x', hheard', hx', hxx, hno'⟩ := ran_heard hr' ho' hran'
      obtain rfl : x = x' := by
        injection hxx with hxx
        injection hxx
      exact hno' (htold rows' hheard')

end Reached

def secondRequest : ProvisionRequest :=
  { workerRequest with requestId := "req-2", name := "worker-2" }

def crew : List Request := [.create workerRequest "acms", .create secondRequest "acms"]

def reports (i : Nat) (m : Machine Unit) (e : Eff) : Option (Ans e × Machine Unit) :=
  Machine.answer oneNode i m e

theorem reports_step (i : Nat) (m : Machine Unit) (e : Eff) (a : Ans e) (m' : Machine Unit)
    (h : reports i m e = some (a, m')) : World.step Remote.any i (m.world (fun _ => ())) e a
    (m'.world (fun _ => ())) :=
  Machine.answer_step oneNode.follows_any i m e a m' h

def firstDone : Played Unit := (opening {} {} () crew).play reports (List.replicate 143 0)

def bothDone : Played Unit := firstDone.play reports (List.replicate 105 1)

def stands (b : Played Unit) (k : Uuid) (st : ActualState) : Bool :=
  (b.state.db.runtime? k).any fun r => r.actualState == st && (ipOf r).any (·.isStr "10.0.20.31")

theorem crew_run :
    ((opening {} {} () crew).follows reports (fun _ _ => true) (List.replicate 143 0) &&
      firstDone.follows reports (fun _ _ => true) (List.replicate 105 1) &&
        stands firstDone ⟨1#128⟩ .running &&
      stands bothDone ⟨3#128⟩ .error) = true := by
  decide +kernel

theorem stands_row {b : Played Unit} {k : Uuid} {st : ActualState} (h : stands b k st = true) :
    ∃ r, b.state.db.runtime? k = some r ∧ r.actualState = st ∧
      ipOf r = some (.str "10.0.20.31") := by
  obtain ⟨r, hr, hx⟩ := (Option.any_eq_true _ _).mp h
  obtain ⟨hst, hip⟩ := Bool.and_eq_true_iff.mp hx
  obtain ⟨x, hx, hs⟩ := (Option.any_eq_true _ _).mp hip
  refine ⟨r, hr, beq_iff_eq.mp hst, ?_⟩
  rw [hx, Json.isStr_iff.mp hs]

/-- The second worker reports the address of the first one, which is RUNNING. -/
theorem second_refused :
    Ran firstDone.state.db ⟨1#128⟩ (some (.str "10.0.20.31")) ∧
      (bothDone.state.db.runtime? ⟨3#128⟩).bind ipOf = some (.str "10.0.20.31") ∧
      ¬ Ran bothDone.state.db ⟨3#128⟩ (some (.str "10.0.20.31")) := by
  have hrun := crew_run
  simp only [Bool.and_eq_true] at hrun
  obtain ⟨⟨⟨hf, hg⟩, hfirst⟩, hsecond⟩ := hrun
  obtain ⟨r, hr, hst, hip⟩ := stands_row hfirst
  obtain ⟨r', hr', -, hip'⟩ := stands_row hsecond
  have hran : Ran firstDone.state.db ⟨1#128⟩ (some (.str "10.0.20.31")) := ⟨r, hr, hst, hip⟩
  have hreach :=
    Board.follows_reach (P := fun _ _ _ => True) ⟨(Request.create workerRequest "acms").prog {}, []⟩
    reports_step (fun _ _ _ _ => trivial) hf
  have hreach' :=
    Board.follows_reach (P := fun _ _ _ => True) ⟨(Request.create workerRequest "acms").prog {}, []⟩
    reports_step (fun _ _ _ _ => trivial) hg
  have hshown := shown_opening {} (fun _ => ()) {} () crew (.create workerRequest "acms")
  have hall : (fun i => (cast crew (.create workerRequest "acms") i).prog {}) =
      creates {} fun i => if i = 1 then (secondRequest, "acms") else (workerRequest, "acms") := by
    funext i
    cases i with
    | zero => rfl
    | succ i => cases i <;> rfl
  rw [shown, hall] at hshown
  rw [hshown] at hreach
  refine ⟨hran, by rw [hr']; exact hip', ?_⟩
  refine never_both {} _ ⟨opening_sessions {} (fun _ => ()) {} () _, fun k hk => absurd rfl hk⟩
    hreach hreach'
    ⟨1#128⟩ ⟨3#128⟩ _ (by decide) (.inl rfl) hran

end ServerManager.AddressRace
