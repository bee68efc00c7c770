import ServerManager.AgentLedger

namespace ServerManager.AgentRuns

open Interaction Interleaving AgentManager AgentJobs AgentLedger PyJson

variable {R : Type} {α : Type}

def viewOf : Task → View
  | .create .. => .fresh
  | .thread => .idle
  | _ => .other

def names : PveCall → Int → Prop
  | .config _ x, v | .setConfig _ x _, v | .interfaces _ x, v | .current _ x, v | .exec _ x _, v
  | .execStatus _ x _, v
  | .clone _ _ x _, v => v = x
  | .start _ x, v | .stop _ x, v => some v = x
  | _, _ => False

/-- The calls of the requests that make no job; `V` are the VMs that they are
about, and `D` the addresses and tokens of the agents. -/
def plain (V : Int → Prop) (D : String → String → Prop) : Eff → Prop
  | .write s => harmless s
  | .spawn .. => False
  | .begin => False
  | .pve c => ∀ v, names c v → V v
  | .postSession ip token _ | .postMessage ip token _ _ => D ip token
  | _ => True

theorem other_moves {e : Eff} {ans : Ans e} {v : View} (h : View.moves .other e ans v) :
    v = .other := by
  cases e with
  | connect | read | write | commit | close | spawn | begin | uuid | clock | token | sleep | secret
  | pve | keyGenerate | health
  | postSession | postMessage => exact h

theorem other_may {V : Int → Prop} {D : String → String → Prop} {e : Eff} (h : plain V D e) :
    View.may .other e := by
  cases e with
  | write s => exact h
  | spawn | begin => exact h.elim
  | connect | read | commit | close | uuid | clock | token | sleep | secret | pve | keyGenerate
  | health | postSession
  | postMessage => trivial

abbrev Follows (v : View) (p : Am α) : Prop :=
  Sat View.moves View.may (fun _ _ => True) (fun _ _ => True) p v

theorem plain_follows {α : Type} {V : Int → Prop} {D : String → String → Prop} {p : Am α}
    (h : Only (plain V D) p) : Follows .other p := by
  have hk :=
    Only.keeps (T := View.moves) (I := fun v => v = .other) h
      (fun s e a s' _ hs hm => other_moves (hs ▸ hm)) rfl
  exact (hk.weaken fun _ _ he => he.2 ▸ other_may he.1).mono (fun _ _ _ => trivial) fun _ _ _ =>
    trivial

section Plain

variable {V : Int → Prop} {D : String → String → Prop}

theorem plain_orRaise {α : Type} (x : Except Effects.PyExc α) : Only (plain V D) (orRaise x) := by
  cases x with
  | ok a => exact only_pure a
  | error x => exact only_throw x

theorem plain_connect : Only (plain V D) connect :=
  only_call (show plain V D Eff.connect from trivial) fun x => plain_orRaise x

theorem plain_read (q : Query) : Only (plain V D) (AgentManager.read q) :=
  only_call (show plain V D (Eff.read q) from trivial) fun x => plain_orRaise x

theorem plain_write {s : Write} (h : harmless s) : Only (plain V D) (AgentManager.write s) :=
  only_call (show plain V D (Eff.write s) from h) fun x => plain_orRaise x

theorem plain_commit : Only (plain V D) AgentManager.commit :=
  only_call (show plain V D Eff.commit from trivial) fun x => plain_orRaise x

theorem plain_close : Only (plain V D) close :=
  only_call (show plain V D Eff.close from trivial) fun _ => only_pure _

theorem plain_uuid4 : Only (plain V D) uuid4 :=
  only_call (show plain V D Eff.uuid from trivial) fun _ => only_pure _

theorem plain_raised {α : Type} (cls : Effects.ExcClass) (msg : String) :
    Only (plain V D) (raised cls msg : Am α) := only_throw _

theorem plain_attempt {α : Type} {p : Am α} (h : Only (plain V D) p) :
    Only (plain V D) (attempt p) :=
  Only.tryCatch (h.bind fun _ => only_pure _) fun _ => only_pure _

theorem plain_pve {c : PveCall} (h : ∀ v, names c v → V v) : Only (plain V D) (pve c) :=
  only_call (show plain V D (Eff.pve c) from h) fun a => by
    cases a with
    | ok x => exact only_pure x
    | unauthorized x =>
        refine only_call (show plain V D (Eff.pve c) from h) fun a => ?_
        cases a with
        | ok x => exact only_pure x
        | unauthorized x | raised x => exact only_throw x
    | raised x => exact only_throw x

theorem plain_status {α : Type} (a : α) : Only (plain V D) (do
    AgentManager.commit
    close
    pure a : Am α) := plain_commit.bind fun _ => plain_close.bind fun _ => only_pure _

variable (textColumn : Json → Option (Option String)) (idOf : Json → Option Nat)

theorem plain_column (x : Json) : Only (plain V D) (column textColumn x) := by
  rw [column]
  split
  · exact only_pure _
  · exact plain_raised _ _

theorem plain_chatSession (user : String) (agentId : Nat) (sessionId : Json) :
    Only (plain V D) (chatSession idOf user agentId sessionId) := by
  refine Only.ite (plain_uuid4.bind fun sid => ?_) (plain_uuid4.bind fun sid => ?_)
  · split
    · exact plain_raised _ _
    · exact (plain_read _).bind fun _ => only_pure _
  · exact (plain_write (show harmless (.insertSession _) from trivial)).bind fun _ => only_pure _

theorem plain_keepRemote (sid : Nat) (remote : Json) :
    Only (plain V D) (keepRemote textColumn sid remote) := by
  refine Only.tryCatch (plain_connect.bind fun _ => (plain_column textColumn remote).bind fun t =>
    ?_) fun _ => only_pure _
  exact (plain_write (show harmless (.setRemote _ _) from trivial)).bind fun _ =>
    plain_commit.bind fun _ => plain_close

theorem plain_askAgent (sid : Nat) {ip token : String} (name message : String)
    (remote : Option String) (h : D ip token) :
    Only (plain V D) (askAgent textColumn sid ip token name message remote) := by
  have hremote : Only (plain V D) (remoteSession textColumn sid ip token name remote) := by
    refine Only.ite ?_ (only_pure _)
    have hpost : Only (plain V D) (Prog.call (.postSession ip token name) orRaise : Am Json) :=
      only_call (show plain V D (Eff.postSession ip token name) from h) fun x => plain_orRaise x
    exact hpost.bind fun _ => (plain_orRaise _).bind fun _ =>
      (plain_keepRemote textColumn sid _).bind fun _ => only_pure _
  refine hremote.bind fun remote => ?_
  have hpost : Only (plain V D) (Prog.call (.postMessage ip token remote message) orRaise :
      Am Json) :=
    only_call (show plain V D (Eff.postMessage ip token remote message) from h) fun x =>
      plain_orRaise x
  exact hpost.bind fun _ => plain_orRaise _

theorem plain_storeReply (sid : Nat) (reply : Json) :
    Only (plain V D) (storeReply textColumn sid reply) := by
  refine plain_connect.bind fun _ => (plain_column textColumn reply).bind fun t => ?_
  cases t with
  | none => exact plain_raised _ _
  | some content =>
      exact (plain_write (show harmless (.insertMessage _) from trivial)).bind fun _ =>
        plain_commit.bind fun _ => plain_close

theorem plain_chatWith (user message : String) (agentId : Nat) (sessionId : Json) (name : String)
    {ip token : String} (h : D ip token) :
    Only (plain V D) (chatWith textColumn idOf user message agentId sessionId name ip token) := by
  refine (plain_chatSession idOf user agentId _).bind fun sid => (plain_read _).bind fun remote =>
    ?_
  refine (plain_write (show harmless (.insertMessage _) from trivial)).bind fun _ =>
    plain_commit.bind fun _ => ?_
  refine plain_close.bind fun _ => (plain_attempt
    (plain_askAgent textColumn sid name message _ h)).bind fun reply => ?_
  cases reply with
  | error x => exact only_pure _
  | ok reply => exact (plain_storeReply textColumn sid reply).bind fun _ => only_pure _

theorem plain_agentChat (user : Option String) (agentId : Nat) (body : Dict) :
    Only (plain V fun _ _ => True) (agentChat textColumn idOf user agentId body) := by
  cases user with
  | none => exact only_pure _
  | some user =>
      rw [agentChat]
      split
      · refine Only.ite (only_pure _) (plain_connect.bind fun _ => (plain_read _).bind fun row =>
          ?_)
        cases row with
        | none => exact plain_close.bind fun _ => only_pure _
        | some a =>
            exact Only.ite (plain_close.bind fun _ => only_pure _)
              (plain_chatWith textColumn idOf user _ agentId _ a.name trivial)
      · exact plain_raised _ _

theorem plain_vmGone (node : Option String) {vmid : Option Int} (h : ∀ v, vmid = some v → V v) :
    Only (plain V D) (vmGone node vmid) := by
  cases vmid with
  | none => exact only_pure _
  | some vmid =>
      cases node with
      | none => exact only_pure _
      | some node =>
          refine Only.ite (only_pure _) ?_
          have hcurrent : Only (plain V D) (pve (.current node vmid)) :=
            plain_pve fun v hv => h v (congrArg some hv.symm)
          have hstop : Only (plain V D) (pve (.stop (some node) (some vmid))) :=
            plain_pve fun v hv => h v hv.symm
          refine (plain_attempt (hcurrent.bind fun r => (plain_orRaise _).bind fun data => ?_)).bind
            fun r => ?_
          · exact Only.ite ((plain_attempt hstop).bind fun _ => only_pure _) (only_pure _)
          · cases r with
            | ok gone => exact only_pure _
            | error x => exact only_pure _

theorem plain_deleteAgent (user : Option String) (role : String) (agentId : Nat) :
    Only (plain (fun _ => True) D) (deleteAgent user role agentId) := by
  cases user with
  | none => exact only_pure _
  | some user =>
      refine Only.ite (only_pure _) (plain_connect.bind fun _ => (plain_read _).bind fun row => ?_)
      cases row with
      | none => exact plain_close.bind fun _ => only_pure _
      | some a =>
          refine (plain_vmGone a.node fun _ _ => trivial).bind fun gone => ?_
          exact (plain_write (show harmless (.deleteAgent _) from trivial)).bind fun _ =>
            plain_status _

theorem plain_agentPower (call : Option String → Option Int → PveCall) (state : String)
    (user : Option String) (agentId : Nat) :
    Only (plain (fun _ => True) D) (agentPower call state user agentId) := by
  cases user with
  | none => exact only_pure _
  | some user =>
      refine plain_connect.bind fun _ => (plain_read _).bind fun row => plain_close.bind fun _ => ?_
      cases row with
      | none => exact only_pure _
      | some a =>
          refine (plain_pve fun _ _ => trivial).bind fun _ => plain_connect.bind fun _ => ?_
          exact (plain_write (show harmless (.agentState _ _) from trivial)).bind fun _ =>
            plain_status _

theorem plain_forM {α : Type} {f : α → Am PUnit} (xs : List α)
    (h : ∀ x ∈ xs, Only (plain V D) (f x)) : Only (plain V D) (xs.forM f) := by
  induction xs with
  | nil => exact only_pure _
  | cons x xs ih =>
      exact (h x List.mem_cons_self).bind fun _ => ih fun y hy => h y (List.mem_cons_of_mem _ hy)

theorem plain_listAgents (user : Option String) (role : String) :
    Only (plain V D) (listAgents user role) := by
  cases user with
  | none => exact only_pure _
  | some user =>
      refine plain_connect.bind fun _ => (plain_read _).bind fun rows => plain_close.bind fun _ =>
        ?_
      refine (Only.tryCatch ?_ fun _ => only_pure _).bind fun _ => only_pure _
      refine (plain_pve (c := .resources) nofun).bind fun r => (plain_orRaise _).bind fun data => ?_
      split
      · exact plain_raised _ _
      · refine (plain_orRaise _).bind fun vms =>
          Only.ite (only_pure _) (plain_connect.bind fun _ => ?_)
        refine (plain_forM _ fun aid _ => plain_write
          (show harmless (.agentState _ _) from trivial)).bind fun _ => ?_
        refine plain_commit.bind fun _ => plain_close.bind fun _ => plain_connect.bind fun _ => ?_
        exact (plain_read _).bind fun _ => plain_close.bind fun _ => only_pure _

theorem plain_jobStatus (user : Option String) (jobId : Nat) :
    Only (plain V D) (AgentManager.jobStatus user jobId) := by
  cases user with
  | none => exact only_pure _
  | some user =>
      refine plain_connect.bind fun _ => (plain_read _).bind fun row => ?_
      cases row with
      | none => exact plain_close.bind fun _ => only_pure _
      | some row => exact (plain_read _).bind fun _ => plain_close.bind fun _ => only_pure _

end Plain

theorem goes_follows {p : Am α} {r : Run} {Q : Run → α → Prop} {X : Run → Prop} (h : Goes r p Q X) :
    Follows (.run r) p := by
  induction p generalizing r with
  | ret a => trivial
  | raise x => trivial
  | call e k ih =>
      refine ⟨h.1, fun ans v hm => ?_⟩
      obtain ⟨r', hr, rfl⟩ := hm
      exact ih ans (h.2 ans r' hr)

theorem follows_thread : Follows .idle thread := by
  refine ⟨trivial, fun t v hm => ?_⟩
  obtain rfl : v = .run (.fresh t.1 t.2.1) := hm
  have hjob := goes_provisionJob t.1 t.2.1 t.2.2
  exact goes_follows (Q := fun _ _ => True) (Sat.seq hjob fun _ _ _ => trivial)

/-- The calls of `create_agent` between the opening of its connection and the end. -/
def making (a j : Nat) : Eff → Prop
  | .read q => ∀ agentId, q ≠ .agentRow agentId
  | .write s => makes a j s
  | .commit => True
  | .clock => True
  | _ => False

theorem making_follows {a j : Nat} {p : Am α} (h : Only (making a j) p) :
    Sat View.moves View.may (fun v _ => v = .maker a j true) (fun v _ => v = .maker a j true) p
      (.maker a j true) := by
  have hmay : ∀ e, making a j e → View.may (.maker a j true) e := by
    intro e he
    cases e with
    | write s => exact he
    | commit => rfl
    | clock => trivial
    | read q =>
        cases q with
        | agentRow agentId => exact he agentId rfl
        | jobExists | agentName | nameTaken | sessionOf | remoteOf | listed | jobRow | stepRows =>
            trivial
    | connect | close | uuid | token | sleep | secret | spawn | begin | pve | keyGenerate | health
    | postSession | postMessage =>
        exact he.elim
  have hmoves : ∀ e (ans : Ans e) v, making a j e → View.moves (.maker a j true) e ans v →
      v = .maker a j true := by
    intro e ans v he hm
    cases e with
    | read | write | commit | clock => exact hm
    | connect | close | uuid | token | sleep | secret | spawn | begin | pve | keyGenerate | health
    | postSession | postMessage =>
        exact he.elim
  have hk := Only.keeps (T := View.moves) (I := fun v => v = .maker a j true) h
    (fun s e ans s' he hs hm => hmoves e ans s' he (hs ▸ hm)) rfl
  exact hk.weaken fun s e he => he.2 ▸ hmay e he.1

theorem only_making {a j : Nat} {s : Write} (h : makes a j s) :
    Only (making a j) (AgentManager.write s) :=
  only_call (show making a j (.write s) from h) fun x => by
    cases x with
    | ok u => exact only_pure u
    | error x => exact only_throw x

theorem making_insertAll {textColumn : Json → Option (Option String)} {a j : Nat}
    {w : AgentVisibility.World} {user name harness : String}
    {body : Dict} {now : Int} {row : AgentVisibility.Agent} (hw : w.nextId = a)
    (h : AgentVisibility.newAgent textColumn w user name harness body now = some row) :
    Only (making a j) (insertAll a j ⟨row, none⟩ user) := by
  have hrow : row.agentId = a ∧ row.vmid = none ∧ row.node = none ∧ row.agentIp = none := by
    simp only [AgentVisibility.newAgent, Option.bind_eq_bind, Option.bind_eq_some_iff] at h
    obtain ⟨_, _, _, _, _, _, _, _, _, _, h⟩ := h
    split at h
    · obtain rfl := Option.some.inj h
      exact ⟨hw, rfl, rfl, rfl⟩
    · cases h
  have hagent : makes a j (.insertAgent ⟨row, none⟩) := by
    refine ⟨hrow.1, ?_⟩
    rw [columns, hrow.2.1, hrow.2.2.1, hrow.2.2.2]
  have hgrants : ∀ ps : List (String × AgentVisibility.Kind),
      Only (making a j) (ps.forM fun p => AgentManager.write (.grant ⟨a, p.1, p.2, user⟩)) := by
    intro ps
    induction ps with
    | nil => exact only_pure _
    | cons p ps ih => exact (only_making (show makes a j (.grant _) from trivial)).bind fun _ => ih
  have hcommit : Only (making a j) AgentManager.commit :=
    only_call (show making a j .commit from trivial) fun x => by
      cases x with
      | ok u => exact only_pure u
      | error x => exact only_throw x
  refine (only_making hagent).bind fun _ => (hgrants _).bind fun _ => ?_
  exact (only_making (show makes a j (.insertJob _) from rfl)).bind fun _ => hcommit

theorem making_insertNamed (textColumn : Json → Option (Option String)) (a j : Nat)
    (user name harness : String) (body : Dict) :
    Only (making a j) (insertNamed textColumn a j user name harness body) := by
  refine Only.bind (only_call (show making a j (.read _) from fun _ => nofun) fun x => ?_)
    fun taken => ?_
  · cases x with
    | ok u => exact only_pure u
    | error x => exact only_throw x
  · have hclock : Only (making a j) clock :=
      only_call (show making a j .clock from trivial) fun _ => only_pure _
    refine Only.ite (only_pure _) (hclock.bind fun now => ?_)
    split
    · exact only_throw _
    next row hrow => exact (making_insertAll rfl hrow).bind fun _ => only_pure _

theorem making_finally {a j : Nat} {p : Am α} (h : Only (making a j) p) :
    Sat View.moves View.may (fun v _ => v = .maker a j false) (fun _ _ => True) (finally_ p close)
      (.maker a j true) := by
  have hend : Sat View.moves View.may (fun v _ => v = .maker a j true) (fun _ _ => True) (attempt p)
      (.maker a j true) := by
    refine (sat_tryCatch ..).mpr ((sat_bind ..).mpr
      ((making_follows h).mono (fun _ _ hr => ?_) fun _ _ hr => ?_))
    · exact hr
    · exact hr
  have hclose : Sat View.moves View.may (fun v _ => v = .maker a j false) (fun _ _ => True) close
      (.maker a j true) :=
    ⟨trivial, fun _ _ hm => hm⟩
  refine Sat.seq hend fun v res hv => ?_
  subst hv
  refine Sat.seq hclose fun v _ hv => ?_
  cases res with
  | ok b => exact hv
  | error x => trivial

theorem follows_makeAgent (textColumn : Json → Option (Option String)) (user name harness : String)
    (body : Dict) :
    Follows .fresh (makeAgent textColumn user name harness body) := by
  have hagent : Sat View.moves View.may (fun v a => v = .drawn a) (fun _ _ => True) uuid4 .fresh :=
    ⟨trivial, fun _ _ hm => hm⟩
  refine Sat.seq hagent fun v a hv => ?_
  subst hv
  have hjob : Sat View.moves View.may (fun v j => v = .maker a j false) (fun _ _ => True) uuid4
      (.drawn a) :=
    ⟨trivial, fun _ _ hm => hm⟩
  refine Sat.seq hjob fun v j hv => ?_
  subst hv
  have hconnect : Sat View.moves View.may (fun v _ => v = .maker a j true) (fun _ _ => True) connect
      (.maker a j false) := by
    refine ⟨trivial, fun c v hm => ?_⟩
    cases c with
    | ok u => exact hm
    | error x => trivial
  refine Sat.seq hconnect fun v _ hv => ?_
  subst hv
  refine Sat.seq (making_finally (making_insertNamed ..)) fun v taken hv => ?_
  subst hv
  cases taken with
  | true => trivial
  | false => exact ⟨⟨rfl, rfl, rfl⟩, fun _ _ _ => trivial⟩

theorem follows_createAgent (textColumn : Json → Option (Option String)) (user : Option String)
    (body : Dict) :
    Follows .fresh (createAgent textColumn user body) := by
  cases user with
  | none => trivial
  | some user =>
      rw [createAgent]
      split
      next text _ =>
        show Follows .fresh (if (!AgentVisibility.nameOk (Presets.trim text)) = true then _ else _)
        split
        · trivial
        · split
          · trivial
          · exact follows_makeAgent ..
      · trivial

theorem follows_task (textColumn : Json → Option (Option String)) (idOf : Json → Option Nat)
    (t : Task) :
    Follows (viewOf t) (t.prog textColumn idOf) := by
  cases t with
  | create user body => exact follows_createAgent textColumn user body
  | chat user agentId body =>
      exact plain_follows (V := fun _ => False) (plain_agentChat textColumn idOf user agentId body)
  | delete user role agentId =>
      exact plain_follows (D := fun _ _ => False) (plain_deleteAgent user role agentId)
  | stop user agentId =>
      exact plain_follows (D := fun _ _ => False) (plain_agentPower .stop "STOPPED" user agentId)
  | start user agentId =>
      exact plain_follows (D := fun _ _ => False) (plain_agentPower .start "READY" user agentId)
  | list user role =>
      exact plain_follows (V := fun _ => False) (D := fun _ _ => False) (plain_listAgents user role)
  | jobStatus user jobId =>
      exact plain_follows (V := fun _ => False) (D := fun _ _ => False) (plain_jobStatus user jobId)
  | thread => exact follows_thread

def faulty : Event Eff Ans → Bool
  | ⟨.connect, .error _⟩ => true
  | ⟨.read _, .error _⟩ => true
  | ⟨.write _, .error _⟩ => true
  | ⟨.commit, .error _⟩ => true
  | _ => false

abbrev Faulty (ev : Event Eff Ans) : Prop := faulty ev = true

def Wrote (tr : Trace Eff Ans) (agentId : Nat) (x : Int × String × String) : Prop :=
  ⟨.write (.agentReady agentId x.1 templateNode x.2.1 x.2.2), .ok ()⟩ ∈ tr

structure Noted (v : View) (tr : Trace Eff Ans) : Prop where
  idle : v = .idle → tr = []
  begun : ∀ t, ⟨.begin, t⟩ ∈ tr → ∃ r, v = .run r ∧ r.jobId = t.1 ∧ r.agentId = t.2.1
  faulted : ∀ r, v = .run r → r.faulted = true → ∃ ev ∈ tr, Faulty ev
  closed : ∀ r, v = .run r → ⟨.close, ()⟩ ∈ tr → r.closed = true
  wrote : ∀ r, v = .run r → ∀ x, r.saved.agent = some x ∨ r.now.agent = some x →
    Wrote tr r.agentId x

theorem run_moves {r r' : Run} {e : Eff} {ans : Ans e} (hm : r.moves e ans r') :
    r'.jobId = r.jobId ∧ r'.agentId = r.agentId ∧
      (r'.faulted = true → r.faulted = true ∨ Faulty ⟨e, ans⟩) ∧
      (r.closed = true ∨ e = .close → r'.closed = true) := by
  have hfault : ∀ x : Run, x.jobId = r.jobId → x.agentId = r.agentId → x.closed = r.closed →
      e ≠ .close → Faulty ⟨e, ans⟩ →
      x.jobId = r.jobId ∧ x.agentId = r.agentId ∧
        (x.faulted = true → r.faulted = true ∨ Faulty ⟨e, ans⟩) ∧
        (r.closed = true ∨ e = .close → x.closed = true) :=
    fun x h₁ h₂ h₃ h₄ h₅ => ⟨h₁, h₂, fun _ => .inr h₅, fun hor => h₃.trans (hor.resolve_right h₄)⟩
  have hfine : ∀ x : Run, x.jobId = r.jobId → x.agentId = r.agentId → x.closed = r.closed →
      e ≠ .close → x.faulted = r.faulted →
      x.jobId = r.jobId ∧ x.agentId = r.agentId ∧
        (x.faulted = true → r.faulted = true ∨ Faulty ⟨e, ans⟩) ∧
        (r.closed = true ∨ e = .close → x.closed = true) :=
    fun x h₁ h₂ h₃ h₄ h₅ => ⟨h₁, h₂, fun hx => .inl (h₅.symm.trans hx),
      fun hor => h₃.trans (hor.resolve_right h₄)⟩
  cases e with
  | connect =>
      cases ans with
      | ok u =>
          obtain rfl := hm
          exact hfine _ rfl rfl rfl nofun rfl
      | error x =>
          obtain rfl := hm
          exact hfault _ rfl rfl rfl nofun rfl
  | read q =>
      cases ans with
      | ok rows =>
          cases q with
          | jobExists k =>
              obtain ⟨-, rfl⟩ := hm
              exact hfine _ rfl rfl rfl nofun rfl
          | agentName | nameTaken | agentRow | sessionOf | remoteOf | listed | jobRow | stepRows =>
              obtain ⟨-, rfl⟩ := hm
              exact hfine _ rfl rfl rfl nofun rfl
      | error x =>
          obtain rfl : r' = r.fault := by
            cases q with
            | jobExists | agentName | nameTaken | agentRow | sessionOf | remoteOf | listed | jobRow
            | stepRows => exact hm
          exact hfault _ rfl rfl rfl nofun rfl
  | write s =>
      cases ans with
      | ok u =>
          obtain ⟨ws, -, rfl⟩ := hm
          exact hfine _ rfl rfl rfl nofun rfl
      | error x =>
          obtain rfl := hm
          exact hfault _ rfl rfl rfl nofun rfl
  | commit =>
      cases ans with
      | ok u =>
          obtain rfl := hm
          exact hfine _ rfl rfl rfl nofun rfl
      | error x =>
          rcases hm with rfl | rfl
          · exact hfault _ rfl rfl rfl nofun rfl
          · exact hfault _ rfl rfl rfl nofun rfl
  | close =>
      obtain rfl := hm
      exact ⟨rfl, rfl, .inl, fun _ => rfl⟩
  | uuid | clock | token | sleep | secret | spawn | begin | pve | keyGenerate | health | postSession
  | postMessage =>
      obtain rfl := hm
      exact hfine _ rfl rfl rfl nofun rfl

theorem saved_or_now {r : Run} {x : Int × String × String}
    (h : r.fault.saved.agent = some x ∨ r.fault.now.agent = some x) :
    r.saved.agent = some x := h.elim id id

theorem run_wrote {r r' : Run} {e : Eff} {ans : Ans e} (hg : r.may e) (hm : r.moves e ans r')
    {x : Int × String × String}
    (hx : r'.saved.agent = some x ∨ r'.now.agent = some x) :
    (r.saved.agent = some x ∨ r.now.agent = some x) ∨ Wrote [⟨e, ans⟩] r.agentId x := by
  cases e with
  | connect =>
      cases ans with
      | ok u =>
          obtain rfl := hm
          exact .inl (.inl (hx.elim id id))
      | error y =>
          obtain rfl := hm
          exact .inl (.inl (saved_or_now hx))
  | read q =>
      cases ans with
      | ok rows =>
          cases q with
          | jobExists k =>
              obtain ⟨-, rfl⟩ := hm
              exact .inl hx
          | agentName | nameTaken | agentRow | sessionOf | remoteOf | listed | jobRow | stepRows =>
              obtain ⟨-, rfl⟩ := hm
              exact .inl hx
      | error y =>
          obtain rfl : r' = r.fault := by
            cases q with
            | jobExists | agentName | nameTaken | agentRow | sessionOf | remoteOf | listed | jobRow
            | stepRows => exact hm
          exact .inl (.inl (saved_or_now hx))
  | write s =>
      cases ans with
      | ok u =>
          obtain ⟨ws, hws, rfl⟩ := hm
          rcases hx with hx | hx
          · exact .inl (.inl hx)
          · rw [now_write hws] at hx
            have hlegal := (hg fun he => nomatch he.symm.trans hws).2
            cases s with
            | agentReady b v node ip token =>
                obtain ⟨rfl, rfl⟩ := hlegal
                obtain rfl := Option.some.inj hx
                exact .inr List.mem_cons_self
            | setStep | jobStep | jobVmid | jobReady | jobError | agentState => exact .inl (.inr hx)
            | insertAgent | grant | insertJob | deleteAgent | insertSession | setRemote
            | insertMessage => exact hlegal.elim
      | error y =>
          obtain rfl := hm
          exact .inl (.inl (saved_or_now hx))
  | commit =>
      cases ans with
      | ok u =>
          obtain rfl := hm
          exact .inl (.inr (hx.elim id id))
      | error y =>
          rcases hm with rfl | rfl
          · exact .inl (.inl (saved_or_now hx))
          · exact .inl (.inr (hx.elim id id))
  | close =>
      obtain rfl := hm
      exact .inl (.inl (hx.elim id id))
  | uuid | clock | token | sleep | secret | spawn | begin | pve | keyGenerate | health | postSession
  | postMessage =>
      obtain rfl := hm
      exact .inl hx

theorem mem_snoc {tr : Trace Eff Ans} {ev ev' : Event Eff Ans} (h : ev ∈ tr ++ [ev']) : ev ∈ tr ∨
    ev = ev' := by
  rcases List.mem_append.mp h with h | h
  · exact .inl h
  · exact .inr (List.mem_singleton.mp h)

theorem begin_idle {v : View} (hg : v.may .begin) : v = .idle := by
  cases v with
  | idle => rfl
  | other | fresh | drawn a | maker a j c | run r => exact hg.elim

theorem moves_run {v : View} {e : Eff} {ans : Ans e} {r' : Run} (hm : v.moves e ans (.run r')) :
    (∃ r, v = .run r ∧ r.moves e ans r') ∨
      v = .idle ∧ ∃ t, (⟨e, ans⟩ : Event Eff Ans) = ⟨.begin, t⟩ ∧ r' = .fresh t.1 t.2.1 := by
  cases v with
  | run r =>
      obtain ⟨r₁, hr, he⟩ := hm
      obtain rfl := View.run.inj he
      exact .inl ⟨r, rfl, hr⟩
  | idle =>
      cases e with
      | begin => exact .inr ⟨rfl, ans, rfl, View.run.inj hm⟩
      | connect | read | write | commit | close | uuid | clock | token | sleep | secret | spawn
      | pve | keyGenerate | health
      | postSession | postMessage => cases hm
  | other | fresh | drawn a | maker a j c =>
      cases e with
      | connect | read | write | commit | close | uuid | clock | token | sleep | secret | spawn
      | begin | pve | keyGenerate | health
      | postSession | postMessage => cases hm

theorem moves_idle {v : View} {e : Eff} {ans : Ans e} (hg : v.may e) (hm : v.moves e ans .idle) :
    False := by
  cases v with
  | run r =>
      obtain ⟨r', -, he⟩ := hm
      cases he
  | idle =>
      cases e with
      | begin => cases hm
      | connect | read | write | commit | close | uuid | clock | token | sleep | secret | spawn
      | pve | keyGenerate | health
      | postSession | postMessage => exact hg
  | other | fresh | drawn a | maker a j c =>
      cases e with
      | connect | read | write | commit | close | uuid | clock | token | sleep | secret | spawn
      | begin | pve | keyGenerate | health
      | postSession | postMessage => cases hm

theorem Noted.next {v v' : View} {tr : Trace Eff Ans} {e : Eff} {ans : Ans e} (h : Noted v tr)
    (hg : v.may e)
    (hm : v.moves e ans v') : Noted v' (tr ++ [⟨e, ans⟩]) := by
  refine ⟨fun hv => ?_, fun t ht => ?_, fun r hv hf => ?_, fun r hv hc => ?_, fun r hv x hx => ?_⟩
  · subst hv
    exact (moves_idle hg hm).elim
  · rcases mem_snoc ht with ht | heq
    · obtain ⟨r, rfl, h₁, h₂⟩ := h.begun t ht
      obtain ⟨r', hr, rfl⟩ := hm
      obtain ⟨hj, ha, -⟩ := run_moves hr
      exact ⟨r', rfl, hj.trans h₁, ha.trans h₂⟩
    · cases heq
      obtain rfl := begin_idle hg
      obtain rfl : v' = .run (.fresh t.1 t.2.1) := hm
      exact ⟨_, rfl, rfl, rfl⟩
  · subst hv
    rcases moves_run hm with ⟨r₀, rfl, hr⟩ | ⟨-, t, -, rfl⟩
    · rcases (run_moves hr).2.2.1 hf with hf | hf
      · obtain ⟨ev, hev, hfa⟩ := h.faulted r₀ rfl hf
        exact ⟨ev, List.mem_append_left _ hev, hfa⟩
      · exact ⟨_, List.mem_append_right _ List.mem_cons_self, hf⟩
    · cases hf
  · subst hv
    rcases moves_run hm with ⟨r₀, rfl, hr⟩ | ⟨rfl, t, heq, rfl⟩
    · refine (run_moves hr).2.2.2 ?_
      rcases mem_snoc hc with hc | heq
      · exact .inl (h.closed r₀ rfl hc)
      · exact .inr (congrArg (·.1) heq).symm
    · rw [h.idle rfl, heq] at hc
      exact nomatch List.mem_singleton.mp hc
  · subst hv
    rcases moves_run hm with ⟨r₀, rfl, hr⟩ | ⟨-, t, -, rfl⟩
    · rw [(run_moves hr).2.1]
      rcases run_wrote hg hr hx with hx | hx
      · exact List.mem_append_left _ (h.wrote r₀ rfl x hx)
      · exact List.mem_append_right _ hx
    · exact nomatch hx.elim id id

def protocol (remote : R → PveCall → PveAns → R → Prop) :
    Protocol (W := World R) (E := Eff) (A := Ans) (ε := Effects.PyExc) (α := Reply)
      (fun i => move remote i) Always View where
  inv c g := Inv c.world g ∧ ∀ i, Noted (g i) (c.procs i).trace
  view := View.moves
  G := View.may
  keeps := by
    intro c d g i e ans hinv hg _ hs
    obtain ⟨v, hm, hi⟩ := AgentLedger.keeps hinv.1 hg hs.world
    refine ⟨v, hm, hi, fun k => ?_⟩
    by_cases hk : k = i
    · subst hk
      rw [Function.update_self, hs.trace_self]
      exact (hinv.2 k).next hg hm
    · rw [Function.update_of_ne hk, hs.proc_other hk]
      exact hinv.2 k

theorem viewOf_none (t : Task) : (viewOf t).ids = [] ∧ (viewOf t).job? = none := by
  cases t with
  | create | chat | delete | stop | start | list | jobStatus | thread => exact ⟨rfl, rfl⟩

theorem viewOf_ne_run (t : Task) (q : Run) : viewOf t ≠ .run q := by
  cases t with
  | create | chat | delete | stop | start | list | jobStatus | thread => exact nofun

theorem inv_init (r : R) (tasks : Nat → Task) : Inv (World.init r) (fun i => viewOf (tasks i)) := by
  refine ⟨fun i => ⟨?_, fun j a x hx => ?_, fun q hq => ?_⟩, fun _ ht => absurd ht List.not_mem_nil,
    ⟨fun _ => none, ?_,
    fun _ ht => absurd ht List.not_mem_nil, .nil, fun n hn => absurd rfl hn⟩, fun _ hj => absurd hj List.not_mem_nil,
    fun _ hb => absurd hb List.not_mem_nil, fun _ hr => absurd hr List.not_mem_nil⟩
  · show Matches (viewOf (tasks i)) .closed
    cases tasks i with
    | create | thread => rfl
    | chat | delete | stop | start | list | jobStatus => exact nofun
  · rw [(viewOf_none (tasks i)).2] at hx
    cases hx
  · exact absurd hq (viewOf_ne_run _ q)
  · intro i n hn
    rw [(viewOf_none (tasks i)).1] at hn
    cases hn

theorem Reachable.verified {remote : R → PveCall → PveAns → R → Prop}
    {textColumn : Json → Option (Option String)}
    {idOf : Json → Option Nat} {c : Parties R} (h : Reachable remote textColumn idOf c) : ∃ g,
    (protocol remote).Verified c g := by
  obtain ⟨r, tasks, hr⟩ := h
  have hstart : (protocol remote).Verified (begin_ textColumn idOf r tasks)
      (fun i => viewOf (tasks i)) := by
    refine ⟨⟨inv_init r tasks, fun i => ⟨fun _ => rfl, nofun, fun q hq => ?_,
      fun _ _ hm => absurd hm List.not_mem_nil, fun q hq => ?_⟩⟩,
      fun i => follows_task textColumn idOf (tasks i)⟩
    · exact absurd hq (viewOf_ne_run _ q)
    · exact absurd hq (viewOf_ne_run _ q)
  exact (protocol remote).reach hstart hr

theorem Reachable.views {remote : R → PveCall → PveAns → R → Prop}
    {textColumn : Json → Option (Option String)}
    {idOf : Json → Option Nat} {c : Parties R} (h : Reachable remote textColumn idOf c) :
    ∃ g, Inv c.world g ∧ ∀ i, Noted (g i) (c.procs i).trace := by
  obtain ⟨g, hg⟩ := Reachable.verified h
  exact ⟨g, hg.1⟩

/-- The rows of a job as they are listed, after `k` calls of `_step`. -/
def listed (jobId k : Nat) : List StepRow :=
  (rowsAfter jobId k).insertionSort (fun a b => a.seq ≤ b.seq)

/-- A job shows as much of itself as had been committed when its last wait began, or ended badly. -/
def Told (db : Db) (job : Job) : Prop :=
  (job.state = "REQUESTED" ∧ job.finished = false ∧ db.ledger job.jobId = []) ∨
    (job.state = "RUNNING" ∧ job.finished = false ∧ ∃ k ∈ [1, 3, 5, 7],
    db.ledger job.jobId = listed job.jobId k) ∨
    (job.state = "ERROR" ∧ job.finished = true ∧ ∃ k ∈ [1, 3, 5, 7, 10, 12, 16],
    db.ledger job.jobId = listed job.jobId k) ∨
    job.state = "READY" ∧ job.finished = true ∧ db.ledger job.jobId = listed job.jobId 19

theorem Known.shown {w : World R} {g : Nat → View} {key : Nat × Nat} (hinv : Inv w g)
    (hk : Known w g key) :
    ∃ x, Visible x ∧ Shows w.db key.1 key.2 x := by
  rcases hk with ⟨i, hi⟩ | ⟨t, ht, h₁, h₂⟩
  · obtain ⟨-, hsh, hr⟩ := hinv.locals i
    cases hgi : g i with
    | maker a j c =>
        rw [hgi] at hi hsh
        obtain rfl := Option.some.inj hi
        exact ⟨.start, ⟨rfl, rfl, List.mem_cons_self⟩, hsh _ _ _ rfl⟩
    | run r =>
        rw [hgi] at hi hsh
        obtain rfl := Option.some.inj hi
        exact ⟨r.saved, (hr r hgi).visible, hsh _ _ _ rfl⟩
    | other | fresh | drawn a | idle =>
        rw [hgi] at hi
        cases hi
  · rw [← h₁, ← h₂]
    exact ⟨.start, ⟨rfl, rfl, List.mem_cons_self⟩, hinv.queued t ht⟩

theorem Shows.ledger {db : Db} {j a : Nat} {x : Shown} (h : Shows db j a x) {job : Job}
    (hjob : job ∈ db.jobs) (hid : job.jobId = j) :
    db.ledger j = listed j x.rows := by
  have hhas : db.hasJob j = true := List.any_eq_true.mpr ⟨job, hjob, decide_eq_true hid⟩
  rw [Db.ledger, h.steps, if_pos hhas]
  rfl

theorem Visible.told {db : Db} {job : Job} (hjob : job ∈ db.jobs) {x : Shown} (hv : Visible x)
    (hs : Shows db job.jobId job.agentId x) : Told db job := by
  obtain ⟨-, hstate, -, hfin⟩ := hs.job job hjob rfl
  have hled := Shows.ledger hs hjob rfl
  obtain ⟨hrows, hrest⟩ := hv
  cases hout : x.outcome with
  | running =>
      rw [hout] at hrest hfin
      have hunfinished : job.finished = false := by
        rw [← Bool.not_eq_true, hfin]
        exact fun hne => hne rfl
      obtain ⟨-, hmem⟩ := hrest
      rcases List.mem_cons.mp hmem with hzero | hmem
      · refine .inl ⟨?_, hunfinished, ?_⟩
        · rw [hstate, Shown.state, hout, ← hrows, hzero]
          rfl
        · rw [hled, hzero]
          rfl
      · refine .inr (.inl ⟨?_, hunfinished, x.rows, hmem, hled⟩)
        have hne : x.marked ≠ 0 := by
          rw [← hrows]
          rintro hz
          rw [hz] at hmem
          revert hmem
          decide
        rw [hstate, Shown.state, hout]
        exact if_neg hne
  | failed =>
      rw [hout] at hrest hfin
      refine .inr (.inr (.inl ⟨?_, hfin.mpr Outcome.noConfusion, x.rows, hrest.2, hled⟩))
      rw [hstate, Shown.state, hout]
  | ready =>
      rw [hout] at hrest hfin
      refine .inr (.inr (.inr ⟨?_, hfin.mpr Outcome.noConfusion, ?_⟩))
      · rw [hstate, Shown.state, hout]
      · rw [hled, hrest.1]

def pveAnswer (n : Nat) : PveCall → PveAns × Nat
  | .nextid => (.ok (.obj [("data", .int n)]), n)
  | .clone _ _ v _ =>
      if v = n then (.ok (.obj []), n + 1) else (.raised ⟨.other "HTTPError", "500"⟩, n)
  | .interfaces .. =>
      let address : Json := .obj [("ip-address", .str "10.0.0.7"), ("ip-address-type", .str "ipv4")]
      (.ok (.obj [("data", .obj [("result", .arr [.obj [("ip-addresses", .arr [address])]])])]), n)
  | .exec .. => (.ok (.obj [("data", .obj [("pid", .int 1)])]), n)
  | .execStatus .. =>
      (.ok (.obj [("data", .obj [("exited", .bool true), ("exitcode", .int 0)])]), n)
  | _ => (.ok (.obj []), n)

def pveGives (n : Nat) (call : PveCall) (ans : PveAns) (n' : Nat) : Prop :=
  pveAnswer n call = (ans, n')

def answer (i : Nat) (w : World Nat) : (e : Eff) → Option (Ans e × World Nat)
  | .connect => some (.ok (), w.setTxn i (.live []))
  | .read q =>
      match w.txn i with
      | .live ws => (w.db.applyAll ws).map fun db => (.ok (db.ask q), w)
      | _ => none
  | .write s =>
      match w.txn i with
      | .live ws =>
          (w.db.applyAll ws).bind fun db => if db.accepts s
            then some (.ok (), w.setTxn i (.live (ws ++ [s]))) else none
      | _ => none
  | .commit =>
      match w.txn i with
      | .live ws =>
          (w.db.applyAll ws).map fun db => (.ok (), { w.setTxn i (.live []) with db := db })
      | _ => none
  | .close => some ((), w.setTxn i .closed)
  | .uuid => some (w.nextId, { w with nextId := w.nextId + 1 })
  | .clock => some (0, w)
  | .token => some ("token", w)
  | .sleep _ => some ((), w)
  | .secret _ => some (some "master", w)
  | .spawn jobId agentId name =>
      some ((), { w with threads := w.threads ++ [(jobId, agentId, name)] })
  | .begin =>
      match w.threads with
      | t :: ts => some (t, { w with threads := ts })
      | [] => none
  | .pve call =>
      some ((pveAnswer w.remote call).1, { w with remote := (pveAnswer w.remote call).2 })
  | .keyGenerate .. => some (.ok ⟨200, "", .ok (.obj [("key", .str "key")])⟩, w)
  | .health .. => some (.ok 200, w)
  | .postSession .. => some (.ok (.obj [("session_id", .str "remote")]), w)
  | .postMessage .. => some (.ok (.obj [("reply", .str "hello")]), w)

theorem answer_move (i : Nat) (w : World Nat) (e : Eff) (ans : Ans e) (w' : World Nat)
    (h : answer i w e = some (ans, w')) :
    move pveGives i w e ans w' := by
  cases e with
  | read q =>
      simp only [answer] at h
      split at h
      next ws hws =>
        obtain ⟨db, happ, he⟩ := Option.map_eq_some_iff.mp h
        cases he
        exact .inl ⟨ws, db, hws, happ, rfl, rfl⟩
      · cases h
  | write s =>
      simp only [answer] at h
      split at h
      next ws hws =>
        obtain ⟨db, happ, he⟩ := Option.bind_eq_some_iff.mp h
        split at he
        next hacc =>
          cases he
          exact .inl ⟨ws, db, hws, happ, rfl, hacc, rfl⟩
        · cases he
      · cases h
  | commit =>
      simp only [answer] at h
      split at h
      next ws hws =>
        obtain ⟨db, happ, he⟩ := Option.map_eq_some_iff.mp h
        cases he
        exact .inl ⟨ws, db, hws, happ, rfl⟩
      · cases h
  | begin =>
      simp only [answer] at h
      split at h
      next t ts hth =>
        cases h
        exact ⟨[], ts, hth, rfl⟩
      · cases h
  | pve call =>
      cases h
      exact ⟨_, rfl, rfl⟩
  | uuid =>
      cases h
      exact ⟨rfl, rfl⟩
  | connect | close | clock | token | sleep | secret | spawn | keyGenerate | health | postSession
  | postMessage =>
      cases h
      rfl

def stored : Json → Option (Option String)
  | .null => some none
  | .str t => some (some t)
  | _ => none

/-- A user asks for an agent, its thread makes it, and the user writes to it; another user asks for
one, too. -/
def helperTasks : List Task :=
  [.create (some "ada") [("name", .str "helper")], .thread,
    .chat (some "ada") 0 [("message", .str "hi")],
    .create (some "bob") [("name", .str "scribe")], .thread]

def helperTask (i : Nat) : Task := (helperTasks[i]?).getD (.jobStatus none 0)

def opening : Board (World Nat) Eff Ans Effects.PyExc Reply :=
  ⟨World.init 900, helperTasks.map fun t => ⟨t.prog stored fun _ => none, []⟩⟩

def shown (b : Board (World Nat) Eff Ans Effects.PyExc Reply) : Parties Nat :=
  b.conf id ⟨(Task.jobStatus none 0).prog stored fun _ => none, []⟩

theorem shown_opening : shown opening = begin_ stored (fun _ => none) 900 helperTask := by
  refine congrArg (Conf.mk (World.init 900)) (funext fun i => ?_)
  show ((helperTasks.map fun t => (⟨t.prog stored fun _ => none, []⟩ :
    Proc Eff Ans Effects.PyExc Reply))[i]?).getD _ =
    ⟨((helperTasks[i]?).getD (.jobStatus none 0)).prog stored fun _ => none, []⟩
  rw [List.getElem?_map]
  cases helperTasks[i]? with
  | none => rfl
  | some t => rfl

theorem reachable_shown {is : List Nat} (h : opening.follows answer (fun _ _ => true) is = true) :
    Reachable pveGives stored (fun _ => none) (shown (opening.play answer is)) := by
  refine ⟨900, helperTask, ?_⟩
  rw [← shown_opening]
  exact Board.follows_reach _ answer_move (fun _ _ _ _ => trivial) h

def helperReady : Board (World Nat) Eff Ans Effects.PyExc Reply :=
  opening.play answer (List.replicate 13 0 ++ List.replicate 71 1)

theorem helperReady_reachable : Reachable pveGives stored (fun _ => none) (shown helperReady) :=
  reachable_shown (by decide +kernel)

section Results

variable {remote : R → PveCall → PveAns → R → Prop} {textColumn : Json → Option (Option String)}
  {idOf : Json → Option Nat}
  {c : Parties R}

/-- In every run, a job that is running shows at most the first five of its
steps, a job that is ready shows all of them, and one that has failed shows
those up to the wait or the question that has failed. -/
theorem ledger_told (h : Reachable remote textColumn idOf c) : ∀ job ∈ c.world.db.jobs,
    Told c.world.db job := by
  obtain ⟨g, hinv, -⟩ := Reachable.views h
  intro job hjob
  obtain ⟨x, hv, hs⟩ := Known.shown hinv (hinv.known job hjob)
  exact Visible.told hjob hv hs

theorem ledger_told_helper : (∃ job ∈ helperReady.state.db.jobs, job.state = "READY") ∧
    ∀ job ∈ helperReady.state.db.jobs, Told helperReady.state.db job :=
  ⟨by decide +kernel, ledger_told helperReady_reachable⟩

/-- An agent has a VM, a node, an address and a token, or nothing of it. -/
def Equipped (a : Agent) : Prop :=
  ∃ vmid ip token, columns a = (some vmid, some templateNode, some ip, some token)

/-- In every run, an agent is equipped completely or not at all, and it is
equipped exactly when its job is ready, with the VM of the job. -/
theorem equipped_by_job (h : Reachable remote textColumn idOf c) : ∀ a ∈ c.world.db.agents,
    (Equipped a ∨ columns a = (none, none, none, none)) ∧ ∀ job ∈ c.world.db.jobs,
    job.agentId = a.agentId →
      (job.state = "READY" ↔ Equipped a) ∧ (Equipped a → job.vmid = a.vmid) := by
  obtain ⟨g, hinv, -⟩ := Reachable.views h
  intro a ha
  constructor
  · obtain ⟨j, hj⟩ := hinv.agents a ha
    obtain ⟨x, -, hs⟩ := Known.shown hinv hj
    have hcol := hs.agent a ha rfl
    rw [Shown.columns] at hcol
    split at hcol
    · exact .inr hcol
    next vmid ip token _ => exact .inl ⟨vmid, ip, token, hcol⟩
  · intro job hjob he
    obtain ⟨x, hv, hs⟩ := Known.shown hinv (hinv.known job hjob)
    obtain ⟨-, hstate, hvmid, -⟩ := hs.job job hjob rfl
    have hcol := hs.agent a ha he.symm
    obtain ⟨-, hrest⟩ := hv
    have hbare : x.agent = none → ¬ Equipped a := by
      rintro hnone ⟨vmid, ip, token, heq⟩
      rw [Shown.columns, hnone] at hcol
      cases hcol.symm.trans heq
    cases hout : x.outcome with
    | running =>
        rw [hout] at hrest
        have hne : job.state ≠ "READY" := by
          rw [hstate, Shown.state, hout]
          show (if x.marked = 0 then "REQUESTED" else "RUNNING") ≠ "READY"
          split
          · decide
          · decide
        exact ⟨iff_of_false hne (hbare hrest.1), fun heq => absurd heq (hbare hrest.1)⟩
    | failed =>
        rw [hout] at hrest
        have hne : job.state ≠ "READY" := by
          rw [hstate, Shown.state, hout]
          show "ERROR" ≠ "READY"
          decide
        exact ⟨iff_of_false hne (hbare hrest.1), fun heq => absurd heq (hbare hrest.1)⟩
    | ready =>
        rw [hout] at hrest
        obtain ⟨-, vmid, ip, token, hx, hagent⟩ := hrest
        have heq : columns a = (some vmid, some templateNode, some ip, some token) := by
          rw [hcol, Shown.columns, hagent]
        refine ⟨iff_of_true ?_ ⟨vmid, ip, token, heq⟩, fun _ => ?_⟩
        · rw [hstate, Shown.state, hout]
        · exact hvmid.trans (hx.trans (congrArg (·.1) heq).symm)

theorem equipped_by_job_helper : (∃ a ∈ helperReady.state.db.agents, a.vmid = some 900) ∧
    ∀ a ∈ helperReady.state.db.agents,
    (Equipped a ∨ columns a = (none, none, none, none)) ∧ ∀ job ∈ helperReady.state.db.jobs,
    job.agentId = a.agentId →
      (job.state = "READY" ↔ Equipped a) ∧ (Equipped a → job.vmid = a.vmid) :=
  ⟨by decide +kernel, equipped_by_job helperReady_reachable⟩

theorem sat_attempt (p : Am α) (past : Trace Eff Ans) :
    Sat log (fun _ _ => True) (fun _ _ => True) (fun _ _ => False) (attempt p) past := by
  refine (sat_tryCatch ..).mpr ((sat_bind ..).mpr
    ((sat_segment p past).mono (fun _ _ _ => ?_) fun _ _ _ => ?_))
  · trivial
  · trivial

/-- The connection has been closed, or the database has failed. -/
def Over (tr : Trace Eff Ans) : Prop := ⟨.close, ()⟩ ∈ tr ∨ ∃ ev ∈ tr, Faulty ev

theorem over_finally (p : Am Unit) (past : Trace Eff Ans) :
    Sat log (fun _ _ => True) (fun tr _ => Over tr) (fun tr _ => Over tr) (finally_ p close)
      past := by
  have hp : Sat log (fun _ _ => True) (fun _ _ => True) (fun tr _ => Over tr) (attempt p) past :=
    (sat_attempt p past).mono (fun _ _ _ => trivial) fun _ _ hno => hno.elim
  have hclose : ∀ tr, Sat log (fun _ _ => True) (fun tr _ => Over tr) (fun tr _ => Over tr) close
      tr := by
    refine fun tr => ⟨trivial, fun u tr' hl => ?_⟩
    obtain rfl := hl
    exact .inl (List.mem_append_right _ List.mem_cons_self)
  refine Sat.seq hp fun tr res _ => Sat.seq (hclose tr) fun tr' _ ho => ?_
  cases res with
  | ok u => exact ho
  | error x => exact ho

/-- Every way through `provision_job` ends so. -/
theorem over_provisionJob (j a : Nat) (name : String) (past : Trace Eff Ans) :
    Sat log (fun _ _ => True) (fun tr _ => Over tr) (fun tr _ => Over tr) (provisionJob j a name)
      past := by
  refine ⟨trivial, fun ans tr hl => ?_⟩
  obtain rfl := hl
  cases ans with
  | error x => exact .inr ⟨_, List.mem_append_right _ List.mem_cons_self, rfl⟩
  | ok u => exact over_finally _ _

def Ends (tr : Trace Eff Ans) : Prop := (∃ t, ⟨.begin, t⟩ ∈ tr) → Over tr

theorem ends_of_only {p : Am Reply} (h : Only (fun e => e ≠ .begin) p) :
    Sat log (fun _ _ => True) (fun tr _ => Ends tr) (fun tr _ => Ends tr) p [] := by
  refine (sat_segment p []).mono ?_ ?_
  · rintro tr x ⟨seg, rfl, hx⟩ ⟨t, ht⟩
    exact absurd rfl (Only.of_mem h hx _ ht)
  · rintro tr x ⟨seg, rfl, hx⟩ ⟨t, ht⟩
    exact absurd rfl (Only.of_mem h hx _ ht)

theorem plain_ne_begin {V : Int → Prop} {D : String → String → Prop} {e : Eff} (h : plain V D e) :
    e ≠ .begin := by
  rintro rfl
  exact h

/-- The calls of `create_agent`. -/
def creating : Eff → Prop
  | .write s => ∃ a j, makes a j s
  | .begin => False
  | .pve _ => False
  | .postSession .. | .postMessage .. => False
  | _ => True

theorem creating_ne_begin {e : Eff} (h : creating e) : e ≠ .begin := by
  rintro rfl
  exact h

theorem creating_making {a j : Nat} {e : Eff} (h : making a j e) : creating e := by
  cases e with
  | write s => exact ⟨a, j, h⟩
  | begin | pve | postSession | postMessage => exact h
  | connect | read | commit | close | uuid | clock | token | sleep | secret | spawn | keyGenerate
  | health => trivial

theorem creating_orRaise {α : Type} (x : Except Effects.PyExc α) : Only creating (orRaise x) := by
  cases x with
  | ok a => exact only_pure a
  | error x => exact only_throw x

theorem creating_createAgent (textColumn : Json → Option (Option String)) (user : Option String)
    (body : Dict) :
    Only creating (createAgent textColumn user body) := by
  have huuid : Only creating uuid4 :=
    only_call (show creating Eff.uuid from trivial) fun _ => only_pure _
  have hconnect : Only creating connect :=
    only_call (show creating Eff.connect from trivial) fun x => creating_orRaise x
  have hclose : Only creating close :=
    only_call (show creating Eff.close from trivial) fun _ => only_pure _
  have hfinally : ∀ {β : Type} {p : Am β}, Only creating p → Only creating (finally_ p close) := by
    intro β p hp
    refine (Only.tryCatch (hp.bind fun _ => only_pure _) fun _ => only_pure _).bind fun res => ?_
    exact hclose.bind fun _ => creating_orRaise res
  have hmake : ∀ name harness user, Only creating
      (makeAgent textColumn user name harness body) := by
    intro name harness user
    refine huuid.bind fun a => huuid.bind fun j => hconnect.bind fun _ => ?_
    refine (hfinally ((making_insertNamed textColumn a j user name harness body).mono fun _ =>
      creating_making)).bind fun taken => ?_
    refine Only.ite (only_pure _) ?_
    have hspawn : Only creating (Prog.call (.spawn j a name) pure : Am Unit) :=
      only_call (show creating (Eff.spawn j a name) from trivial) fun _ => only_pure _
    exact hspawn.bind fun _ => only_pure _
  cases user with
  | none => exact only_pure _
  | some user =>
      rw [createAgent]
      split
      next text _ =>
        show Only _ (if (!AgentVisibility.nameOk (Presets.trim text)) = true then _ else _)
        refine Only.ite (only_pure _) ?_
        split
        · exact only_pure _
        · exact hmake _ _ _
      · exact only_throw _

theorem ends_task (textColumn : Json → Option (Option String)) (idOf : Json → Option Nat)
    (t : Task) :
    Sat log (fun _ _ => True) (fun tr _ => Ends tr) (fun tr _ => Ends tr) (t.prog textColumn idOf)
      [] := by
  have hplain : ∀ {V : Int → Prop} {D : String → String → Prop} {p : Am Reply}, Only (plain V D) p →
      Sat log (fun _ _ => True) (fun tr _ => Ends tr) (fun tr _ => Ends tr) p [] :=
    fun hp => ends_of_only (hp.mono fun _ => plain_ne_begin)
  cases t with
  | create user body =>
      exact ends_of_only ((creating_createAgent textColumn user body).mono fun _ =>
        creating_ne_begin)
  | chat user agentId body =>
      exact hplain (V := fun _ => False) (plain_agentChat textColumn idOf user agentId body)
  | delete user role agentId =>
      exact hplain (D := fun _ _ => False) (plain_deleteAgent user role agentId)
  | stop user agentId =>
      exact hplain (D := fun _ _ => False) (plain_agentPower .stop "STOPPED" user agentId)
  | start user agentId =>
      exact hplain (D := fun _ _ => False) (plain_agentPower .start "READY" user agentId)
  | list user role =>
      exact hplain (V := fun _ => False) (D := fun _ _ => False) (plain_listAgents user role)
  | jobStatus user jobId =>
      exact hplain (V := fun _ => False) (D := fun _ _ => False) (plain_jobStatus user jobId)
  | thread =>
      refine ⟨trivial, fun t tr hl => ?_⟩
      have hjob :=
        (over_provisionJob t.1 t.2.1 t.2.2 tr).mono (fun _ _ ho => ho) fun tr _ ho =>
          (fun _ => ho : Ends tr)
      exact Sat.seq hjob fun tr _ ho => (fun _ => ho : Ends tr)

/-- In every run, a thread that has ended without an error of the database has
written down how its job has ended. -/
theorem outcome_recorded (h : Reachable remote textColumn idOf c) {i : Nat} {t : Nat × Nat × String}
    (hbegin : ⟨.begin, t⟩ ∈ (c.procs i).trace) (hend : (c.procs i).prog.ended = true)
    (hfault : ∀ ev ∈ (c.procs i).trace, ¬ Faulty ev) :
    ∀ job ∈ c.world.db.jobs, job.jobId = t.1 → job.finished = true ∧
      (job.state = "READY" ∨ job.state = "ERROR") := by
  obtain ⟨r₀, tasks, hr⟩ := h
  obtain ⟨g, hinv, hnoted⟩ := Reachable.views ⟨r₀, tasks, hr⟩
  have hover : Over (c.procs i).trace := by
    have hsat := (ends_task textColumn idOf (tasks i)).exec (hr.exec i)
    cases hp : (c.procs i).prog with
    | ret x =>
        rw [hp] at hsat
        exact hsat ⟨t, hbegin⟩
    | raise x =>
        rw [hp] at hsat
        exact hsat ⟨t, hbegin⟩
    | call e k =>
        rw [hp] at hend
        cases hend
  have hclosed : ⟨.close, ()⟩ ∈ (c.procs i).trace :=
    hover.resolve_right fun ⟨ev, hev, hf⟩ => hfault ev hev hf
  obtain ⟨r, hgi, hj, -⟩ := (hnoted i).begun t hbegin
  have hrun := (hinv.locals i).run r hgi
  intro job hjob hid
  have hsh := (hinv.locals i).shows r.jobId r.agentId r.saved (by rw [hgi]; rfl)
  obtain ⟨-, hstate, -, hfin⟩ := hsh.job job hjob (hid.trans hj.symm)
  rcases hrun.settled ((hnoted i).closed r hgi hclosed) with hf | hg | hout
  · obtain ⟨ev, hev, hfa⟩ := (hnoted i).faulted r hgi hf
    exact absurd hfa (hfault ev hev)
  · have hno := hrun.gone hg
    rw [Db.hasJob, List.any_eq_false] at hno
    exact absurd (decide_eq_true (hid.trans hj.symm)) (hno job hjob)
  · refine ⟨hfin.mpr hout, ?_⟩
    rw [hstate, Shown.state]
    cases ho : r.saved.outcome with
    | running => exact absurd ho hout
    | ready => exact .inl rfl
    | failed => exact .inr rfl

def begins (t : Nat × Nat × String) : Event Eff Ans → Bool
  | ⟨.begin, t'⟩ => decide (t' = t)
  | _ => false

theorem mem_of_begins {t : Nat × Nat × String} {tr : Trace Eff Ans} (h : tr.any (begins t) = true) :
    ⟨.begin, t⟩ ∈ tr := by
  obtain ⟨⟨e, ans⟩, hev, hb⟩ := List.any_eq_true.mp h
  cases e with
  | begin =>
      obtain rfl : ans = t := of_decide_eq_true hb
      exact hev
  | connect | read | write | commit | close | uuid | clock | token | sleep | secret | spawn | pve
  | keyGenerate | health
  | postSession | postMessage => cases hb

theorem outcome_recorded_helper : (∃ job ∈ helperReady.state.db.jobs, job.jobId = 1) ∧
    ∀ job ∈ helperReady.state.db.jobs, job.jobId = 1 → job.finished = true ∧
      (job.state = "READY" ∨ job.state = "ERROR") :=
  ⟨by decide +kernel, outcome_recorded helperReady_reachable (i := 1) (t :=
    (1, 0, "helper")) (mem_of_begins (by decide +kernel))
    (by decide +kernel) (by decide +kernel)⟩

end Results

end ServerManager.AgentRuns
