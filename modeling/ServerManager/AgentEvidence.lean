import ServerManager.AgentRuns

namespace ServerManager.AgentEvidence

open Interaction Interleaving AgentManager AgentJobs AgentLedger AgentRuns PyJson

/-- PVE has taken the order to clone the template. -/
def Cloned (tr : Trace Eff Ans) (v : Int) : Prop :=
  ∃ name x, ⟨.pve (.clone templateNode templateVmid v name), .ok x⟩ ∈ tr

/-- The exit code that `exec-status` tells. -/
def exitCode (st : Json) : Except Effects.PyExc Json := do
  let data ← get (st.orElse (.obj [])) "data" .null
  get (data.orElse (.obj [])) "exitcode" (.int (-1))

/-- A command has ended in the guest with the exit code 0. -/
def Ran (tr : Trace Eff Ans) (v : Int) (command : List String) : Prop :=
  ∃ x pid st rc, ⟨.pve (.exec templateNode v command), .ok x⟩ ∈ tr ∧
    (item x "data" >>= pidOf) = .ok pid ∧
    ⟨.pve (.execStatus templateNode v pid), .ok st⟩ ∈ tr ∧ exitCode st = .ok rc ∧ isZero rc = true

/-- The VM is the thread's own clone, its guest has stored the token, and has answered to it at the
address. -/
structure Proven (tr : Trace Eff Ans) (v : Int) (ip token : String) : Prop where
  cloned : Cloned tr v
  injected : Ran tr v (injectToken token)
  healthy : ⟨.health ip token, .ok 200⟩ ∈ tr

def RowRead (tr : Trace Eff Ans) (a : Agent) : Prop :=
  ∃ agentId, ⟨.read (.agentRow agentId), .ok (some a)⟩ ∈ tr

/-- The process has read the row of an agent that has the VM. -/
def Looked (tr : Trace Eff Ans) (v : Int) : Prop := ∃ a, RowRead tr a ∧ a.vmid = some v

/-- The process has read the row of an agent that has the address and the token. -/
def Addressed (tr : Trace Eff Ans) (ip token : String) : Prop :=
  ∃ a, RowRead tr a ∧ a.agentIp = some ip ∧ a.agentToken = some token

def Grounded (past : Trace Eff Ans) : Eff → Prop
  | .pve c =>
      (∃ v name, c = .clone templateNode templateVmid v name) ∨ ∀ v, names c v → Cloned past v ∨
        Looked past v
  | .write (.agentReady _ v node ip token) => node = templateNode ∧ Proven past v ip token
  | .postSession ip token _ | .postMessage ip token _ _ => Addressed past ip token
  | _ => True

theorem Cloned.mono {past tr : Trace Eff Ans} {v : Int} (h : Cloned past v) (hp : past <+: tr) :
    Cloned tr v := by
  obtain ⟨name, x, hx⟩ := h
  exact ⟨name, x, hp.subset hx⟩

theorem RowRead.mono {past tr : Trace Eff Ans} {a : Agent} (h : RowRead past a) (hp : past <+: tr) :
    RowRead tr a := by
  obtain ⟨agentId, ha⟩ := h
  exact ⟨agentId, hp.subset ha⟩

theorem Looked.mono {past tr : Trace Eff Ans} {v : Int} (h : Looked past v) (hp : past <+: tr) :
    Looked tr v := by
  obtain ⟨a, ha, hv⟩ := h
  exact ⟨a, ha.mono hp, hv⟩

theorem Ran.mono {past tr : Trace Eff Ans} {v : Int} {command : List String}
    (h : Ran past v command) (hp : past <+: tr) :
    Ran tr v command := by
  obtain ⟨x, pid, st, rc, hx, hpid, hst, hrc, hz⟩ := h
  exact ⟨x, pid, st, rc, hp.subset hx, hpid, hp.subset hst, hrc, hz⟩

theorem Proven.mono {past tr : Trace Eff Ans} {v : Int} {ip token : String}
    (h : Proven past v ip token) (hp : past <+: tr) :
    Proven tr v ip token := by
  obtain ⟨hc, hr, hh⟩ := h
  exact ⟨hc.mono hp, hr.mono hp, hp.subset hh⟩

variable {α β : Type}

/-- The specifications of this module: the calls are grounded, and the trace has grown. -/
abbrev Asks (p : Am α) (Q : Trace Eff Ans → α → Prop) (past : Trace Eff Ans) : Prop :=
  Sat log Grounded (fun tr a => past <+: tr ∧ Q tr a) (fun tr _ => past <+: tr) p past

theorem Asks.of_only {φ : Eff → Prop} {p : Am α} {past : Trace Eff Ans} (h : Only φ p)
    (hG : ∀ tr, past <+: tr → ∀ e, φ e → Grounded tr e) : Asks p (fun _ _ => True) past := by
  have hk := Only.keeps (T := log) (I := fun tr => past <+: tr) h
    (fun tr e ans tr' _ hi hl => hi.trans (hl ▸ List.prefix_append _ _)) (List.prefix_refl past)
  exact (hk.weaken fun tr e he => hG tr he.2 e he.1).mono (fun _ _ hi => ⟨hi, trivial⟩)
    fun _ _ hi => hi

theorem Asks.seq {p : Am α} {f : α → Am β} {Q : Trace Eff Ans → α → Prop}
    {S : Trace Eff Ans → β → Prop} {past : Trace Eff Ans}
    (h : Asks p Q past) (hf : ∀ tr a, past <+: tr → Q tr a → Asks (f a) S tr) :
    Asks (p >>= f) S past :=
  Sat.seq h fun tr a hq => (hf tr a hq.1 hq.2).mono (fun _ _ hs => ⟨hq.1.trans hs.1, hs.2⟩)
    fun _ _ hs => hq.1.trans hs

theorem Asks.attempt {p : Am α} {Q : Trace Eff Ans → α → Prop} {past : Trace Eff Ans}
    (h : Asks p Q past) :
    Asks (attempt p) (fun tr r => ∀ a, r = .ok a → Q tr a) past := by
  refine (sat_tryCatch ..).mpr ((sat_bind ..).mpr (h.mono (fun _ _ hr => ?_) fun _ _ hr => ?_))
  · exact ⟨hr.1, fun _ ha => Except.ok.inj ha ▸ hr.2⟩
  · exact ⟨hr, nofun⟩

theorem asks_orRaise (x : Except Effects.PyExc α) (past : Trace Eff Ans) :
    Asks (orRaise x) (fun _ a => x = .ok a) past := by
  cases x with
  | ok a => exact ⟨List.prefix_refl _, rfl⟩
  | error x => exact List.prefix_refl past

def free : Eff → Prop
  | .pve c => ∀ v, ¬ names c v
  | .write (.agentReady ..) => False
  | .postSession .. | .postMessage .. => False
  | _ => True

theorem free_grounded {tr : Trace Eff Ans} {e : Eff} (h : free e) : Grounded tr e := by
  cases e with
  | pve c => exact .inr fun v hv => absurd hv (h v)
  | write s =>
      cases s with
      | agentReady => exact h.elim
      | insertAgent | grant | insertJob | setStep | jobStep | jobVmid | jobReady | jobError
      | agentState | deleteAgent
      | insertSession | setRemote | insertMessage => trivial
  | postSession | postMessage => exact h.elim
  | connect | read | commit | close | uuid | clock | token | sleep | secret | spawn | begin
  | keyGenerate | health => trivial

theorem Asks.free {p : Am α} (h : Only AgentEvidence.free p) (past : Trace Eff Ans) :
    Asks p (fun _ _ => True) past :=
  Asks.of_only h fun _ _ _ he => free_grounded he

theorem free_orRaise (x : Except Effects.PyExc α) : Only free (orRaise x) := by
  cases x with
  | ok a => exact only_pure a
  | error x => exact only_throw x

theorem free_write {s : Write} (h : free (.write s)) : Only free (write s) :=
  only_call h fun x => free_orRaise x

theorem free_commit : Only free commit :=
  only_call (show free .commit from trivial) fun x => free_orRaise x

theorem free_read (q : Query) : Only free (read q) :=
  only_call (show free (.read q) from trivial) fun x => free_orRaise x

theorem free_step (j seq : Nat) (name state : String) : Only free (step j seq name state) :=
  (free_write (s := .setStep _) trivial).bind fun _ => free_write (s := .jobStep ..) trivial

def about (v : Int) : Eff → Prop
  | .pve c => (∀ x, names c x → x = v)
  | .write _ | .postSession .. | .postMessage .. => False
  | _ => True

theorem about_grounded {tr : Trace Eff Ans} {v : Int} {e : Eff} (h : about v e)
    (hv : Cloned tr v ∨ Looked tr v) : Grounded tr e := by
  cases e with
  | pve c => exact .inr fun x hx => h x hx ▸ hv
  | write | postSession | postMessage => exact h.elim
  | connect | read | commit | close | uuid | clock | token | sleep | secret | spawn | begin
  | keyGenerate | health => trivial

theorem Asks.about {p : Am α} {v : Int} {past : Trace Eff Ans} (h : Only (AgentEvidence.about v) p)
    (hv : Cloned past v ∨ Looked past v) : Asks p (fun _ _ => True) past :=
  Asks.of_only h fun _ hp _ he => about_grounded he
    (hv.imp (fun hc => hc.mono hp) fun hl => hl.mono hp)

section About

variable {v : Int}

theorem about_orRaise (x : Except Effects.PyExc α) : Only (about v) (orRaise x) := by
  cases x with
  | ok a => exact only_pure a
  | error x => exact only_throw x

theorem about_attempt {p : Am α} (h : Only (about v) p) : Only (about v) (attempt p) :=
  Only.tryCatch (h.bind fun _ => only_pure _) fun _ => only_pure _

theorem about_request {c : PveCall} (h : ∀ x, names c x → x = v) : Only (about v) (request c) :=
  only_call (show about v (.pve c) from h) fun a => by
    cases a with
    | ok x => exact only_pure x
    | unauthorized x | raised x => exact only_throw x

theorem about_pve {c : PveCall} (h : ∀ x, names c x → x = v) : Only (about v) (pve c) :=
  only_call (show about v (.pve c) from h) fun a => by
    cases a with
    | ok x => exact only_pure x
    | unauthorized x => exact about_request h
    | raised x => exact only_throw x

theorem about_sleep (n : Nat) : Only (about v) (sleep n) :=
  only_call (show about v (.sleep n) from trivial) fun _ => only_pure _

theorem about_waitUnlocked (n : Nat) : Only (about v) (waitUnlocked v n) := by
  induction n with
  | zero => exact only_pure _
  | succ n ih =>
      have hcfg :=
        about_attempt ((about_pve (v := v) (c := .config templateNode v) fun _ hx => hx).bind
          fun r =>
        (about_orRaise (get (r.orElse (.obj [])) "data" .null)).bind fun data => only_pure (data.orElse (.obj [])))
      refine hcfg.bind fun cfg => ?_
      cases cfg with
      | error x => exact (about_sleep 2).bind fun _ => ih
      | ok cfg =>
          exact (about_orRaise _).bind fun lock =>
            Only.ite ((about_sleep 2).bind fun _ => ih) (only_pure _)

theorem about_waitIp (n : Nat) (ip : Option String) : Only (about v) (waitIp v n ip) := by
  induction n generalizing ip with
  | zero => exact only_pure _
  | succ n ih =>
      refine (about_attempt (about_pve (c := .interfaces templateNode v) fun _ hx => hx)).bind
        fun r => Only.ite (only_pure _) ?_
      exact (about_sleep 3).bind fun _ => ih _

end About

theorem asks_request {c : PveCall} {past : Trace Eff Ans} (hc : Grounded past (.pve c)) :
    Asks (request c) (fun tr x => ⟨.pve c, .ok x⟩ ∈ tr) past := by
  refine ⟨hc, fun a tr hl => ?_⟩
  obtain rfl := hl
  cases a with
  | ok x => exact ⟨List.prefix_append _ _, List.mem_append_right _ List.mem_cons_self⟩
  | unauthorized x | raised x => exact List.prefix_append past _

theorem asks_pve {c : PveCall} {past : Trace Eff Ans}
    (hc : ∀ tr, past <+: tr → Grounded tr (.pve c)) :
    Asks (pve c) (fun tr x => ⟨.pve c, .ok x⟩ ∈ tr) past := by
  refine ⟨hc past (List.prefix_refl _), fun a tr hl => ?_⟩
  obtain rfl := hl
  cases a with
  | ok x => exact ⟨List.prefix_append _ _, List.mem_append_right _ List.mem_cons_self⟩
  | unauthorized x =>
      have hp : past <+: past ++ [⟨.pve c, .unauthorized x⟩] := List.prefix_append _ _
      exact (asks_request (hc _ hp)).mono (fun _ _ hr => ⟨hp.trans hr.1, hr.2⟩) fun _ _ hr =>
        hp.trans hr
  | raised x => exact List.prefix_append past _

theorem free_sleep (n : Nat) : Only free (sleep n) :=
  only_call (show free (.sleep n) from trivial) fun _ => only_pure _

theorem free_clock : Only free clock :=
  only_call (show free .clock from trivial) fun _ => only_pure _

theorem asks_pollExec {v : Int} (pid : Json) (deadline : ℚ) (n : Nat) {past : Trace Eff Ans}
    (hv : Cloned past v) :
    Asks (pollExec templateNode v pid deadline n)
      (fun tr r => isZero r.2.2 = true →
        ∃ st, ⟨.pve (.execStatus templateNode v pid), .ok st⟩ ∈ tr ∧ exitCode st = .ok r.2.2) past := by
  have htimeout : ∀ tr, Asks (pure (.str "", .str "TIMEOUT", .int (-1)) : Am (Json × Json × Json))
      (fun tr r => isZero r.2.2 = true →
        ∃ st, ⟨.pve (.execStatus templateNode v pid), .ok st⟩ ∈ tr ∧ exitCode st = .ok r.2.2) tr :=
    fun tr => ⟨List.prefix_refl _, fun h => absurd h (by decide)⟩
  induction n generalizing past with
  | zero => exact htimeout past
  | succ n ih =>
      refine (Asks.free free_clock past).seq fun tr now hp _ => ?_
      replace hv := hv.mono hp
      split
      · refine (Asks.free (free_sleep 2) tr).seq fun tr _ hp _ => ?_
        replace hv := hv.mono hp
        have hstatus : Asks (pve (.execStatus templateNode v pid))
            (fun tr x => ⟨.pve (.execStatus templateNode v pid), .ok x⟩ ∈ tr) tr :=
          asks_pve fun _ hp => .inr fun x hx => hx ▸ .inl (hv.mono hp)
        refine hstatus.attempt.seq fun tr st hp hst => ?_
        replace hv := hv.mono hp
        cases st with
        | error x => exact ih hv
        | ok st =>
            replace hst := hst st rfl
            refine (asks_orRaise _ tr).seq fun tr data hp hdata => ?_
            replace hst := hp.subset hst
            refine (asks_orRaise _ tr).seq fun tr' exited hp _ => ?_
            replace hst := hp.subset hst
            refine (show Asks (if exited.truthy then _ else _) _ _ from ?_)
            split
            · refine (asks_orRaise _ tr').seq fun tr _ hp _ => ?_
              replace hst := hp.subset hst
              refine (asks_orRaise _ tr).seq fun tr _ hp _ => ?_
              replace hst := hp.subset hst
              refine (asks_orRaise _ tr).seq fun tr rc hp hrc => ?_
              refine ⟨List.prefix_refl _, fun _ => ⟨st, hp.subset hst, ?_⟩⟩
              rw [exitCode, hdata]
              exact hrc
            · exact ih ((hv.mono ‹_›).mono hp)
      · exact htimeout tr

theorem asks_pveExec {v : Int} {command : List String} {past : Trace Eff Ans} (hv : Cloned past v) :
    Asks (pveExec templateNode v command) (fun tr r => isZero r.2.2 = true → Ran tr v command)
      past := by
  have hc : Grounded past (.pve (.exec templateNode v command)) := .inr fun x hx => hx ▸ .inl hv
  refine (asks_request hc).seq fun tr x hp hx => ?_
  replace hv := hv.mono hp
  refine (asks_orRaise _ tr).seq fun tr pdata hp hdata => ?_
  replace hv := hv.mono hp
  replace hx := hp.subset hx
  refine (asks_orRaise _ tr).seq fun tr pid hp hpid => ?_
  replace hv := hv.mono hp
  replace hx := hp.subset hx
  refine (Asks.free free_clock tr).seq fun tr now hp _ => ?_
  replace hx := hp.subset hx
  refine (asks_pollExec pid (now + 90) 45 (hv.mono hp)).mono (fun tr' r hr => ⟨hr.1, fun hz => ?_⟩)
    fun _ _ hr => hr
  obtain ⟨st, hst, hrc⟩ := hr.2 hz
  refine ⟨x, pid, st, r.2.2, hr.1.subset hx, ?_, hst, hrc, hz⟩
  rw [hdata]
  exact hpid

theorem asks_waitHealth (ip token : String) (n : Nat) (past : Trace Eff Ans) :
    Asks (waitHealth ip token n) (fun tr ok => ok = true → ⟨.health ip token, .ok 200⟩ ∈ tr)
      past := by
  induction n generalizing past with
  | zero => exact ⟨List.prefix_refl _, nofun⟩
  | succ n ih =>
      refine ⟨trivial, fun r tr hl => ?_⟩
      obtain rfl := hl
      have hp : past <+: past ++ [⟨.health ip token, r⟩] := List.prefix_append _ _
      cases r with
      | ok status =>
          show Sat log Grounded _ _ (if status = 200 then pure true else waitHealth ip token n) _
          split
          next h200 =>
            subst h200
            exact ⟨hp, fun _ => List.mem_append_right _ List.mem_cons_self⟩
          · exact (ih _).mono (fun _ _ hr => ⟨hp.trans hr.1, hr.2⟩) fun _ _ hr => hp.trans hr
      | error x =>
          have hrest :=
            (Asks.free (free_sleep 2) (past ++ [⟨.health ip token, .error x⟩])).seq fun tr _ _ _ =>
              ih tr
          exact hrest.mono (fun _ _ hr => ⟨hp.trans hr.1, hr.2⟩) fun _ _ hr => hp.trans hr

theorem asks_cloneVm (j : Nat) (name : String) (past : Trace Eff Ans) :
    Asks (cloneVm j name) (fun tr v => Cloned tr v) past := by
  have hnext : Only free nextVmid := by
    have hpve : Only free (pve .nextid) :=
      only_call (show free (.pve .nextid) from fun _ hx => hx) fun a => by
      cases a with
      | ok x => exact only_pure x
      | unauthorized x =>
          refine only_call (show free (.pve .nextid) from fun _ hx => hx) fun a => ?_
          cases a with
          | ok x => exact only_pure x
          | unauthorized x | raised x => exact only_throw x
      | raised x => exact only_throw x
    exact hpve.bind fun _ => (free_orRaise _).bind fun _ => free_orRaise _
  refine (Asks.free hnext past).seq fun tr v _ _ =>
    (Asks.free (free_step ..) tr).seq fun tr _ _ _ => ?_
  refine (Asks.free (free_step ..) tr).seq fun tr _ _ _ =>
    (Asks.free (free_write (s := .jobVmid j v) trivial) tr).seq fun tr _ _ _ => ?_
  refine (Asks.free free_commit tr).seq fun tr _ _ _ => ?_
  refine (asks_pve (c := .clone templateNode templateVmid v (cut name 63)) fun _ _ =>
    .inl ⟨v, _, rfl⟩).seq fun tr x _ hx => ?_
  have hv : Cloned tr v := ⟨_, x, hx⟩
  refine (Asks.about (about_waitUnlocked 120) (.inl hv)).seq fun tr _ hp _ => ?_
  replace hv := hv.mono hp
  refine (Asks.free (free_step ..) tr).seq fun tr _ hp _ => ?_
  replace hv := hv.mono hp
  refine (Asks.free (free_step ..) tr).seq fun tr _ hp _ => ?_
  replace hv := hv.mono hp
  refine (Asks.free free_commit tr).seq fun tr _ hp _ => ?_
  replace hv := hv.mono hp
  refine (Asks.about (about_pve (c := .setConfig templateNode v _) fun _ hx => hx) (.inl hv)).seq
    fun tr _ hp _ => ?_
  replace hv := hv.mono hp
  refine (Asks.free (free_step ..) tr).seq fun tr _ hp _ => ?_
  replace hv := hv.mono hp
  refine (Asks.free (free_step ..) tr).seq fun tr _ hp _ => ?_
  replace hv := hv.mono hp
  refine (Asks.about (about_pve (c := .start (some templateNode) (some v)) fun _ hx =>
    Option.some.inj hx) (.inl hv)).seq
    fun tr _ hp _ => ?_
  replace hv := hv.mono hp
  exact (Asks.free free_commit tr).seq fun tr _ hp _ => ⟨List.prefix_refl _, hv.mono hp⟩

theorem asks_prepareGuest (j : Nat) {v : Int} {past : Trace Eff Ans} (hv : Cloned past v) :
    Asks (prepareGuest j v) (fun tr r => Ran tr v (injectToken r.2)) past := by
  refine (Asks.about (about_waitIp 90 none) (.inl hv)).seq fun tr ip hp _ => ?_
  replace hv := hv.mono hp
  split
  · exact List.prefix_refl _
  · refine (Asks.free (free_step ..) tr).seq fun tr _ hp _ => ?_
    replace hv := hv.mono hp
    refine (Asks.free (free_step ..) tr).seq fun tr _ hp _ => ?_
    replace hv := hv.mono hp
    refine (Asks.free (free_step ..) tr).seq fun tr _ hp _ => ?_
    replace hv := hv.mono hp
    have htoken : Only free (Prog.call Eff.token pure : Am String) :=
      only_call (show free .token from trivial) fun _ => only_pure _
    refine (Asks.free htoken tr).seq fun tr token hp _ => ?_
    refine (asks_pveExec (hv.mono hp)).seq fun tr res _ hran => ?_
    obtain ⟨out, err, rc⟩ := res
    refine (show Asks (if isZero rc then _ else _) _ _ from ?_)
    split
    next hzero =>
      exact (Asks.free (free_step ..) tr).seq fun tr _ hp _ =>
        ⟨List.prefix_refl _, (hran hzero).mono hp⟩
    · exact (Asks.free (free_orRaise _) tr).seq fun tr _ _ _ => List.prefix_refl _

theorem asks_provisionKey (j : Nat) {v : Int} (name : String) {past : Trace Eff Ans}
    (hv : Cloned past v) :
    Asks (provisionKey j v name) (fun _ _ => True) past := by
  refine (Asks.free (free_step ..) past).seq fun tr _ hp _ => ?_
  replace hv := hv.mono hp
  have hsecret : Only free (secret "litellm_master_key") :=
    only_call (show free (.secret _) from trivial) fun _ => only_pure _
  refine (Asks.free hsecret tr).seq fun tr master hp _ => ?_
  replace hv := hv.mono hp
  split
  · exact List.prefix_refl _
  · have hkey : Only free (Prog.call (.keyGenerate (master.getD "") name) orRaise :
        Am KeyResponse) :=
      only_call (show free (.keyGenerate ..) from trivial) fun _ => free_orRaise _
    refine (Asks.free hkey tr).seq fun tr resp hp _ => ?_
    replace hv := hv.mono hp
    have hissued : Only free (issuedKey resp) :=
      Only.ite (only_throw _) ((free_orRaise _).bind fun _ => (free_orRaise _).bind fun _ =>
        Only.ite (only_pure _) (only_throw _))
    refine (Asks.free hissued tr).seq fun tr key hp _ =>
      (asks_pveExec (hv.mono hp)).seq fun tr res _ _ => ?_
    obtain ⟨out, err, rc⟩ := res
    refine (show Asks (if isZero rc then _ else _) _ _ from ?_)
    split
    · exact Asks.free (free_step ..) tr
    · exact (Asks.free (free_orRaise _) tr).seq fun tr _ _ _ => List.prefix_refl _

theorem asks_testAgent (j : Nat) (ip token : String) (past : Trace Eff Ans) :
    Asks (testAgent j ip token) (fun tr _ => ⟨.health ip token, .ok 200⟩ ∈ tr) past := by
  refine (Asks.free (free_step ..) past).seq fun tr _ _ _ =>
    (Asks.free (free_step ..) tr).seq fun tr _ _ _ => ?_
  refine (Asks.free (free_step ..) tr).seq fun tr _ _ _ =>
    (asks_waitHealth ip token 10 tr).seq fun tr ok _ hok => ?_
  split
  next hyes =>
    have hh := hok hyes
    refine (Asks.free (free_step ..) tr).seq fun tr _ hp _ => ?_
    replace hh := hp.subset hh
    refine (Asks.free (free_step ..) tr).seq fun tr _ hp _ => ?_
    replace hh := hp.subset hh
    exact (Asks.free (free_step ..) tr).mono (fun _ _ hr => ⟨hr.1, hr.1.subset hh⟩) fun _ _ hr => hr
  · exact List.prefix_refl _

theorem asks_provision (j a : Nat) (name : String) (past : Trace Eff Ans) :
    Asks (provision j a name) (fun _ _ => True) past := by
  refine (Asks.free (free_step ..) past).seq fun tr _ _ _ =>
    (Asks.free (free_read _) tr).seq fun tr _ _ _ => ?_
  refine (Asks.free free_commit tr).seq fun tr _ _ _ =>
    (asks_cloneVm j name tr).seq fun tr v _ hv => ?_
  refine (asks_prepareGuest j hv).seq fun tr r hp hran => ?_
  obtain ⟨ip, token⟩ := r
  replace hv := hv.mono hp
  refine (asks_provisionKey j name hv).seq fun tr _ hp _ => ?_
  replace hv := hv.mono hp
  replace hran := hran.mono hp
  refine (asks_testAgent j ip token tr).seq fun tr _ hp hh => ?_
  have hproven : Proven tr v ip token := ⟨hv.mono hp, hran.mono hp, hh⟩
  have hwrite : Asks (write (.agentReady a v templateNode ip token)) (fun _ _ => True) tr := by
    refine ⟨⟨rfl, hproven⟩, fun c tr' hl => ?_⟩
    obtain rfl := hl
    cases c with
    | ok u => exact ⟨List.prefix_append _ _, trivial⟩
    | error x => exact List.prefix_append tr _
  refine hwrite.seq fun tr _ _ _ => ?_
  exact Asks.free ((free_write (s := .jobReady j) trivial).bind fun _ => free_commit) tr

theorem free_close : Only free close :=
  only_call (show free .close from trivial) fun _ => only_pure _

theorem free_recordError (j a : Nat) (x : Effects.PyExc) : Only free (recordError j a x) := by
  refine Only.tryCatch ?_ fun _ => only_pure _
  exact (free_write (s := .jobError ..) trivial).bind fun _ =>
    (free_write (s := .agentState ..) trivial).bind fun _ => free_commit

theorem asks_provisionJob (j a : Nat) (name : String) (past : Trace Eff Ans) :
    Asks (provisionJob j a name) (fun _ _ => True) past := by
  have hconnect : Only free connect :=
    only_call (show free .connect from trivial) fun x => free_orRaise x
  refine (Asks.free hconnect past).seq fun tr _ _ _ => ?_
  have hbody : Asks (do
      let found ← read (.jobExists j)
      if found then provision j a name else close) (fun _ _ => True) tr := by
    refine (Asks.free (free_read _) tr).seq fun tr found _ _ => ?_
    split
    · exact asks_provision j a name tr
    · exact Asks.free free_close tr
  have hcaught : Asks (tryCatch (do
      let found ← read (.jobExists j)
      if found then provision j a name else close) (recordError j a)) (fun _ _ => True) tr := by
    refine (sat_tryCatch ..).mpr (hbody.mono (fun _ _ hr => hr) fun tr' x hp => ?_)
    exact (Asks.free (free_recordError j a x) tr').mono (fun _ _ hr => ⟨hp.trans hr.1, trivial⟩)
      fun _ _ hr => hp.trans hr
  exact hcaught.attempt.seq fun tr res _ _ =>
    Asks.free (free_close.bind fun _ => free_orRaise res) tr

theorem free_creating {e : Eff} (h : creating e) : AgentEvidence.free e := by
  cases e with
  | write s =>
      obtain ⟨a, j, hs⟩ := h
      cases s with
      | agentReady => exact hs
      | insertAgent | grant | insertJob | setStep | jobStep | jobVmid | jobReady | jobError
      | agentState | deleteAgent
      | insertSession | setRemote | insertMessage => trivial
  | pve | postSession | postMessage => exact h.elim
  | connect | read | commit | close | uuid | clock | token | sleep | secret | spawn | begin
  | keyGenerate | health => trivial

theorem plain_grounded {V : Int → Prop} {D : String → String → Prop} {tr : Trace Eff Ans} {e : Eff}
    (h : plain V D e)
    (hV : ∀ v, V v → Looked tr v) (hD : ∀ ip token, D ip token → Addressed tr ip token) :
    Grounded tr e := by
  cases e with
  | pve c => exact .inr fun v hv => .inr (hV v (h v hv))
  | postSession ip token context => exact hD ip token h
  | postMessage ip token remote message => exact hD ip token h
  | write s =>
      cases s with
      | agentReady => exact (show False from h).elim
      | insertAgent | grant | insertJob | setStep | jobStep | jobVmid | jobReady | jobError
      | agentState | deleteAgent
      | insertSession | setRemote | insertMessage => trivial
  | connect | read | commit | close | uuid | clock | token | sleep | secret | spawn | begin
  | keyGenerate | health => trivial

theorem Asks.plain {V : Int → Prop} {D : String → String → Prop} {p : Am α} {past : Trace Eff Ans}
    (h : Only (AgentRuns.plain V D) p)
    (hV : ∀ v, V v → Looked past v) (hD : ∀ ip token, D ip token → Addressed past ip token) :
    Asks p (fun _ _ => True) past := by
  refine Asks.of_only h fun tr hp e he => plain_grounded he (fun v hv => (hV v hv).mono hp)
    fun ip token hd => ?_
  obtain ⟨a, ha, hc⟩ := hD ip token hd
  exact ⟨a, ha.mono hp, hc⟩

theorem asks_agentRow (agentId : Nat) (past : Trace Eff Ans) :
    Asks (read (.agentRow agentId)) (fun tr row => ∀ a, row = some a → RowRead tr a) past := by
  refine ⟨trivial, fun r tr hl => ?_⟩
  obtain rfl := hl
  cases r with
  | ok row =>
      refine ⟨List.prefix_append _ _, ?_⟩
      rintro a rfl
      exact ⟨agentId, List.mem_append_right _ List.mem_cons_self⟩
  | error x => exact List.prefix_append past _

theorem free_connect : Only AgentEvidence.free connect :=
  only_call (show AgentEvidence.free .connect from trivial) fun x => free_orRaise x

theorem truthyText {s : Option String} (h : ¬ falsyText s = true) : s = some (s.getD "") := by
  cases s with
  | none => exact absurd rfl h
  | some t => rfl

theorem asks_reply (x : Reply) (past : Trace Eff Ans) :
    Asks (pure x : Am Reply) (fun _ _ => True) past :=
  ⟨List.prefix_refl _, trivial⟩

theorem asks_agentChat (textColumn : Json → Option (Option String)) (idOf : Json → Option Nat)
    (user : Option String) (agentId : Nat)
    (body : Dict) (past : Trace Eff Ans) : Asks (agentChat textColumn idOf user agentId body)
    (fun _ _ => True) past := by
  cases user with
  | none => exact asks_reply _ _
  | some user =>
      rw [agentChat]
      split
      next text _ =>
        show Asks (if Presets.trim text = "" then _ else _) _ past
        split
        · exact asks_reply _ _
        · refine (Asks.free free_connect past).seq fun tr _ _ _ =>
            (asks_agentRow agentId tr).seq fun tr row _ hrow => ?_
          have hclose : ∀ x, Asks (do
              close
              pure x : Am Reply) (fun _ _ => True) tr := fun x => Asks.free (free_close.bind fun _ => only_pure _) tr
          cases row with
          | none => exact hclose _
          | some a =>
              show Asks (if a.state ≠ "READY" ∨ falsyText a.agentIp ∨ falsyText a.agentToken then _
                else _) _ tr
              split
              · exact hclose _
              next hready =>
                obtain ⟨hip, htoken⟩ := not_or.mp (not_or.mp hready).2
                have hchat : Only (AgentRuns.plain (fun _ => False) fun ip token => ip =
                    a.agentIp.getD "" ∧ token = a.agentToken.getD "")
                    (chatWith textColumn idOf user (Presets.trim text) agentId
                      (AgentVisibility.field body "session_id") a.name
                      (a.agentIp.getD "") (a.agentToken.getD "")) := plain_chatWith textColumn idOf user _ agentId _ a.name ⟨rfl, rfl⟩
                refine Asks.plain hchat (fun _ hv => hv.elim) ?_
                rintro ip token ⟨rfl, rfl⟩
                exact ⟨a, hrow a rfl, truthyText hip, truthyText htoken⟩
      · exact List.prefix_refl _

theorem asks_deleteAgent (user : Option String) (role : String) (agentId : Nat)
    (past : Trace Eff Ans) :
    Asks (deleteAgent user role agentId) (fun _ _ => True) past := by
  cases user with
  | none => exact asks_reply _ _
  | some user =>
      show Asks (if role ≠ "Admin" ∧ role ≠ "Security-Admin" ∧ user ≠ "root" then _ else _) _ past
      split
      · exact asks_reply _ _
      · refine (Asks.free free_connect past).seq fun tr _ _ _ =>
          (asks_agentRow agentId tr).seq fun tr row _ hrow => ?_
        cases row with
        | none => exact Asks.free (free_close.bind fun _ => only_pure _) tr
        | some a =>
            have hrest : Only (AgentRuns.plain (fun v => a.vmid = some v) fun _ _ => False) (do
                let gone ← vmGone a.node a.vmid
                write (.deleteAgent agentId)
                commit
                close
                pure (.deleted a.name (!gone)) : Am Reply) := by
              refine (plain_vmGone a.node fun _ hv => hv).bind fun gone => ?_
              exact (plain_write (show harmless (.deleteAgent _) from trivial)).bind fun _ =>
                plain_status _
            exact Asks.plain hrest (fun v hv => ⟨a, hrow a rfl, hv⟩) fun _ _ hd => hd.elim

theorem asks_agentPower (call : Option String → Option Int → PveCall)
    (hcall : ∀ node vmid v, names (call node vmid) v → vmid = some v)
    (state : String) (user : Option String) (agentId : Nat) (past : Trace Eff Ans) :
    Asks (agentPower call state user agentId) (fun _ _ => True) past := by
  cases user with
  | none => exact asks_reply _ _
  | some user =>
      refine (Asks.free free_connect past).seq fun tr _ _ _ =>
        (asks_agentRow agentId tr).seq fun tr row _ hrow => ?_
      refine (Asks.free free_close tr).seq fun tr _ hp _ => ?_
      cases row with
      | none => exact asks_reply _ _
      | some a =>
          have hrest : Only (AgentRuns.plain (fun v => a.vmid = some v) fun _ _ => False) (do
              let _ ← pve (call a.node a.vmid)
              connect
              write (.agentState agentId state)
              commit
              close
              pure (.status state) : Am Reply) := by
            refine (plain_pve fun v hv => hcall a.node a.vmid v hv).bind fun _ =>
              plain_connect.bind fun _ => ?_
            exact (plain_write (show harmless (.agentState _ _) from trivial)).bind fun _ =>
              plain_status _
          exact Asks.plain hrest (fun v hv => ⟨a, (hrow a rfl).mono hp, hv⟩) fun _ _ hd => hd.elim

theorem asks_task (textColumn : Json → Option (Option String)) (idOf : Json → Option Nat)
    (t : Task) :
    Asks (t.prog textColumn idOf) (fun _ _ => True) [] := by
  have hplain : ∀ {p : Am Reply}, Only (AgentRuns.plain (fun _ => False) fun _ _ => False) p →
      Asks p (fun _ _ => True) [] :=
    fun hp => Asks.plain hp (fun _ hv => hv.elim) fun _ _ hd => hd.elim
  cases t with
  | create user body =>
      exact Asks.free ((creating_createAgent textColumn user body).mono fun _ => free_creating) []
  | chat user agentId body => exact asks_agentChat textColumn idOf user agentId body []
  | delete user role agentId => exact asks_deleteAgent user role agentId []
  | stop user agentId =>
      exact asks_agentPower .stop (fun _ _ _ hv => hv.symm) "STOPPED" user agentId []
  | start user agentId =>
      exact asks_agentPower .start (fun _ _ _ hv => hv.symm) "READY" user agentId []
  | list user role => exact hplain (plain_listAgents user role)
  | jobStatus user jobId => exact hplain (plain_jobStatus user jobId)
  | thread =>
      refine ⟨trivial, fun t tr hl => ?_⟩
      obtain rfl := hl
      have hjob :=
        (asks_provisionJob t.1 t.2.1 t.2.2 [⟨.begin, t⟩]).seq
          (f := fun _ => (pure .done : Am Reply))
        (S := fun _ _ => True) fun tr _ _ _ => asks_reply .done tr
      exact hjob.mono (fun _ _ _ => ⟨List.nil_prefix, trivial⟩) fun _ _ _ => List.nil_prefix

section Runs

variable {R : Type} {remote : R → PveCall → PveAns → R → Prop}
  {textColumn : Json → Option (Option String)} {idOf : Json → Option Nat}
  {c : Parties R}

theorem Reachable.grounded (h : Reachable remote textColumn idOf c) (i : Nat)
    {before after : Trace Eff Ans} {e : Eff} {ans : Ans e}
    (htr : (c.procs i).trace = before ++ ⟨e, ans⟩ :: after) : Grounded before e := by
  obtain ⟨r, tasks, hr⟩ := h
  exact hr.promised (asks_task textColumn idOf (tasks i)) htr

theorem Wrote.proven (h : Reachable remote textColumn idOf c) {i agentId : Nat}
    {x : Int × String × String}
    (hw : Wrote (c.procs i).trace agentId x) : Proven (c.procs i).trace x.1 x.2.1 x.2.2 := by
  obtain ⟨before, after, htr⟩ := List.append_of_mem hw
  obtain ⟨-, hproven⟩ := Reachable.grounded h i htr
  exact hproven.mono (htr ▸ List.prefix_append _ _)

theorem Known.wrote {g : Nat → View} (hinv : Inv c.world g)
    (hnoted : ∀ i, Noted (g i) (c.procs i).trace) {a : Agent}
    (ha : a ∈ c.world.db.agents) : columns a = (none, none, none, none) ∨
      ∃ i r x, g i = .run r ∧ r.agentId = a.agentId ∧ r.saved.agent = some x ∧
        Wrote (c.procs i).trace r.agentId x ∧
        columns a = (some x.1, some templateNode, some x.2.1, some x.2.2) := by
  obtain ⟨j, hj⟩ := hinv.agents a ha
  rcases hj with ⟨i, hi⟩ | ⟨t, ht, h₁, h₂⟩
  · cases hgi : g i with
    | run r =>
        rw [hgi] at hi
        obtain ⟨-, hid⟩ := Prod.mk.inj (Option.some.inj hi)
        have hcol :=
          ((hinv.locals i).shows r.jobId r.agentId r.saved (by rw [hgi]; rfl)).agent a ha hid.symm
        cases hx : r.saved.agent with
        | none =>
            rw [Shown.columns, hx] at hcol
            exact .inl hcol
        | some x =>
            rw [Shown.columns, hx] at hcol
            exact .inr ⟨i, r, x, hgi, hid, hx, (hnoted i).wrote r hgi x (.inl hx), hcol⟩
    | maker b k connected =>
        rw [hgi] at hi
        obtain ⟨-, hid⟩ := Prod.mk.inj (Option.some.inj hi)
        exact .inl (((hinv.locals i).shows k b .start (by rw [hgi]; rfl)).agent a ha hid.symm)
    | other | fresh | drawn b | idle =>
        rw [hgi] at hi
        cases hi
  · exact .inl ((hinv.queued t ht).agent a ha h₂.symm)

/-- An agent that has anything has it from a thread that has proven it. -/
def Backed (c : Parties R) (a : Agent) : Prop :=
  columns a = (none, none, none, none) ∨
    ∃ i vmid ip token, columns a = (some vmid, some templateNode, some ip, some token) ∧
      Proven (c.procs i).trace vmid ip token

/-- In every run, the VM of every agent in the table is a clone of the template
that some thread has made, and the agent in it has answered to the token at the address. -/
theorem equipped_proven (h : Reachable remote textColumn idOf c) : ∀ a ∈ c.world.db.agents,
    Backed c a := by
  intro a ha
  obtain ⟨g, hinv, hnoted⟩ := Reachable.views h
  rcases Known.wrote hinv hnoted ha with hcol | ⟨i, r, x, -, -, -, hw, hcol⟩
  · exact .inl hcol
  · exact .inr ⟨i, x.1, x.2.1, x.2.2, hcol, Wrote.proven h hw⟩

theorem equipped_proven_helper : (∃ a ∈ helperReady.state.db.agents, a.vmid = some 900) ∧
    ∀ a ∈ helperReady.state.db.agents, Backed (shown helperReady) a :=
  ⟨by decide +kernel, equipped_proven helperReady_reachable⟩

theorem Backed.next {d : Parties R} {i : Nat} {ev : Event Eff Ans}
    (hs : Step (fun i => move remote i) c i ev d) {a : Agent}
    (h : Backed c a) : Backed d a := by
  rcases h with hnone | ⟨k, vmid, ip, token, hcol, hproven⟩
  · exact .inl hnone
  · refine .inr ⟨k, vmid, ip, token, hcol, ?_⟩
    by_cases hk : k = i
    · subst hk
      exact hproven.mono (hs.trace_self ▸ List.prefix_append _ _)
    · rw [hs.proc_other hk]
      exact hproven

theorem harmless_columns {ws : List Write} (hws : ∀ s ∈ ws, harmless s) {db db' : Db}
    (happ : db.applyAll ws = some db') {a : Agent}
    (ha : a ∈ db'.agents) : ∃ b ∈ db.agents, columns b = columns a := by
  have hk :=
    applyAll_keeps (I := fun d => ∀ a ∈ d.agents, ∃ b ∈ db.agents, columns b = columns a) ?_
    (fun a ha => ⟨a, ha, rfl⟩) happ
  · exact hk a ha
  · intro s hs d _ hd a ha
    have hs' := hws s hs
    cases s with
    | agentState k state =>
        obtain ⟨old, hold, rfl⟩ := mem_updateAgent ha
        obtain ⟨b, hb, hcol⟩ := hd old hold
        refine ⟨b, hb, hcol.trans ?_⟩
        split
        · rfl
        · rfl
    | deleteAgent k => exact hd a (List.mem_filter.mp ha).1
    | grant y =>
        rw [Db.apply] at ha
        split at ha
        · exact hd a ha
        · exact hd a ha
    | insertSession | setRemote | insertMessage => exact hd a ha
    | insertAgent | insertJob | setStep | jobStep | jobVmid | jobReady | jobError | agentReady =>
        exact hs'.elim

theorem Reachable.read_backed (h : Reachable remote textColumn idOf c) {i agentId : Nat} {a : Agent}
    {d : Parties R}
    (hs : Step (fun i => move remote i) c i ⟨.read (.agentRow agentId), .ok (some a)⟩ d) :
    Backed c a := by
  obtain ⟨g, ⟨hinv, -⟩, hsat⟩ := Reachable.verified h
  have hmove := hs.world
  cases hs with
  | @call _ k _ w hc _ =>
      have hmay := hsat i
      rw [hc] at hmay
      have hother : g i = .other := by
        have hg := hmay.1
        cases hgi : g i with
        | other => rfl
        | fresh | drawn b | idle | maker b j connected | run r =>
            rw [hgi] at hg
            exact (show False from hg).elim
      rcases hmove with ⟨ws, db, htxn, happ, hr, -⟩ | ⟨herr, -⟩
      · have hmem : a ∈ db.agents := List.mem_of_find?_eq_some (Except.ok.inj hr).symm
        have hws : ∀ s ∈ ws, harmless s := by
          have hm := (hinv.locals i).here
          rw [hother] at hm
          exact hm ws (by rw [htxn]; rfl)
        obtain ⟨b, hb, hcol⟩ := harmless_columns hws happ hmem
        rcases equipped_proven h b hb with hnone | ⟨k, vmid, ip, token, hsome, hproven⟩
        · exact .inl (hcol.symm.trans hnone)
        · exact .inr ⟨k, vmid, ip, token, hcol.symm.trans hsome, hproven⟩
      · exact herr.elim

theorem Reachable.rows_backed (h : Reachable remote textColumn idOf c) : ∀ i a,
    RowRead (c.procs i).trace a → Backed c a := by
  obtain ⟨r, tasks, hr⟩ := h
  induction hr with
  | refl =>
      rintro i a ⟨agentId, ha⟩
      cases ha
  | @tail c d k ev hr _ hs ih =>
      rintro i a ⟨agentId, ha⟩
      by_cases hi : i = k
      · subst hi
        rw [hs.trace_self] at ha
        rcases mem_snoc ha with hold | rfl
        · exact (ih i a ⟨agentId, hold⟩).next hs
        · exact (Reachable.read_backed ⟨r, tasks, hr⟩ hs).next hs
      · rw [hs.proc_other hi] at ha
        exact (ih i a ⟨agentId, ha⟩).next hs

/-- PVE takes the order to clone only with an id that is not in use, and VMs stay. -/
structure Hosts (remote : R → PveCall → PveAns → R → Prop) (used : R → Int → Prop) : Prop where
  fresh : ∀ r node template v name x r', remote r (.clone node template v name) (.ok x) r' →
    ¬ used r v ∧ used r' v
  kept : ∀ r call ans r' v, remote r call ans r' → used r v → used r' v

theorem move_remote {i : Nat} {w w' : World R} {e : Eff} {ans : Ans e}
    (hm : move remote i w e ans w') :
    w'.remote = w.remote ∨ ∃ call a, (⟨e, ans⟩ : Event Eff Ans) = ⟨.pve call, a⟩ ∧
      remote w.remote call a w'.remote := by
  have hstmt : ∀ {ok : List Write → Db → World R → Prop} {failed : Prop}, stmt i w w' ok failed →
      (∀ ws db, ok ws db w' → w'.remote = w.remote) → w'.remote = w.remote := by
    intro ok failed hs hok
    rcases hs with ⟨ws, db, -, -, ho⟩ | ⟨-, ⟨rfl, -⟩ | rfl⟩
    · exact hok ws db ho
    · rfl
    · rfl
  cases e with
  | connect =>
      cases ans with
      | ok u =>
          obtain rfl := hm
          exact .inl rfl
      | error x =>
          obtain rfl := hm
          exact .inl rfl
  | read q =>
      have hs : stmt i w w' (fun _ db w'' => ans = .ok (db.ask q) ∧ w'' = w) (isError ans) := hm
      exact .inl (hstmt hs fun _ _ ho => congrArg World.remote ho.2)
  | write s =>
      have hs : stmt i w w' (fun ws db w'' => ans = .ok () ∧ db.accepts s = true ∧
          w'' = w.setTxn i (.live (ws ++ [s]))) (isError ans) := hm
      exact .inl (hstmt hs fun _ _ ho => (congrArg World.remote ho.2.2).trans rfl)
  | commit =>
      cases ans with
      | ok u =>
          rcases hm with ⟨ws, db, -, -, rfl⟩ | ⟨-, rfl⟩
          · exact .inl rfl
          · exact .inl rfl
      | error x =>
          rcases hm with rfl | ⟨ws, db, -, -, rfl⟩
          · exact .inl rfl
          · exact .inl rfl
  | pve call =>
      obtain ⟨r, hr, rfl⟩ := hm
      exact .inr ⟨call, ans, rfl, hr⟩
  | begin =>
      obtain ⟨before, after, -, rfl⟩ := hm
      exact .inl rfl
  | uuid =>
      obtain ⟨-, rfl⟩ := hm
      exact .inl rfl
  | close | spawn | clock | token | sleep | secret | keyGenerate | health | postSession
  | postMessage =>
      obtain rfl := hm
      exact .inl rfl

theorem Reachable.clones {used : R → Int → Prop} (hpve : Hosts remote used)
    (h : Reachable remote textColumn idOf c) :
    (∀ i v, Cloned (c.procs i).trace v → used c.world.remote v) ∧
      ∀ i k v, Cloned (c.procs i).trace v → Cloned (c.procs k).trace v → i = k := by
  obtain ⟨r, tasks, hr⟩ := h
  induction hr with
  | refl =>
      constructor
      · rintro i v ⟨name, x, hx⟩
        cases hx
      · rintro i k v ⟨name, x, hx⟩
        cases hx
  | @tail c d p ev hr _ hs ih =>
      obtain ⟨hused, hone⟩ := ih
      obtain ⟨e, ans⟩ := ev
      -- who has a clone had it before, or has it by this step
      have hwho : ∀ i v, Cloned (d.procs i).trace v → Cloned (c.procs i).trace v ∨
          i = p ∧ ∃ name x, (⟨e, ans⟩ : Event Eff Ans) =
            ⟨.pve (.clone templateNode templateVmid v name), .ok x⟩ := by
        rintro i v ⟨name, x, hx⟩
        by_cases hi : i = p
        · subst hi
          rw [hs.trace_self] at hx
          rcases mem_snoc hx with hx | heq
          · exact .inl ⟨name, x, hx⟩
          · exact .inr ⟨rfl, name, x, heq.symm⟩
        · rw [hs.proc_other hi] at hx
          exact .inl ⟨name, x, hx⟩
      have hfresh : ∀ v name x, (⟨e, ans⟩ : Event Eff Ans) =
          ⟨.pve (.clone templateNode templateVmid v name), .ok x⟩ →
          ¬ used c.world.remote v ∧ used d.world.remote v := by
        intro v name x heq
        cases heq
        obtain ⟨r', hrem, hd⟩ := hs.world
        rw [hd]
        exact hpve.fresh _ _ _ _ _ _ _ hrem
      have hkept : ∀ v, used c.world.remote v → used d.world.remote v := by
        intro v hv
        rcases move_remote hs.world with heq | ⟨call, a, -, hrem⟩
        · rw [heq]
          exact hv
        · exact hpve.kept _ _ _ _ _ hrem hv
      constructor
      · intro i v hcl
        rcases hwho i v hcl with hold | ⟨-, name, x, heq⟩
        · exact hkept v (hused i v hold)
        · exact (hfresh v name x heq).2
      · intro i k v hi hk
        rcases hwho i v hi with hi | ⟨rfl, name, x, heq⟩
        · rcases hwho k v hk with hk | ⟨rfl, name, x, heq⟩
          · exact hone i k v hi hk
          · exact absurd (hused i v hi) (hfresh v name x heq).1
        · rcases hwho k v hk with hk | ⟨rfl, -⟩
          · exact absurd (hused k v hk) (hfresh v name x heq).1
          · rfl

/-- In every run, every question and order about a VM, but for the one to clone
the template, comes from the thread that has cloned it or is about a VM whose
agent some thread has proven; if PVE clones only to ids that are not in use, a
VM that no thread has proven is left to the thread that has cloned it. -/
theorem orders_backed (h : Reachable remote textColumn idOf c) (i : Nat) {call : PveCall}
    {ans : PveAns}
    (hev : ⟨.pve call, ans⟩ ∈ (c.procs i).trace) {v : Int} (hv : names call v) :
    ((∃ name, call = .clone templateNode templateVmid v name) ∨ Cloned (c.procs i).trace v ∨
        ∃ k ip token, Proven (c.procs k).trace v ip token) ∧
      ∀ used, Hosts remote used → (∀ k ip token, ¬ Proven (c.procs k).trace v ip token) →
        ∀ k, Cloned (c.procs k).trace v → i = k ∨ ∃ name,
          call = .clone templateNode templateVmid v name := by
  have hbacked : (∃ name, call = .clone templateNode templateVmid v name) ∨
      Cloned (c.procs i).trace v ∨
      ∃ k ip token, Proven (c.procs k).trace v ip token := by
    obtain ⟨before, after, htr⟩ := List.append_of_mem hev
    have hpast : before <+: (c.procs i).trace := htr ▸ List.prefix_append _ _
    rcases Reachable.grounded h i htr with ⟨v', name, rfl⟩ | hall
    · obtain rfl : v = v' := hv
      exact .inl ⟨name, rfl⟩
    · rcases hall v hv with hcl | hlook
      · exact .inr (.inl (hcl.mono hpast))
      · obtain ⟨a, ha, hvm⟩ := hlook.mono hpast
        rcases Reachable.rows_backed h i a ha with hnone | ⟨k, vmid, ip, token, hcol, hproven⟩
        · rw [columns, hvm] at hnone
          cases hnone
        · obtain rfl : v = vmid := Option.some.inj (hvm.symm.trans (congrArg (·.1) hcol))
          exact .inr (.inr ⟨k, ip, token, hproven⟩)
  refine ⟨hbacked, fun used hpve hnone k hk => ?_⟩
  rcases hbacked with hclone | hcl | ⟨j, ip, token, hproven⟩
  · exact .inr hclone
  · exact .inl ((Reachable.clones hpve h).2 i k v hcl hk)
  · exact absurd hproven (hnone j ip token)

def starts (node : String) (v : Int) : Event Eff Ans → Bool
  | ⟨.pve (.start (some n) (some x)), _⟩ => decide (n = node ∧ x = v)
  | _ => false

theorem mem_of_starts {node : String} {v : Int} {tr : Trace Eff Ans}
    (h : tr.any (starts node v) = true) :
    ∃ ans, ⟨.pve (.start (some node) (some v)), ans⟩ ∈ tr := by
  obtain ⟨ev, hev, hs⟩ := List.any_eq_true.mp h
  revert hs
  unfold starts
  split
  next n x ans =>
    intro hs
    obtain ⟨rfl, rfl⟩ := of_decide_eq_true hs
    exact ⟨ans, hev⟩
  · exact nofun

theorem pveGives_hosts : Hosts pveGives (fun n v => v < n) := by
  refine ⟨fun n node template v name x n' h => ?_, fun n call ans n' v h hv => ?_⟩
  · simp only [pveGives, pveAnswer] at h
    split at h
    · cases h
      omega
    · cases h
  · have hle : n ≤ n' := by
      cases call with
      | clone node template x name =>
          simp only [pveGives, pveAnswer] at h
          split at h
          · cases h
            omega
          · cases h
            omega
      | nextid | resources | config | setConfig | start | stop | current | interfaces | exec
      | execStatus =>
          cases h
          omega
    omega

/-- The thread has started its clone, and has not yet proven it. -/
def helperStarted : Board (World Nat) Eff Ans Effects.PyExc Reply :=
  opening.play answer (List.replicate 13 0 ++ List.replicate 30 1)

def asksHealth : Event Eff Ans → Bool
  | ⟨.health .., _⟩ => true
  | _ => false

theorem shown_all {b : Board (World Nat) Eff Ans Effects.PyExc Reply} {f : Event Eff Ans → Bool}
    (h : b.procs.all (fun p => p.trace.all f) = true) (k : Nat) : ∀ ev ∈ ((shown b).procs k).trace,
    f ev = true := by
  rw [show (shown b).procs k = (b.procs[k]?).getD _ from rfl]
  rcases hp : b.procs[k]? with _ | p
  · intro ev hev
    exact absurd hev List.not_mem_nil
  · intro ev hev
    have hall := List.all_eq_true.mp h p (List.mem_of_getElem? hp)
    exact List.all_eq_true.mp hall ev hev

theorem helperStarted_unproven (k : Nat) (v : Int) (ip token : String) :
    ¬ Proven ((shown helperStarted).procs k).trace v ip token := by
  intro hproven
  have hquiet :=
    shown_all (b := helperStarted) (f := fun ev => !asksHealth ev) (by decide +kernel) k _
      hproven.healthy
  cases hquiet

theorem orders_backed_helper :
    ((∃ name, PveCall.start (some templateNode) (some 900) =
    .clone templateNode templateVmid 900 name) ∨
        Cloned ((shown helperStarted).procs 1).trace 900 ∨
          ∃ k ip token, Proven ((shown helperStarted).procs k).trace 900 ip token) ∧
      ∀ k, Cloned ((shown helperStarted).procs k).trace 900 → 1 = k ∨
        ∃ name, PveCall.start (some templateNode) (some 900) =
          .clone templateNode templateVmid 900 name := by
  have hstarts : ((shown helperStarted).procs 1).trace.any (starts templateNode 900) = true := by
    decide +kernel
  obtain ⟨ans, hev⟩ := mem_of_starts hstarts
  obtain ⟨hbacked, hleft⟩ := orders_backed (reachable_shown (by decide +kernel)) 1 hev rfl
  exact ⟨hbacked, hleft _ pveGives_hosts fun k ip token => helperStarted_unproven k 900 ip token⟩

/-- In every run, what users write to an agent is sent to an address and with a
token that some thread has proven. -/
theorem messages_backed (h : Reachable remote textColumn idOf c) (i : Nat)
    {ip token remoteId message : String}
    {ans : Except Effects.PyExc Json} (hev : ⟨.postMessage ip token remoteId message, ans⟩ ∈
    (c.procs i).trace) :
    ∃ k v, Proven (c.procs k).trace v ip token := by
  obtain ⟨before, after, htr⟩ := List.append_of_mem hev
  have hpast : before <+: (c.procs i).trace := htr ▸ List.prefix_append _ _
  obtain ⟨a, ha, hip, htoken⟩ := Reachable.grounded h i htr
  rcases Reachable.rows_backed h i a (ha.mono hpast) with hnone | ⟨k, vmid, ip', token', hcol,
    hproven⟩
  · exact nomatch hip.symm.trans (congrArg (fun t => t.2.2.1) hnone)
  · obtain ⟨-, hrest⟩ := Prod.mk.inj hcol
    obtain ⟨-, hrest⟩ := Prod.mk.inj hrest
    obtain ⟨h₁, h₂⟩ := Prod.mk.inj hrest
    obtain rfl := Option.some.inj (hip.symm.trans h₁)
    obtain rfl := Option.some.inj (htoken.symm.trans h₂)
    exact ⟨k, vmid, hproven⟩

def helperChat : Board (World Nat) Eff Ans Effects.PyExc Reply :=
  opening.play answer (List.replicate 13 0 ++ List.replicate 71 1 ++ List.replicate 18 2)

def posts (ip token : String) : Event Eff Ans → Bool
  | ⟨.postMessage i t _ _, _⟩ => decide (i = ip ∧ t = token)
  | _ => false

theorem mem_of_posts {ip token : String} {tr : Trace Eff Ans} (h : tr.any (posts ip token) = true) :
    ∃ remoteId message ans, ⟨.postMessage ip token remoteId message, ans⟩ ∈ tr := by
  obtain ⟨ev, hev, hs⟩ := List.any_eq_true.mp h
  revert hs
  unfold posts
  split
  next i t remoteId message ans =>
    intro hs
    obtain ⟨rfl, rfl⟩ := of_decide_eq_true hs
    exact ⟨remoteId, message, ans, hev⟩
  · exact nofun

theorem messages_backed_helper : ∃ k v, Proven
    ((shown helperChat).procs k).trace v "10.0.0.7" "token" := by
  have hposts : ((shown helperChat).procs 2).trace.any (posts "10.0.0.7" "token") = true := by
    decide +kernel
  obtain ⟨remoteId, message, ans, hev⟩ := mem_of_posts hposts
  exact messages_backed (reachable_shown (by decide +kernel)) 2 hev

/-- In every run, two agents in the table never have the same VM, if PVE clones only to ids that are
not in use. -/
theorem vms_apart {used : R → Int → Prop} (hpve : Hosts remote used)
    (h : Reachable remote textColumn idOf c) :
    ∀ a ∈ c.world.db.agents, ∀ b ∈ c.world.db.agents, ∀ v, a.vmid = some v → b.vmid = some v →
      a.agentId = b.agentId := by
  intro a ha b hb v hva hvb
  obtain ⟨g, hinv, hnoted⟩ := Reachable.views h
  have hclone : ∀ a ∈ c.world.db.agents, a.vmid = some v → ∃ i r, g i = .run r ∧
      r.agentId = a.agentId ∧ Cloned (c.procs i).trace v := by
    intro a ha hva
    rcases Known.wrote hinv hnoted ha with hnone | ⟨i, r, x, hgi, hid, -, hw, hcol⟩
    · cases hva.symm.trans (congrArg (·.1) hnone)
    · obtain rfl : v = x.1 := Option.some.inj (hva.symm.trans (congrArg (·.1) hcol))
      exact ⟨i, r, hgi, hid, (Wrote.proven h hw).cloned⟩
  obtain ⟨i, r, hgi, hia, hci⟩ := hclone a ha hva
  obtain ⟨k, r', hgk, hkb, hck⟩ := hclone b hb hvb
  obtain rfl := (Reachable.clones hpve h).2 i k v hci hck
  obtain rfl := View.run.inj (hgi.symm.trans hgk)
  exact hia.symm.trans hkb

def bothReady : Board (World Nat) Eff Ans Effects.PyExc Reply :=
  opening.play answer (List.replicate 13 0 ++ List.replicate 13 3 ++ List.replicate 71 1 ++
    List.replicate 71 4)

theorem vms_apart_helper :
    ((∃ a ∈ bothReady.state.db.agents, a.vmid = some 900) ∧ ∃ a ∈ bothReady.state.db.agents,
    a.vmid = some 901) ∧
      ∀ a ∈ bothReady.state.db.agents, ∀ b ∈ bothReady.state.db.agents, ∀ v, a.vmid = some v →
        b.vmid = some v →
        a.agentId = b.agentId :=
  ⟨by decide +kernel, vms_apart pveGives_hosts (reachable_shown (by decide +kernel))⟩

end Runs

end ServerManager.AgentEvidence
