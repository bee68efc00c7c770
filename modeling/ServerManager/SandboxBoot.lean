import ServerManager.JobRuns
import ServerManager.Kea
import ServerManager.Replay

namespace ServerManager.SandboxBoot

open Interaction PyJson PyText Orm Effects Config ProxmoxVm SandboxNetwork Provisioning Storage
  Calls Sessions
open Frames JobCalls JobRows JobLedger JobRuns Kea Replay

def macChars : List Char := "0123456789ABCDEF:".toList

theorem macChars_plain : ∀ c ∈ macChars, isSpace c = false ∧ c ≠ '-' ∧
    c.toLower.toLower = c.toLower := by
  have h : macChars.all (fun c => decide (isSpace c = false ∧ c ≠ '-' ∧
      c.toLower.toLower = c.toLower)) = true := by
    decide +kernel
  intro c hc
  exact of_decide_eq_true (List.all_eq_true.mp h c hc)

theorem upper_hexDigit : ∀ n : Fin 16, (hexDigit n.val).toUpper ∈ macChars := by decide +kernel

theorem hex2_chars (n : Fin 256) : ∀ c ∈ (hex2 n).toList, c ∈ macChars := by
  intro c hc
  have hl : n.val / 16 < 16 := by omega
  have hr : n.val % 16 < 16 := by omega
  simp only [hex2, asciiUpper, String.toList_ofList, List.map_cons, List.map_nil, List.mem_cons,
    List.not_mem_nil, or_false] at hc
  rcases hc with rfl | rfl
  · exact upper_hexDigit ⟨_, hl⟩
  · exact upper_hexDigit ⟨_, hr⟩

theorem macText_chars (a b c : Fin 256) : ∀ x ∈ (macText a b c).toList, x ∈ macChars := by
  intro x hx
  have hp : "BC:24:11:".toList ⊆ macChars := by decide +kernel
  have hsep : ":".toList ⊆ macChars := by decide +kernel
  simp only [macText, String.toList_append, List.mem_append] at hx
  rcases hx with ((((hx | hx) | hx) | hx) | hx) | hx
  · exact hp hx
  · exact hex2_chars a x hx
  · exact hsep hx
  · exact hex2_chars b x hx
  · exact hsep hx
  · exact hex2_chars c x hx

theorem strip_plain {cs : List Char} (h : ∀ c ∈ cs, isSpace c = false) : strip cs = cs := by
  have hd : ∀ l : List Char, (∀ c ∈ l, isSpace c = false) → l.dropWhile isSpace = l := by
    intro l hl
    cases l with
    | nil => rfl
    | cons c l => simp [List.dropWhile, hl c List.mem_cons_self]
  unfold strip rstrip
  rw [hd cs h, hd cs.reverse fun c hc => h c (List.mem_reverse.mp hc), List.reverse_reverse]

theorem macNorm_macText (a b c : Fin 256) : asciiLower (macNorm (macText a b c)) = asciiLower
    (macText a b c) := by
  have hp := fun x hx => macChars_plain x (macText_chars a b c x hx)
  unfold macNorm asciiLower
  rw [strip_plain fun x hx => (hp x hx).1, String.toList_ofList, List.map_map]
  refine congrArg String.ofList (List.map_congr_left fun x hx => ?_)
  simp [(hp x hx).2.1, (hp x hx).2.2]

theorem macText_ne_empty (a b c : Fin 256) : macText a b c ≠ "" := by
  intro h
  have hl := congrArg String.toList h
  simp [macText] at hl

def configures : Eff → Prop
  | .pve (.setConfig ..) => True
  | _ => False

/-- The last configuration that was written is of this VM and gives its `net0` this MAC. -/
def Pinned (v : Int) (mac : String) (past : PyTrace) : Prop :=
  ∃ (before after : PyTrace) (node : String) (body : List (String × String)) (bridge : String) (x :
    Json), past = before ++ ⟨.pve (.setConfig node v body), .ok x⟩ :: after ∧
    ("net0", s!"virtio={mac},bridge={bridge}") ∈ body ∧ ∀ ev ∈ after, ¬ configures ev.1

/-- An address of the configured pool has been allocated, reserved and verified. -/
def Reserved (cfg : Settings) (mac : String) (past : PyTrace) : Prop :=
  ∃ pool ip existing pinned host work agent rec_ before allocated reserved verified after,
    past = before ++ allocated ++ reserved ++ verified ++ after ∧
    newService cfg = .ret pool ∧ ip ∈ pool.addresses.map ipText ∧
    Exec anything () (allocate pool) allocated () (.ret (ip, existing)) ∧
    Exec anything () (reserveForMac cfg ip pinned host work agent existing) reserved ()
      (.ret rec_) ∧
    Exec anything () (verifyReserved ip) verified () (.ret ()) ∧
    rec_.ip = ip ∧ asciiLower rec_.mac = asciiLower mac

def Boot (cfg : Settings) (v : Int) (past : PyTrace) : Prop :=
  cfg.sandboxNetworkEnabled ≠ 0 ∧ ∃ mac, Pinned v mac past ∧ Reserved cfg mac past

def Guard (cfg : Settings) (past : PyTrace) (e : Eff) : Prop :=
  ∀ n v, e = .pve (.start n v) → Boot cfg v past

def notStart (e : Eff) : Prop := ∀ n v, e ≠ .pve (.start n v)

def quiet (e : Eff) : Prop := notStart e ∧ ¬ configures e

theorem quiet_observes (e : Eff) (h : observes e) : quiet e := by
  refine ⟨fun n v he => ?_, fun hc => ?_⟩
  · subst he
    exact h
  · unfold configures at hc
    split at hc
    · exact h
    · exact hc

theorem quiet_db (c : DbCall) : quiet (.db c) := ⟨nofun, id⟩

theorem quiet_kea (c : KeaCall) : quiet (.kea c) := ⟨nofun, id⟩

theorem quiet_allows (ns as : List String) : Allows quiet (fun _ _ => True) ns as where
  aside e he _ := quiet_observes e he
  read e he _ _ _ _ := quiet_observes e he
  book e he := by
    cases e with
    | db c => exact quiet_db c
    | pve | kea | sys => exact False.elim he
  step _ _ := ⟨quiet_db _, quiet_db _⟩
  event _ _ := quiet_db _

theorem notStart_allows (ns as : List String) : Allows notStart (fun _ _ => True) ns as where
  aside e he _ := (quiet_observes e he).1
  read e he _ _ _ _ := (quiet_observes e he).1
  book e he := ((quiet_allows ns as).book e he).1
  step _ _ := ⟨(quiet_db _).1, (quiet_db _).1⟩
  event _ _ := (quiet_db _).1

/-- A fact about the past that lasts until the next start or configuration. -/
def Lasting (I : PyTrace → Prop) : Prop := ∀ past ev, I past → quiet ev.1 → I (past ++ [ev])

theorem pinned_lasting (v : Int) (mac : String) : Lasting (Pinned v mac) := by
  rintro past ev ⟨before, after, node, body, bridge, x, rfl, hb, ha⟩ hq
  refine ⟨before, after ++ [ev], node, body, bridge, x, by simp, hb, fun y hy => ?_⟩
  rcases List.mem_append.mp hy with hy | hy
  · exact ha y hy
  · rw [List.mem_singleton.mp hy]
    exact hq.2

theorem reserved_lasting (cfg : Settings) (mac : String) : Lasting (Reserved cfg mac) := by
  rintro past ev ⟨pool, ip, existing, pinned, host, work, agent, rec_, before, sa, sr, sv, after, rfl, h⟩ -
  exact ⟨pool, ip, existing, pinned, host, work, agent, rec_, before, sa, sr, sv,
    after ++ [ev], by simp, h⟩

theorem Lasting.and {I J : PyTrace → Prop} (hI : Lasting I) (hJ : Lasting J) :
    Lasting (fun s => I s ∧ J s) :=
  fun past ev h hq => ⟨hI past ev h.1 hq, hJ past ev h.2 hq⟩

variable {cfg : Settings} {past : PyTrace}

theorem sat_quiet {α : Type} {p : Py α} {I : PyTrace → Prop} (h : Only quiet p) (hI : Lasting I)
    (hs : I past) :
    Sat log (Guard cfg) (fun s _ => I s) (fun _ _ => True) p past := by
  have hk :=
    h.keeps (T := log) (I := I) (fun s e a s' he hi hl => by cases hl; exact hI s ⟨e, a⟩ hi he) hs
  exact (hk.weaken fun s e he n v hst => absurd hst (he.1.1 n v)).mono (fun _ _ h => h) fun _ _ _ =>
    trivial

theorem sat_notStart {α : Type} {p : Py α} (h : Only notStart p) :
    Sat log (Guard cfg) (fun _ _ => True) (fun _ _ => True) p past := by
  have hk :=
    h.keeps (T := log) (I := fun _ => True) (s := past) (fun _ _ _ _ _ _ _ => trivial) trivial
  exact hk.weaken fun s e he n v hst => absurd hst (he.1 n v)

theorem generateMac_sat {I : PyTrace → Prop} (hI : Lasting I) (hs : I past) :
    Sat log (Guard cfg) (fun s mac => I s ∧ ∃ a b c, mac = macText a b c) (fun _ _ => True)
      generateMac past := by
  have hr : ∀ {past}, I past →
      Sat log (Guard cfg) (fun s _ => I s) (fun _ _ => True) (randbelow 256) past := fun hs =>
    sat_quiet (only_call (quiet_observes _ trivial) fun _ => only_ret _) hI hs
  refine Sat.seq (hr hs) fun s a hs => Sat.seq (hr hs) fun s b hs => Sat.seq (hr hs) fun s c hs =>
    ?_
  exact ⟨hs, a, b, c, rfl⟩

theorem configureCloudInit_pins (spec : VMSpec) (v : Int) (mac : String) :
    Sat log (Guard cfg) (fun s _ => Pinned v mac s) (fun _ _ => True)
      (configureCloudInit spec v (some s!"virtio={mac},bridge={spec.bridge}")) past := by
  unfold configureCloudInit
  refine Sat.seq (sat_quiet (I := fun _ => True)
    (only_unlockedWithin _ _ _ (quiet_allows [] []) trivial)
    (fun _ _ _ _ => trivial) trivial) fun s _ _ => ?_
  refine (sat_bind _ _ _).mpr ((sat_pve _).mpr ⟨nofun, ?_⟩)
  rintro (x | x) s' rfl
  · trivial
  · exact ⟨s, [], _, _, _, x, rfl, List.mem_cons_self, fun ev he => absurd he List.not_mem_nil⟩

theorem configureVm_sat (job : Uuid) (runtime : AgentRuntime) (spec : VMSpec) (v : Int)
    (hc : runtime.runtimeClass = "sandbox") :
    Sat log (Guard cfg)
      (fun s om => ∃ a b c, Pinned v (macText a b c) s ∧
        om = Dict.set runtime.ownershipMeta "sandbox_mac" (.str (macText a b c)))
      (fun _ _ => True) (configureVm job runtime spec v) past := by
  have hstep :=
    fun seq step state detail => only_recordStep job seq step state detail (quiet_allows [step] [])
  have htrue : Lasting (fun _ => True) := fun _ _ _ _ => trivial
  unfold configureVm
  refine Sat.seq (sat_quiet (hstep _ _ _ _) htrue trivial) fun s _ _ => ?_
  refine Sat.seq (sat_notStart (only_configureCloudInit _ _ _ _ (notStart_allows [] []) trivial
    nofun))
    fun s _ _ => ?_
  rw [if_pos hc]
  refine Sat.seq (generateMac_sat htrue trivial) fun s mac hs => ?_
  obtain ⟨-, a, b, c, rfl⟩ := hs
  refine Sat.seq (configureCloudInit_pins spec v _) fun s _ hs => ?_
  refine Sat.seq (sat_quiet (only_call (quiet_db _) fun _ => only_ret _) (pinned_lasting v _) hs)
    fun s _ hs => ?_
  refine Sat.seq (sat_quiet (hstep _ _ _ _) (pinned_lasting v _) hs) fun s _ hs => ?_
  exact ⟨a, b, c, hs, rfl⟩

theorem sandboxMac_pinned {om : Dict} {mac : String} (hm : mac ≠ "") (node : String) (v : Int) :
    sandboxMac (Dict.set om "sandbox_mac" (.str mac)) node v = pure mac := by
  unfold sandboxMac
  have ht : (Json.str mac).truthy = true := by simpa [Json.truthy] using hm
  rw [Dict.get?_set_self, Option.getD_some, Json.orElse, if_pos ht]
  split
  next he => exact absurd (Json.str.inj he) hm
  next => rfl

theorem allocate_sat (p : Pool) :
    Sat log (fun _ _ => True) (fun _ x => x.1 ∈ p.addresses.map ipText) (fun _ _ => True)
      (allocate p) past := by
  unfold allocate activeLeaseIps
  simp only [sat_bind, sat_searchReservation, sat_searchLeases, sat_pure, true_and]
  rintro (x | rows) s -
  · trivial
  · rintro (x | leases) s' -
    · trivial
    · refine (allocateLoop_sat (I := fun _ => True) (fun _ _ _ => trivial)
        (fun _ _ _ _ _ _ => trivial) _
        (fun _ hi => hi) none trivial).mono (fun _ x hx => hx.2.pool) fun _ _ _ => trivial

theorem createFor_sat (ip mac host work agent : String) :
    Sat log (fun _ _ => True) (fun _ x => x.ip = ip ∧ x.mac = macNorm mac) (fun _ _ => True)
      (createFor cfg ip mac host work agent) past := by
  unfold createFor
  refine Sat.seq (Q := fun _ _ => True) ?_ fun s u _ => ⟨rfl, rfl⟩
  have ho :=
    only_createReservation (φ := fun _ => True) cfg ip mac host (reservationText work agent host)
    trivial trivial fun _ => trivial
  exact (ho.keeps (T := log) (I := fun _ => True) (fun _ _ _ _ _ _ _ => trivial) trivial).weaken
    fun _ _ _ => trivial

theorem deleteReservation_any (u : String) :
    Sat log (fun _ _ => True) (fun _ _ => True) (fun _ _ => True) (deleteReservation u) past :=
  ((only_deleteReservation (φ := fun _ => True) u trivial trivial).keeps (T := log)
    (I := fun _ => True)
    (fun _ _ _ _ _ _ _ => trivial) trivial).weaken fun _ _ _ => trivial

theorem reserveForMac_sat (ip mac host work agent : String) (existing : Option String) :
    Sat log (fun _ _ => True) (fun _ x => x.ip = ip ∧ x.mac = macNorm mac) (fun _ _ => True)
      (reserveForMac cfg ip mac host work agent existing) past := by
  have hc : ∀ {past : PyTrace}, Sat log (fun _ _ => True)
      (fun _ x => x.ip = ip ∧ x.mac = macNorm mac) (fun _ _ => True)
      (createFor cfg ip mac host work agent) past := createFor_sat ip mac host work agent
  unfold reserveForMac
  split
  · trivial
  · split
    next u hu =>
        refine (sat_bind _ _ _).mpr (sat_searchReservation.mpr ⟨trivial, ?_⟩)
        rintro (x | rows) s -
        · trivial
        · rw [ends_ok]
          split
          · split
            · exact ⟨rfl, rfl⟩
            · exact Sat.seq (deleteReservation_any u) fun _ _ _ => hc
          · exact Sat.seq (deleteReservation_any u) fun _ _ _ => hc
    · exact hc

theorem sat_stage {α : Type} {p : Py α} {I : PyTrace → Prop} {Q : α → Prop} (ho : Only quiet p)
    (hI : Lasting I)
    (hq : Sat log (fun _ _ => True) (fun _ a => Q a) (fun _ _ => True) p past) (hs : I past) :
    Sat log (Guard cfg) (fun s a => I s ∧ Q a ∧ ∃ seg, s = past ++ seg ∧
      Exec anything () p seg () (.ret a))
      (fun _ _ => True) p past := by
  have hquiet : Sat log (Guard cfg) _ _ p past := sat_quiet ho hI hs
  have h := (hquiet.and hq).and (sat_segment p past)
  exact (h.weaken fun s e he => he.1.1).mono (fun s a hs => ⟨hs.1.1, hs.1.2, hs.2⟩) fun _ _ _ =>
    trivial

theorem reserveAddress_sat {pool : Pool} (hp : newService cfg = .ret pool) (runtime : AgentRuntime)
    (om : Dict)
    (v : Int) (a b c : Fin 256) (hs : Pinned v (macText a b c) past) :
    Sat log (Guard cfg) (fun s _ => Pinned v (macText a b c) s ∧ Reserved cfg (macText a b c) s)
      (fun _ _ => True)
      (reserveAddress cfg pool runtime om v (macText a b c)) past := by
  have hI := pinned_lasting v (macText a b c)
  unfold reserveAddress
  refine Sat.seq (sat_stage (only_allocate pool (quiet_allows [] [])) hI (allocate_sat pool) hs)
    fun s x hs => ?_
  obtain ⟨ip, existing⟩ := x
  obtain ⟨hs, hip, sa, rfl, hxa⟩ := hs
  have hr := only_reserveForMac (φ := quiet) cfg ip (macText a b c) (sandboxHost runtime v)
    (workUid om runtime.provisioningRequestId) (String.ofList (runtime.acmsAgentId.toList.take 48))
    existing
    (quiet_kea _) (quiet_kea _) (quiet_kea _) (fun _ _ => quiet_kea _) fun _ => quiet_kea _
  refine Sat.seq (sat_stage hr hI (reserveForMac_sat _ _ _ _ _ _) hs) fun s rec_ hs => ?_
  obtain ⟨hs, ⟨hrip, hrmac⟩, sr, rfl, hxr⟩ := hs
  have hv := only_verifyReserved (φ := quiet) ip (quiet_kea _)
  refine Sat.seq (sat_stage (Q := fun _ => True) hv hI ?_ hs) fun s _ hs => ?_
  · exact (hv.keeps (T := log) (I := fun _ => True) (fun _ _ _ _ _ _ _ => trivial) trivial).weaken
      fun _ _ _ => trivial
  obtain ⟨hs, -, sv, rfl, hxv⟩ := hs
  have hres : Reserved cfg (macText a b c) (past ++ sa ++ sr ++ sv) :=
    ⟨pool, ip, existing, _, _, _, _, rec_, past, sa, sr, sv,
      [], by simp, hp, hip, hxa, hxr, hxv, hrip,
      hrmac ▸ macNorm_macText a b c⟩
  have hboth := hI.and (reserved_lasting cfg (macText a b c))
  refine Sat.seq (sat_quiet (only_call (quiet_db _) fun _ => only_ret _) hboth ⟨hs, hres⟩)
    fun s _ hs => ?_
  exact Sat.seq (sat_quiet (only_event _ _ _ _ (quiet_allows [] _)) hboth hs) fun s _ hs => hs

theorem newService_cases (cfg : Settings) :
    (∃ p, newService cfg = .ret p) ∨ ∃ x, newService cfg = .raise x := by
  cases h : newService cfg with
  | ret p => exact .inl ⟨p, rfl⟩
  | raise x => exact .inr ⟨x, rfl⟩
  | call e k =>
      have ho := only_newService (φ := fun _ => False) cfg
      rw [h] at ho
      exact absurd ho.1 id

theorem reserveSandbox_sat (job : Uuid) (runtime : AgentRuntime) (node : String) (v : Int)
    (a b c : Fin 256)
    (hs : Pinned v (macText a b c) past) :
    Sat log (Guard cfg) (fun s _ => Boot cfg v s) (fun _ _ => True)
      (reserveSandbox cfg job runtime (Dict.set runtime.ownershipMeta "sandbox_mac"
        (.str (macText a b c))) node v)
      past := by
  have hstep :=
    fun seq step state detail => only_recordStep job seq step state detail (quiet_allows [step] [])
  have hI := pinned_lasting v (macText a b c)
  have hboth := hI.and (reserved_lasting cfg (macText a b c))
  unfold reserveSandbox
  refine Sat.seq (sat_quiet (hstep _ _ _ _) hI hs) fun s _ hs => ?_
  rw [sandboxMac_pinned (macText_ne_empty a b c)]
  refine Sat.seq (Q := fun s m => m = macText a b c ∧ Pinned v (macText a b c) s) ⟨rfl, hs⟩
    fun s m hs => ?_
  obtain ⟨rfl, hs⟩ := hs
  split
  next hen =>
      rcases newService_cases cfg with ⟨pool, hp⟩ | ⟨x, hx⟩
      · rw [hp]
        refine Sat.seq (Q := fun s p => p = pool ∧ Pinned v (macText a b c) s) ⟨rfl, hs⟩
          fun s p hs => ?_
        obtain ⟨rfl, hs⟩ := hs
        refine Sat.seq (Q := fun s _ => Pinned v (macText a b c) s ∧ Reserved cfg (macText a b c) s)
          ?_ fun s ip hs => ?_
        · refine (sat_tryCatch _ _ _).mpr ((reserveAddress_sat hp runtime _ v a b c hs).mono
            (fun _ _ h => h) ?_)
          intro s x _
          -- a refusal is recorded and fails the job
          split
          · refine Sat.seq (sat_quiet (I := fun _ => True) (hstep _ _ _ _) (fun _ _ _ _ => trivial)
              trivial)
              fun s _ _ => ?_
            exact Sat.seq (sat_quiet (I := fun _ => True) (only_event _ _ _ _ (quiet_allows [] _))
              (fun _ _ _ _ => trivial) trivial) fun s _ _ => trivial
          · trivial
        · refine (sat_quiet (hstep _ _ _ _) hboth hs).mono (fun s _ hs => ?_) fun _ _ h => h
          exact ⟨hen, macText a b c, hs.1, hs.2⟩
      · rw [hx]
        trivial
  · exact Sat.seq (sat_quiet (hstep _ _ _ _) hI hs) fun s _ _ => trivial

def Booted (past : PyTrace) : Prop := ∃ n v, ∃ a : Except PyExc Json, ⟨.pve (.start n v), a⟩ ∈ past

theorem sat_booted {α : Type} {p : Py α} (h : Only notStart p) (hs : Booted past) :
    Sat log (Guard cfg) (fun s _ => Booted s) (fun _ _ => True) p past := by
  have hk := h.keeps (T := log) (I := Booted) (fun s e a s' _ hi hl => by
    cases hl
    obtain ⟨n, v, x, hm⟩ := hi
    exact ⟨n, v, x, List.mem_append_left _ hm⟩) hs
  exact (hk.weaken fun s e he n v hst => absurd hst (he.1 n v)).mono (fun _ _ h => h) fun _ _ _ =>
    trivial

theorem bootVm_sat (job : Uuid) (runtime : AgentRuntime) (node : String) (v : Int)
    (hs : Boot cfg v past) :
    Sat log (Guard cfg) (fun s _ => Booted s) (fun _ _ => True) (bootVm job runtime node v)
      past := by
  have hstep :=
    fun seq step state detail => only_recordStep job seq step state detail
      (notStart_allows [step] [])
  obtain ⟨hen, mac, hp, hr⟩ := hs
  have hboth := (pinned_lasting v mac).and (reserved_lasting cfg mac)
  unfold bootVm start
  refine Sat.seq (sat_quiet (only_recordStep _ _ _ _ _ (quiet_allows _ [])) hboth ⟨hp, hr⟩)
    fun s _ hs => ?_
  refine Sat.seq (Q := fun s _ => Booted s) ?_ fun s _ hs => ?_
  · refine (sat_bind _ _ _).mpr ((sat_pve _).mpr ⟨fun n v' he => ?_, ?_⟩)
    · cases he
      exact ⟨hen, mac, hs.1, hs.2⟩
    · rintro (x | x) s' rfl
      · trivial
      · exact ⟨node, v, .ok x, List.mem_append_right _ List.mem_cons_self⟩
  · refine sat_booted ?_ hs
    refine Only.bind (only_waitForIp _ _ _ (notStart_allows [] []) trivial) fun ip => ?_
    split
    · exact only_raised _ _
    · refine Only.bind (only_call nofun fun _ => only_ret _) fun _ => ?_
      refine Only.bind (hstep _ _ _ _) fun _ => Only.bind (hstep _ _ _ _) fun _ => ?_
      refine Only.bind ?_ fun _ => hstep _ _ _ _
      exact only_runCloneHygiene _ _ _ _ (notStart_allows [] _) trivial trivial (fun _ => nofun)
        nofun

theorem provisionVm_sat (job : Uuid) (runtime : AgentRuntime)
    (hc : runtime.runtimeClass = "sandbox") :
    Sat log (Guard cfg) (fun s _ => Booted s) (fun _ _ => True) (provisionVm cfg job runtime)
      past := by
  unfold provisionVm
  dsimp only
  refine Sat.seq (sat_notStart (only_validate _ _ (notStart_allows _ []))) fun s _ _ => ?_
  refine Sat.seq (sat_notStart (only_placeVm _ _ _ (notStart_allows _ _))) fun s node _ => ?_
  refine Sat.seq (sat_notStart (only_cloneVm _ _ _ _ _ (notStart_allows _ _) trivial
    (fun _ => trivial) fun _ _ => nofun)) fun s x _ => ?_
  obtain ⟨v, spec⟩ := x
  refine Sat.seq (configureVm_sat job runtime spec v hc) fun s om hs => ?_
  obtain ⟨a, b, c, hs, rfl⟩ := hs
  rw [if_pos hc]
  refine Sat.seq (reserveSandbox_sat job runtime node v a b c hs) fun s _ hs => ?_
  exact Sat.seq (bootVm_sat job runtime node v hs) fun s _ hs => hs

theorem completeJob_sat (job : Uuid) (runtime : AgentRuntime)
    (hc : runtime.runtimeClass = "sandbox") :
    Sat log (Guard cfg) (fun s _ => Booted s) (fun _ _ => True) (completeJob cfg job runtime)
      past := by
  unfold completeJob
  refine Sat.seq (provisionVm_sat job runtime hc) fun s x hs => ?_
  refine sat_booted ?_ hs
  refine Only.bind (only_bootstrapHermes _ _ (notStart_allows _ []) (fun _ _ _ => nofun)
    (fun _ _ => nofun) nofun) fun _ => ?_
  refine Only.bind (only_call nofun fun _ => only_ret _) fun _ => ?_
  refine Only.bind (only_call nofun fun _ => only_ret _) fun _ => ?_
  exact Only.bind (only_event _ _ _ _ (notStart_allows [] _)) fun _ => only_commit nofun nofun

variable {R : Type} {rem : Remote R} {i : Nat} {jid rid : Uuid} {r : AgentRuntime}
  {job : ProvisioningJob}
  {w w' : World R}

/-- The failure is recorded: the job is FAILED and its runtime in ERROR. -/
def Failed (db : Db) (jid rid : Uuid) : Prop :=
  (∃ j, db.job? jid = some j ∧ j.state = .failed) ∧ ∃ r, db.runtime? rid = some r ∧
    r.actualState = .error

theorem failed_of_reflects {x : PyExc} {y : Record}
    (h : Reflects i jid rid w (.settled (y.failed rid x))) :
    Failed w.db jid rid :=
  ⟨⟨_, h.job, rfl⟩, _, h.row, rfl⟩

theorem failJob_sat (x : PyExc) {L : Ledger} (h : Reflects i jid rid w L) (past : PyTrace) :
    Sat (traced (World.step rem i)) (fun s e => Guard cfg s.2 e) (fun s _ => Failed s.1.db jid rid)
      (fun _ _ => False)
      (failJob jid rid x) (w, past) := by
  have hrow : L.now.row.runtimeId = rid := by
    obtain ⟨dirty, hh⟩ := h.holds
    exact hh.key.2
  have hbooks : Sat (traced (booked jid rid)) (fun _ e => RunCall jid rid e)
      (fun s _ => s.1 = .settled (L.now.failed rid x)) (fun _ _ => False) (failJob jid rid x)
        (L, past) :=
    sat_calls (failJob_books x fun _ _ => rfl) (hrow ▸ only_failJob jid L.now.row x)
  have hsat :=
    sat_reflected (T := World.step rem i) (s := w) (fun _ _ _ _ _ hm he hs => reflects_run hm he hs)
      hbooks h
  have hquiet : Only notStart (failJob jid rid x) := by
    refine Only.bind (only_call nofun fun _ => only_ret _) fun _ => ?_
    refine Only.bind (only_call nofun fun _ => only_ret _) fun _ => ?_
    exact Only.bind (only_call nofun fun _ => only_ret _) fun _ => only_commit nofun nofun
  have hguard : Sat log (Guard cfg) _ _ (failJob jid rid x) past := sat_notStart hquiet
  refine ((hsat.and (hguard.traced (T := World.step rem i) w)).weaken fun s e he => he.2).mono ?_ ?_
  · rintro s a ⟨⟨L', hL, rfl⟩, -⟩
    exact failed_of_reflects hL
  · rintro s y ⟨⟨L', -, hf⟩, -⟩
    exact hf

theorem runningJob_sat {L : Ledger} (hc : r.runtimeClass = "sandbox") (hk : r.runtimeId = rid)
    (h : Reflects i jid rid w L) (past : PyTrace) :
    Sat (traced (World.step rem i)) (fun s e => Guard cfg s.2 e)
      (fun s _ => Booted s.2 ∨ Failed s.1.db jid rid)
      (fun _ _ => False) (tryCatch (completeJob cfg jid r) (failJob jid r.runtimeId))
        (w, past) := by
  subst hk
  have hkeep := (only_completeJob jid r cfg).keeps (T := traced (World.step rem i))
    (I := fun s => ∃ L, Reflects i jid r.runtimeId s.1 L) (s := (w, past))
    (fun s e a s' he ⟨L, hL⟩ hs => ⟨_, (reflects_step hL he hs.1).2⟩) ⟨L, h⟩
  have hrun : Sat log (Guard cfg) _ _ (completeJob cfg jid r) past := completeJob_sat jid r hc
  have hboth := (hrun.traced (T := World.step rem i) w).and hkeep
  refine (sat_tryCatch _ _ _).mpr ((hboth.weaken fun s e he => he.1).mono (fun s _ hs => .inl hs.1)
    fun s x hs => ?_)
  obtain ⟨-, L', hL'⟩ := hs
  exact (failJob_sat x hL' s.2).mono (fun s _ hs => .inr hs) fun _ _ h => h

theorem runJob_sat (hr : Ready w.db (w.sessions i) rid r)
    (hj : JobReady w.db (w.sessions i) jid job)
    (hrid : job.runtimeId = rid) (hc : r.runtimeClass = "sandbox") :
    Sat (traced (World.step rem i)) (fun s e => Guard cfg s.2 e)
      (fun s _ => job.state = .queued → Booted s.2 ∨ Failed s.1.db jid rid) (fun _ _ => False)
      (runJob cfg jid) (w, []) := by
  unfold runJob
  refine (sat_bind _ _ _).mpr ⟨nofun, fun found s hs => ?_⟩
  obtain ⟨rfl, hat, js, hw⟩ := jobReady_get hs.1 hj
  have hr₁ : Ready s.1.db (s.1.sessions i) rid r := by
    rw [hw, setSession_self]
    exact ready_jobs hr js
  change Sat _ _ _ _ (ite _ _ _) _
  split
  next hq => exact fun h => absurd h hq
  next hq =>
      refine (sat_bind _ _ _).mpr ⟨nofun, fun _ s₂ hs₂ => ?_⟩
      have hw₂ : s₂.1 = s.1.setSession i ((s.1.sessions i).modifyJob jid _) := hs₂.1
      have hat₂ : JobHolds s₂.1.db (s₂.1.sessions i) jid job { job with state := .running } := by
        rw [hw₂, setSession_self]
        exact hat.modify jobTracked_running
      have hr₂ : Ready s₂.1.db (s₂.1.sessions i) rid r := by
        rw [hw₂, setSession_self]
        exact ready_jobs hr₁ _
      rw [hrid]
      refine (sat_bind _ _ _).mpr ⟨nofun, fun got s₃ hs₃ => ?_⟩
      obtain ⟨rfl, hh⟩ := ready_get hs₃.1 hr₂
      have hat₃ := jobHolds_getRuntime hs₃.1 hat₂
      refine Sat.seq (Q := fun s _ => ∃ L, Reflects i jid rid s.1 L) ?_ fun s₄ _ hs₄ => ?_
      · refine (sat_bind _ _ _).mpr ⟨nofun, fun a s₄ hs₄ => ?_⟩
        obtain ⟨rfl, hh₄⟩ := holds_flush hs₄.1 hh
        obtain ⟨-, -, hw₄⟩ := hs₄.1
        refine ⟨nofun, fun _ s₅ hs₅ => ⟨_, reflects_committed (r := r)
          (j := { job with state := .running }) ?_ ?_ ?_ ?_⟩⟩
        · exact (holds_commit hs₅.1 hh₄).1
        · obtain ⟨t, -, hw₅⟩ := hs₅.1
          have hset := setSession_self s₄.1 i { s₄.1.sessions i with txn := [] }
          have hj₄ : JobHolds s₄.1.db (s₄.1.sessions i) jid { job with state := .running }
              { job with state := .running } := by
            rw [hw₄, setSession_self]
            exact hat₃.flush _
          rw [hw₅]
          simp only [hset]
          exact hj₄.commit t
        · rw [(step_commit hs₅.1).1, hw₄, setSession_self]
          rfl
        · rw [(step_commit hs₅.1).1]
      · obtain ⟨L, hL⟩ := hs₄
        exact (runningJob_sat hc hr.key hL s₄.2).mono (fun s _ h _ => h) fun _ _ h => h

/-- Fail-closed boot of a sandbox: a start is sent only behind the guard, and a
job that has not sent one ends FAILED with its runtime in ERROR. -/
theorem sandbox_boot_fail_closed {tr : PyTrace} {q : Py Unit}
    (hx : Exec (World.step rem i) w (runJob cfg jid) tr w' q) (hr : Ready w.db (w.sessions i) rid r)
    (hj : JobReady w.db (w.sessions i) jid job) (hrid : job.runtimeId = rid)
    (hc : r.runtimeClass = "sandbox") :
    (∀ before n v a after, tr = before ++ ⟨.pve (.start n v), a⟩ :: after → Boot cfg v before) ∧
      (job.state = .queued → (∀ e k, q ≠ .call e k) → ¬ Booted tr → Failed w'.db jid rid) := by
  have hsat : Sat (traced (World.step rem i)) (fun s e => Guard cfg s.2 e) _ _ (runJob cfg jid)
      (w, []) :=
    runJob_sat hr hj hrid hc
  constructor
  · intro before n v a after htr
    subst htr
    obtain ⟨u, u', k, hb, -, -⟩ := hx.split
    exact (hsat.exec (hb.traced [])).1 n v rfl
  · intro hq hend hnot
    have hfin := hsat.exec (hx.traced [])
    cases q with
    | ret a => exact (hfin hq).resolve_left hnot
    | raise x => exact False.elim hfin
    | call e k => exact absurd rfl (hend e k)

def gateOn : Settings := { sandboxOpnsensePassword := "pw", sandboxNetworkEnabled := 1 }

def sandboxId : Uuid := ⟨1#128⟩

def sandboxJobId : Uuid := ⟨2#128⟩

def sandbox : AgentRuntime :=
  { runtimeId := sandboxId, acmsAgentId := "agent-1", provisioningRequestId := "req-1", name := "sbx-1"
    runtimeClass := "sandbox", createdByAgentRuntimeManager := true }

def sandboxJob : ProvisioningJob :=
  { jobId := sandboxJobId, requestId := "req-1", runtimeId := sandboxId, requestedBy := "acms" }

def compliant : Oracle Table where
  pve k c :=
    match c with
    | .nextid => some (.ok (.int 700), k)
    | _ => some (.ok .null, k)
  kea k c := k.answer (.kea c)
  neigh _ _ := none

def sandboxDb : Db := { runtimes := [⟨sandbox, 0⟩], jobs := [sandboxJob] }

def bootRun : PyTrace × Machine Table × Py Unit :=
  play (Machine.answer compliant 0) 200 ⟨sandboxDb, [{}], 0, [], ⟨[], []⟩⟩
    (runJob gateOn sandboxJobId)

def isStart : Event Eff Ans → Bool
  | ⟨.pve (.start ..), _⟩ => true
  | _ => false

theorem bootRun_starts : bootRun.1.any isStart = true := by decide +kernel

theorem bootRun_guarded :
    bootRun.1.any isStart = true ∧
      ∀ before n v a after, bootRun.1 = before ++ ⟨.pve (.start n v), a⟩ :: after →
        Boot gateOn v before := by
  refine ⟨bootRun_starts, ?_⟩
  have hx := play_exec (Machine.world (fun _ => ())) (Machine.answer compliant 0)
    (fun m e a m' => Machine.answer_step compliant.follows_any 0 m e a m') 200
    ⟨sandboxDb, [{}], 0, [], ⟨[], []⟩⟩ (runJob gateOn sandboxJobId)
  have hr : Ready sandboxDb {} sandboxId sandbox :=
    ⟨rfl, rfl, fun o ho => absurd ho List.not_mem_nil, fun o ho => absurd ho List.not_mem_nil,
      fun v hv => absurd hv List.not_mem_nil⟩
  have hj : JobReady sandboxDb {} sandboxJobId sandboxJob :=
    ⟨rfl, rfl, fun o ho => absurd ho List.not_mem_nil, fun o ho => absurd ho List.not_mem_nil,
      fun v hv => absurd hv List.not_mem_nil⟩
  exact (sandbox_boot_fail_closed hx hr hj rfl rfl).1

end ServerManager.SandboxBoot
