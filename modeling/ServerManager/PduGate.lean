import ServerManager.ProxmoxVm

namespace ServerManager.PduGate

open Interaction PyJson PyText ProxmoxVm

inductive Exc
  | actuationBlocked (msg : String)
  /-- `PduError` and its subclasses. -/
  | pdu (cls msg : String) (status : Option Nat)
  | http (status : Nat) (detail : String)
  | other (cls msg : String)

/-- `getattr(e, "status_code", None)`. -/
def Exc.statusCode : Exc → Option Nat
  | .pdu _ _ status => status
  | .http status _ => some status
  | _ => none

def Exc.str : Exc → String
  | .actuationBlocked msg => msg
  | .pdu _ msg _ => msg
  | .http status detail => s!"{status}: {detail}"
  | .other _ msg => msg

/-- What `urlopen` gives: a body, an HTTP error with its body, a failing
connection, or another exception. -/
inductive Answer
  | body (text : String)
  | httpError (code : Nat) (text : String)
  | unreachable (msg : String)
  | raised (cls msg : String)

inductive Call
  | client
  | send (method path : String) (body : Option Dict)

/-- `_client()` fails where the credentials are not configured. -/
def Reply : Call → Type
  | .client => Except Exc Unit
  | .send .. => Answer

abbrev Pdu := Prog Call Reply Exc

abbrev PduTrace := Trace Call Reply

def client : Pdu Unit :=
  .call .client fun a : Except Exc Unit =>
    match a with
    | .ok _ => .ret ()
    | .error x => .raise x

def noGet (x : Json) : Exc :=
  .other "AttributeError" s!"'{pyTypeName x}' object has no attribute 'get'"

/-- The error code that a refusal's JSON body names; what the reading of it raises. -/
def errorCode (detail : String) : Except Exc Json :=
  match loads detail with
  | none => .ok .null
  | some (.obj fs) =>
      match (Dict.get? fs "error").getD (.obj []) with
      | .obj gs => .ok ((Dict.get? gs "code").getD .null)
      | x => .error (noGet x)
  | some x => .error (noGet x)

/-- `text in code`. -/
def contains (text : String) : Json → Except Exc Bool
  | .str s => .ok (containsText s text)
  | .arr xs => .ok (xs.any (fun x => x.isStr text))
  | .obj fs => .ok (Dict.has fs text)
  | x => .error (.other "TypeError" s!"argument of type '{pyTypeName x}' is not iterable")

/-- `code and ("PROTECTED" in code or "SELF_HOST" in code)`. -/
def protectedCode (code : Json) : Except Exc Bool :=
  if code.truthy then do
    let named ← contains "PROTECTED" code
    if named then pure true else contains "SELF_HOST" code
  else pure false

def refusal (status : Nat) (text : String) : Exc :=
  let detail := String.ofList (text.toList.take 400)
  match errorCode detail with
  | .error x => x
  | .ok code =>
      if code.isStr "TARGET_IDENTITY_MISMATCH" then .pdu "PduIdentityMismatch" detail (some status)
      else
        match protectedCode code with
        | .error x => x
        | .ok true => .pdu "PduProtectedPolicy" detail (some status)
        | .ok false =>
            if status = 401 ∨ status = 403 then .pdu "PduAuth" detail (some status)
            else .pdu "PduError" s!"HTTP {status}: {detail}" (some status)

def received : Answer → Except Exc Json
  | .body text =>
      match loads (if text = "" then "\x7b\x7d" else text) with
      | some x => .ok x
      | none => .error (.other "JSONDecodeError" "Expecting value")
  | .httpError status text => .error (refusal status text)
  | .unreachable msg => .error (.pdu "PduError" msg none)
  | .raised cls msg => .error (.other cls msg)

def orRaise : Except Exc Json → Pdu Json
  | .ok x => .ret x
  | .error e => .raise e

/-- `PduManagerClient._call`. -/
def call (method path : String) (body : Option Dict) : Pdu Json :=
  .call (.send method path body) fun a : Answer => orRaise (received a)

def planAction (assetId action : String) : Pdu Json :=
  call "POST" "/action-plans" (some [("asset_id", .str assetId), ("action", .str action)])

/-- The parameters of `submit_action`; the first four have no default. -/
def submitActionParams : List String :=
  ["asset_id", "action", "reason", "request_id", "correlation_id", "source_service",
    "upstream_operation_id",
    "admin_override", "acknowledge_protected_device", "acknowledge_controller_may_go_offline"]

def optional (kwargs : Dict) (key : String) : Dict :=
  let x := (Dict.get? kwargs key).getD .null
  if x.truthy then [(key, x)] else []

def flagged (kwargs : Dict) (key : String) : Dict :=
  if ((Dict.get? kwargs key).getD .null).truthy then [(key, .bool true)] else []

/-- `submit_action(**kwargs)`: Python binds the keywords to the parameters first. -/
def submitAction (kwargs : Dict) : Pdu Json :=
  let arg := fun key => (Dict.get? kwargs key).getD .null
  match kwargs.find? (fun p => !submitActionParams.contains p.1) with
  | some p =>
      .raise (.other "TypeError"
        s!"PduManagerClient.submit_action() got an unexpected keyword argument '{p.1}'")
  | none =>
      match (submitActionParams.take 4).find? (fun key => !Dict.has kwargs key) with
      | some key =>
          .raise
            (.other "TypeError"
            s!"PduManagerClient.submit_action() missing 1 required positional argument: '{key}'")
      | none =>
          let path := (arg "asset_id").pyStr
          call "POST" s!"/assets/{path}/actions"
            (some ([("action", arg "action"), ("reason", arg "reason"),
              ("request_id", arg "request_id")] ++
              optional kwargs "correlation_id" ++ optional kwargs "source_service" ++
              optional kwargs "upstream_operation_id" ++ flagged kwargs "admin_override" ++
              flagged kwargs "acknowledge_protected_device" ++
              flagged kwargs "acknowledge_controller_may_go_offline"))

structure PowerActionRequest where
  assetId : String
  action : String
  reason : String
  requestId : String
  correlationId : Option String := none
  sourceService : String := "svc-server-manager"
  assetLong : 6 ≤ assetId.length
  actionLong : 2 ≤ action.length ∧ action.length ≤ 16
  reasonLong : 4 ≤ reason.length
  requestLong : 8 ≤ requestId.length

/-- `flag` is `SERVER_MANAGER_PDU_ACTUATION`, where it is set. -/
def actuationEnabled (flag : Option String) : Bool := flag.getD "" == "1"

def blockedText : String := "PDU actuation disabled (SERVER_MANAGER_PDU_ACTUATION != 1)"

def planPowerAction (assetId action : String) : Pdu Json := do
  client
  planAction assetId action

def submitKwargs (body : PowerActionRequest) (action : String) : Dict :=
  [("asset_id", .str body.assetId), ("action", .str action), ("reason", .str body.reason),
    ("request_id", .str body.requestId), ("correlation_id",
    (body.correlationId.map Json.str).getD .null),
    ("source_service", .str body.sourceService), ("expected_asset_id", .str body.assetId)]

def ensurePoweredOn (flag : Option String) (body : PowerActionRequest) : Pdu Json := do
  if !actuationEnabled flag then .raise (.actuationBlocked blockedText)
  else
    let plan ← planPowerAction body.assetId "on"
    match plan with
    | .obj fs =>
        if ((Dict.get? fs "current_state").getD .null).isStr "ON" then
          pure (.obj [("action", .str "none_needed"), ("asset_id", .str body.assetId),
            ("state", .str "ON")])
        else do
          client
          submitAction (submitKwargs body "on")
    | x => .raise (noGet x)

def requestReboot (flag : Option String) (body : PowerActionRequest) : Pdu Json := do
  if !actuationEnabled flag then .raise (.actuationBlocked blockedText)
  else
    client
    submitAction (submitKwargs body "reboot")

def pduError (e : Exc) : Exc :=
  let shown := e.str
  if e.statusCode = some 401 then .http 502 s!"PDU auth failure: {shown}"
  else if e.statusCode = some 409 then .http 409 s!"PDU identity mismatch: {shown}"
  else .http 502 s!"PDU error: {shown}"

def offText : String :=
  "OFF via SM is refused; protected-outlet policy forbids it (use PDU Manager directly with authorized flow)"

def answered : Exc → Pdu Json
  | .actuationBlocked msg => .raise (.http 403 msg)
  | e => .raise (pduError e)

def pduActionRoute (flag : Option String) (body : PowerActionRequest) : Pdu Json :=
  if body.action = "off" then .raise (.http 403 offText)
  else
    tryCatch (
      if body.action = "on" then ensurePoweredOn flag body
      else if body.action = "reboot" then requestReboot flag body
      else .raise (.http 422 s!"unsupported action {body.action}")) answered

/-- `POST /assets/{asset_id}/actions`. -/
def actuates : Call → Prop
  | .send "POST" path _ => startsWith path "/assets/" = true
  | _ => False

/-- The dry-run plan was obtained, and does not report the asset ON. -/
def plannedOff (tr : PduTrace) : Prop :=
  ∃ body text fs, ⟨.send "POST" "/action-plans" body, .body text⟩ ∈ tr ∧
    received (.body text) = .ok (.obj fs) ∧
    ((Dict.get? fs "current_state").getD .null).isStr "ON" = false

def Open (flag : Option String) (body : PowerActionRequest) (tr : PduTrace) : Prop :=
  flag = some "1" ∧ (body.action = "reboot" ∨ (body.action = "on" ∧ plannedOff tr))

/-- The one actuation request of a run, for the asset and with the guard. -/
def Guarded (body : PowerActionRequest) (tr : PduTrace) : Prop :=
  ∃ before fs a after, tr = before ++ ⟨.send "POST" s!"/assets/{body.assetId}/actions" (some fs),
    a⟩ :: after ∧
    Dict.get? fs "expected_asset_id" = some (.str body.assetId) ∧ ∀ ev ∈ before ++ after,
      ¬ actuates ev.1

def Refused (status : Nat) (q : Pdu Json) : Prop := ∃ detail, q = .raise (.http status detail)

structure Gated (flag : Option String) (body : PowerActionRequest) (tr : PduTrace) (q : Pdu Json) :
    Prop where
  sent : Open flag body tr → Guarded body tr
  unsent : ¬ Open flag body tr → ∀ ev ∈ tr, ¬ actuates ev.1
  disabled : flag ≠ some "1" → body.action = "on" ∨ body.action = "reboot" → Refused 403 q
  off : body.action = "off" → Refused 403 q
  unsupported : body.action ≠ "on" → body.action ≠ "off" → body.action ≠ "reboot" → Refused 422 q

variable {flag : Option String} {body : PowerActionRequest} {tr : PduTrace} {q : Pdu Json}

def inert (c : Call) : Prop := ¬ actuates c

theorem only_orRaise (a : Except Exc Json) : Only inert (orRaise a) := by
  cases a with
  | ok x => exact only_ret x
  | error x => exact only_raise x

theorem only_client : Only inert client := by
  refine only_call id fun a => ?_
  cases (a : Except Exc Unit) with
  | ok u => exact only_ret ()
  | error x => exact only_raise x

theorem only_planPowerAction (assetId action : String) :
    Only inert (planPowerAction assetId action) := by
  refine Only.bind only_client fun _ => only_call ?_ fun a => only_orRaise (received a)
  simp [inert, actuates, startsWith]

theorem submit_raises (body : PowerActionRequest) (action : String) :
    ∃ msg, submitAction (submitKwargs body action) = .raise (.other "TypeError" msg) := ⟨_, rfl⟩

theorem only_ensurePoweredOn : Only inert (ensurePoweredOn flag body) := by
  unfold ensurePoweredOn
  refine Only.ite (only_raise _) (Only.bind (only_planPowerAction _ _) fun plan => ?_)
  split
  · refine Only.ite (only_pure _) (Only.bind only_client fun _ => ?_)
    obtain ⟨msg, hraise⟩ := submit_raises body "on"
    rw [hraise]
    exact only_raise _
  · exact only_raise _

theorem only_requestReboot : Only inert (requestReboot flag body) := by
  unfold requestReboot
  refine Only.ite (only_raise _) (Only.bind only_client fun _ => ?_)
  obtain ⟨msg, hraise⟩ := submit_raises body "reboot"
  rw [hraise]
  exact only_raise _

theorem only_pduActionRoute : Only inert (pduActionRoute flag body) := by
  unfold pduActionRoute
  refine Only.ite (only_raise _) (Only.tryCatch ?_ fun x => ?_)
  · refine Only.ite only_ensurePoweredOn (Only.ite only_requestReboot (only_raise _))
  · cases x with
    | actuationBlocked msg => exact only_raise _
    | pdu cls msg status => exact only_raise _
    | http status detail => exact only_raise _
    | other cls msg => exact only_raise _

theorem never_actuates (hx : Exec anything () (pduActionRoute flag body) tr () q) : ∀ ev ∈ tr,
    ¬ actuates ev.1 :=
  only_pduActionRoute.of_mem hx

theorem Guarded.actuated (h : Guarded body tr) : ∃ ev ∈ tr, actuates ev.1 := by
  obtain ⟨before, fs, a, after, rfl, -, -⟩ := h
  refine ⟨_, List.mem_append_right _ List.mem_cons_self, ?_⟩
  have hpath : "/assets/".toList <+: s!"/assets/{body.assetId}/actions".toList := by
    simp only [String.toList_append, List.append_assoc]
    exact List.prefix_append _ _
  simp only [actuates, startsWith]
  exact List.isPrefixOf_iff_prefix.2 hpath

theorem enabled_iff : actuationEnabled flag = true ↔ flag = some "1" := by
  cases flag with
  | none => simp [actuationEnabled]
  | some s => simp [actuationEnabled]

theorem exec_raise {x : Exc} (hx : Exec anything () (.raise x : Pdu Json) tr () q) :
    q = .raise x := by
  cases hx
  rfl

theorem off_refused (ha : body.action = "off") :
    pduActionRoute flag body = .raise (.http 403 offText) := if_pos ha

theorem disabled_refused (hf : flag ≠ some "1") (ha : body.action = "on" ∨ body.action = "reboot") :
    pduActionRoute flag body = .raise (.http 403 blockedText) := by
  have hoff : actuationEnabled flag = false := by
    rw [← Bool.not_eq_true, enabled_iff]
    exact hf
  unfold pduActionRoute
  rcases ha with ha | ha
  · rw [ha, if_neg (by decide), if_pos rfl]
    simp only [ensurePoweredOn, hoff]
    rfl
  · rw [ha, if_neg (by decide), if_neg (by decide), if_pos rfl]
    simp only [requestReboot, hoff]
    rfl

theorem unsupported_answered (hon : body.action ≠ "on") (hoff : body.action ≠ "off")
    (hre : body.action ≠ "reboot") :
    ∃ detail, pduActionRoute flag body = .raise (.http 502 detail) := by
  unfold pduActionRoute
  rw [if_neg hoff, if_neg hon, if_neg hre]
  exact ⟨_, rfl⟩

/-- The gate decides as documented exactly for OFF, for ON and REBOOT with the
flag off, and for an ON whose plan fails or reports the asset ON. -/
theorem gated_iff (hx : Exec anything () (pduActionRoute flag body) tr () q) :
    Gated flag body tr q ↔
      body.action = "off" ∨ (flag ≠ some "1" ∧ (body.action = "on" ∨ body.action = "reboot")) ∨
        (body.action = "on" ∧ ¬ plannedOff tr) := by
  have hno := never_actuates hx
  have hopen : Gated flag body tr q → ¬ Open flag body tr := by
    intro h ho
    obtain ⟨ev, hm, ha⟩ := (h.sent ho).actuated
    exact hno ev hm ha
  constructor
  · intro h
    by_cases hoff : body.action = "off"
    · exact .inl hoff
    · by_cases hon : body.action = "on"
      · by_cases hf : flag = some "1"
        · exact .inr (.inr ⟨hon, fun hp => hopen h ⟨hf, .inr ⟨hon, hp⟩⟩⟩)
        · exact .inr (.inl ⟨hf, .inl hon⟩)
      · by_cases hre : body.action = "reboot"
        · exact .inr (.inl ⟨fun hf => hopen h ⟨hf, .inl hre⟩, .inr hre⟩)
        · -- any other action is answered with 502
          obtain ⟨detail, hraise⟩ : ∃ detail, pduActionRoute flag body = .raise (.http 502 detail) :=
            unsupported_answered hon hoff hre
          rw [hraise] at hx
          obtain ⟨detail', hq⟩ := h.unsupported hon hoff hre
          rw [exec_raise hx] at hq
          injection hq with hq
          injection hq with hq
          exact absurd hq (by decide)
  · intro h
    have hclosed : ¬ Open flag body tr := by
      rintro ⟨hf, ho⟩
      rcases h with hoff | ⟨hf', -⟩ | ⟨hon, hp⟩
      · rcases ho with ho | ⟨ho, -⟩
        · exact absurd (hoff.symm.trans ho) (by decide)
        · exact absurd (hoff.symm.trans ho) (by decide)
      · exact hf' hf
      · rcases ho with ho | ⟨-, ho⟩
        · exact absurd (hon.symm.trans ho) (by decide)
        · exact hp ho
    refine ⟨fun ho => absurd ho hclosed, fun _ => hno, fun hf ha => ?_, fun hoff => ?_,
      fun hon hoff hre => ?_⟩
    · rw [disabled_refused hf ha] at hx
      exact ⟨_, exec_raise hx⟩
    · rw [off_refused hoff] at hx
      exact ⟨_, exec_raise hx⟩
    · rcases h with h | ⟨-, h | h⟩ | ⟨h, -⟩
      · exact absurd h hoff
      · exact absurd h hon
      · exact absurd h hre
      · exact absurd h hon

def reboot : PowerActionRequest where
  assetId := "MIAM-00119"
  action := "reboot"
  reason := "authorized probe"
  requestId := "req-ok-0001"
  assetLong := by decide
  actionLong := by decide
  reasonLong := by decide
  requestLong := by decide

/-- The credentials are configured; the PDU Manager is not reached. -/
def configured (_ : Unit) : (c : Call) → Option (Reply c × Unit)
  | .client => some (Except.ok (), ())
  | .send .. => none

/-- With the flag on, an authorized reboot sends nothing. -/
theorem reboot_unsent :
    ¬ ∀ (flag : Option String) (body : PowerActionRequest) (tr : PduTrace) (q : Pdu Json),
      Exec anything () (pduActionRoute flag body) tr () q → q.ended = true →
        Gated flag body tr q := by
  intro h
  have hplay : Exec anything () (pduActionRoute (some "1") reboot) _ () _ :=
    play_exec (fun _ => ()) configured (fun _ _ _ _ _ => trivial) 3 ()
      (pduActionRoute (some "1") reboot)
  have hg := h _ _ _ _ hplay rfl
  obtain ⟨ev, hm, ha⟩ := (hg.sent ⟨rfl, .inl rfl⟩).actuated
  exact never_actuates hplay ev hm ha

def powerOn : PowerActionRequest where
  assetId := "MIAM-00119"
  action := "on"
  reason := "authorized probe"
  requestId := "req-ok-0001"
  assetLong := by decide
  actionLong := by decide
  reasonLong := by decide
  requestLong := by decide

def poweredText : String := "\x7b\"current_state\": \"ON\"\x7d"

def reportsOn : Json → Bool
  | .obj fs => ((Dict.get? fs "current_state").getD .null).isStr "ON"
  | _ => false

theorem received_powered : ∃ fs, received (.body poweredText) = .ok (.obj fs) ∧
    reportsOn (.obj fs) = true := by
  have hany : (loads poweredText).any reportsOn = true := by decide +kernel
  obtain ⟨x, hx, hon⟩ := (Option.any_eq_true _ _).mp hany
  cases x with
  | obj fs =>
      refine ⟨fs, ?_, hon⟩
      rw [received, if_neg (by decide), hx]
  | null | bool | int | float | str | arr => cases hon

/-- The plan is the only request of a call that finds the asset powered. -/
def planned : PduTrace :=
  [⟨.client, (Except.ok () : Except Exc Unit)⟩,
    ⟨.send "POST" "/action-plans" (some [("asset_id", .str "MIAM-00119"), ("action", .str "on")]), Answer.body poweredText⟩]

theorem powerOn_exec : Exec anything () (pduActionRoute (some "1") powerOn) planned ()
    (.ret (.obj [("action", .str "none_needed"), ("asset_id", .str "MIAM-00119"),
    ("state", .str "ON")])) := by
  have hany : ∀ (c : Call) (a : Reply c), anything () c a () := fun _ _ => trivial
  obtain ⟨fs, hreceived, hon⟩ := received_powered
  replace hon : ((Dict.get? fs "current_state").getD .null).isStr "ON" = true := hon
  refine .call (hany _ _) (.call (hany _ _) ?_)
  show Exec anything () (((orRaise (received (.body poweredText))) >>= _).handle answered) [] () _
  rw [hreceived]
  show Exec anything () ((if _ then _ else _ : Pdu Json).handle answered) [] () _
  rw [if_pos hon]
  exact .refl _ _

theorem powerOn_gated : Gated (some "1") powerOn planned
    (.ret (.obj [("action", .str "none_needed"), ("asset_id", .str "MIAM-00119"),
    ("state", .str "ON")])) := by
  refine (gated_iff powerOn_exec).2 (.inr (.inr ⟨rfl, ?_⟩))
  rintro ⟨body, text, fs, hmem, hreceived, hoff⟩
  rcases List.mem_cons.mp hmem with h | h
  · cases h
  · cases List.mem_singleton.mp h
    obtain ⟨fs', hreceived', hon⟩ := received_powered
    cases Except.ok.inj (hreceived.symm.trans hreceived')
    exact Bool.noConfusion (hoff.symm.trans hon)

end ServerManager.PduGate
