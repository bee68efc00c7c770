import ServerManager.JsonRoundTrip
import ServerManager.OwnershipVerdict
import ServerManager.JobCalls
import Mathlib.Algebra.GroupWithZero.Nat

namespace ServerManager.MarkerRoundTrip

open Interaction PyJson Orm Effects ProxmoxVm Storage JsonRoundTrip OwnershipVerdict Calls

theorem length_escapeChar (c : Char) : (escapeChar c).length ≤ 12 := by
  unfold escapeChar
  repeat' split
  all_goals simp [escapeUnit]

theorem length_dumpsStr (s : String) : (dumpsStr s).length ≤ 12 * s.toList.length + 2 := by
  have h : ∀ cs : List Char, (cs.flatMap escapeChar).length ≤ 12 * cs.length := by
    intro cs
    induction cs with
    | nil => exact Nat.le_refl _
    | cons c cs ih =>
        have hc := length_escapeChar c
        simp only [List.flatMap_cons, List.length_append, List.length_cons]
        omega
  have hs := h s.toList
  simp only [dumpsStr, List.length_append, List.length_cons, List.length_nil]
  omega

theorem length_dumpsFields (fs : Dict) :
    (dumpsFields fs).length ≤ (fs.map fun p => 12 * p.1.toList.length + (dumpsChars p.2).length +
    6).sum := by
  induction fs with
  | nil => exact Nat.le_refl _
  | cons p fs ih =>
      obtain ⟨k, x⟩ := p
      have hk := length_dumpsStr k
      cases fs with
      | nil =>
          simp only [dumpsFields, List.length_append, List.length_cons, List.length_nil,
            List.map_cons, List.map_nil, List.sum_cons,
            List.sum_nil]
          omega
      | cons q fs =>
          rw [List.map_cons, List.sum_cons]
          simp only [dumpsFields, List.length_append, List.length_cons, List.length_nil]
          omega

theorem length_toDigits {n k : Nat} (h : n < 10 ^ k) (hk : 0 < k) :
    (Nat.toDigits 10 n).length ≤ k :=
  (Nat.length_toDigits_le_iff (by omega) hk).mpr h

theorem length_zeroPad {width k : Nat} {n : Int} (h : n.toNat < 10 ^ k) (hk : 0 < k)
    (hw : width ≤ k) :
    (zeroPad width n).toList.length ≤ k := by
  have hd := length_toDigits h hk
  have hs : (toString n.toNat).toList = Nat.toDigits 10 n.toNat := Nat.toList_repr
  simp only [zeroPad, String.toList_ofList, hs, List.length_append, List.length_replicate]
  omega

theorem date_bounds {t z era doe yoe doy mp d m y : Int} (hlo : -62135596800 ≤ t)
    (hhi : t ≤ 253402300799)
    (ez : z = t / 86400 + 719468) (eera : era = z / 146097) (edoe : doe = z - era * 146097)
    (eyoe : yoe = (doe - doe / 1460 + doe / 36524 - doe / 146096) / 365)
    (edoy : doy = doe - (365 * yoe + yoe / 4 - yoe / 100)) (emp : mp = (5 * doy + 2) / 153)
    (ed : d = doy - (153 * mp + 2) / 5 + 1) (em : m = if mp < 10 then mp + 3 else mp - 9)
    (ey : y = yoe + era * 400 + (if m ≤ 2 then 1 else 0)) : y.toNat < 10 ^ 5 ∧ m.toNat < 10 ^ 4 ∧
    d.toNat < 10 ^ 2 := by
  have hera : era ≤ 25 := by omega
  have hdoe : doe ≤ 146096 := by omega
  have hyoe : 0 ≤ yoe ∧ yoe ≤ 401 := by omega
  have hdoy : doy ≤ 146096 := by omega
  refine ⟨?_, ?_, ?_⟩
  · split at ey <;> omega
  · split at em <;> omega
  · omega

theorem length_isoformat {t : Time} (hlo : -62135596800 ≤ t) (hhi : t ≤ 253402300799) :
    (isoformat t).toList.length ≤ 30 := by
  obtain ⟨hy, hm, hd⟩ := date_bounds hlo hhi rfl rfl rfl rfl rfl rfl rfl rfl rfl
  have hs : ∀ x : Int, (x % 86400 / 3600).toNat < 10 ^ 2 ∧ (x % 86400 / 60 % 60).toNat < 10 ^ 2 ∧
      (x % 86400 % 60).toNat < 10 ^ 2 := by omega
  obtain ⟨hh, hi, hs⟩ := hs t
  have hly := length_zeroPad hy (by omega) (show 4 ≤ 5 by omega)
  have hlm := length_zeroPad hm (by omega) (show 2 ≤ 4 by omega)
  have hld := length_zeroPad hd (by omega) (Nat.le_refl 2)
  have hlh := length_zeroPad hh (by omega) (Nat.le_refl 2)
  have hli := length_zeroPad hi (by omega) (Nat.le_refl 2)
  have hls := length_zeroPad hs (by omega) (Nat.le_refl 2)
  have hsep : "-".toList.length = 1 ∧ "T".toList.length = 1 ∧ ":".toList.length = 1 ∧
      "+00:00".toList.length = 6 := by decide
  simp only [isoformat, String.toList_append, List.length_append]
  omega

theorem length_hexDigits (width n : Nat) : (Uuid.hexDigits width n).length = width := by
  induction width generalizing n with
  | zero => rfl
  | succ width ih => rw [Uuid.hexDigits, List.length_append, ih, List.length_singleton]

theorem hexDigits_inj {width n m : Nat} (hn : n < 16 ^ width) (hm : m < 16 ^ width)
    (h : Uuid.hexDigits width n = Uuid.hexDigits width m) : n = m := by
  induction width generalizing n m with
  | zero => omega
  | succ width ih =>
      rw [Uuid.hexDigits, Uuid.hexDigits] at h
      obtain ⟨hhigh, hlow⟩ := List.append_inj' h rfl
      have hdiv := ih (Nat.div_lt_of_lt_mul (by omega)) (Nat.div_lt_of_lt_mul (by omega)) hhigh
      have hval := congrArg hexVal (List.cons.inj hlow).1
      rw [hexVal_hexDigit _ (by omega), hexVal_hexDigit _ (by omega)] at hval
      have hmod := Option.some.inj hval
      omega

theorem hexDigits_ne_dash {width n : Nat} {c : Char} (h : c ∈ Uuid.hexDigits width n) :
    (c != '-') = true := by
  induction width generalizing n with
  | zero => exact absurd h List.not_mem_nil
  | succ width ih =>
      have hall : ∀ k < 16, (hexDigit k != '-') = true := by decide
      rw [Uuid.hexDigits] at h
      rcases List.mem_append.mp h with h | h
      · exact ih h
      · rw [List.mem_singleton.mp h]
        exact hall _ (by omega)

theorem str_digits (u : Uuid) : u.str.toList.filter (· != '-') = u.hexChars := by
  have hkeep : ∀ l : List Char, (∀ c ∈ l, c ∈ u.hexChars) → l.filter (· != '-') = l :=
    fun l hl => List.filter_eq_self.mpr fun c hc => hexDigits_ne_dash (hl c hc)
  have htake : ∀ a b, ((u.hexChars.drop a).take b).filter (· != '-') = (u.hexChars.drop a).take b :=
    fun a b => hkeep _ fun c hc => List.mem_of_mem_drop (List.mem_of_mem_take hc)
  rw [Uuid.str, String.toList_ofList]
  have hsplit : ∀ a b, (u.hexChars.drop a).take b ++ u.hexChars.drop (a + b) =
      u.hexChars.drop a := by
    intro a b
    rw [← List.drop_drop, List.take_append_drop]
  have hhead := hkeep _ fun c hc => List.mem_of_mem_take (i := 8) hc
  have htail := hkeep _ fun c hc => List.mem_of_mem_drop (i := 20) hc
  simp only [List.filter_append, List.filter_cons, htake, hhead, htail, bne_self_eq_false,
    Bool.false_eq_true, if_false,
    List.append_assoc]
  rw [hsplit 16 4, hsplit 12 4, hsplit 8 4, List.take_append_drop]

theorem str_injective {u u' : Uuid} (h : u.str = u'.str) : u = u' := by
  have hdigits : u.hexChars = u'.hexChars := by rw [← str_digits, h, str_digits]
  have hlt : ∀ x : Uuid, x.bits.toNat < 16 ^ 32 := fun x => by simpa using x.bits.isLt
  have hbits := hexDigits_inj (hlt u) (hlt u') hdigits
  cases u
  cases u'
  exact congrArg Uuid.mk (BitVec.eq_of_toNat_eq hbits)

theorem length_str (u : Uuid) : u.str.toList.length ≤ 36 := by
  have hlen : u.hexChars.length = 32 := length_hexDigits 32 _
  rw [Uuid.str, String.toList_ofList]
  simp only [List.length_append, List.length_cons, List.length_take, List.length_drop, hlen]
  omega

/-- The lengths that the request model and the columns allow, and the times that Python has. -/
structure Bounded (r : AgentRuntime) : Prop where
  agent : r.acmsAgentId.toList.length ≤ 64
  request : r.provisioningRequestId.toList.length ≤ 64
  created : ∀ t, r.createdAt = some t → -62135596800 ≤ t ∧ t ≤ 253402300799

/-- The numbers of an `Integer` column. -/
def Column (vmid : Int) : Prop := -2147483648 ≤ vmid ∧ vmid ≤ 2147483647

/-- The text of the marker is not cut. -/
def Whole (r : AgentRuntime) (node : String) (vmid : Int) (template : String) : Prop :=
  (dumps (.obj (ownershipMarker r node vmid template))).toList.length ≤ 8190

variable {r r' : AgentRuntime} {node template : String} {vmid : Int}

theorem length_digits (hv : Column vmid) : (Nat.toDigits 10 vmid.natAbs).length ≤ 10 := by
  obtain ⟨hlo, hhi⟩ := hv
  exact length_toDigits (by omega) (by omega)

theorem length_int (hv : Column vmid) : (dumpsChars (.int vmid)).length ≤ 11 := by
  have hd := length_digits hv
  cases vmid with
  | ofNat n =>
      rw [dumpsChars, toString_ofNat]
      exact Nat.le_trans hd (by omega)
  | negSucc n =>
      rw [dumpsChars, toString_negSucc]
      exact Nat.succ_le_succ hd

theorem length_created (hr : Bounded r) :
    (dumpsChars ((r.createdAt.map fun t => Json.str (isoformat t)).getD .null)).length ≤ 362 := by
  cases hc : r.createdAt with
  | none => exact (by decide : (dumpsChars .null).length ≤ 362)
  | some t =>
      have hiso := length_isoformat (hr.created t hc).1 (hr.created t hc).2
      have hstr := length_dumpsStr (isoformat t)
      change (dumpsStr (isoformat t)).length ≤ 362
      omega

theorem whole_of_length (hr : Bounded r) (hv : Column vmid)
    (hl : node.toList.length + template.toList.length ≤ 300) :
    Whole r node vmid template := by
  have hid := length_dumpsStr r.runtimeId.str
  have hidlen := length_str r.runtimeId
  have hagent := length_dumpsStr r.acmsAgentId
  have hagentlen := hr.agent
  have hrequest := length_dumpsStr r.provisioningRequestId
  have hrequestlen := hr.request
  have hnode := length_dumpsStr node
  have htemplate := length_dumpsStr template
  have hvmid := length_int hv
  have hcreated := length_created hr
  have hprovider : (dumpsStr "proxmox_vm").length = 12 := by decide
  have hmanager : (dumpsStr "server-manager/agent-runtime-manager").length = 38 := by decide
  have hmembers : (dumpsFields (ownershipMarker r node vmid template)).length ≤ 1692 +
      (dumpsStr r.runtimeId.str).length +
      (dumpsStr r.acmsAgentId).length + (dumpsStr r.provisioningRequestId).length +
        (dumpsStr "proxmox_vm").length +
      (dumpsStr node).length + (dumpsChars (.int vmid)).length + "true".toList.length +
      (dumpsChars ((r.createdAt.map fun t => Json.str (isoformat t)).getD .null)).length +
        (dumpsStr template).length +
      (dumpsStr "server-manager/agent-runtime-manager").length := by
    refine Nat.le_trans (length_dumpsFields _) (Nat.le_of_eq ?_)
    simp [ownershipMarker, dumpsChars]
    omega
  have htrue : "true".toList.length = 4 := by decide
  rw [Whole, dumps, String.toList_ofList, dumpsChars, List.length_append, List.length_cons,
    List.length_singleton]
  omega

theorem marker_flat (hv : Column vmid) : ∀ p ∈ ownershipMarker r node vmid template, Flat p.2 := by
  have hdigits : Flat (.int vmid) := Nat.le_trans (length_digits hv) (by omega)
  have hcreated : Flat ((r.createdAt.map fun t => Json.str (isoformat t)).getD .null) := by
    cases r.createdAt with
    | none => trivial
    | some t => trivial
  simp only [ownershipMarker, List.forall_mem_cons]
  exact ⟨trivial, trivial, trivial, trivial, trivial, hdigits, trivial, hcreated, trivial, trivial,
    nofun⟩

theorem marker_keys : ((ownershipMarker r node vmid template).map Prod.fst).Nodup := by
  simp [ownershipMarker]

theorem loads_marker (hv : Column vmid) :
    loads (dumps (.obj (ownershipMarker r node vmid template))) =
      some (.obj (ownershipMarker r node vmid template)) := by
  have hlast : ownershipMarker r node vmid template =
      (ownershipMarker r node vmid template).dropLast ++
      [("managed_by", .str "server-manager/agent-runtime-manager")] := rfl
  have hflat : ∀ p ∈ ownershipMarker r node vmid template, Flat p.2 := marker_flat hv
  have hkeys : ((ownershipMarker r node vmid template).map Prod.fst).Nodup := marker_keys
  rw [hlast] at hflat hkeys ⊢
  exact loads_dumps hflat hkeys

theorem marker_marks (r : AgentRuntime) (node : String) (vmid : Int) (template : String) :
    OwnershipGate.Marks r (ownershipMarker r node vmid template) := by
  refine ⟨rfl, rfl, ?_⟩
  simp [ownershipRequiredKeys, ownershipMarker, Dict.has]

theorem marks_unique (h : OwnershipGate.Marks r' (ownershipMarker r node vmid template)) :
    r'.runtimeId = r.runtimeId :=
  str_injective (Option.some.inj h.runtimeId).symm

def configures (spec : VMSpec) (net0 : Option String) : Eff → Prop
  | .pve (.setConfig _ _ body) => body = configBody spec net0
  | _ => True

theorem only_configures (spec : VMSpec) (net0 : Option String) (retries : Nat) :
    Only (configures spec net0) (configureCloudInit spec vmid net0 retries) := by
  have hread : ∀ e, observes e → configures spec net0 e := by
    intro e he
    unfold configures
    split
    · exact False.elim he
    · trivial
  have hbook : ∀ e, JobCalls.books e → configures spec net0 e := by
    intro e he
    unfold configures
    split
    · exact False.elim he
    · trivial
  have hallows : JobCalls.Allows (configures spec net0) (fun _ _ => True) [] [] :=
    ⟨fun e he _ => hread e he, fun e he _ _ _ _ => hread e he, hbook, fun _ _ => ⟨trivial, trivial⟩,
      fun _ _ => trivial⟩
  apply JobCalls.only_configureCloudInit spec vmid net0 retries hallows
  · trivial
  · exact rfl

/-- PVE shows the VM with the description that its configuration sent. -/
def Written {R : Type} (rem : Remote R) (r : AgentRuntime) (node : String) (vmid : Int)
    (template : String) : Prop :=
  ∃ spec net0 retries, ∃ tr : PyTrace, ∃ q n a body text,
    spec.descriptionMeta = ownershipMarker r node vmid template ∧
    Exec anything () (configureCloudInit spec vmid net0 retries) tr () q ∧
      ⟨.pve (.setConfig n vmid body), a⟩ ∈ tr ∧
    body.lookup "description" = some text ∧ Shows rem node vmid ⟨true, some text⟩

theorem Written.shows {R : Type} {rem : Remote R} (h : Written rem r node vmid template) :
    Shows rem node vmid
      ⟨true, some (String.ofList ((dumps (.obj (ownershipMarker r node vmid template))).toList.take
        8190))⟩ := by
  obtain ⟨spec, net0, retries, tr, q, n, a, body, text, hspec, hx, hm, hlook, hshow⟩ := h
  obtain rfl : body = configBody spec net0 := (only_configures spec net0 retries).of_mem hx _ hm
  have htext : text = String.ofList ((dumps (.obj spec.descriptionMeta)).toList.take 8190) := by
    have hlook' : some (String.ofList ((dumps (.obj spec.descriptionMeta)).toList.take 8190)) =
        some text := hlook
    exact (Option.some.inj hlook').symm
  rwa [htext, hspec] at hshow

theorem Whole.text (h : Whole r node vmid template) :
    String.ofList ((dumps (.obj (ownershipMarker r node vmid template))).toList.take 8190) =
      dumps (.obj (ownershipMarker r node vmid template)) := by
  rw [List.take_of_length_le h, String.ofList_toList]

section Verdict

variable {R : Type} {rem : Remote R} {protectedVmids : List Int} {i : Nat} {w w' : World R}
  {tr : PyTrace} {q : Py Unit}

theorem accepted_returns {d : Shown} (hd : Shows rem node vmid d)
    (ha : Accepts protectedVmids vmid r d)
    (hx : Exec (World.step rem i) w (verifyOwnership protectedVmids node vmid r) tr w' q)
    (hq : ∀ e k, q ≠ .call e k) :
    q = .ret () := by
  have hver := (verifyOwnership_sat r protectedVmids hd).exec hx
  cases q with
  | ret u => rfl
  | raise x => exact absurd ha hver.2.rejected
  | call e k => exact absurd rfl (hq e k)

theorem unaccepted_raises {d : Shown} {text : String} {m : Dict} (hd : Shows rem node vmid d)
    (ht : d.description = some text)
    (hl : loads text = some (.obj m)) (ha : ¬ Accepts protectedVmids vmid r d)
    (hx : Exec (World.step rem i) w (verifyOwnership protectedVmids node vmid r) tr w' q)
    (hq : ∀ e k, q ≠ .call e k) :
    ∃ msg, q = .raise ⟨.ownershipError, msg⟩ := by
  have hver := (verifyOwnership_sat r protectedVmids hd).exec hx
  have hobj : ¬ Stray protectedVmids vmid r d := by
    rintro ⟨-, -, -, t, x, ht', hl', hne⟩
    obtain rfl := Option.some.inj (ht.symm.trans ht')
    exact hne m (Option.some.inj (hl'.symm.trans hl))
  cases q with
  | ret u => exact absurd hver.2 ha
  | raise x =>
      obtain ⟨cls, msg⟩ := x
      obtain rfl : cls = .ownershipError := hver.2.refused hobj
      exact ⟨msg, rfl⟩
  | call e k => exact absurd rfl (hq e k)

end Verdict

/-- The VM passes for the row, with any protected set that leaves it out, and
for no row with another identifier. -/
structure Trips {R : Type} (rem : Remote R) (r : AgentRuntime) (node : String) (vmid : Int) :
    Prop where
  own : ∀ protectedVmids i w w' tr q, vmid ∉ protectedVmids →
    Exec (World.step rem i) w (verifyOwnership protectedVmids node vmid r) tr w' q →
      (∀ e k, q ≠ .call e k) → q = .ret ()
  foreign : ∀ r' protectedVmids i w w' tr q, r'.runtimeId ≠ r.runtimeId →
    Exec (World.step rem i) w (verifyOwnership protectedVmids node vmid r') tr w' q →
      (∀ e k, q ≠ .call e k) →
      ∃ msg, q = .raise ⟨.ownershipError, msg⟩

theorem trips_of_whole {R : Type} {rem : Remote R} (hv : Column vmid)
    (hc : r.createdByAgentRuntimeManager = true)
    (hwhole : Whole r node vmid template) (hw : Written rem r node vmid template) :
    Trips rem r node vmid := by
  have hshow := hw.shows
  rw [hwhole.text] at hshow
  have hloads : loads (dumps (.obj (ownershipMarker r node vmid template))) = _ := loads_marker hv
  have hmarks := marker_marks r node vmid template
  constructor
  · intro protectedVmids i w w' tr q hp hx hq
    exact accepted_returns hshow ⟨hp, rfl, hc, _, _, rfl, hloads, hmarks⟩ hx hq
  · intro r' protectedVmids i w w' tr q hne hx hq
    refine unaccepted_raises hshow rfl hloads ?_ hx hq
    rintro ⟨-, -, -, t, m, ht, hl, hm⟩
    obtain rfl := Option.some.inj ht
    obtain rfl := Json.obj.inj (Option.some.inj (hloads.symm.trans hl))
    exact hne (marks_unique hm)

/-- A marker that is not cut passes for its own row alone, and there is room for all that the
columns hold. -/
theorem round_trip (hr : Bounded r) (hv : Column vmid)
    (hc : r.createdByAgentRuntimeManager = true) :
    (node.toList.length + template.toList.length ≤ 300 → Whole r node vmid template) ∧
      (Whole r node vmid template → ∀ (R : Type) (rem : Remote R),
        Written rem r node vmid template →
        Trips rem r node vmid) :=
  ⟨whole_of_length hr hv, fun hwhole _ _ hw => trips_of_whole hv hc hwhole hw⟩

theorem ends {E : Type} {A : E → Type} {ε α S : Type} {step : S → (e : E) → A e → S → Prop}
    {φ : E → Prop}
    {p : Prog E A ε α} (h : Only φ p) (ha : ∀ s e, φ e → ∃ a s', step s e a s') (s : S) :
    ∃ tr t q, Exec step s p tr t q ∧ ∀ e k, q ≠ .call e k := by
  induction p generalizing s with
  | ret a => exact ⟨[], s, _, .refl _ _, Prog.ret_ne_call a⟩
  | raise x => exact ⟨[], s, _, .refl _ _, Prog.raise_ne_call x⟩
  | call e k ih =>
      obtain ⟨a, s', hs⟩ := ha s e h.1
      obtain ⟨tr, t, q, hx, hq⟩ := ih a (h.2 a () trivial) s'
      exact ⟨_, t, q, .call hs hx, hq⟩

def asks (node : String) (vmid : Int) (e : Eff) : Prop :=
  e = .pve (.status node vmid) ∨ e = .pve (.config node vmid)

theorem only_asks (protectedVmids : List Int) :
    Only (asks node vmid) (verifyOwnership protectedVmids node vmid r) := by
  unfold verifyOwnership
  refine Only.ite (only_raised _ _) ?_
  refine Only.bind (Only.tryCatch (Only.bind (only_pve (.inl rfl)) fun _ => only_pure _) fun _ =>
    only_pure _) fun found => ?_
  refine Only.ite (only_raised _ _) (Only.ite (only_raised _ _) ?_)
  refine Only.bind (Only.tryCatch (Only.bind (only_pve (.inr rfl)) fun _ => only_pure _) fun _ =>
    only_pure _) fun cfg => ?_
  refine Only.bind (only_dictGet cfg _) fun desc => ?_
  split
  · split
    · exact only_checkMarker node vmid r _
    · exact only_raised _ _
  · exact only_raised _ _

def cutText (r : AgentRuntime) (node : String) (vmid : Int) (template : String) : String :=
  String.ofList ((dumps (.obj (ownershipMarker r node vmid template))).toList.take 8190)

def configured (r : AgentRuntime) (node : String) (vmid : Int) (template : String) : Remote Unit :=
  answering ⟨true, some (cutText r node vmid template)⟩

def specOf (r : AgentRuntime) (node : String) (vmid : Int) (template : String) : VMSpec :=
  { name := r.name, node := node, templateVmid := 121, templateNode := node
    descriptionMeta := ownershipMarker r node vmid template }

theorem configured_written (r : AgentRuntime) (node : String) (vmid : Int) (template : String) :
    Written (configured r node vmid template) r node vmid template := by
  have hx : Exec (E := Eff) (A := Ans) anything ()
      (configureCloudInit (specOf r node vmid template) vmid none 1)
      [⟨.pve (.config node vmid), .ok .null⟩,
        ⟨.pve (.setConfig node vmid (configBody (specOf r node vmid template) none)), .ok .null⟩] () (.ret ()) :=
    .call (show anything () _ _ () from trivial)
      (.call (show anything () _ _ () from trivial) (.refl _ _))
  exact ⟨specOf r node vmid template, none, 1, _, _, node, _, _, _, rfl, hx,
    List.mem_cons_of_mem _ List.mem_cons_self, rfl,
    answering_shows _ _ _⟩

theorem configured_ends (r r' : AgentRuntime) (node : String) (vmid : Int) (template : String)
    (protectedVmids : List Int) :
    ∃ tr w' q, Exec (World.step (configured r node vmid template) 0) startWorld
      (verifyOwnership protectedVmids node vmid r') tr w' q ∧ ∀ e k, q ≠ .call e k := by
  refine ends (only_asks protectedVmids) ?_ startWorld
  rintro s e (rfl | rfl)
  · exact ⟨_, s, (), rfl, rfl⟩
  · exact ⟨_, s, (), rfl, rfl⟩

theorem not_trips (h : ¬ Accepts [] vmid r ⟨true, some (cutText r node vmid template)⟩) :
    ¬ Trips (configured r node vmid template) r node vmid := by
  intro ht
  obtain ⟨tr, w', q, hx, hq⟩ := configured_ends r r node vmid template []
  obtain rfl := ht.own [] 0 _ _ _ _ List.not_mem_nil hx hq
  have hver := (verifyOwnership_sat r [] (answering_shows _ node vmid)).exec hx
  exact h hver.2

def agent : AgentRuntime :=
  { OwnershipGate.worker with
    acmsAgentId := "agent-0007", provisioningRequestId := "request-0007", createdAt := some 1790640000 }

theorem agent_bounded : Bounded agent := by
  refine ⟨by decide, by decide, ?_⟩
  rintro t ht
  obtain rfl := Option.some.inj ht
  exact ⟨by decide, by decide⟩

theorem agent_round_trip : Trips (configured agent "miam00111" 700 "miam00111/qemu/121") agent
    "miam00111" 700 := by
  have hcolumn : Column 700 := ⟨by decide, by decide⟩
  have hroom : Whole agent "miam00111" 700 "miam00111/qemu/121" :=
    (round_trip agent_bounded hcolumn rfl).1 (by decide)
  exact (round_trip agent_bounded hcolumn rfl).2 hroom Unit _
    (configured_written agent "miam00111" 700 "miam00111/qemu/121")

theorem scanUnits_open (n : Nat) (acc : List Nat) :
    scanUnits acc (List.replicate n 'a') = none := by
  induction n generalizing acc with
  | zero => rfl
  | succ n ih => rw [List.replicate_succ, scanUnits_plain (by decide) (by decide) (by decide), ih]

theorem escape_replicate (n : Nat) : (List.replicate n 'a').flatMap escapeChar =
    List.replicate n 'a' := by
  induction n with
  | zero => rfl
  | succ n ih =>
      rw [List.replicate_succ, List.flatMap_cons, ih]
      rfl

theorem scanFields_open (fuel : Nat) (acc : Dict) (k : String) (n : Nat) :
    scanFields (fuel + 2) acc ('"' :: (k.toList.flatMap escapeChar ++ '"' :: ':' :: ' ' :: '"' ::
      List.replicate n 'a')) = none := by
  have hcolon : skipWs (':' :: ' ' :: '"' :: List.replicate n 'a') = ':' :: ' ' :: '"' ::
      List.replicate n 'a' := rfl
  have hskip : skipWs (' ' :: '"' :: List.replicate n 'a') = '"' :: List.replicate n 'a' := rfl
  have hvalue : scanValue (fuel + 1) ('"' :: List.replicate n 'a') = none := by
    rw [scanValue, scanString, scanUnits_open]
    rfl
  rw [scanFields, scanString_dumps]
  simp only [hcolon, hskip, hvalue]

theorem loads_open {fs : Dict} (hf : ∀ p ∈ fs, Flat p.2) (hn : (fs.map Prod.fst).Nodup) (k : String)
    (n : Nat) :
    loads (String.ofList ('\x7b' :: (leading fs ++
      '"' :: (k.toList.flatMap escapeChar ++ '"' :: ':' :: ' ' :: '"' :: List.replicate n 'a')))) = none := by
  obtain ⟨fuel, hread⟩ :=
    loads_leading hf hn (k.toList.flatMap escapeChar ++ '"' :: ':' :: ' ' :: '"' ::
      List.replicate n 'a')
  rw [hread, scanFields_open]
  rfl

def stretched (n : Nat) : String := String.ofList (List.replicate n 'a')

def before : Dict := (ownershipMarker agent "miam00111" 700 "").take 8

def opening : List Char :=
  '\x7b' :: (leading before ++ '"' :: ("template_source".toList.flatMap escapeChar ++
    ['"', ':', ' ', '"']))

theorem dumps_stretched (n : Nat) : ∃ rest, (dumps
    (.obj (ownershipMarker agent "miam00111" 700 (stretched n)))).toList =
    opening ++ (List.replicate n 'a' ++ rest) := by
  have hmarker : ownershipMarker agent "miam00111" 700 (stretched n) = before ++
      [("template_source", .str (stretched n))] ++
      [("managed_by", .str "server-manager/agent-runtime-manager")] := rfl
  have htemplate : (stretched n).toList.flatMap escapeChar = List.replicate n 'a' := by
    rw [stretched, String.toList_ofList, escape_replicate]
  have hmember : member ("template_source", .str (stretched n)) =
      '"' :: ("template_source".toList.flatMap escapeChar ++ ['"', ':', ' ', '"']) ++
        (List.replicate n 'a' ++ ['"']) := by
    rw [← htemplate]
    simp only [member, dumpsChars, dumpsStr, List.append_assoc, List.cons_append, List.nil_append]
  refine ⟨'"' :: ',' :: ' ' :: (member ("managed_by",
    .str "server-manager/agent-runtime-manager") ++ ['\x7d']), ?_⟩
  rw [hmarker, dumps, String.toList_ofList, dumpsChars, dumpsFields_snoc, List.flatMap_append,
    List.flatMap_singleton, hmember]
  simp only [opening, leading, List.append_assoc, List.cons_append, List.nil_append]

theorem cutText_stretched : ∃ n, cutText agent "miam00111" 700 (stretched 8190) = String.ofList
    ('\x7b' :: (leading before ++
    '"' :: ("template_source".toList.flatMap escapeChar ++ '"' :: ':' :: ' ' :: '"' :: List.replicate n 'a'))) := by
  obtain ⟨rest, htext⟩ := dumps_stretched 8190
  have hroom : opening.length ≤ 8190 := by decide +kernel
  refine ⟨8190 - opening.length, congrArg String.ofList ?_⟩
  have hrun : (List.replicate 8190 'a' ++ rest).take (8190 - opening.length) =
      List.replicate (8190 - opening.length) 'a' := by
    rw [List.take_append_of_le_length, List.take_replicate, Nat.min_eq_left (Nat.sub_le _ _)]
    rw [List.length_replicate]
    exact Nat.sub_le _ _
  rw [htext, List.take_append, List.take_of_length_le hroom, hrun]
  simp only [opening, List.append_assoc, List.cons_append, List.nil_append]

/-- Neither an unmarked row nor a template of any length will do. -/
theorem not_every_row :
    (¬ ∀ (r : AgentRuntime) (node : String) (vmid : Int) (template : String), Bounded r →
    Column vmid →
      node.toList.length + template.toList.length ≤ 300 → ∀ (R : Type) (rem : Remote R),
        Written rem r node vmid template →
        Trips rem r node vmid) ∧
    ¬ ∀ (r : AgentRuntime) (node : String) (vmid : Int) (template : String), Bounded r →
      Column vmid →
      r.createdByAgentRuntimeManager = true → ∀ (R : Type) (rem : Remote R),
        Written rem r node vmid template →
        Trips rem r node vmid := by
  have hcolumn : Column 700 := ⟨by decide, by decide⟩
  constructor
  · intro h
    have hb : Bounded { agent with createdByAgentRuntimeManager := false } :=
      ⟨agent_bounded.agent, agent_bounded.request,
      agent_bounded.created⟩
    refine not_trips ?_ (h _ "miam00111" 700 "miam00111/qemu/121" hb hcolumn (by decide) Unit _
      (configured_written _ _ _ _))
    rintro ⟨-, -, hc, -⟩
    cases hc
  · intro h
    have hflat : ∀ p ∈ before, Flat p.2 :=
      fun p hp => marker_flat hcolumn p (List.mem_of_mem_take hp)
    have hkeys : (before.map Prod.fst).Nodup := by
      rw [before, List.map_take]
      exact marker_keys.sublist (List.take_sublist _ _)
    refine not_trips ?_ (h agent "miam00111" 700 (stretched 8190) agent_bounded hcolumn rfl Unit _
      (configured_written _ _ _ _))
    rintro ⟨-, -, -, t, m, ht, hl, -⟩
    obtain rfl := Option.some.inj ht
    obtain ⟨n, hcut⟩ := cutText_stretched
    rw [hcut, loads_open hflat hkeys] at hl
    cases hl

end ServerManager.MarkerRoundTrip
