import ServerManager.CloneHygiene

namespace ServerManager.GuestAddresses

open Interaction PyJson PyText Effects CloneHygiene

structure Inet where
  addr : String
  prefixLen : Nat
  brd : Option String
  scope : String
  lifetime : String := "valid_lft forever preferred_lft forever"

structure Link where
  index : Nat
  name : String
  attributes : String
  inets : List Inet

inductive Netplan
  | dhcp (interface : String)
  | fixed (interface addr : String) (prefixLen : Nat) (gateway : Option String)
      (nameservers : List String)

structure Guest where
  netplan : Netplan
  links : List Link

def Inet.text (a : Inet) : String :=
  let brd := (a.brd.map (" brd " ++ ·)).getD ""
  s!"    inet {a.addr}/{a.prefixLen}{brd} scope {a.scope}\n       {a.lifetime}\n"

def Link.text (l : Link) : String :=
  s!"{l.index}: {l.name}: {l.attributes}\n" ++ String.join (l.inets.map Inet.text)

def Netplan.text : Netplan → String
  | .dhcp interface =>
      s!"network:\n  version: 2\n  ethernets:\n    {interface}:\n      dhcp4: true\n"
  | .fixed interface addr prefixLen gateway nameservers =>
      let routes :=
        (gateway.map fun g => s!"      routes:\n        - to: default\n          via: {g}\n").getD
          ""
      let servers := String.join (nameservers.map fun n => s!"          - {n}\n")
      s!"network:\n  version: 2\n  ethernets:\n    {interface}:\n      addresses:\n        - {addr}/{prefixLen}\n" ++ routes ++
        (if nameservers.isEmpty then "" else "      nameservers:\n        addresses:\n" ++ servers)

/-- The netplan files, then `ip -4 addr show`. -/
def Guest.text (g : Guest) : String := g.netplan.text ++ String.join (g.links.map Link.text)

/-- The characters that stand for themselves in what `qm guest exec` prints. -/
def plainChar (c : Char) : Bool := c.isAlphanum || c == ' ' || c == '.' || c == '/'

/-- Output that has the text in it, escaped or not. -/
def Prints (text out : String) : Prop :=
  ∃ (before after : List Char) (esc : Char → List Char), (∀ c, plainChar c = true → esc c = [c]) ∧
    out.toList = before ++ text.toList.flatMap esc ++ after

/-- `ip` is the guest's one address and the one its netplan declares. -/
structure Clean (ip : String) (g : Guest) : Prop where
  loopback : ∃ lo ∈ g.links, lo.name = "lo" ∧ ∃ a ∈ lo.inets, a.addr = "127.0.0.1" ∧ a.prefixLen = 8
  links : ∀ l ∈ g.links, l.name ≠ "lo" → ∀ a ∈ l.inets, a.addr = ip
  netplan : (∃ interface, g.netplan = .dhcp interface) ∨
    ∃ interface prefixLen gateway nameservers,
      g.netplan = .fixed interface ip prefixLen gateway nameservers
  other : ip ≠ "127.0.0.1"
  given : ip ≠ ""

theorem spanDigits_eq {cs a r : List Char} (h : spanDigits cs = (a, r)) : cs = a ++ r ∧ ∀ c ∈ a,
    c.isDigit = true := by
  induction cs generalizing a r with
  | nil =>
      cases h
      simp
  | cons c cs ih =>
      rw [spanDigits] at h
      by_cases hc : c.isDigit = true
      · rw [if_pos hc] at h
        obtain ⟨hcs, hd⟩ := ih rfl
        cases h
        refine ⟨by rw [List.cons_append, ← hcs], ?_⟩
        intro x hx
        rcases List.mem_cons.mp hx with rfl | hx
        · exact hc
        · exact hd x hx
      · rw [if_neg hc] at h
        cases h
        simp

def dotted (c : Char) : Bool := c.isDigit || c == '.'

theorem digits_dotted {a : List Char} (h : ∀ c ∈ a, c.isDigit = true) : ∀ c ∈ a,
    dotted c = true := by
  intro c hc
  rw [dotted, h c hc, Bool.true_or]

theorem part_dotted {cs a r : List Char} (h : spanDigits cs = (a, '.' :: r)) :
    cs = (a ++ ['.']) ++ r ∧ ∀ c ∈ a ++ ['.'], dotted c = true := by
  obtain ⟨hcs, hd⟩ := spanDigits_eq h
  refine ⟨by simpa using hcs, ?_⟩
  intro c hc
  rcases List.mem_append.mp hc with hc | hc
  · exact digits_dotted hd c hc
  · rw [List.mem_singleton.mp hc]
    rfl

theorem quad_eq {cs rest : List Char} {parts : List (List Char)}
    (h : quad cs = some (parts, rest)) :
    ∃ used, cs = used ++ rest ∧ used ≠ [] ∧ ∀ c ∈ used, dotted c = true := by
  unfold quad at h
  split at h
  next a₀ a r ha =>
    split at h
    next b₀ b r' hb =>
      split at h
      next c₀ c r'' hc =>
        split at h
        next d₀ d rest' hd =>
          cases h
          obtain ⟨rfl, h1⟩ := part_dotted ha
          obtain ⟨rfl, h2⟩ := part_dotted hb
          obtain ⟨rfl, h3⟩ := part_dotted hc
          obtain ⟨rfl, h4⟩ := spanDigits_eq hd
          refine ⟨(a₀ :: a ++ ['.']) ++ ((b₀ :: b ++ ['.']) ++
            ((c₀ :: c ++ ['.']) ++ (d₀ :: d))), by simp, by simp, ?_⟩
          intro x hx
          rcases List.mem_append.mp hx with hx | hx
          · exact h1 x hx
          · rcases List.mem_append.mp hx with hx | hx
            · exact h2 x hx
            · rcases List.mem_append.mp hx with hx | hx
              · exact h3 x hx
              · exact digits_dotted h4 x hx
        · cases h
      · cases h
    · cases h
  · cases h

theorem quad_before {cs rest tail before : List Char} {parts : List (List Char)}
    (h : quad cs = some (parts, rest))
    (hcs : cs = before ++ ' ' :: tail) : ∃ before', rest = before' ++ ' ' :: tail ∧
    before'.length < before.length := by
  obtain ⟨used, hu, hne, hd⟩ := quad_eq h
  have hblank : dotted ' ' = false := by decide
  rw [hcs] at hu
  rcases List.append_eq_append_iff.mp hu with ⟨more, hm, ht⟩ | ⟨more, hm, ht⟩
  · cases more with
    | nil => exact ⟨[], by simpa using ht.symm, by
        have hlen : 0 < used.length := List.length_pos_iff.mpr hne
        simpa [hm] using hlen⟩
    | cons c more =>
        obtain ⟨rfl, -⟩ := List.cons.inj ht
        have hx := hd ' ' (by rw [hm]; simp)
        exact absurd hx (by rw [hblank]; decide)
  · refine ⟨more, ht, ?_⟩
    have hlen : 0 < used.length := List.length_pos_iff.mpr hne
    rw [hm, List.length_append]
    omega

theorem findQuads_mem {parts : List (List Char)} {cs after : List Char}
    (hq : quad cs = some (parts, '/' :: after))
    (hc : ∃ c rest, cs = c :: rest ∧ c.isDigit = true) (fuel : Nat) (inWord : Bool)
    (before : List Char)
    (hf : before.length + 1 < fuel) : quadText parts ∈
    findQuads fuel inWord (before ++ ' ' :: cs) := by
  induction fuel generalizing before inWord with
  | zero => omega
  | succ fuel ih =>
      cases before with
      | nil =>
          obtain ⟨c, rest, rfl, hd⟩ := hc
          obtain ⟨n, rfl⟩ : ∃ n, fuel = n + 1 := ⟨fuel - 1, by simp at hf; omega⟩
          have hblank : findQuads (n + 1 + 1) inWord (' ' :: c :: rest) =
              findQuads (n + 1) false (c :: rest) := by
            rw [findQuads]
            rfl
          rw [List.nil_append, hblank, findQuads, hd, hq]
          simp [atBoundary, isWord]
      | cons b before =>
          have hlen : before.length + 1 < fuel := by simp at hf; omega
          rw [List.cons_append, findQuads]
          split
          · cases hb : quad (b :: (before ++ ' ' :: cs)) with
            | none => exact ih true before hlen
            | some found =>
                obtain ⟨found, left⟩ := found
                have hsplit : b :: (before ++ ' ' :: cs) = (b :: before) ++ ' ' :: cs := rfl
                obtain ⟨before', hleft, hlt⟩ := quad_before hb hsplit
                rw [List.length_cons] at hlt
                subst hleft
                by_cases hbound : atBoundary (before' ++ ' ' :: cs) = true
                · have hin := ih true before' (by omega)
                  simp [hbound, hin]
                · simp [hbound, ih true before hlen]
          · exact ih _ before hlen

def loopbackQuad : List Char := ['1', '2', '7', '.', '0', '.', '0', '.', '1']

theorem loopbackQuad_text : "127.0.0.1".toList = loopbackQuad := by decide

/-- The loopback address between its neighbours in the listing. -/
def loopbackText : List Char := ' ' :: (loopbackQuad ++ ['/'])

theorem loopback_found {text : String} (h : loopbackText <:+: text.toList) :
    "127.0.0.1" ∈ ipv4Tokens text := by
  obtain ⟨before, after, hs⟩ := h
  have hsplit : text.toList = before ++ ' ' :: (loopbackQuad ++ '/' :: after) := by
    rw [← hs, loopbackText]
    simp
  have hq : quad (loopbackQuad ++ '/' :: after) =
      some ([['1', '2', '7'], ['0'], ['0'], ['1']], '/' :: after) := by
    rfl
  have hin :=
    findQuads_mem hq ⟨'1', _, rfl, by decide⟩ (text.toList.length + 1) false before
      (by simp [hsplit])
  rw [← hsplit] at hin
  exact hin

theorem infix_join {s : String} {ss : List String} (h : s ∈ ss) :
    s.toList <:+: (String.join ss).toList := by
  obtain ⟨before, after, rfl⟩ := List.append_of_mem h
  rw [String.toList_join, List.flatMap_append, List.flatMap_cons]
  exact ⟨_, _, (List.append_assoc ..)⟩

theorem infix_inet {a : Inet} (haddr : a.addr = "127.0.0.1") : loopbackText <:+: a.text.toList := by
  have hinet : "    inet ".toList = "    inet".toList ++ [' '] := by decide
  have hslash : "/".toList = ['/'] := by decide
  have htext : ∃ rest, a.text.toList = "    inet ".toList ++ a.addr.toList ++ "/".toList ++
      rest := by
    refine ⟨(toString a.prefixLen).toList ++ (((a.brd.map (" brd " ++ ·)).getD "").toList ++
      (" scope ".toList ++
      (a.scope.toList ++ ("\n       ".toList ++ (a.lifetime.toList ++ "\n".toList))))), ?_⟩
    show ("    inet " ++ a.addr ++ "/" ++ toString a.prefixLen ++
      (a.brd.map (" brd " ++ ·)).getD "" ++ " scope " ++ a.scope ++
      "\n       " ++ a.lifetime ++ "\n").toList = _
    rw [String.toList_append, String.toList_append, String.toList_append, String.toList_append,
      String.toList_append,
      String.toList_append, String.toList_append, String.toList_append, String.toList_append]
    rw [List.append_assoc, List.append_assoc, List.append_assoc, List.append_assoc,
      List.append_assoc, List.append_assoc]
  obtain ⟨rest, hrest⟩ := htext
  rw [hrest, haddr, loopbackQuad_text, hinet, hslash]
  exact ⟨"    inet".toList, rest, by simp only [loopbackText, List.cons_append, List.append_assoc,
    List.nil_append]⟩

theorem infix_link {l : Link} {a : Inet} (ha : a ∈ l.inets) (haddr : a.addr = "127.0.0.1") :
    loopbackText <:+: l.text.toList := by
  have hjoin : a.text.toList <:+: (String.join (l.inets.map Inet.text)).toList :=
    infix_join (List.mem_map_of_mem ha)
  rw [Link.text, String.toList_append]
  exact ((infix_inet haddr).trans hjoin).trans (List.suffix_append _ _).isInfix

theorem Clean.shown {ip : String} {g : Guest} (h : Clean ip g) :
    loopbackText <:+: g.text.toList := by
  obtain ⟨lo, hlo, -, a, ha, haddr, -⟩ := h.loopback
  have hjoin : lo.text.toList <:+: (String.join (g.links.map Link.text)).toList :=
    infix_join (List.mem_map_of_mem hlo)
  rw [Guest.text, String.toList_append]
  exact ((infix_link ha haddr).trans hjoin).trans (List.suffix_append _ _).isInfix

theorem Prints.shown {text out : String} (h : Prints text out)
    (ht : loopbackText <:+: text.toList) :
    loopbackText <:+: out.toList := by
  obtain ⟨before, after, esc, hplain, hout⟩ := h
  obtain ⟨pre, post, hs⟩ := ht
  have hkeep : ∀ cs : List Char, (∀ c ∈ cs, plainChar c = true) → cs.flatMap esc = cs := by
    intro cs hcs
    induction cs with
    | nil => rfl
    | cons c cs ih =>
        rw [List.flatMap_cons, hplain c (hcs c List.mem_cons_self),
          ih fun x hx => hcs x (List.mem_cons_of_mem _ hx)]
        rfl
  have hall : ∀ c ∈ loopbackText, plainChar c = true := List.all_eq_true.mp rfl
  rw [hout, ← hs, List.flatMap_append, List.flatMap_append, hkeep loopbackText hall]
  exact ⟨before ++ pre.flatMap esc, post.flatMap esc ++ after, by simp⟩

theorem sat_require {S : Type} {step : S → (e : Eff) → Ans e → S → Prop} {G : S → Eff → Prop}
    {Q : S → List Check → Prop}
    {X : S → PyExc → Prop} {s : S} (checks : List Check) (name detail : String) (passed : Bool) :
    Sat step G Q X (require checks name passed detail) s ↔
      if passed then Q s (checks ++ [(name, detail)])
        else X s ⟨.hygieneError, s!"clone hygiene FAIL [{name}]: {detail}"⟩ := by
  unfold require
  cases passed with
  | true => rfl
  | false => rfl

/-- The guest's answer to the command; the state says whether it was run. -/
def answers (g : Option CompletedProcess) : Bool → (e : Eff) → Ans e → Bool → Prop
  | _, .sys (.guestExec _), a, s' => a = g ∧ s' = true
  | s, _, _, s' => s' = s

def NetplanFails (x : PyExc) : Prop :=
  x.cls = .hygieneError ∧ startsWith x.msg "clone hygiene FAIL [netplan_reidentified]: " = true

theorem netplan_fails {name : String} (hn : name = "netplan_reidentified") (detail : String) :
    NetplanFails ⟨.hygieneError, s!"clone hygiene FAIL [{name}]: {detail}"⟩ := by
  subst hn
  refine ⟨rfl, ?_⟩
  rw [startsWith, List.isPrefixOf_iff_prefix]
  show _ <+: ("clone hygiene FAIL [netplan_reidentified]: " ++ detail).toList
  rw [String.toList_append]
  exact List.prefix_append _ _

section Refusal

variable {out : CompletedProcess} {ip : String}

theorem tokens_sat (vmid : Int) : Sat (answers (some out)) (fun _ _ => True)
    (fun s tokens => s = true ∧ tokens = ipv4Tokens (runText (some out))) (fun _ _ => False)
    (guestNetplanStaticIps vmid) false := by
  refine ⟨trivial, ?_⟩
  rintro a s ⟨rfl, rfl⟩
  exact ⟨rfl, rfl⟩

theorem require_unread (checks : List Check) (name detail : String) (passed : Bool) :
    Sat (answers (some out)) (fun _ _ => True) (fun s _ => s = false)
      (fun s x => s = true → NetplanFails x)
      (require checks name passed detail) false := by
  rw [sat_require]
  split
  · rfl
  · intro h
    cases h

theorem verifyAddress_refuses (hother : ip ≠ "127.0.0.1")
    (hfound : "127.0.0.1" ∈ ipv4Tokens (runText (some out)))
    (checks : List Check) (vmid : Int) (others : List String) :
    Sat (answers (some out)) (fun _ _ => True) (fun _ _ => False)
      (fun s x => s = true → NetplanFails x)
      (verifyAddress checks vmid ip others) false := by
  have hbad : ((ipv4Tokens (runText (some out))).filter (· != ip)).isEmpty = false := by
    apply List.isEmpty_eq_false_iff_exists_mem.mpr
    exact ⟨_, List.mem_filter.mpr ⟨hfound, by simpa using hother.symm⟩⟩
  have hlease : Sat (answers (some out)) (fun _ _ => True) (fun s (_ : List String) => s = false)
      (fun s x => s = true → NetplanFails x) leaseInventory false := by
    refine ⟨trivial, ?_⟩
    rintro (x | l) s rfl
    · intro h
      cases h
    · rfl
  refine Sat.seq hlease ?_
  rintro s _ rfl
  refine Sat.seq (require_unread checks _ _ _) ?_
  rintro s checks' rfl
  refine Sat.seq ((tokens_sat vmid).mono (fun _ _ h => h) fun _ _ h => h.elim) ?_
  rintro s tokens ⟨rfl, rfl⟩
  refine (sat_require _ _ _ _).mpr ?_
  rw [hbad]
  exact fun _ => netplan_fails rfl _

theorem verify_refuses (hip : ip ≠ "") (hother : ip ≠ "127.0.0.1")
    (hfound : "127.0.0.1" ∈ ipv4Tokens (runText (some out)))
    (vmid : Int) (hostname mac agent : String) (guestAgentId : Json) (others : List String) :
    Sat (answers (some out)) (fun _ _ => True) (fun _ _ => False)
      (fun s x => s = true → NetplanFails x)
      (verifyCloneIdentity vmid hostname mac ip agent guestAgentId others) false := by
  refine Sat.seq (require_unread _ _ _ _) ?_
  rintro s checks rfl
  refine Sat.seq (require_unread _ _ _ _) ?_
  rintro s checks' rfl
  refine Sat.seq (require_unread _ _ _ _) ?_
  rintro s checks'' rfl
  rw [if_pos hip]
  exact Sat.seq (verifyAddress_refuses hother hfound checks'' vmid others) fun _ _ h => h.elim

end Refusal

/-- Whatever else the gate is given, it refuses a clean guest once it has looked at it. -/
theorem clean_refused {ip : String} {g : Guest} {out : CompletedProcess} (hg : Clean ip g)
    (hp : Prints g.text out.stdout)
    {vmid : Int} {hostname mac agent : String} {guestAgentId : Json} {others : List String}
    {tr : PyTrace} {read : Bool}
    {q : Py (List Check)} (h : Exec (answers (some out)) false
      (verifyCloneIdentity vmid hostname mac ip agent guestAgentId others) tr read q) (hq : ∀ e k, q ≠ .call e k) :
    ∃ x, q = .raise x ∧ (read = true → NetplanFails x) := by
  have hinfix : loopbackText <:+: (runText (some out)).toList := by
    rw [runText, String.toList_append]
    exact (hp.shown hg.shown).trans (List.prefix_append _ _).isInfix
  have hsat :=
    (verify_refuses hg.given hg.other (loopback_found hinfix) vmid hostname mac agent guestAgentId
    others).exec h
  cases q with
  | ret a => exact hsat.elim
  | raise x => exact ⟨x, rfl, hsat⟩
  | call e k => exact absurd rfl (hq e k)

theorem verify_runs {out : CompletedProcess} {ip : String} {vmid : Int} {hostname mac : String}
    {others : List String}
    (hv : vmid ≠ 0) (hm : macValid mac = true) (hh : hostnameValid hostname = true) (hip : ip ≠ "")
    (ho : others.contains ip = false) (hbad :
    ((ipv4Tokens (runText (some out))).filter (· != ip)).isEmpty = false)
    (agent : String) (guestAgentId : Json) :
    ∃ q, Exec (answers (some out)) false (verifyCloneIdentity vmid hostname mac ip agent
      guestAgentId others)
      [⟨.sys .leaseInventory, (.ok [] : Except PyExc (List String))⟩,
        ⟨.sys (.guestExec vmid), some out⟩] true q ∧
      ∀ e k, q ≠ .call e k := by
  have hpass : ∀ checks name detail, require checks name true detail =
      .ret (checks ++ [(name, detail)]) := fun _ _ _ => rfl
  have hfail : ∀ checks name detail, require checks name false detail =
      .raise ⟨.hygieneError, s!"clone hygiene FAIL [{name}]: {detail}"⟩ := fun _ _ _ => rfl
  simp only [verifyCloneIdentity, verifyAddress, hv, hm, hh, hip, ho, ne_eq, not_false_eq_true,
    decide_true, if_true, hpass,
    Bool.not_false, leaseInventory, guestNetplanStaticIps, guestExec, bind, Prog.bind]
  refine ⟨_, .call (rfl : answers (some out) false (.sys .leaseInventory)
    (.ok [] : Except PyExc (List String)) false)
    (.call (⟨rfl, rfl⟩ : answers (some out) false (.sys (.guestExec vmid)) (some out) true) (.refl _ _)), ?_⟩
  intro e k h
  simp only [pure, Prog.bind, hbad, hfail] at h
  cases h

/-- One address by DHCP, on the interface beside the loopback. -/
def dhcpGuest : Guest where
  netplan := .dhcp "eth0"
  links :=
    [⟨1, "lo",
    "<LOOPBACK,UP,LOWER_UP> mtu 65536 qdisc noqueue state UNKNOWN group default qlen 1000",
      [⟨"127.0.0.1", 8, none, "host lo", "valid_lft forever preferred_lft forever"⟩]⟩,
    ⟨2, "eth0",
      "<BROADCAST,MULTICAST,UP,LOWER_UP> mtu 1500 qdisc fq_codel state UP group default qlen 1000",
      [⟨"10.0.20.222", 24, some "10.0.20.255", "global dynamic eth0", "valid_lft 3312sec preferred_lft 3312sec"⟩]⟩]

theorem dhcpGuest_clean : Clean "10.0.20.222" dhcpGuest where
  loopback := ⟨_, List.mem_cons_self, rfl, _, List.mem_cons_self, rfl, rfl⟩
  links := by decide
  netplan := .inl ⟨"eth0", rfl⟩
  other := by decide
  given := by decide

def dhcpOutput : CompletedProcess := ⟨0, dhcpGuest.text, ""⟩

theorem prints_self (text : String) : Prints text text :=
  ⟨[], [], fun c => [c], fun _ _ => rfl, by simp⟩

theorem dhcpOutput_prints : Prints dhcpGuest.text dhcpOutput.stdout := prints_self _

theorem dhcp_conflicts : ((ipv4Tokens (runText (some dhcpOutput))).filter
    (· != "10.0.20.222")).isEmpty = false := by
  have hin : loopbackText <:+: (runText (some dhcpOutput)).toList := by
    rw [runText, String.toList_append]
    exact (dhcpOutput_prints.shown dhcpGuest_clean.shown).trans (List.prefix_append _ _).isInfix
  apply List.isEmpty_eq_false_iff_exists_mem.mpr
  exact ⟨_, List.mem_filter.mpr ⟨loopback_found hin, by decide⟩⟩

theorem dhcp_guest_conflicts : Clean "10.0.20.222" dhcpGuest ∧
    Prints dhcpGuest.text dhcpOutput.stdout ∧
    ((ipv4Tokens (runText (some dhcpOutput))).filter (· != "10.0.20.222")).isEmpty = false :=
  ⟨dhcpGuest_clean, dhcpOutput_prints, dhcp_conflicts⟩

theorem dhcp_guest_refused : ∃ tr q,
    Exec (answers (some dhcpOutput)) false
      (verifyCloneIdentity 105 "sbx-1" "BC:24:11:01:02:03" "10.0.20.222" "agent" (.str "agent") [])
        tr true q ∧
    ∃ x, q = .raise x ∧ (true = true → NetplanFails x) := by
  have hmac : macValid "BC:24:11:01:02:03" = true := by decide
  have hhost : hostnameValid "sbx-1" = true := by decide
  have hno : ([] : List String).contains "10.0.20.222" = false := rfl
  obtain ⟨q, hx, hq⟩ :=
    verify_runs (by decide : (105 : Int) ≠ 0) hmac hhost dhcpGuest_clean.given hno dhcp_conflicts
      "agent"
    (.str "agent")
  exact ⟨_, q, hx, clean_refused dhcpGuest_clean dhcpOutput_prints hx hq⟩

end ServerManager.GuestAddresses
