import ServerManager.SandboxBoot

namespace ServerManager.GeneratedMac

open Interaction PyJson PyText Effects Config ProxmoxVm CloneHygiene SandboxNetwork Provisioning
  Calls SandboxBoot

def adds (mac : String) : Eff → Prop
  | .kea (.addReservation _ _ hw _ _) => hw = mac
  | _ => True

structure AcceptedEverywhere (mac : String) : Prop where
  extracted : ∀ (cfg : Dict) (bridge : String),
    Dict.get? cfg "net0" = some (.str s!"virtio={mac},bridge={bridge}") →
    net0Mac (.obj cfg) = pure mac
  valid : validMac mac = true
  stored : ∀ (cfg : Settings) (ip hostname workUid agentName : String) (existing : Option String),
    Only (adds (macNorm mac)) (reserveForMac cfg ip mac hostname workUid agentName existing)
  same : macNorm (macNorm mac) = macNorm mac
  hygiene : macValid mac = true

def upperHex (n : Nat) : Char := (hexDigit n).toUpper

theorem upperHex_hex : ∀ n : Fin 16, isHexAny (upperHex n.val) = true ∧
    isHexLower (upperHex n.val).toLower = true ∧
    (upperHex n.val).toUpper = upperHex n.val := by decide +kernel

theorem upperHex_zero : ∀ n : Fin 16, upperHex n.val = '0' ↔ n.val = 0 := by decide +kernel

theorem macText_toList (a b c : Fin 256) :
    (macText a b c).toList = ['B', 'C', ':', '2', '4', ':', '1', '1', ':', upperHex (a.val / 16),
    upperHex (a.val % 16), ':',
      upperHex (b.val / 16), upperHex (b.val % 16), ':', upperHex (c.val / 16), upperHex (c.val % 16)] := by
  simp [macText, hex2, asciiUpper, upperHex]

theorem high_digit (n : Fin 256) : isHexAny (upperHex (n.val / 16)) = true ∧
    isHexLower (upperHex (n.val / 16)).toLower = true ∧
      (upperHex (n.val / 16)).toUpper = upperHex (n.val / 16) :=
  upperHex_hex ⟨n.val / 16, by omega⟩

theorem low_digit (n : Fin 256) : isHexAny (upperHex (n.val % 16)) = true ∧
    isHexLower (upperHex (n.val % 16)).toLower = true ∧
      (upperHex (n.val % 16)).toUpper = upperHex (n.val % 16) :=
  upperHex_hex ⟨n.val % 16, by omega⟩

theorem macText_shape (a b c : Fin 256) : macShape isHexAny (macText a b c).toList = true := by
  have hfixed : isHexAny 'B' = true ∧ isHexAny 'C' = true ∧ isHexAny '2' = true ∧
      isHexAny '4' = true ∧ isHexAny '1' = true := by
    decide
  simp [macShape, macText_toList, List.zipIdx_cons, hfixed, high_digit, low_digit]

theorem macNorm_plain {s : String} (h : ∀ c ∈ s.toList, isSpace c = false ∧ c ≠ '-') :
    macNorm s = asciiLower s := by
  unfold macNorm asciiLower
  rw [strip_plain fun c hc => (h c hc).1]
  apply congrArg String.ofList
  apply List.map_congr_left
  intro c hc
  simp [(h c hc).2]

theorem lower_plain : ∀ c ∈ macChars, isSpace c.toLower = false ∧ c.toLower ≠ '-' := by
  have h : macChars.all (fun c => decide (isSpace c.toLower = false ∧ c.toLower ≠ '-')) = true := by
    decide +kernel
  intro c hc
  exact of_decide_eq_true (List.all_eq_true.mp h c hc)

theorem macNorm_generated (a b c : Fin 256) :
    macNorm (macText a b c) = asciiLower (macText a b c) := by
  apply macNorm_plain
  intro x hx
  have hp := macChars_plain x (macText_chars a b c x hx)
  exact ⟨hp.1, hp.2.1⟩

theorem macNorm_again (a b c : Fin 256) : macNorm (macNorm (macText a b c)) = macNorm
    (macText a b c) := by
  have hlow : macNorm (asciiLower (macText a b c)) = asciiLower (asciiLower (macText a b c)) := by
    apply macNorm_plain
    intro x hx
    rw [asciiLower, String.toList_ofList] at hx
    obtain ⟨y, hy, rfl⟩ := List.mem_map.mp hx
    exact lower_plain y (macText_chars a b c y hy)
  rw [macNorm_generated, hlow]
  unfold asciiLower
  rw [String.toList_ofList, List.map_map]
  apply congrArg String.ofList
  apply List.map_congr_left
  intro x hx
  exact (macChars_plain x (macText_chars a b c x hx)).2.2

theorem macText_valid (a b c : Fin 256) : validMac (macText a b c) = true := by
  have hfixed : isHexLower 'b' = true ∧ isHexLower 'c' = true ∧ isHexLower '2' = true ∧
      isHexLower '4' = true ∧
      isHexLower '1' = true := by decide
  unfold validMac
  rw [macNorm_generated, asciiLower, String.toList_ofList, macText_toList]
  simp [macShape, List.zipIdx_cons, hfixed, high_digit, low_digit]

theorem macSearch_skip {c : Char} (hc : isHexAny c = false) (cs : List Char) :
    macSearch (c :: cs) = macSearch cs := by
  have hno : macShape isHexAny ((c :: cs).take 17) = false := by
    simp [macShape, List.zipIdx_cons, hc]
  rw [macSearch, hno]
  rfl

theorem macSearch_found {m rest : List Char} (hm : macShape isHexAny m = true) :
    macSearch (m ++ rest) = some (String.ofList m) := by
  have hlen : m.length = 17 := by
    simp only [macShape, Bool.and_eq_true, beq_iff_eq] at hm
    exact hm.1
  have htake : (m ++ rest).take 17 = m := by
    rw [← hlen, List.take_left]
  cases m with
  | nil => simp at hlen
  | cons x m =>
      rw [List.cons_append] at htake ⊢
      rw [macSearch, htake, hm]
      rfl

theorem net0_search (a b c : Fin 256) (bridge : String) :
    macSearch s!"virtio={macText a b c},bridge={bridge}".toList = some (macText a b c) := by
  have hskip : ∀ x ∈ "virtio=".toList, isHexAny x = false := by
    simp [isHexAny, isHexLower]
  have hprefix : ∀ l cs : List Char, (∀ x ∈ l, isHexAny x = false) →
      macSearch (l ++ cs) = macSearch cs := by
    intro l cs hl
    induction l with
    | nil => rfl
    | cons x l ih =>
        rw [List.cons_append, macSearch_skip (hl x List.mem_cons_self)]
        exact ih fun y hy => hl y (List.mem_cons_of_mem _ hy)
  have htext : s!"virtio={macText a b c},bridge={bridge}".toList =
      "virtio=".toList ++ ((macText a b c).toList ++ (",bridge=".toList ++ bridge.toList)) := by
    show ("virtio=" ++ macText a b c ++ ",bridge=" ++ bridge).toList = _
    rw [String.toList_append, String.toList_append, String.toList_append, List.append_assoc,
      List.append_assoc]
  rw [htext, hprefix _ _ hskip, macSearch_found (macText_shape a b c), String.ofList_toList]

theorem net0Mac_extracts (a b c : Fin 256) (cfg : Dict) (bridge : String)
    (h : Dict.get? cfg "net0" = some (.str s!"virtio={macText a b c},bridge={bridge}")) :
    net0Mac (.obj cfg) = pure (macText a b c) := by
  have htruthy : ∀ text : String, text ≠ "" → (Json.str text).orElse (.str "") = .str text := by
    intro text ht
    simp [Json.orElse, Json.truthy, ht]
  have hne : s!"virtio={macText a b c},bridge={bridge}" ≠ "" := by
    intro he
    have hl := congrArg String.toList he
    simp only [String.toList_append, String.toList_empty, List.append_eq_nil_iff] at hl
    exact macText_ne_empty a b c (String.toList_inj.mp hl.1.1.2)
  have hsearch := net0_search a b c bridge
  generalize s!"virtio={macText a b c},bridge={bridge}" = text at *
  have hget : dictGet (.obj cfg) "net0" = .ret (.str text) := by
    show Prog.ret ((Dict.get? cfg "net0").getD .null) = _
    rw [h]
    rfl
  unfold net0Mac
  rw [hget]
  simp only [bind, Prog.bind, htruthy text hne, hsearch]
  rfl

theorem hygiene_iff (a b c : Fin 256) : macValid (macText a b c) = true ↔ a ≠ 0 := by
  have hhigh := upperHex_zero ⟨a.val / 16, by omega⟩
  have hlow := upperHex_zero ⟨a.val % 16, by omega⟩
  have hupper : (asciiUpper (macText a b c)).toList = (macText a b c).toList := by
    rw [asciiUpper, String.toList_ofList, macText_toList]
    simp [high_digit, low_digit]
  have hzero : a = 0 ↔ a.val / 16 = 0 ∧ a.val % 16 = 0 := by
    rw [Fin.ext_iff]
    show a.val = 0 ↔ _
    omega
  rw [macValid, macText_shape, Bool.true_and, Bool.not_eq_true', startsWith, hupper, macText_toList,
    ne_eq, hzero,
    ← hhigh, ← hlow]
  simp [List.isPrefixOf, @eq_comm _ '0']

def drawn (n : Fin 256) : Event Eff Ans := ⟨.sys (.randbelow 256), n⟩

theorem generateMac_returns {tr : PyTrace} {mac : String}
    (h : Exec anything () generateMac tr () (.ret mac)) :
    ∃ a b c, tr = [drawn a, drawn b, drawn c] ∧ mac = macText a b c := by
  cases h with
  | @call _ _ _ _ _ a _ _ _ h =>
      cases h with
      | @call _ _ _ _ _ b _ _ _ h =>
          cases h with
          | @call _ _ _ _ _ c _ _ _ h =>
              cases h
              exact ⟨a, b, c, rfl, rfl⟩

/-- All rules accept a generated MAC, unless the random part starts like the template's. -/
theorem generated_accepted_iff {tr : PyTrace} {mac : String}
    (h : Exec anything () generateMac tr () (.ret mac)) :
    ∃ a b c, tr = [drawn a, drawn b, drawn c] ∧ (AcceptedEverywhere mac ↔ a ≠ 0) := by
  obtain ⟨a, b, c, ht, rfl⟩ := generateMac_returns h
  refine ⟨a, b, c, ht, fun hm => (hygiene_iff a b c).mp hm.hygiene, fun ha => ?_⟩
  refine ⟨net0Mac_extracts a b c, macText_valid a b c, ?_, macNorm_again a b c,
    (hygiene_iff a b c).mpr ha⟩
  intro cfg ip hostname workUid agentName existing
  exact only_reserveForMac cfg ip _ hostname workUid agentName existing trivial trivial trivial
    (fun _ _ => trivial)
    fun _ => rfl

theorem exec_answered {α : Type} {e : Eff} {k : Ans e → Py α} {a : Ans e} {tr : PyTrace} {q : Py α}
    (h : Exec anything () (k a) tr () q) : Exec anything () (.call e k) (⟨e, a⟩ :: tr) () q :=
  .call trivial h

theorem generateMac_draws (a b c : Fin 256) :
    Exec anything () generateMac [drawn a, drawn b, drawn c] () (.ret (macText a b c)) :=
  exec_answered (exec_answered (exec_answered (.refl _ _)))

theorem drawn_accepted_iff : ∃ a b c, [drawn 1, drawn 2, drawn 3] = [drawn a, drawn b, drawn c] ∧
    (AcceptedEverywhere (macText 1 2 3) ↔ a ≠ 0) :=
  generated_accepted_iff (generateMac_draws 1 2 3)

theorem template_mac_refused : ∃ tr mac, Exec anything () generateMac tr () (.ret mac) ∧
    ¬ AcceptedEverywhere mac := by
  refine ⟨_, _, generateMac_draws 0 1 2, fun h => ?_⟩
  exact (hygiene_iff 0 1 2).mp h.hygiene rfl

end ServerManager.GeneratedMac
