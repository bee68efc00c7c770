import Mathlib.Data.List.Basic
import ServerManager.PyJson

namespace ServerManager.JsonRoundTrip

open PyJson

def units (c : Char) : List Nat :=
  if c.toNat < 0x10000 then [c.toNat]
  else [0xD800 + (c.toNat - 0x10000) / 0x400, 0xDC00 + (c.toNat - 0x10000) % 0x400]

theorem hexVal_hexDigit : ∀ n < 16, hexVal (hexDigit n) = some n := by decide

theorem hex4_digits {n : Nat} (h : n < 0x10000) :
    hex4 (hexDigit (n / 4096 % 16)) (hexDigit (n / 256 % 16)) (hexDigit (n / 16 % 16))
      (hexDigit (n % 16)) = some n := by
  have ha := hexVal_hexDigit (n / 4096 % 16) (by omega)
  have hb := hexVal_hexDigit (n / 256 % 16) (by omega)
  have hc := hexVal_hexDigit (n / 16 % 16) (by omega)
  have hd := hexVal_hexDigit (n % 16) (by omega)
  simp only [hex4, ha, hb, hc, hd, Option.bind_eq_bind, Option.bind_some, Option.pure_def]
  congr 1
  omega

theorem scanUnits_unit {n : Nat} (h : n < 0x10000) (acc : List Nat) (rest : List Char) :
    scanUnits acc (escapeUnit n ++ rest) = scanUnits (n :: acc) rest := by
  change scanUnits acc ('\\' :: 'u' :: _ :: _ :: _ :: _ :: rest) = _
  rw [scanUnits, hex4_digits h]

theorem scanUnits_plain {c : Char} (hq : c ≠ '"') (hb : c ≠ '\\') (hc : 0x20 ≤ c.toNat)
    (acc : List Nat) (rest : List Char) :
    scanUnits acc (c :: rest) = scanUnits (c.toNat :: acc) rest := by
  have hge : ¬ c.toNat < 0x20 := Nat.not_lt.mpr hc
  rw [scanUnits, if_neg hge]
  all_goals simp_all

theorem toNat_lt (c : Char) : c.toNat < 0x110000 := by
  have h := c.valid
  rcases h with h | ⟨-, h⟩
  · exact Nat.lt_trans h (by decide)
  · exact h

theorem scanUnits_escape (c : Char) (acc : List Nat) (rest : List Char) :
    scanUnits acc (escapeChar c ++ rest) = scanUnits ((units c).reverse ++ acc) rest := by
  have hlt := toNat_lt c
  rw [escapeChar]
  split
  next h =>
      obtain rfl : c = '"' := by simpa using h
      rfl
  next hq =>
  split
  next h =>
      obtain rfl : c = '\\' := by simpa using h
      rfl
  next hb =>
  split
  next h =>
      obtain rfl : c = '\n' := by simpa using h
      rfl
  split
  next h =>
      obtain rfl : c = '\r' := by simpa using h
      rfl
  split
  next h =>
      obtain rfl : c = '\t' := by simpa using h
      rfl
  split
  next h =>
      have hc : c.toNat = 12 := by simpa using h
      rw [units, hc]
      rfl
  split
  next h =>
      have hc : c.toNat = 8 := by simpa using h
      rw [units, hc]
      rfl
  split
  next h =>
      rw [units, if_pos (by omega)]
      exact scanUnits_plain (by simpa using hq) (by simpa using hb) h.1 acc rest
  split
  next h =>
      rw [units, if_pos h]
      exact scanUnits_unit h acc rest
  next h =>
      rw [units, if_neg h, List.append_assoc, scanUnits_unit (by omega), scanUnits_unit (by omega)]
      rfl

theorem joinUnits_units (c : Char) (ns : List Nat) :
    joinUnits none (units c ++ ns) = c :: joinUnits none ns := by
  have hlt := toNat_lt c
  have hvalid : c.toNat < 0xD800 ∨ 0xDFFF < c.toNat ∧ c.toNat < 0x110000 := c.valid
  by_cases h : c.toNat < 0x10000
  · have hhigh : isHighSurrogate c.toNat = false := by
      simp only [isHighSurrogate, Bool.and_eq_false_iff, decide_eq_false_iff_not]
      omega
    have hlow : isLowSurrogate c.toNat = false := by
      simp only [isLowSurrogate, Bool.and_eq_false_iff, decide_eq_false_iff_not]
      omega
    rw [units, if_pos h, List.singleton_append, joinUnits, hhigh, hlow, Char.ofNat_toNat]
    rfl
  · have hhigh : isHighSurrogate (0xD800 + (c.toNat - 0x10000) / 0x400) = true := by
      simp only [isHighSurrogate, Bool.and_eq_true, decide_eq_true_eq]
      omega
    have hlow : isLowSurrogate (0xDC00 + (c.toNat - 0x10000) % 0x400) = true := by
      simp only [isLowSurrogate, Bool.and_eq_true, decide_eq_true_eq]
      omega
    have hsum : 0x10000 + (0xD800 + (c.toNat - 0x10000) / 0x400 - 0xD800) * 0x400 +
        (0xDC00 + (c.toNat - 0x10000) % 0x400 - 0xDC00) = c.toNat := by omega
    rw [units, if_neg h, List.cons_append, List.singleton_append, joinUnits, hhigh, if_pos rfl,
      joinUnits, hlow,
      if_pos rfl, hsum, Char.ofNat_toNat]

theorem joinUnits_flatMap (cs : List Char) : joinUnits none (cs.flatMap units) = cs := by
  induction cs with
  | nil => rfl
  | cons c cs ih => rw [List.flatMap_cons, joinUnits_units, ih]

theorem scanUnits_flatMap (cs : List Char) (acc : List Nat) (rest : List Char) :
    scanUnits acc (cs.flatMap escapeChar ++ rest) =
      scanUnits ((cs.flatMap units).reverse ++ acc) rest := by
  induction cs generalizing acc with
  | nil => rfl
  | cons c cs ih =>
      rw [List.flatMap_cons, List.append_assoc, scanUnits_escape, ih, List.flatMap_cons,
        List.reverse_append,
        List.append_assoc]

theorem scanString_dumps (s : String) (rest : List Char) :
    scanString (s.toList.flatMap escapeChar ++ '"' :: rest) = some (s, rest) := by
  rw [scanString, scanUnits_flatMap, List.append_nil, scanUnits, List.reverse_reverse,
    Option.map_some, joinUnits_flatMap,
    String.ofList_toList]

def Stops (rest : List Char) : Prop := ∃ c cs, rest = c :: cs ∧ (c = ',' ∨ c = '\x7d')

theorem spanDigits_append {ds rest : List Char} (hd : ∀ c ∈ ds, c.isDigit = true)
    (hr : Stops rest) :
    spanDigits (ds ++ rest) = (ds, rest) := by
  induction ds with
  | nil =>
      obtain ⟨c, cs, rfl, rfl | rfl⟩ := hr
      · rfl
      · rfl
  | cons d ds ih =>
      have htail := ih fun c hc => hd c (List.mem_cons_of_mem _ hc)
      rw [List.cons_append, spanDigits, if_pos (hd d List.mem_cons_self), htail]

theorem digitsVal_toDigits (n : Nat) : digitsVal (Nat.toDigits 10 n) = n := by
  have h := Nat.ofDigitChars_ten_toDigits (n := n)
  rw [Nat.ofDigitChars_eq_foldl] at h
  rw [digitsVal]
  simpa only [Nat.mul_comm] using h

theorem toDigits_head {n : Nat} (h : 0 < n) : ∃ d ds, Nat.toDigits 10 n = d :: ds ∧ d ≠ '0' := by
  induction n using Nat.strongRecOn with
  | _ n ih =>
      by_cases hn : n < 10
      · refine ⟨n.digitChar, [], Nat.toDigits_of_lt_base hn, ?_⟩
        have hall : ∀ k < 10, 0 < k → Nat.digitChar k ≠ '0' := by decide
        exact hall n hn h
      · obtain ⟨d, ds, hd, hne⟩ := ih (n / 10) (by omega) (by omega)
        refine ⟨d, ds ++ [(n % 10).digitChar], ?_, hne⟩
        rw [Nat.toDigits_of_base_le (by omega) (by omega), hd]
        rfl

theorem scanFrac_stops {rest : List Char} (hr : Stops rest) : scanFrac rest = ([], rest) := by
  obtain ⟨c, cs, rfl, rfl | rfl⟩ := hr
  · rfl
  · rfl

theorem scanExp_stops {rest : List Char} (hr : Stops rest) : scanExp rest = ([], rest) := by
  obtain ⟨c, cs, rfl, rfl | rfl⟩ := hr
  · rfl
  · rfl

theorem scanNumber_toDigits (neg : Bool) {n : Nat} (hn : (Nat.toDigits 10 n).length ≤ 4300)
    {rest : List Char}
    (hr : Stops rest) :
    scanNumber neg (Nat.toDigits 10 n ++ rest) =
      some (.int (if neg then -(n : Int) else n), rest) := by
  have hdigits : ∀ c ∈ Nat.toDigits 10 n, c.isDigit = true :=
    fun c hc => Nat.isDigit_of_mem_toDigits (by decide) (by decide) hc
  have hspan := spanDigits_append hdigits hr
  have hval := digitsVal_toDigits n
  by_cases h : 0 < n
  · obtain ⟨d, ds, hd, hne⟩ := toDigits_head h
    rw [hd, List.cons_append] at hspan ⊢
    rw [hd] at hn hval
    rw [scanNumber.eq_def]
    simp only [List.length_cons] at hn
    simp [hne, hspan, scanFrac_stops hr, scanExp_stops hr, hn, hval]
  · obtain rfl : n = 0 := by omega
    obtain ⟨c, cs, rfl, rfl | rfl⟩ := hr
    · cases neg
      · rfl
      · rfl
    · cases neg
      · rfl
      · rfl

def Flat : Json → Prop
  | .null | .bool _ | .str _ => True
  | .int n => (Nat.toDigits 10 n.natAbs).length ≤ 4300
  | _ => False

theorem toString_ofNat (n : Nat) : (toString (Int.ofNat n)).toList = Nat.toDigits 10 n :=
  Nat.toList_repr

theorem toString_negSucc (n : Nat) : (toString (Int.negSucc n)).toList = '-' :: Nat.toDigits 10
    (n + 1) := by
  change ("-" ++ (n + 1).repr).toList = _
  rw [String.toList_append, Nat.toList_repr]
  rfl

theorem scanValue_int (fuel : Nat) {n : Nat} {rest : List Char} :
    scanValue (fuel + 1) (Nat.toDigits 10 n ++ rest) =
      scanNumber false (Nat.toDigits 10 n ++ rest) := by
  have hdigits : ∀ c ∈ Nat.toDigits 10 n, c.isDigit = true :=
    fun c hc => Nat.isDigit_of_mem_toDigits (by decide) (by decide) hc
  cases hd : Nat.toDigits 10 n with
  | nil => exact absurd hd Nat.toDigits_ne_nil
  | cons d ds =>
      have hdig := hdigits d (hd ▸ List.mem_cons_self)
      rw [List.cons_append, scanValue.eq_def]
      dsimp only
      split <;> first | rfl | (exfalso; simp_all)

theorem scanValue_flat {x : Json} (hx : Flat x) (fuel : Nat) {rest : List Char} (hr : Stops rest) :
    scanValue (fuel + 1) (dumpsChars x ++ rest) = some (x, rest) := by
  cases x with
  | null => rfl
  | bool b =>
      cases b
      · rfl
      · rfl
  | str s =>
      have hstr := scanString_dumps s rest
      have happ : dumpsChars (.str s) ++ rest = '"' ::
          (s.toList.flatMap escapeChar ++ '"' :: rest) := by
        rw [dumpsChars, dumpsStr, List.append_assoc]
        rfl
      rw [happ, scanValue, hstr]
      rfl
  | int n =>
      cases n with
      | ofNat n =>
          have hlen : (Nat.toDigits 10 n).length ≤ 4300 := hx
          rw [dumpsChars, toString_ofNat, scanValue_int, scanNumber_toDigits false hlen hr]
          rfl
      | negSucc n =>
          have hlen : (Nat.toDigits 10 (n + 1)).length ≤ 4300 := hx
          have hneg : scanValue (fuel + 1) ('-' :: (Nat.toDigits 10 (n + 1) ++ rest)) =
              scanNumber true (Nat.toDigits 10 (n + 1) ++ rest) := by
            obtain ⟨d, ds, hd, -⟩ := toDigits_head (Nat.succ_pos n)
            have hdig : d.isDigit = true :=
              Nat.isDigit_of_mem_toDigits (b := 10) (n := n + 1) (by decide) (by decide)
                (by rw [hd]; exact List.mem_cons_self)
            have hI : d ≠ 'I' := by
              rintro rfl
              cases hdig
            rw [hd, List.cons_append, scanValue]
            intro cs hcs
            exact hI (List.cons.inj hcs).1
          rw [dumpsChars, toString_negSucc, List.cons_append, hneg,
            scanNumber_toDigits true hlen hr]
          rfl
  | float lit => exact absurd hx id
  | arr xs => exact absurd hx id
  | obj fs => exact absurd hx id

theorem digit_not_ws {c : Char} (h : c.isDigit = true) : isWs c = false := by
  cases hw : isWs c with
  | false => rfl
  | true =>
      simp only [isWs, Bool.or_eq_true, beq_iff_eq] at hw
      rcases hw with ((rfl | rfl) | rfl) | rfl
      · cases h
      · cases h
      · cases h
      · cases h

theorem dumps_head {x : Json} (hx : Flat x) : ∃ c cs, dumpsChars x = c :: cs ∧ isWs c = false := by
  have hdigits : ∀ n, ∃ c cs, Nat.toDigits 10 n = c :: cs ∧ isWs c = false := by
    intro n
    cases hd : Nat.toDigits 10 n with
    | nil => exact absurd hd Nat.toDigits_ne_nil
    | cons d ds =>
        have hdig : d.isDigit = true :=
          Nat.isDigit_of_mem_toDigits (b := 10) (n := n) (by decide) (by decide)
            (by rw [hd]; exact List.mem_cons_self)
        exact ⟨d, ds, rfl, digit_not_ws hdig⟩
  cases x with
  | null => exact ⟨'n', _, rfl, rfl⟩
  | bool b =>
      cases b
      · exact ⟨'f', _, rfl, rfl⟩
      · exact ⟨'t', _, rfl, rfl⟩
  | str s => exact ⟨'"', _, rfl, rfl⟩
  | int n =>
      cases n with
      | ofNat n =>
          obtain ⟨c, cs, hc, hw⟩ := hdigits n
          exact ⟨c, cs, by rw [dumpsChars, toString_ofNat, hc], hw⟩
      | negSucc n => exact ⟨'-', _, by rw [dumpsChars, toString_negSucc], rfl⟩
  | float lit => exact absurd hx id
  | arr xs => exact absurd hx id
  | obj fs => exact absurd hx id

def member (p : String × Json) : List Char := dumpsStr p.1 ++ [':', ' '] ++ dumpsChars p.2

theorem dumpsFields_snoc (fs : Dict) (p : String × Json) :
    dumpsFields (fs ++ [p]) = fs.flatMap (fun p => member p ++ [',', ' ']) ++ member p := by
  induction fs with
  | nil => rfl
  | cons f fs ih =>
      obtain ⟨k, x⟩ := f
      have hcons : dumpsFields ((k, x) :: (fs ++ [p])) = member (k, x) ++ [',', ' '] ++
          dumpsFields (fs ++ [p]) := by
        cases fs with
        | nil => rfl
        | cons f' fs => rfl
      rw [List.cons_append, hcons, ih, List.flatMap_cons]
      simp only [List.append_assoc]

theorem member_append (p : String × Json) (rest : List Char) :
    member p ++ rest = '"' :: (p.1.toList.flatMap escapeChar ++ '"' :: ':' :: ' ' ::
      (dumpsChars p.2 ++ rest)) := by
  simp only [member, dumpsStr, List.append_assoc, List.cons_append]
  rfl

theorem skipWs_value {x : Json} (hx : Flat x) (rest : List Char) :
    skipWs (' ' :: (dumpsChars x ++ rest)) = dumpsChars x ++ rest := by
  obtain ⟨c, cs, hc, hw⟩ := dumps_head hx
  rw [hc, List.cons_append]
  change skipWs (c :: (cs ++ rest)) = _
  rw [skipWs, hw]
  rfl

theorem scanFields_next (fuel : Nat) (acc : Dict) {p : String × Json} (hx : Flat p.2)
    (cs : List Char) :
    scanFields (fuel + 2) acc (member p ++ ',' :: cs) =
      scanFields (fuel + 1) (acc.set p.1 p.2) (skipWs cs) := by
  have hcolon : skipWs (':' :: ' ' :: (dumpsChars p.2 ++ ',' :: cs)) = ':' :: ' ' ::
      (dumpsChars p.2 ++ ',' :: cs) := rfl
  have hskip := skipWs_value hx (',' :: cs)
  have hvalue := scanValue_flat hx fuel ⟨_, cs, rfl, .inl rfl⟩
  rw [member_append, scanFields, scanString_dumps]
  simp only [hcolon, hskip, hvalue]
  rfl

theorem scanFields_last (fuel : Nat) (acc : Dict) {p : String × Json} (hx : Flat p.2)
    (cs : List Char) :
    scanFields (fuel + 2) acc (member p ++ '\x7d' :: cs) = some (.obj (acc.set p.1 p.2), cs) := by
  have hcolon : skipWs (':' :: ' ' :: (dumpsChars p.2 ++ '\x7d' :: cs)) = ':' :: ' ' ::
      (dumpsChars p.2 ++ '\x7d' :: cs) := rfl
  have hskip := skipWs_value hx ('\x7d' :: cs)
  have hvalue := scanValue_flat hx fuel ⟨_, cs, rfl, .inr rfl⟩
  rw [member_append, scanFields, scanString_dumps]
  simp only [hcolon, hskip, hvalue]
  rfl

theorem set_new {acc : Dict} {k : String} (h : k ∉ acc.map Prod.fst) (x : Json) :
    Dict.set acc k x = acc ++ [(k, x)] := by
  induction acc with
  | nil => rfl
  | cons p acc ih =>
      obtain ⟨k', x'⟩ := p
      have hne : k ≠ k' := fun he => h (by simp [he])
      have htail := ih fun hm => h (List.mem_cons_of_mem _ hm)
      rw [Dict.set, if_neg (by simpa using hne), htail]
      rfl

def leading (fs : Dict) : List Char := fs.flatMap fun p => member p ++ [',', ' ']

theorem leading_cons (f : String × Json) (fs : Dict) (cs : List Char) :
    leading (f :: fs) ++ cs = member f ++ ',' :: ' ' :: (leading fs ++ cs) := by
  simp [leading]

theorem skipWs_leading (fs : Dict) (cs : List Char) :
    skipWs (leading fs ++ '"' :: cs) = leading fs ++ '"' :: cs := by
  cases fs with
  | nil => rfl
  | cons f fs => rfl

/-- `cs` is what follows the quote of the next key. -/
theorem scanFields_leading {fs : Dict} (hf : ∀ p ∈ fs, Flat p.2) (fuel : Nat) (acc : Dict)
    (hn : ((acc ++ fs).map Prod.fst).Nodup) (cs : List Char) :
    scanFields (fuel + 2 + fs.length) acc (leading fs ++ '"' :: cs) =
      scanFields (fuel + 2) (acc ++ fs) ('"' :: cs) := by
  induction fs generalizing acc with
  | nil =>
      rw [List.append_nil]
      rfl
  | cons f fs ih =>
      have hfresh : f.1 ∉ acc.map Prod.fst := by
        rw [List.map_append] at hn
        exact fun hm => (List.nodup_append.mp hn).2.2 _ hm _ List.mem_cons_self rfl
      have hnext : ((acc ++ [f] ++ fs).map Prod.fst).Nodup := by
        rwa [List.append_assoc, List.singleton_append]
      have hmember :=
        scanFields_next (fuel + fs.length + 1) acc (hf f List.mem_cons_self)
          (' ' :: (leading fs ++ '"' :: cs))
      have hskip : skipWs (' ' :: (leading fs ++ '"' :: cs)) = leading fs ++ '"' :: cs :=
        skipWs_leading fs cs
      have hfuel : fuel + 2 + (f :: fs).length = fuel + fs.length + 1 + 2 := by
        simp only [List.length_cons]
        omega
      have hfuel' : fuel + fs.length + 1 + 1 = fuel + 2 + fs.length := by omega
      rw [leading_cons, hfuel, hmember, hskip, hfuel', set_new hfresh,
        ih (fun q hq => hf q (List.mem_cons_of_mem _ hq)) _ hnext,
        List.append_assoc, List.singleton_append]

theorem length_leading (fs : Dict) : fs.length ≤ (leading fs).length := by
  induction fs with
  | nil => exact Nat.le_refl _
  | cons f fs ih =>
      simp only [leading, List.flatMap_cons, List.length_append, List.length_cons] at ih ⊢
      omega

theorem loads_leading {fs : Dict} (hf : ∀ p ∈ fs, Flat p.2) (hn : (fs.map Prod.fst).Nodup)
    (cs : List Char) :
    ∃ fuel, loads (String.ofList ('\x7b' :: (leading fs ++ '"' :: cs))) =
      (scanFields (fuel + 2) fs ('"' :: cs)).bind fun p => if (skipWs p.2).isEmpty then some p.1
        else none := by
  have hlen := length_leading fs
  obtain ⟨fuel, hfuel⟩ : ∃ fuel, ('\x7b' :: (leading fs ++ '"' :: cs)).length = fuel + 2 + fs.length := by
    refine ⟨('\x7b' :: (leading fs ++ '"' :: cs)).length - 2 - fs.length, ?_⟩
    simp only [List.length_append, List.length_cons]
    omega
  have hopen : skipWs ('\x7b' :: (leading fs ++ '"' :: cs)) = '\x7b' :: (leading fs ++ '"' :: cs) :=
    rfl
  have hscan := scanFields_leading hf fuel [] hn cs
  have hvalue : scanValue (fuel + 2 + fs.length + 1) ('\x7b' :: (leading fs ++ '"' :: cs)) =
      scanFields (fuel + 2) fs ('"' :: cs) := by
    refine Eq.trans ?_ hscan
    rw [scanValue, skipWs_leading]
    cases fs with
    | nil => rfl
    | cons f fs => rfl
  refine ⟨fuel, ?_⟩
  rw [loads, String.toList_ofList, hopen, hfuel, hvalue]
  cases scanFields (fuel + 2) fs ('"' :: cs) with
  | none => rfl
  | some p => rfl

theorem loads_dumps {fs : Dict} {p : String × Json} (hf : ∀ q ∈ fs ++ [p], Flat q.2)
    (hn : ((fs ++ [p]).map Prod.fst).Nodup) :
    loads (dumps (.obj (fs ++ [p]))) = some (.obj (fs ++ [p])) := by
  have htext : dumps (.obj (fs ++ [p])) = String.ofList
      ('\x7b' :: (leading fs ++ (member p ++ ['\x7d']))) := by
    rw [dumps, dumpsChars, dumpsFields_snoc]
    simp only [leading, List.cons_append, List.append_assoc]
  rw [List.map_append] at hn
  have hfresh : p.1 ∉ fs.map Prod.fst :=
    fun hm => (List.nodup_append.mp hn).2.2 _ hm _ List.mem_cons_self rfl
  have hlead : ∀ q ∈ fs, Flat q.2 := fun q hq => hf q (List.mem_append_left _ hq)
  obtain ⟨fuel, hread⟩ := loads_leading hlead (List.nodup_append.mp hn).1
    (p.1.toList.flatMap escapeChar ++ ['"'] ++ [':', ' '] ++ dumpsChars p.2 ++ ['\x7d'])
  have hlast := scanFields_last fuel fs (hf p (List.mem_append_right _ List.mem_cons_self)) []
  rw [htext]
  refine hread.trans ?_
  change (scanFields (fuel + 2) fs (member p ++ ['\x7d'])).bind _ = _
  rw [hlast, ← set_new hfresh]
  rfl

end ServerManager.JsonRoundTrip
