import ServerManager.ServiceTokens
import Mathlib.Data.List.DropRight

namespace ServerManager.UiToken

open KeyedTable ServiceTokens
open PyText (strip isSpace)

def serverManager : String := "svc-server-manager"

def linePrefix : List Char := serverManager.toList ++ ['=']

/-- `_sm_token`: the first line of the service, whatever comes after it. -/
def smToken (text : String) : List Char :=
  ((((linesOf text).map strip).find? linePrefix.isPrefixOf).map fun line =>
    upTo ':' (past '=' line)).getD []

/-- `_load_identities` maps the token to the service. -/
def Maps (text : String) (t : List Char) (service : String) : Prop :=
  ∃ scopes, lookup Identity.token (loadIdentities text) t = some ⟨t, service, scopes⟩

def Agrees (text : String) : Prop :=
  (∃ t, Maps text t serverManager) → smToken text ≠ [] ∧ Maps text (smToken text) serverManager

/-- The first line that starts with the service and `=` has its token, without
blanks around it, and no other service takes this token later. -/
def FirstLineServes (text : String) : Prop :=
  ∃ before line after b, linesOf text = before ++ line :: after ∧ strip line = linePrefix ++ b ∧
    (∀ l ∈ before, ¬ linePrefix <+: strip l) ∧ upTo ':' b ≠ [] ∧ strip (upTo ':' b) = upTo ':' b ∧
    ∀ service sc, LastLine text (upTo ':' b) service sc → service = serverManager

theorem strip_eq (cs : List Char) : strip cs = (cs.dropWhile isSpace).rdropWhile isSpace := rfl

theorem strip_strip (cs : List Char) : strip (strip cs) = strip cs := by
  rw [strip_eq, strip_eq]
  generalize hd : cs.dropWhile isSpace = d
  have hfirst : (d.rdropWhile isSpace).dropWhile isSpace = d.rdropWhile isSpace := by
    obtain ⟨rest, hrest⟩ := List.rdropWhile_prefix isSpace d
    have hidem : d.dropWhile isSpace = d := by rw [← hd, List.dropWhile_idempotent]
    cases hr : d.rdropWhile isSpace with
    | nil => rfl
    | cons c r =>
        rw [hr] at hrest
        rw [← hrest, List.cons_append] at hidem
        by_cases hc : isSpace c = true
        · have hlen := congrArg List.length hidem
          have hle := (List.dropWhile_sublist isSpace (l := r ++ rest)).length_le
          rw [List.dropWhile_cons_of_pos hc, List.length_cons] at hlen
          omega
        · rw [List.dropWhile_cons_of_neg hc]
  rw [hfirst, List.rdropWhile_idempotent]

theorem declares_strip {raw t sc : List Char} {s : String} (h : Declares raw t s sc) :
    strip t = t := by
  obtain ⟨⟨a, b, x, -, -, -, -, rfl, -⟩, -, -⟩ := h
  exact strip_strip x

variable {text : String} {t : List Char}

theorem maps_iff {service : String} : Maps text t service ↔ ∃ sc, LastLine text t service sc := by
  constructor
  · rintro ⟨scopes, h⟩
    obtain ⟨-, sc, hl, -⟩ := lookup_iff.mp h
    exact ⟨sc, hl⟩
  · rintro ⟨sc, hl⟩
    exact ⟨scopesOf sc, lookup_iff.mpr ⟨rfl, sc, hl, rfl⟩⟩

theorem service_free : '=' ∉ serverManager.toList := by decide

theorem prefix_append (b : List Char) : linePrefix ++ b = serverManager.toList ++ '=' :: b := by
  rw [linePrefix, List.append_assoc, List.singleton_append]

theorem past_prefix (b : List Char) : past '=' (linePrefix ++ b) = b := by
  rw [prefix_append, past_append service_free]

theorem smToken_first {before after : List (List Char)} {line b : List Char}
    (hls : linesOf text = before ++ line :: after)
    (hline : strip line = linePrefix ++ b) (hb : ∀ l ∈ before, ¬ linePrefix <+: strip l) :
    smToken text = upTo ':' b := by
  have hfind : ((linesOf text).map strip).find? linePrefix.isPrefixOf = some (linePrefix ++ b) := by
    rw [List.find?_eq_some_iff_append]
    refine ⟨List.isPrefixOf_iff_prefix.mpr (List.prefix_append _ _), before.map strip,
      after.map strip, ?_, ?_⟩
    · rw [hls, List.map_append, List.map_cons, hline]
    · intro l hl
      obtain ⟨k, hk, rfl⟩ := List.mem_map.mp hl
      simp only [Bool.not_eq_true', ← Bool.not_eq_true, List.isPrefixOf_iff_prefix]
      exact hb k hk
  rw [smToken, hfind, Option.map_some, Option.getD_some, past_prefix]

theorem smToken_cases (text : String) : smToken text = [] ∨ ∃ before line after b,
    linesOf text = before ++ line :: after ∧
    strip line = linePrefix ++ b ∧ (∀ l ∈ before, ¬ linePrefix <+: strip l) ∧
      smToken text = upTo ':' b := by
  cases hf : ((linesOf text).map strip).find? linePrefix.isPrefixOf with
  | none => exact .inl (by rw [smToken, hf]; rfl)
  | some found =>
      rw [List.find?_map, Option.map_eq_some_iff] at hf
      obtain ⟨line, hline, rfl⟩ := hf
      obtain ⟨hp, before, after, hls, hno⟩ := List.find?_eq_some_iff_append.mp hline
      obtain ⟨b, hb⟩ := List.isPrefixOf_iff_prefix.mp hp
      have hbefore : ∀ l ∈ before, ¬ linePrefix <+: strip l := by
        intro l hl hpre
        have hfalse := hno l hl
        simp [List.isPrefixOf_iff_prefix.mpr hpre] at hfalse
      exact .inr ⟨before, line, after, b, hls, hb.symm, hbefore, smToken_first hls hb.symm hbefore⟩

theorem prefix_declares {line b : List Char} (hline : strip line = linePrefix ++ b)
    (hne : upTo ':' b ≠ [])
    (hstrip : strip (upTo ':' b) = upTo ':' b) : ∃ sc,
    Declares line (upTo ':' b) serverManager sc := by
  refine ⟨past ':' b, ⟨serverManager.toList, b, upTo ':' b, hline.trans (prefix_append b),
    service_free, not_mem_upTo, ?_,
    hstrip.symm, ?_⟩, ?_, hne⟩
  · by_cases hc : ':' ∈ b
    · exact .inr (split_at hc)
    · exact .inl ⟨(upTo_free hc).symm, past_free hc⟩
  · decide +kernel
  · have hs : linePrefix.head? = some 's' := by decide
    rw [hline, List.head?_append, hs]
    simp

theorem token_agrees_iff (text : String) : Agrees text ↔
    (∀ t, ¬ Maps text t serverManager) ∨ FirstLineServes text := by
  constructor
  · intro h
    by_cases hm : ∃ t, Maps text t serverManager
    · obtain ⟨hne, hmap⟩ := h hm
      rcases smToken_cases text with hnil | ⟨before, line, after, b, hls, hline, hb, htok⟩
      · exact absurd hnil hne
      · rw [htok] at hne hmap
        obtain ⟨sc, hlast⟩ := maps_iff.mp hmap
        have hlast' := hlast
        obtain ⟨_, _, _, -, hdec, -⟩ := hlast'
        refine .inr ⟨before, line, after, b, hls, hline, hb, hne, declares_strip hdec, ?_⟩
        intro service c hl
        exact (lastLine_unique hl hlast).1
    · exact .inl fun t ht => hm ⟨t, ht⟩
  · rintro (hno | ⟨before, line, after, b, hls, hline, hb, hne, hstrip, hserves⟩) ⟨t, hm⟩
    · exact absurd hm (hno t)
    · rw [smToken_first hls hline hb]
      refine ⟨hne, ?_⟩
      obtain ⟨sc, hdec⟩ := prefix_declares hline hne hstrip
      have hdecl : Declared text (upTo ':' b) := ⟨line, by rw [hls]; simp, _, _, hdec⟩
      cases hl : lookup Identity.token (loadIdentities text) (upTo ':' b) with
      | none => exact absurd hdecl (lookup_none.mp hl)
      | some i =>
          obtain ⟨htok, c, hlast, -⟩ := lookup_iff.mp hl
          rw [maps_iff]
          exact ⟨c, hserves _ _ hlast ▸ hlast⟩

/-- A blank before the separator, as in the format's own description. -/
theorem blank_differs : ∃ text, ¬ Agrees text := by
  refine ⟨"svc-server-manager = token2:ALL", fun h => ?_⟩
  have hempty : smToken "svc-server-manager = token2:ALL" = [] := by decide +kernel
  have hmaps : Maps "svc-server-manager = token2:ALL" "token2".toList serverManager := by
    refine ⟨allScopes, ?_⟩
    decide +kernel
  exact (h ⟨_, hmaps⟩).1 hempty

end ServerManager.UiToken
