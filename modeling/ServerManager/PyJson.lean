import Mathlib.Data.List.Basic

namespace ServerManager.PyJson

/-- JSON values as Python's `json` module delivers them. A float is kept as its
literal: the program never computes with one. -/
inductive Json where
  | null
  | bool (b : Bool)
  | int (n : Int)
  | float (lit : String)
  | str (s : String)
  | arr (xs : List Json)
  | obj (fields : List (String × Json))
  deriving Repr, Inhabited

/-- Python dictionaries with text keys, in insertion order. -/
abbrev Dict := List (String × Json)

namespace Dict

def get? : Dict → String → Option Json
  | [], _ => none
  | (k, w) :: d, key => if key == k then some w else get? d key

def has (d : Dict) (key : String) : Bool := d.any (fun p => p.1 == key)

def set : Dict → String → Json → Dict
  | [], key, v => [(key, v)]
  | (k, w) :: d, key, v => if key == k then (k, v) :: d else (k, w) :: set d key v

theorem has_eq_isSome (d : Dict) (key : String) : d.has key = (d.get? key).isSome := by
  induction d with
  | nil => rfl
  | cons p d ih =>
      obtain ⟨k, w⟩ := p
      have hd : has ((k, w) :: d) key = (k == key || has d key) := rfl
      rw [hd, ih]
      by_cases h : key = k
      · simp [get?, h]
      · have hk : (k == key) = false := by simpa using fun hp => h hp.symm
        simp [get?, h, hk]

theorem get?_set_self (d : Dict) (key : String) (v : Json) : (set d key v).get? key = some v := by
  induction d with
  | nil => simp [set, get?]
  | cons p d ih =>
      obtain ⟨k, w⟩ := p
      by_cases h : key = k
      · simp [set, get?, h]
      · simpa [set, get?, h] using ih

theorem get?_set_of_ne (d : Dict) {key key' : String} (v : Json) (hne : key' ≠ key) :
    (set d key v).get? key' = d.get? key' := by
  induction d with
  | nil => simp [set, get?, hne]
  | cons p d ih =>
      obtain ⟨k, w⟩ := p
      by_cases h : key = k
      · subst k
        simp [set, get?, hne]
      · by_cases hk : key' = k
        · simp [set, get?, h, hk]
        · simpa [set, get?, h, hk] using ih

end Dict

namespace Json

def mantissa (lit : String) : List Char := lit.toList.takeWhile (fun c => c != 'e' && c != 'E')

/-- Python truthiness. A float is zero if its digits are; that a double may be
too small for its digits is left aside. -/
def truthy : Json → Bool
  | .null => false
  | .bool b => b
  | .int n => n != 0
  | .float lit =>
      (mantissa lit).any (fun c => c.isDigit && c != '0') || lit == "NaN" || lit == "Infinity" ||
        lit == "-Infinity"
  | .str s => s != ""
  | .arr xs => !xs.isEmpty
  | .obj fs => !fs.isEmpty

/-- Python's `x or y` with an already evaluated `y`. -/
def orElse (x y : Json) : Json := if x.truthy then x else y

def isStr (x : Json) (s : String) : Bool :=
  match x with
  | .str t => t == s
  | _ => false

theorem isStr_iff {x : Json} {t : String} : x.isStr t = true ↔ x = .str t := by
  cases x with
  | str s => simp [isStr]
  | _ => simp [isStr]

mutual

/-- `str(x)` on top level text, `repr` below it. -/
def pyRepr : Json → String
  | .null => "None"
  | .bool true => "True"
  | .bool false => "False"
  | .int n => toString n
  | .float lit => lit
  | .str s => "'" ++ s ++ "'"
  | .arr xs => "[" ++ ", ".intercalate (pyReprItems xs) ++ "]"
  | .obj fs => "\x7b" ++ ", ".intercalate (pyReprFields fs) ++ "\x7d"

def pyReprItems : List Json → List String
  | [] => []
  | x :: xs => pyRepr x :: pyReprItems xs

def pyReprFields : List (String × Json) → List String
  | [] => []
  | (k, x) :: fs => ("'" ++ k ++ "': " ++ pyRepr x) :: pyReprFields fs

end

def pyStr : Json → String
  | .str s => s
  | x => pyRepr x

end Json

def isWs (c : Char) : Bool := c == ' ' || c == '\t' || c == '\n' || c == '\r'

def skipWs : List Char → List Char
  | [] => []
  | c :: cs => if isWs c then skipWs cs else c :: cs

def hexVal (c : Char) : Option Nat :=
  if '0' ≤ c ∧ c ≤ '9' then some (c.toNat - '0'.toNat)
  else if 'a' ≤ c ∧ c ≤ 'f' then some (c.toNat - 'a'.toNat + 10)
  else if 'A' ≤ c ∧ c ≤ 'F' then some (c.toNat - 'A'.toNat + 10)
  else none

def hex4 (a b c d : Char) : Option Nat := do
  let a ← hexVal a
  let b ← hexVal b
  let c ← hexVal c
  let d ← hexVal d
  pure (((a * 16 + b) * 16 + c) * 16 + d)

def isHighSurrogate (n : Nat) : Bool := 0xD800 ≤ n && n < 0xDC00

def isLowSurrogate (n : Nat) : Bool := 0xDC00 ≤ n && n < 0xE000

/-- The characters of a string literal, from the code points and `\u` units it
lists: an escaped surrogate pair is one character, and a lone surrogate, which
no Lean character stands for, is read as U+FFFD. -/
def joinUnits : Option Nat → List Nat → List Char
  | none, [] => []
  | some _, [] => [Char.ofNat 0xFFFD]
  | none, n :: ns =>
      if isHighSurrogate n then joinUnits (some n) ns
      else if isLowSurrogate n then Char.ofNat 0xFFFD :: joinUnits none ns
      else Char.ofNat n :: joinUnits none ns
  | some h, n :: ns =>
      if isLowSurrogate n then
        Char.ofNat (0x10000 + (h - 0xD800) * 0x400 + (n - 0xDC00)) :: joinUnits none ns
      else if isHighSurrogate n then Char.ofNat 0xFFFD :: joinUnits (some n) ns
      else Char.ofNat 0xFFFD :: Char.ofNat n :: joinUnits none ns

/-- The rest of a string literal after its opening quote, as code points. -/
def scanUnits : List Nat → List Char → Option (List Nat × List Char)
  | acc, '"' :: rest => some (acc.reverse, rest)
  | acc, '\\' :: 'u' :: a :: b :: c :: d :: rest =>
      match hex4 a b c d with
      | none => none
      | some n => scanUnits (n :: acc) rest
  | acc, '\\' :: '"' :: rest => scanUnits (34 :: acc) rest
  | acc, '\\' :: '\\' :: rest => scanUnits (92 :: acc) rest
  | acc, '\\' :: '/' :: rest => scanUnits (47 :: acc) rest
  | acc, '\\' :: 'b' :: rest => scanUnits (8 :: acc) rest
  | acc, '\\' :: 'f' :: rest => scanUnits (12 :: acc) rest
  | acc, '\\' :: 'n' :: rest => scanUnits (10 :: acc) rest
  | acc, '\\' :: 'r' :: rest => scanUnits (13 :: acc) rest
  | acc, '\\' :: 't' :: rest => scanUnits (9 :: acc) rest
  | _, '\\' :: _ => none
  | acc, c :: rest => if c.toNat < 0x20 then none else scanUnits (c.toNat :: acc) rest
  | _, [] => none

def scanString (cs : List Char) : Option (String × List Char) :=
  (scanUnits [] cs).map (fun p => (String.ofList (joinUnits none p.1), p.2))

def spanDigits : List Char → List Char × List Char
  | [] => ([], [])
  | c :: cs =>
      if c.isDigit then
        let (ds, rest) := spanDigits cs
        (c :: ds, rest)
      else ([], c :: cs)

def digitsVal (ds : List Char) : Nat := ds.foldl (fun n c => n * 10 + (c.toNat - '0'.toNat)) 0

def scanFrac : List Char → List Char × List Char
  | '.' :: cs =>
      match spanDigits cs with
      | ([], _) => ([], '.' :: cs)
      | (ds, rest) => ('.' :: ds, rest)
  | cs => ([], cs)

def scanExp : List Char → List Char × List Char
  | e :: cs =>
      if e == 'e' || e == 'E' then
        let (sign, cs') := match cs with
          | '+' :: cs' => (['+'], cs')
          | '-' :: cs' => (['-'], cs')
          | _ => ([], cs)
        match spanDigits cs' with
        | ([], _) => ([], e :: cs)
        | (ds, rest) => (e :: sign ++ ds, rest)
      else ([], e :: cs)
  | [] => ([], [])

/-- Python refuses to convert an integer literal of more than 4300 digits. -/
def scanNumber (neg : Bool) (cs : List Char) : Option (Json × List Char) :=
  let (ds, rest) := match cs with
    | '0' :: cs' => (['0'], cs')
    | _ => spanDigits cs
  if ds.isEmpty then none
  else
    let (fr, rest₁) := scanFrac rest
    let (ex, rest₂) := scanExp rest₁
    if fr.isEmpty && ex.isEmpty then
      if ds.length ≤ 4300 then
        some (.int (if neg then -(digitsVal ds : Int) else digitsVal ds), rest₂)
      else none
    else some (.float (String.ofList ((if neg then ['-'] else []) ++ ds ++ fr ++ ex)), rest₂)

mutual

def scanValue : Nat → List Char → Option (Json × List Char)
  | 0, _ => none
  | fuel + 1, cs =>
      match cs with
      | '"' :: cs => (scanString cs).map (fun p => (.str p.1, p.2))
      | '\x7b' :: cs =>
          match skipWs cs with
          | '\x7d' :: rest => some (.obj [], rest)
          | cs => scanFields fuel [] cs
      | '[' :: cs =>
          match skipWs cs with
          | ']' :: rest => some (.arr [], rest)
          | cs => scanItems fuel [] cs
      | 'n' :: 'u' :: 'l' :: 'l' :: rest => some (.null, rest)
      | 't' :: 'r' :: 'u' :: 'e' :: rest => some (.bool true, rest)
      | 'f' :: 'a' :: 'l' :: 's' :: 'e' :: rest => some (.bool false, rest)
      | 'N' :: 'a' :: 'N' :: rest => some (.float "NaN", rest)
      | 'I' :: 'n' :: 'f' :: 'i' :: 'n' :: 'i' :: 't' :: 'y' :: rest =>
          some (.float "Infinity", rest)
      | '-' :: 'I' :: 'n' :: 'f' :: 'i' :: 'n' :: 'i' :: 't' :: 'y' :: rest =>
          some (.float "-Infinity", rest)
      | '-' :: rest => scanNumber true rest
      | _ => scanNumber false cs

/-- The members of an object up to its closing brace; a repeated key keeps its last value. -/
def scanFields : Nat → Dict → List Char → Option (Json × List Char)
  | 0, _, _ => none
  | fuel + 1, acc, '"' :: cs =>
      match scanString cs with
      | none => none
      | some (key, cs) =>
          match skipWs cs with
          | ':' :: cs =>
              match scanValue fuel (skipWs cs) with
              | none => none
              | some (v, cs) =>
                  match skipWs cs with
                  | ',' :: cs => scanFields fuel (acc.set key v) (skipWs cs)
                  | '\x7d' :: cs => some (.obj (acc.set key v), cs)
                  | _ => none
          | _ => none
  | _ + 1, _, _ => none

def scanItems : Nat → List Json → List Char → Option (Json × List Char)
  | 0, _, _ => none
  | fuel + 1, acc, cs =>
      match scanValue fuel cs with
      | none => none
      | some (v, cs) =>
          match skipWs cs with
          | ',' :: cs => scanItems fuel (v :: acc) (skipWs cs)
          | ']' :: cs => some (.arr (v :: acc).reverse, cs)
          | _ => none

end

/-- `json.loads`; `none` stands for the `ValueError` it raises, also for an integer
of more than 4300 digits. Every nested value takes at least one character, so
the length is enough fuel; the interpreter's limit on nesting is no part of it. -/
def loads (s : String) : Option Json :=
  match scanValue (s.toList.length + 1) (skipWs s.toList) with
  | some (v, rest) => if (skipWs rest).isEmpty then some v else none
  | none => none

def hexDigit (n : Nat) : Char :=
  if n < 10 then Char.ofNat ('0'.toNat + n) else Char.ofNat ('a'.toNat + (n - 10))

def escapeUnit (n : Nat) : List Char :=
  ['\\', 'u', hexDigit (n / 4096 % 16), hexDigit (n / 256 % 16), hexDigit (n / 16 % 16),
    hexDigit (n % 16)]

def escapeChar (c : Char) : List Char :=
  if c == '"' then ['\\', '"']
  else if c == '\\' then ['\\', '\\']
  else if c == '\n' then ['\\', 'n']
  else if c == '\r' then ['\\', 'r']
  else if c == '\t' then ['\\', 't']
  else if c.toNat == 12 then ['\\', 'f']
  else if c.toNat == 8 then ['\\', 'b']
  else if 0x20 ≤ c.toNat ∧ c.toNat < 0x7F then [c]
  else if c.toNat < 0x10000 then escapeUnit c.toNat
  else
    escapeUnit (0xD800 + (c.toNat - 0x10000) / 0x400) ++
      escapeUnit (0xDC00 + (c.toNat - 0x10000) % 0x400)

def dumpsStr (s : String) : List Char := '"' :: s.toList.flatMap escapeChar ++ ['"']

mutual

def dumpsChars : Json → List Char
  | .null => "null".toList
  | .bool true => "true".toList
  | .bool false => "false".toList
  | .int n => (toString n).toList
  | .float lit => lit.toList
  | .str s => dumpsStr s
  | .arr xs => '[' :: dumpsItems xs ++ [']']
  | .obj fs => '\x7b' :: dumpsFields fs ++ ['\x7d']

def dumpsItems : List Json → List Char
  | [] => []
  | [x] => dumpsChars x
  | x :: xs => dumpsChars x ++ [',', ' '] ++ dumpsItems xs

def dumpsFields : List (String × Json) → List Char
  | [] => []
  | [(k, x)] => dumpsStr k ++ [':', ' '] ++ dumpsChars x
  | (k, x) :: fs => dumpsStr k ++ [':', ' '] ++ dumpsChars x ++ [',', ' '] ++ dumpsFields fs

end

def dumps (x : Json) : String := String.ofList (dumpsChars x)

end ServerManager.PyJson
