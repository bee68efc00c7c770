import ServerManager.PyJson

namespace ServerManager.PyText

open PyJson

/-- `str.isspace` of one character. -/
def isSpace (c : Char) : Bool :=
  let n := c.toNat
  (0x9 ≤ n && n ≤ 0xD) || (0x1C ≤ n && n ≤ 0x20) || n == 0x85 || n == 0xA0 || n == 0x1680 ||
    (0x2000 ≤ n && n ≤ 0x200A) || n == 0x2028 || n == 0x2029 || n == 0x202F || n == 0x205F ||
    n == 0x3000

def rstrip (cs : List Char) : List Char := (cs.reverse.dropWhile isSpace).reverse

/-- `str.strip`. -/
def strip (cs : List Char) : List Char := rstrip (cs.dropWhile isSpace)

def startsWith (s p : String) : Bool := p.toList.isPrefixOf s.toList

-- Case is that of ASCII; Python's tables go further.

def asciiLower (s : String) : String := String.ofList (s.toList.map Char.toLower)

def asciiUpper (s : String) : String := String.ofList (s.toList.map Char.toUpper)

/-- The digits of `int(text)` with single underscores between, in ASCII alone. -/
def pyIntDigits : List Char → Option Nat
  | [] => none
  | cs => go none cs
where
  go : Option Nat → List Char → Option Nat
    | acc, [] => acc
    | some n, '_' :: c :: cs =>
        if c.isDigit then go (some (n * 10 + (c.toNat - '0'.toNat))) cs else none
    | acc, c :: cs =>
        if c.isDigit then go (some (acc.getD 0 * 10 + (c.toNat - '0'.toNat))) cs else none

/-- `(value or "").strip()`, which texts only have. -/
def strippedText (v : Json) : Option String :=
  match v.orElse (.str "") with
  | .str s => some (String.ofList (strip s.toList))
  | _ => none

/-- The blanks that `int` passes over, which the separators of ASCII are not among. -/
def intSpace (c : Char) : Bool := isSpace c && !(0x1C ≤ c.toNat && c.toNat ≤ 0x1F)

def pyIntText (s : String) : Option Int :=
  match ((s.toList.dropWhile intSpace).reverse.dropWhile intSpace).reverse with
  | '-' :: cs => (pyIntDigits cs).map (fun n => -(n : Int))
  | '+' :: cs => (pyIntDigits cs).map (fun n => (n : Int))
  | cs => (pyIntDigits cs).map (fun n => (n : Int))

def containsChars (p : List Char) : List Char → Bool
  | [] => p.isEmpty
  | c :: cs => p.isPrefixOf (c :: cs) || containsChars p cs

/-- `p in s`. -/
def containsText (s p : String) : Bool := containsChars p.toList s.toList

/-- `\d+\.\d+\.\d+\.\d+` at the head of the text. -/
def quad (cs : List Char) : Option (List (List Char) × List Char) :=
  match spanDigits cs with
  | (a@(_ :: _), '.' :: cs) =>
      match spanDigits cs with
      | (b@(_ :: _), '.' :: cs) =>
          match spanDigits cs with
          | (c@(_ :: _), '.' :: cs) =>
              match spanDigits cs with
              | (d@(_ :: _), rest) => some ([a, b, c, d], rest)
              | _ => none
          | _ => none
      | _ => none
  | _ => none

def quadText : List (List Char) → String
  | [a, b, c, d] => String.ofList (a ++ '.' :: b ++ '.' :: c ++ '.' :: d)
  | _ => ""

/-- `\w` and `\d` are read in ASCII; Python's take the letters and digits of Unicode too. -/
def isWord (c : Char) : Bool := c.isAlphanum || c == '_'

def atBoundary : List Char → Bool
  | [] => true
  | c :: _ => !isWord c

/-- `re.findall(r"\b(\d+\.\d+\.\d+\.\d+)\b", text)`; `inWord` says whether the
character before is a word character. -/
def findQuads : Nat → Bool → List Char → List String
  | 0, _, _ => []
  | _ + 1, _, [] => []
  | fuel + 1, inWord, c :: cs =>
      if c.isDigit && !inWord then
        match quad (c :: cs) with
        | some (parts, rest) =>
            if atBoundary rest then quadText parts :: findQuads fuel true rest
            else findQuads fuel true cs
        | none => findQuads fuel true cs
      else findQuads fuel (isWord c) cs

def ipv4Tokens (text : String) : List String := findQuads (text.toList.length + 1) false text.toList

def isHexLower (c : Char) : Bool := c.isDigit || ('a' ≤ c && c ≤ 'f')

def isHexAny (c : Char) : Bool := isHexLower c || ('A' ≤ c && c ≤ 'F')

/-- Six pairs of digits with colons between them, and nothing else. -/
def macShape (isHex : Char → Bool) (cs : List Char) : Bool :=
  cs.length == 17 && cs.zipIdx.all (fun p => if p.2 % 3 == 2 then p.1 == ':' else isHex p.1)

def macSearch : List Char → Option String
  | [] => none
  | c :: cs =>
      if macShape isHexAny ((c :: cs).take 17) then some (String.ofList ((c :: cs).take 17))
      else macSearch cs

example : ipv4Tokens "inet 10.0.20.222/24 brd 10.0.20.255 x1.2.3.4 1.2.3.4y" =
    ["10.0.20.222", "10.0.20.255"] := by
  decide

end ServerManager.PyText
