import ServerManager.Outcomes
import ServerManager.ProxmoxVm
import ServerManager.Presets

namespace ServerManager.KeaClient

open Interaction Outcomes PyJson PyText
open Effects (PyExc ExcClass)

structure Response where
  status : Nat
  body : String

inductive Contact
  | get (path : String)
  | post (path csrf payload : String)
  | form (name value password : String)
  | sleep (seconds : Nat)

@[reducible] def Ans : Contact → Type
  | .sleep _ => Unit
  | _ => Response

abbrev Http := Prog Contact Ans PyExc

/-- The settings of the client. `limits` names the exception with which
`json.loads` gives up on a text where a limit of the interpreter is reached. -/
structure Client where
  password : String
  limits : String → Option String

def isOk (r : Response) : Bool := 200 ≤ r.status && r.status < 300

def networkError {α : Type} (msg : String) : Http α := .raise ⟨.sandboxNetworkError, msg⟩

def getPage (path : String) : Http String :=
  .call (.get path) fun (r : Response) =>
    if isOk r then .ret r.body else .raise ⟨.other "HTTPError", s!"HTTP Error {r.status}"⟩

/-- `re.search`: the first place where the pattern matches. -/
def searchFrom {α : Type} (f : List Char → Option α) : List Char → Option α
  | [] => f []
  | c :: cs => (f (c :: cs)).or (searchFrom f cs)

def stripPrefix (p : String) (cs : List Char) : Option (List Char) :=
  if p.toList.isPrefixOf cs then some (cs.drop p.toList.length) else none

/-- Characters of a class up to a closing quote, with a number of them that the pattern takes. -/
def quoted (cls : Char → Bool) (low : Nat) (high : Option Nat) (cs : List Char) :
    Option (String × List Char) :=
  let v := cs.takeWhile cls
  if low ≤ v.length ∧ high.all (fun n => v.length ≤ n) then
    (stripPrefix "\"" (cs.drop v.length)).map fun rest => (String.ofList v, rest)
  else none

def inName (c : Char) : Bool := c.isAlphanum || c == '_'

def inValue (c : Char) : Bool := c != '"'

/-- `setRequestHeader\("X-CSRFToken",\s*"([^"]+)"`. -/
def csrfToken (page : String) : Option String :=
  searchFrom (fun cs => do
    let cs ← stripPrefix "setRequestHeader(\"X-CSRFToken\"," cs
    let cs ← stripPrefix "\"" (cs.dropWhile isSpace)
    let (token, _) ← quoted inValue 1 none cs
    pure token) page.toList

/-- `name="([A-Za-z0-9_]{15,40})"\s+value="([^"]{10,80})"`. -/
def csrfPair (page : String) : Option (String × String) :=
  searchFrom (fun cs => do
    let cs ← stripPrefix "name=\"" cs
    let (name, cs) ← quoted inName 15 (some 40) cs
    if cs.head?.all (fun c => !isSpace c) then none
    else
      let cs ← stripPrefix "value=\"" (cs.dropWhile isSpace)
      let (value, _) ← quoted inValue 10 (some 80) cs
      pure (name, value)) page.toList

def loginPages : Nat → String → Http (Option (String × String) × String)
  | 0, page => .ret (none, page)
  | n + 1, _ => do
      let page ← getPage "/index.php"
      match csrfPair page with
      | some m => .ret (some m, page)
      | none => .call (.sleep 2) fun _ => loginPages n page

def login (c : Client) : Http Unit := do
  let (m, page) ← loginPages 12 ""
  match m with
  | none => networkError s!"OPNsense login CSRF pair not found after retries (page {page.length}B)"
  | some (name, value) =>
      .call (.form name value c.password) fun (r : Response) =>
        if !isOk r then networkError s!"OPNsense login failed: HTTP {r.status}"
        else if containsText (asciiLower r.body) "logout" then .ret ()
        else networkError "OPNsense login did not establish a session"

def newCsrf : Http String := do
  let ui ← getPage "/ui/kea/dhcp/v4"
  match csrfToken ui with
  | some token => .ret token
  | none => networkError "OPNsense CSRF token not found"

/-- The token the calls carry, fetched when there is none. -/
def currentCsrf (csrf : String) : Http String := if csrf ≠ "" then .ret csrf else newCsrf

def lstrip (raw : String) : List Char := raw.toList.dropWhile isSpace

/-- `"<html" in raw[:400].lower()`. -/
def sniffs (raw : String) : Bool :=
  containsText (asciiLower (String.ofList (raw.toList.take 400))) "<html"

/-- `raw.lstrip()[:1] not in "[{" and ("<html" in raw[:400].lower() or not raw.strip())`;
an empty prefix is in every text. -/
def notJson (raw : String) : Bool :=
  (lstrip raw).head?.any (fun c => c != '[' && c != '\x7b') && (sniffs raw || (lstrip raw).isEmpty)

def decode (c : Client) (path raw : String) : Http Json :=
  let text := if raw = "" then "\x7b\x7d" else raw
  match c.limits text with
  | some name => .raise ⟨.other name, "a limit of the interpreter"⟩
  | none =>
      match loads text with
      | some v => .ret v
      | none =>
          let shown := String.ofList (raw.toList.take 120)
          networkError s!"OPNsense API {path} returned invalid JSON; head='{shown}'"

/-- An API call with what to do when the session has to be renewed. -/
def attempt (c : Client) (path payload csrf : String) (again : String → Http (Json × String)) :
    Http (Json × String) := do
  let csrf ← currentCsrf csrf
  .call (.post path csrf payload) fun (r : Response) =>
    if !isOk r then
      if r.status = 401 ∨ r.status = 403 then again s!"OPNsense API {path} -> HTTP {r.status}"
      else networkError s!"OPNsense API {path} -> HTTP {r.status}"
    else if notJson r.body then
      again s!"OPNsense API {path} returned non-JSON even after login (len={r.body.length})"
    else do
      let v ← decode c path r.body
      .ret (v, csrf)

/-- `_post_json` with the number of retries that are left. -/
def postJson (c : Client) (path payload : String) : Nat → String → Http (Json × String)
  | 0, csrf => attempt c path payload csrf networkError
  | n + 1, csrf => attempt c path payload csrf fun _ => do
      login c
      postJson c path payload n ""

/-- `out.get("rows") or []`. -/
def rowsOf : Json → Http Json
  | .obj fs => .ret (((Dict.get? fs "rows").getD .null).orElse (.arr []))
  | x => .raise ⟨.attributeError, s!"'{ProxmoxVm.pyTypeName x}' object has no attribute 'get'"⟩

def search (c : Client) (path csrf : String) : Http Json := do
  let (out, _) ← postJson c path "\x7b\x7d" 1 csrf
  rowsOf out

def leases (c : Client) (csrf : String) : Http Json := search c "/api/kea/leases4/search/" csrf

abbrev HttpTrace := Trace Contact Ans

def posted : Event Contact Ans → Option Response
  | ⟨.post .., r⟩ => some r
  | _ => none

def posts (tr : HttpTrace) : List Response := tr.filterMap posted

def isForm : Event Contact Ans → Bool
  | ⟨.form .., _⟩ => true
  | _ => false

def forms (tr : HttpTrace) : Nat := tr.countP isForm

def pageFails : Event Contact Ans → Bool
  | ⟨.get _, r⟩ => !isOk r
  | _ => false

def PagesOk (tr : HttpTrace) : Prop := ∀ ev ∈ tr, pageFails ev = false

def StartsLogin (tr : HttpTrace) : Prop := ∃ page rest, tr = ⟨.get "/index.php", page⟩ :: rest

def htmlStart (body : String) : Bool :=
  let text := asciiLower (String.ofList (lstrip body))
  startsWith text "<!doctype html" || startsWith text "<html"

def rowsIn (fs : Dict) : Json := ((Dict.get? fs "rows").getD .null).orElse (.arr [])

structure Faithful (tr : HttpTrace) (o : Except PyExc Json) : Prop where
  answer : ∀ v, o = .ok v → ∃ r fs, (posts tr).getLast? = some r ∧ isOk r = true ∧
    loads r.body = some (.obj fs) ∧ v = rowsIn fs
  failure : ∀ x, o = .error x → x.cls = .sandboxNetworkError
  once : (posts tr).length ≤ 2 ∧ forms tr ≤ 1
  again : ∀ before path csrf payload r after, tr = before ++ ⟨.post path csrf payload, r⟩ :: after →
    posts before = [] →
    isOk r = true → lstrip r.body = [] ∨ htmlStart r.body = true →
      StartsLogin after ∧ (forms after = 1 ∧ (posts after).length = 1 ∨ posts after = [] ∧ ∃ x,
        o = .error x)

structure Quiet (tr : HttpTrace) : Prop where
  posts : posts tr = []
  forms : forms tr = 0
  pages : PagesOk tr

/-- Failed, with the client's own exception unless a page was not delivered. -/
def Failed {α : Type} (tr : HttpTrace) (o : Except PyExc α) : Prop :=
  ∃ x, o = .error x ∧ (x.cls = .sandboxNetworkError ↔ PagesOk tr)

def judged (c : Client) (path csrf : String) (r : Response) : Http (Json × String) :=
  if isOk r then do
    let v ← decode c path r.body
    .ret (v, csrf)
  else networkError s!"OPNsense API {path} -> HTTP {r.status}"

def textOf (body : String) : String := if body = "" then "\x7b\x7d" else body

/-- How a call ends on an answer that renews nothing. -/
inductive Settled (c : Client) (r : Response) : Except PyExc Json → Prop
  | status (x) : isOk r = false → x.cls = .sandboxNetworkError → Settled c r (.error x)
  | limit (x n) : isOk r = true → c.limits (textOf r.body) = some n → x.cls = .other n →
      Settled c r (.error x)
  | invalid (x) : isOk r = true → c.limits (textOf r.body) = none → loads (textOf r.body) = none →
      x.cls = .sandboxNetworkError → Settled c r (.error x)
  | noObject (x v) : isOk r = true → c.limits (textOf r.body) = none →
      loads (textOf r.body) = some v → (∀ fs, v ≠ .obj fs) →
      x.cls = .attributeError → Settled c r (.error x)
  | rows (fs) : isOk r = true → c.limits (textOf r.body) = none →
      loads (textOf r.body) = some (.obj fs) →
      Settled c r (.ok (rowsIn fs))

/-- The rows are taken from what `_post_json` returns. -/
def WithRows (o₁ : Except PyExc (Json × String)) (o : Except PyExc Json) : Prop :=
  (∃ v csrf, o₁ = .ok (v, csrf) ∧ Finishes (rowsOf v) [] o) ∨ ∃ x, o₁ = .error x ∧ o = .error x

theorem Failed.withRows {tr : HttpTrace} {o₁ : Except PyExc (Json × String)} {o : Except PyExc Json}
    (h : Failed tr o₁)
    (hw : WithRows o₁ o) : Failed tr o := by
  obtain ⟨x, rfl, hx⟩ := h
  rcases hw with ⟨v, csrf, hv, -⟩ | ⟨y, hy, rfl⟩
  · cases hv
  · cases hy
    exact ⟨x, rfl, hx⟩

section Around

variable {c : Client} {pre seg : HttpTrace} {path csrf payload : String} {r : Response}
  {o : Except PyExc Json}

end Around

def client : Client := { password := "pw", limits := fun _ => none }

def answered (body : String) : HttpTrace :=
  [⟨.post "/api/kea/leases4/search/" "tok" "\x7b\x7d", (⟨200, body⟩ : Response)⟩]

/-- A service that has forgotten the session, and has one lease. -/
def renewed (_ : Unit) : (e : Contact) → Option (Ans e × Unit)
  | .get "/index.php" =>
      some ((⟨200, "name=\"csrf_token_name_1\" value=\"0123456789\""⟩ : Response), ())
  | .get _ => some ((⟨200, "setRequestHeader(\"X-CSRFToken\", \"tok2\")"⟩ : Response), ())
  | .form .. => some ((⟨200, "Logout"⟩ : Response), ())
  | .post _ "tok" _ => some ((⟨401, ""⟩ : Response), ())
  | .post .. =>
      some ((⟨200, "\x7b\"rows\": [\x7b\"address\": \"10.0.30.7\"\x7d]\x7d"⟩ : Response), ())
  | .sleep _ => some ((), ())

def returned : Http Json → Bool
  | .ret (.arr (.obj _ :: _)) => true
  | _ => false

end ServerManager.KeaClient
