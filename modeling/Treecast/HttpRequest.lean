import Treecast.LongPoll
import Treecast.Json.Reader

/-!
# HTTP requests

Which requests reach the long poll: the path, the method, the query, the headers and the length
of the body are checked in this order, and the first that does not fit decides the status of the
answer.
-/

set_option autoImplicit false

namespace Treecast

structure HttpRequest where
  method : String
  /-- What is asked for: a path, a query after a question mark, and a fragment after a hash, which
  is not looked at. -/
  target : String
  /-- The headers as they were sent. -/
  headers : List (String × String)
  body : List UInt8

namespace HttpRequest

/-- The path of the long poll. -/
def pollPath : String := "/api/data/long_polling"

/-- The greatest length of a body. -/
def maxBodyLength : Nat := 1024 * 1024

/-- Whether the path is that of the long poll; one slash may follow it. -/
def fitsPath (path : String) : Bool := path = pollPath || path = pollPath ++ "/"

/-! ## The target -/

/-- A target without the scheme and the authority that it may start with. -/
def localTarget (cs : List Char) : List Char :=
  let rest? := ["http://", "https://"].findSome? fun scheme =>
    if (cs.take scheme.length).map Char.toLower = scheme.toList then some (cs.drop scheme.length)
    else none
  match rest? with
  | some rest => rest.dropWhile fun c => c ≠ '/' ∧ c ≠ '?' ∧ c ≠ '#'
  | none => cs

/-- The path and the query of a target. -/
def splitTarget (target : String) : String × String :=
  let cs := (localTarget target.toList).takeWhile (· ≠ '#')
  (String.ofList (cs.takeWhile (· ≠ '?')), String.ofList ((cs.dropWhile (· ≠ '?')).drop 1))

/-! ## The query -/

def bytesOf (cs : List Char) : List UInt8 := (String.ofList cs).toUTF8.toList

/-- The bytes that a part of a query stands for: a plus is a blank, and a percent sign with two
hexadecimal digits is a byte. -/
def decodePart : List Char → List UInt8
  | '+' :: rest => 0x20 :: decodePart rest
  | '%' :: a :: b :: rest =>
    match Json.hexDigit? a, Json.hexDigit? b with
    | some a, some b => (a * 16 + b).toUInt8 :: decodePart rest
    | _, _ => bytesOf ['%'] ++ decodePart (a :: b :: rest)
  | c :: rest => bytesOf [c] ++ decodePart rest
  | [] => []

/-- The text that a part of a query stands for; bytes that are no text stand for nothing that is
known. -/
def partText (cs : List Char) : String :=
  (Json.textOfBytes? (decodePart cs)).getD "\uFFFD"

/-- A name and a value. -/
def pairOf (cs : List Char) : String × String :=
  (partText (cs.takeWhile (· ≠ '=')), partText ((cs.dropWhile (· ≠ '=')).drop 1))

/-- The names and values of a query. -/
def pairs (query : String) : List (String × String) :=
  ((query.splitOn "&").filter (· ≠ "")).map fun p => pairOf p.toList

/-- The only value of a name, if there is one; `none` if there are several. -/
def single? (name : String) (all : List (String × String)) : Option (Option String) :=
  match all.filter (·.1 = name) with
  | [] => some none
  | [p] => some (some p.2)
  | _ => none

def flag? : String → Option Bool
  | "true" => some true
  | "false" => some false
  | _ => none

/-- A number of 64 bits: digits, which a plus may precede. -/
def word? (text : String) : Option Nat :=
  let digits := match text.toList with
    | '+' :: rest => rest
    | cs => cs
  if digits.isEmpty || !digits.all Char.isDigit then none
  else
    let n := digits.foldl (fun n c => n * 10 + (c.toNat - 48)) 0
    if n < Nat.pow 2 64 then some n else none

def field? {α : Type} (read : String → Option α) : Option String → Option (Option α)
  | none => some none
  | some text => (read text).map some

def readQuery (query : String) : Option PollQuery := do
  let all := pairs query
  let trigger ← field? flag? (← single? "trigger" all)
  let lifeSpan ← field? word? (← single? "life_span" all)
  return ⟨trigger, lifeSpan⟩

/-! ## The headers -/

/-- The values of a header, whose name counts without the case of its letters. -/
def values (r : HttpRequest) (name : String) : List String :=
  (r.headers.filter fun h => Text.asciiLower h.1 = name).map Prod.snd

/-- A header that may be missing, of which the first value counts; `none` if it is not ASCII. -/
def header? (r : HttpRequest) (name : String) : Option (Option String) :=
  match r.values name with
  | [] => some none
  | text :: _ => if text.toList.all (·.toNat < 128) then some (some text) else none

/-- What the headers say. -/
def readHeaders (r : HttpRequest) : Option PollHeaders := do
  return ⟨← r.header? "x-soa-mode", ← r.header? "x-cluster-name",
    ← r.header? "x-application-name"⟩

/-- The length of the body that the headers say; they have to agree. -/
def length? (r : HttpRequest) : Option Nat :=
  match (r.values "content-length").mapM word? with
  | some (n :: rest) => if rest.all (· = n) then some n else none
  | _ => none

/-! ## Admission -/

def orStatus {α : Type} (status : Nat) : Option α → Except Nat α
  | some x => .ok x
  | none => .error status

/-- What a request asks of the long poll, or the status with which it is refused. -/
def accept (r : HttpRequest) : Except Nat (PollQuery × PollHeaders) := do
  let (path, query) := splitTarget r.target
  if !fitsPath path then throw 404
  if r.method ≠ "POST" then throw 405
  let query ← orStatus 400 (readQuery query)
  let headers ← orStatus 400 r.readHeaders
  let length ← orStatus 411 r.length?
  if length > maxBodyLength then throw 413
  return (query, headers)

end HttpRequest

end Treecast
