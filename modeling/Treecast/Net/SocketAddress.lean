/-!
# Socket addresses

The text form of an internet address with a number for the service on it: `1.2.3.4:80` and
`[2001:db8::1%3]:80`.  Numbers of version 4 have no leading zeros; the groups of version 6 have
at most four hexadecimal digits, `::` stands for one or more groups of zeros, and the last two
groups may be written as an address of version 4.
-/

set_option autoImplicit false

namespace Treecast.Net

/-- A socket address. -/
inductive SocketAddress where
  | v4 (octets : List Nat) (number : Nat)
  | v6 (groups : List Nat) (scope number : Nat)
  deriving DecidableEq, Repr

/-- The value of a digit in a base up to sixteen. -/
def digit? (base : Nat) (c : Char) : Option Nat :=
  let value :=
    if c.isDigit then c.toNat - 48
    else if 'a' ≤ c ∧ c ≤ 'f' then c.toNat - 87
    else if 'A' ≤ c ∧ c ≤ 'F' then c.toNat - 55
    else 16
  if value < base then some value else none

/-- The digits at the front. -/
def readDigits (base : Nat) : List Char → List Nat × List Char
  | [] => ([], [])
  | c :: rest =>
    match digit? base c with
    | some d =>
      let (ds, rest) := readDigits base rest
      (d :: ds, rest)
    | none => ([], c :: rest)

/-- The number at the front, at most `limit` and of at most `width` digits, if a width is
given. -/
def readNumber (base limit : Nat) (width : Option Nat) (leadingZeros : Bool) (cs : List Char) :
    Option (Nat × List Char) :=
  let (ds, rest) := readDigits base cs
  let value := ds.foldl (fun n d => n * base + d) 0
  let tooLong := match width with
    | some w => ds.length > w
    | none => false
  if ds.isEmpty || tooLong || value > limit ||
      (!leadingZeros && ds.length > 1 && ds.head? == some 0) then none
  else some (value, rest)

/-- The rest after the given character. -/
def expect (c : Char) : List Char → Option (List Char)
  | d :: rest => if d = c then some rest else none
  | [] => none

/-- The four numbers of an address of version 4. -/
def readV4 (cs : List Char) : Option (List Nat × List Char) := do
  let octet := readNumber 10 255 (some 3) false
  let (a, cs) ← octet cs
  let (b, cs) ← octet (← expect '.' cs)
  let (c, cs) ← octet (← expect '.' cs)
  let (d, cs) ← octet (← expect '.' cs)
  return ([a, b, c, d], cs)

/-- The two groups of an address of version 4. -/
def groupsOfV4 : List Nat → List Nat
  | [a, b, c, d] => [a * 256 + b, c * 256 + d]
  | _ => []

/-- The groups at the front, at most `room` of them, after those in `done`; and whether they end
with an address of version 4. -/
def readGroups : (room : Nat) → (done : List Nat) → List Char → List Nat × Bool × List Char
  | 0, done, cs => (done, false, cs)
  | room + 1, done, cs =>
    let start := if done.isEmpty then some cs else expect ':' cs
    match start with
    | none => (done, false, cs)
    | some here =>
      match (if room = 0 then none else readV4 here) with
      | some (octets, rest) => (done ++ groupsOfV4 octets, true, rest)
      | none =>
        match readNumber 16 0xFFFF (some 4) true here with
        | some (group, rest) => readGroups room (done ++ [group]) rest
        | none => (done, false, cs)

/-- The eight groups of an address of version 6. -/
def readV6 (cs : List Char) : Option (List Nat × List Char) :=
  let (front, withV4, rest) := readGroups 8 [] cs
  if front.length = 8 then some (front, rest)
  else if withV4 then none
  else do
    let rest ← expect ':' rest
    let rest ← expect ':' rest
    let (back, _, rest) := readGroups (7 - front.length) [] rest
    return (front ++ List.replicate (8 - front.length - back.length) 0 ++ back, rest)

/-- The scope after an address of version 6; zero if there is none. -/
def readScope (cs : List Char) : Option (Nat × List Char) :=
  match cs with
  | '%' :: rest => readNumber 10 (Nat.pow 2 32 - 1) none true rest
  | _ => some (0, cs)

/-- The number after the last colon. -/
def readService (cs : List Char) : Option (Nat × List Char) := do
  readNumber 10 0xFFFF none true (← expect ':' cs)

namespace SocketAddress

/-- An address of version 4 with its number. -/
def readV4Socket (cs : List Char) : Option (SocketAddress × List Char) := do
  let (octets, cs) ← readV4 cs
  let (number, cs) ← readService cs
  return (.v4 octets number, cs)

/-- An address of version 6 in brackets with its number. -/
def readV6Socket (cs : List Char) : Option (SocketAddress × List Char) := do
  let cs ← expect '[' cs
  let (groups, cs) ← readV6 cs
  let (scope, cs) ← readScope cs
  let cs ← expect ']' cs
  let (number, cs) ← readService cs
  return (.v6 groups scope number, cs)

def ofText? (text : String) : Option SocketAddress :=
  match (readV4Socket text.toList).or (readV6Socket text.toList) with
  | some (address, []) => some address
  | _ => none

/-- Numbers with dots between them. -/
def dotted (octets : List Nat) : String := ".".intercalate (octets.map toString)

/-- Groups in hexadecimal with colons between them. -/
def coloned (groups : List Nat) : String :=
  ":".intercalate (groups.map fun g => String.ofList (Nat.toDigits 16 g))

/-- The place and length of the first longest run of zeros at or after `place`. -/
def longestZeros : (place : Nat) → List Nat → Nat × Nat
  | place, [] => (place, 0)
  | place, g :: rest =>
    let here := ((g :: rest).takeWhile (· = 0)).length
    let (later, length) := longestZeros (place + 1) rest
    if here ≥ length then (place, here) else (later, length)

/-- The text of the eight groups of an address of version 6. -/
def groupsText (groups : List Nat) : String :=
  match groups with
  | [0, 0, 0, 0, 0, 0xFFFF, x, y] =>
    "::ffff:" ++ dotted [x / 256, x % 256, y / 256, y % 256]
  | _ =>
    let (start, length) := longestZeros 0 groups
    if length > 1 then
      coloned (groups.take start) ++ "::" ++ coloned (groups.drop (start + length))
    else coloned groups

def toText : SocketAddress → String
  | .v4 octets number => dotted octets ++ ":" ++ toString number
  | .v6 groups scope number =>
    let zone := if scope = 0 then "" else "%" ++ toString scope
    "[" ++ groupsText groups ++ zone ++ "]:" ++ toString number

end SocketAddress

end Treecast.Net
