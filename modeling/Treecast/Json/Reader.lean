import Treecast.Json.Value

/-!
# Reading JSON text

`Json.readSource` reads one value and keeps every member of an object as it was written, with
repeated keys; `Json.read` puts the value in order.  Integers that fit 64 bits stay integers,
`-0` and all other numbers become doubles, a number beyond the doubles is refused, and so are
arrays and objects nested more than 127 deep.
-/

set_option autoImplicit false

namespace Treecast.Json

/-- The blanks between the tokens. -/
def isGap (c : Char) : Bool := c = ' ' || c = '\n' || c = '\r' || c = '\t'

/-- What follows the leading blanks. -/
def skipGap (cs : List Char) : List Char := cs.dropWhile isGap

/-- The value of a hexadecimal digit. -/
def hexDigit? (c : Char) : Option Nat :=
  if '0' ≤ c ∧ c ≤ '9' then some (c.toNat - '0'.toNat)
  else if 'a' ≤ c ∧ c ≤ 'f' then some (c.toNat - 'a'.toNat + 10)
  else if 'A' ≤ c ∧ c ≤ 'F' then some (c.toNat - 'A'.toNat + 10)
  else none

/-- The value of four hexadecimal digits. -/
def hexUnit? (a b c d : Char) : Option Nat :=
  match hexDigit? a, hexDigit? b, hexDigit? c, hexDigit? d with
  | some a, some b, some c, some d => some (((a * 16 + b) * 16 + c) * 16 + d)
  | _, _, _, _ => none

/-- Whether a unit is the first half of a pair. -/
def isLeadUnit (unit : Nat) : Bool := 0xD800 ≤ unit && unit ≤ 0xDBFF

/-- Whether a unit is the second half of a pair. -/
def isTrailUnit (unit : Nat) : Bool := 0xDC00 ≤ unit && unit ≤ 0xDFFF

/-- The character of a pair of units. -/
def pairChar (lead trail : Nat) : Char :=
  Char.ofNat (0x10000 + (lead - 0xD800) * 0x400 + (trail - 0xDC00))

/-- The character that a letter after a backslash stands for. -/
def escaped? : Char → Option Char
  | '"' => some '"'
  | '\\' => some '\\'
  | '/' => some '/'
  | 'b' => some '\x08'
  | 'f' => some '\x0c'
  | 'n' => some '\n'
  | 'r' => some '\r'
  | 't' => some '\t'
  | _ => none

/-- Reads the characters of a string up to its closing quote, after those in `done` (the last
one first). -/
def readChars (done : List Char) : List Char → Option (List Char × List Char)
  | [] => none
  | '"' :: rest => some (done.reverse, rest)
  | '\\' :: 'u' :: a :: b :: c :: d :: rest =>
    match hexUnit? a b c d with
    | none => none
    | some unit =>
      if isLeadUnit unit then
        match rest with
        | '\\' :: 'u' :: e :: f :: g :: h :: more =>
          match hexUnit? e f g h with
          | some trail =>
            if isTrailUnit trail then readChars (pairChar unit trail :: done) more else none
          | none => none
        | _ => none
      else if isTrailUnit unit then none
      else readChars (Char.ofNat unit :: done) rest
  | '\\' :: e :: rest =>
    match escaped? e with
    | some c => readChars (c :: done) rest
    | none => none
  | c :: rest => if c.toNat < 0x20 then none else readChars (c :: done) rest

/-- The value of a decimal digit. -/
def digitValue (c : Char) : Nat := c.toNat - '0'.toNat

/-- The greatest unsigned 64-bit integer. -/
def maxUnsigned : Nat := Nat.pow 2 64 - 1

/-- Appends digits to a significand as long as it fits 64 bits; returns the digits left. -/
def absorb : Nat → List Char → Nat × List Char
  | significand, [] => (significand, [])
  | significand, c :: rest =>
    let next := significand * 10 + digitValue c
    if next ≤ maxUnsigned then absorb next rest else (significand, c :: rest)

/-- The parts of a number as written. -/
structure Literal where
  negative : Bool
  whole : List Char
  /-- The digits after the point, if there is one. -/
  fraction : Option (List Char)
  /-- The exponent's sign (`true` for a minus) and digits, if there is one. -/
  exponent : Option (Bool × List Char)

/-- Splits a list of characters after its leading decimal digits. -/
def spanDigits (cs : List Char) : List Char × List Char :=
  (cs.takeWhile Char.isDigit, cs.dropWhile Char.isDigit)

/-- Reads the point and the digits after it; `none` if no digit follows the point. -/
def readFraction : List Char → Option (Option (List Char) × List Char)
  | '.' :: rest =>
    let (digits, rest) := spanDigits rest
    if digits.isEmpty then none else some (some digits, rest)
  | rest => some (none, rest)

/-- Reads the exponent's sign. -/
def readSign : List Char → Bool × List Char
  | '-' :: rest => (true, rest)
  | '+' :: rest => (false, rest)
  | rest => (false, rest)

/-- Reads an exponent; `none` if it has no digit. -/
def readExponent : List Char → Option (Option (Bool × List Char) × List Char)
  | c :: rest =>
    if c = 'e' ∨ c = 'E' then
      let (minus, rest) := readSign rest
      let (digits, rest) := spanDigits rest
      if digits.isEmpty then none else some (some (minus, digits), rest)
    else some (none, c :: rest)
  | [] => some (none, [])

/-- Reads the digits before the point: a lone zero, or digits that do not start with zero. -/
def readWhole (cs : List Char) : Option (List Char × List Char) :=
  match spanDigits cs with
  | ([], _) => none
  | ('0' :: _ :: _, _) => none
  | (digits, rest) => some (digits, rest)

/-- Reads a number as written. -/
def readLiteral (cs : List Char) : Option (Literal × List Char) := do
  let (negative, cs) := match cs with
    | '-' :: rest => (true, rest)
    | rest => (false, rest)
  let (whole, cs) ← readWhole cs
  let (fraction, cs) ← readFraction cs
  let (exponent, cs) ← readExponent cs
  return (⟨negative, whole, fraction, exponent⟩, cs)

/-- The double of a literal's parts, or `none` when it is out of range. -/
def Literal.real? (l : Literal) : Option Double := do
  let (significand, dropped) := absorb 0 l.whole
  let fraction := l.fraction.getD []
  let (significand, unread) := absorb significand fraction
  let scale : Int := (dropped.length : Int) - (fraction.length - unread.length : Nat)
  let magnitude ← match l.exponent with
    | none => Double.ofParts significand scale
    | some (minus, digits) =>
      let size := digits.foldl (fun n c => n * 10 + digitValue c) 0
      if size > Nat.pow 2 31 - 1 then
        if significand ≠ 0 ∧ ¬ minus then none else Double.ofParts 0 0
      else Double.ofParts significand (if minus then scale - size else scale + size)
  return if l.negative then magnitude.negate else magnitude

/-- The number of a literal, or `none` when it is out of range. -/
def Literal.number? (l : Literal) : Option Number :=
  let integer := l.whole.foldl (fun n c => n * 10 + digitValue c) 0
  if l.fraction.isNone ∧ l.exponent.isNone ∧ ¬ l.negative ∧ integer ≤ maxUnsigned then
    some (.whole integer)
  else if l.fraction.isNone ∧ l.exponent.isNone ∧ l.negative ∧ 0 < integer ∧
      integer ≤ Nat.pow 2 63 then
    some (.whole (-integer))
  else l.real?.map .real

mutual

/-- Reads one value.  `fuel` bounds the steps and `depth` the nesting. -/
def readValue : (fuel depth : Nat) → List Char → Option (Value × List Char)
  | 0, _, _ => none
  | fuel + 1, depth, cs =>
    match skipGap cs with
    | 'n' :: 'u' :: 'l' :: 'l' :: rest => some (.null, rest)
    | 't' :: 'r' :: 'u' :: 'e' :: rest => some (.bool true, rest)
    | 'f' :: 'a' :: 'l' :: 's' :: 'e' :: rest => some (.bool false, rest)
    | '"' :: rest => (readChars [] rest).map fun r => (.string (String.ofList r.1), r.2)
    | '[' :: rest =>
      match depth with
      | 0 => none
      | depth + 1 =>
        match skipGap rest with
        | ']' :: rest => some (.array [], rest)
        | rest => readItems fuel depth [] rest
    | '\x7b' :: rest =>
      match depth with
      | 0 => none
      | depth + 1 =>
        match skipGap rest with
        | '\x7d' :: rest => some (.object [], rest)
        | rest => readMembers fuel depth [] rest
    | cs =>
      match readLiteral cs with
      | some (literal, rest) => literal.number?.map fun n => (.number n, rest)
      | none => none

/-- Reads the items of an array up to its bracket, after those in `done` (the last one
first). -/
def readItems : (fuel depth : Nat) → List Value → List Char → Option (Value × List Char)
  | 0, _, _, _ => none
  | fuel + 1, depth, done, cs =>
    match readValue fuel depth cs with
    | none => none
    | some (v, rest) =>
      match skipGap rest with
      | ',' :: rest => readItems fuel depth (v :: done) rest
      | ']' :: rest => some (.array (v :: done).reverse, rest)
      | _ => none

/-- Reads the members of an object up to its brace, after those in `done` (the last one
first). -/
def readMembers : (fuel depth : Nat) → List (String × Value) → List Char →
    Option (Value × List Char)
  | 0, _, _, _ => none
  | fuel + 1, depth, done, cs =>
    match skipGap cs with
    | '"' :: rest =>
      match readChars [] rest with
      | none => none
      | some (key, rest) =>
        match skipGap rest with
        | ':' :: rest =>
          match readValue fuel depth rest with
          | none => none
          | some (v, rest) =>
            match skipGap rest with
            | ',' :: rest => readMembers fuel depth ((String.ofList key, v) :: done) rest
            | '\x7d' :: rest =>
              some (.object ((String.ofList key, v) :: done).reverse, rest)
            | _ => none
        | _ => none
    | _ => none

end

/-- How deep arrays and objects may be nested. -/
def maxDepth : Nat := 127

/-- The value of a whole text, every object with its members as written. -/
def readSource (text : String) : Option Value :=
  let cs := text.toList
  match readValue (cs.length + 1) maxDepth cs with
  | some (v, rest) => if (skipGap rest).isEmpty then some v else none
  | none => none

/-- The value of a whole text, every object in key order. -/
def read (text : String) : Option Value := (readSource text).map Value.inOrder

/-- The text of bytes in UTF-8, if they are that. -/
def textOfBytes? (bytes : List UInt8) : Option String :=
  String.fromUTF8? ⟨bytes.toArray⟩

end Treecast.Json
