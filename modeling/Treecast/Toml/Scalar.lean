import Treecast.Toml.Text
import Treecast.Settings.Tree

/-!
# Numbers and dates in TOML

Whole numbers have 64 bits; a decimal is the nearest double.  A date or a time is a table with one
entry, whose key no document is likely to use, and its text in the one standard form.
-/

set_option autoImplicit false

namespace Treecast.Toml

/-! ## Digits -/

/-- Reads digits, single underscores between them; `none` unless there is a digit. -/
def readDigits (isDigit : Char → Bool) : (steps : Nat) → List Char →
    Option (List Char × List Char)
  | 0, _ => none
  | steps + 1, c :: cs =>
    if isDigit c then
      match cs with
      | '_' :: rest => do
        let (more, rest) ← readDigits isDigit steps rest
        return (c :: more, rest)
      | _ =>
        match readDigits isDigit steps cs with
        | some (more, rest) => some (c :: more, rest)
        | none => if (cs.head?.map isDigit).getD false then none else some ([c], cs)
    else none
  | _ + 1, [] => none

def readDecimals (cs : List Char) : Option (List Char × List Char) :=
  readDigits Char.isDigit (cs.length + 1) cs

def decimalNumber (digits : List Char) : Nat :=
  digits.foldl (fun n c => n * 10 + Json.digitValue c) 0

/-- Reads a sign; `true` for a minus. -/
def readSign? : List Char → Option Bool × List Char
  | '+' :: rest => (some false, rest)
  | '-' :: rest => (some true, rest)
  | cs => (none, cs)

/-- Reads a whole number: a lone zero, or digits that do not start with one. -/
def readWhole (cs : List Char) : Option (List Char × List Char) :=
  match cs with
  | '0' :: rest => some (['0'], rest)
  | _ => readDecimals cs

/-! ## Numbers -/

/-- A whole number of 64 bits. -/
def wholeOf? (minus : Bool) (n : Nat) : Option SettingTree :=
  if minus then if n ≤ Nat.pow 2 63 then some (.whole (-n)) else none
  else if n < Nat.pow 2 63 then some (.whole n) else none

/-- The base of a number that does not start with a sign, its digits and the rest. -/
def readBased (cs : List Char) : Option (Option (Nat × List Char)) :=
  let based (isDigit : Char → Bool) (base : Nat) (rest : List Char) : Option (Nat × List Char) := do
    let (digits, rest) ← readDigits isDigit (rest.length + 1) rest
    let n := digits.foldl (fun n c => n * base + (Json.hexDigit? c).getD 0) 0
    return (n, rest)
  match cs with
  | '0' :: 'x' :: rest => some (based (fun c => (Json.hexDigit? c).isSome) 16 rest)
  | '0' :: 'o' :: rest => some (based (fun c => '0' ≤ c && c ≤ '7') 8 rest)
  | '0' :: 'b' :: rest => some (based (fun c => c = '0' || c = '1') 2 rest)
  | _ => none

/-- Reads an exponent, if there is one. -/
def readPower : List Char → Option (Option Int × List Char)
  | c :: cs =>
    if c = 'e' ∨ c = 'E' then do
      let (sign, cs) := readSign? cs
      let (digits, cs) ← readDecimals cs
      let n : Int := decimalNumber digits
      return (some (if sign = some true then -n else n), cs)
    else some (none, c :: cs)
  | [] => some (none, [])

/-- Reads the digits after a point, if there is one. -/
def readFraction : List Char → Option (Option (List Char) × List Char)
  | '.' :: cs => do
    let (digits, cs) ← readDecimals cs
    return (some digits, cs)
  | cs => some (none, cs)

/-- A decimal number with a sign; `none` beyond the greatest double. -/
def realOf? (minus : Bool) (digits : List Char) (power : Int) : Option SettingTree :=
  let d := Double.ofDecimal (decimalNumber digits) power
  if minus then some (.real d.negate)
  else if d = Double.infinity then none else some (.real d)

/-- Reads a number without the letters that stand for special ones. -/
def readDecimal (minus : Bool) (cs : List Char) : Option (SettingTree × List Char) := do
  let (whole, cs) ← readWhole cs
  let (fraction, cs) ← readFraction cs
  let (power, cs) ← readPower cs
  let v ← match fraction, power with
    | none, none => wholeOf? minus (decimalNumber whole)
    | _, _ =>
      let fraction := fraction.getD []
      realOf? minus (whole ++ fraction) (power.getD 0 - fraction.length)
  return (v, cs)

def readNumber (cs : List Char) : Option (SettingTree × List Char) :=
  match readSign? cs with
  | (sign, rest) =>
    let minus := sign = some true
    let signed (d : Double) : SettingTree := .real (if minus then d.negate else d)
    match rest with
    | 'i' :: 'n' :: 'f' :: rest => some (signed Double.infinity, rest)
    | 'n' :: 'a' :: 'n' :: rest => some (signed Double.notNumber, rest)
    | _ =>
      match sign, readBased rest with
      | none, some based => do
        let (n, rest) ← based
        return (← wholeOf? false n, rest)
      | _, _ => readDecimal minus rest

/-! ## Dates and times -/

def readWidth (width : Nat) (cs : List Char) : Option (Nat × List Char) :=
  let digits := cs.take width
  if digits.length = width && digits.all Char.isDigit then
    some (decimalNumber digits, cs.drop width)
  else none

/-- Reads two digits that stand for a number within limits. -/
def readPair (low high : Nat) (cs : List Char) : Option (Nat × List Char) := do
  let (n, cs) ← readWidth 2 cs
  if low ≤ n ∧ n ≤ high then return (n, cs) else none

/-- Reads a character. -/
def expect (c : Char) : List Char → Option (List Char)
  | d :: rest => if c = d then some rest else none
  | [] => none

/-- The number of days of a month. -/
def daysIn (year month : Nat) : Nat :=
  if month = 2 then
    if year % 4 = 0 ∧ (year % 100 ≠ 0 ∨ year % 400 = 0) then 29 else 28
  else if [4, 6, 9, 11].contains month then 30 else 31

/-- A number with zeros before it. -/
def padded (width n : Nat) : List Char :=
  let digits := Nat.toDigits 10 n
  List.replicate (width - digits.length) '0' ++ digits

def readDate (cs : List Char) : Option (List Char × List Char) := do
  let (year, cs) ← readWidth 4 cs
  let (month, cs) ← readPair 1 12 (← expect '-' cs)
  let (day, cs) ← readPair 1 31 (← expect '-' cs)
  if day > daysIn year month then none
  else return (padded 4 year ++ '-' :: padded 2 month ++ '-' :: padded 2 day, cs)

/-- Reads the fraction of a second, of which nine digits count; zeros at its end are dropped. -/
def readSecondFraction : List Char → Option (List Char × List Char)
  | '.' :: cs =>
    match cs.takeWhile Char.isDigit with
    | [] => none
    | digits =>
      let kept := ((digits.take 9).reverse.dropWhile (· = '0')).reverse
      some (if kept.isEmpty then [] else '.' :: kept, cs.dropWhile Char.isDigit)
  | cs => some ([], cs)

/-- How far the parts of a time of day may go. -/
structure ClockLimits where
  hour : Nat
  /-- The hours and minutes of the distance from universal time, which is a day at most. -/
  offsetHour : Nat
  offsetMinute : Nat
  deriving DecidableEq, Repr

/-- The limits for a time in a document. -/
def ClockLimits.strict : ClockLimits := ⟨23, 23, 59⟩

/-- The limits for a time in the text of a table that stands for it. -/
def ClockLimits.wide : ClockLimits := ⟨24, 99, 99⟩

def readTime (limits : ClockLimits) (cs : List Char) : Option (List Char × List Char) := do
  let (hour, cs) ← readPair 0 limits.hour cs
  let (minute, cs) ← readPair 0 59 (← expect ':' cs)
  let (second, cs) ← readPair 0 60 (← expect ':' cs)
  let (fraction, cs) ← readSecondFraction cs
  return (padded 2 hour ++ ':' :: padded 2 minute ++ ':' :: padded 2 second ++ fraction, cs)

/-- The text of a distance from universal time, in minutes. -/
def offsetText (minus : Bool) (minutes : Nat) : List Char :=
  let sign := if minus && minutes > 0 then '-' else '+'
  sign :: padded 2 (minutes / 60) ++ ':' :: padded 2 (minutes % 60)

/-- Reads the distance from universal time, if it is given. -/
def readOffset (limits : ClockLimits) : List Char → Option (List Char × List Char)
  | 'Z' :: rest => some (['Z'], rest)
  | 'z' :: rest => some (['Z'], rest)
  | cs =>
    match readSign? cs with
    | (none, _) => some ([], cs)
    | (some minus, rest) => do
      let (hour, rest) ← readPair 0 limits.offsetHour rest
      let (minute, rest) ← readPair 0 limits.offsetMinute (← expect ':' rest)
      let minutes := hour * 60 + minute
      if minutes > 24 * 60 then none else return (offsetText minus minutes, rest)

/-- Reads a date and, where one follows, the time of day with its offset. -/
def readDateTime (limits : ClockLimits) (cs : List Char) : Option (List Char × List Char) := do
  let (date, cs) ← readDate cs
  match cs with
  | c :: rest =>
    if c = 'T' ∨ c = 't' ∨ c = ' ' then
      match readTime limits rest with
      | none => return (date, cs)
      | some (time, rest) =>
        let (offset, rest) ← readOffset limits rest
        return (date ++ 'T' :: time ++ offset, rest)
    else return (date, cs)
  | [] => return (date, cs)

/-- The key of the table that stands for a date or a time. -/
def dateKey : String := "$__toml_private_datetime"

/-- The table that stands for a date or a time. -/
def dateTable (text : List Char) : SettingTree := .table [(dateKey, .text (String.ofList text))]

def startsDate (cs : List Char) : Bool := ((readWidth 4 cs).bind fun r => expect '-' r.2).isSome

/-- Whether a time of day starts here. -/
def startsTime (cs : List Char) : Bool := ((readWidth 2 cs).bind fun r => expect ':' r.2).isSome

/-- Reads a date or a time of day. -/
def readMoment (limits : ClockLimits) (cs : List Char) : Option (List Char × List Char) :=
  if startsTime cs then readTime limits cs else readDateTime limits cs

/-- Reads a number, a date or a time of day. -/
def readScalar (cs : List Char) : Option (SettingTree × List Char) :=
  if startsDate cs || startsTime cs then
    (readMoment .strict cs).map fun r => (dateTable r.1, r.2)
  else readNumber cs

/-- The standard form of a text that is a date or a time and nothing else. -/
def moment? (text : String) : Option String :=
  match readMoment .wide text.toList with
  | some (moment, []) => some (String.ofList moment)
  | _ => none

end Treecast.Toml
