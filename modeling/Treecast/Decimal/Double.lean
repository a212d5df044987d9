/-!
# Double-precision numbers and their shortest decimals

A finite double is `m · 2^q` with a sign.  `Double.shortest` finds the fewest decimal digits
that read back as the same double, and of those the digits nearest to it, in exact arithmetic on
natural numbers; `Double.render` lays them out.
-/

set_option autoImplicit false

namespace Treecast

/-- A double-precision number, by its 64 bits. -/
structure Double where
  bits : UInt64
  deriving DecidableEq, Repr, Inhabited

namespace Double

/-- The double with a hardware float's bits. -/
def ofFloat (f : Float) : Double := ⟨f.toBits⟩

/-- The hardware float with these bits. -/
def toFloat (d : Double) : Float := Float.ofBits d.bits

/-- Whether the sign bit is set. -/
def negative (d : Double) : Bool := d.bits.toNat ≥ Nat.pow 2 63

def exponentField (d : Double) : Nat := d.bits.toNat / Nat.pow 2 52 % Nat.pow 2 11

def fractionField (d : Double) : Nat := d.bits.toNat % Nat.pow 2 52

/-- Whether the number is an infinity or no number at all. -/
def isFinite (d : Double) : Bool := d.exponentField != Nat.pow 2 11 - 1

/-- The magnitude as `(m, q)`, standing for `m · 2^q`. -/
def magnitude (d : Double) : Nat × Int :=
  if d.exponentField = 0 then (d.fractionField, -1074)
  else (Nat.pow 2 52 + d.fractionField, (d.exponentField : Int) - 1075)

/-- A nonnegative rational number, as numerator and denominator. -/
structure Ratio where
  num : Nat
  den : Nat

/-- `m · 2^q` as a ratio. -/
def Ratio.ofBinary (m : Nat) (q : Int) : Ratio :=
  if q ≥ 0 then ⟨m * Nat.pow 2 q.toNat, 1⟩ else ⟨m, Nat.pow 2 (-q).toNat⟩

/-- `m · 10^e` as a ratio. -/
def Ratio.ofDecimal (m : Nat) (e : Int) : Ratio :=
  if e ≥ 0 then ⟨m * Nat.pow 10 e.toNat, 1⟩ else ⟨m, Nat.pow 10 (-e).toNat⟩

/-- Whether the first ratio is at most the second. -/
def Ratio.le (a b : Ratio) : Bool := a.num * b.den ≤ b.num * a.den

/-- Whether the first ratio is below the second. -/
def Ratio.lt (a b : Ratio) : Bool := a.num * b.den < b.num * a.den

/-- The ratios that round to a positive double, its ends belonging to it or not. -/
structure Interval where
  low : Ratio
  high : Ratio
  closed : Bool

def Interval.has (i : Interval) (r : Ratio) : Bool :=
  if i.closed then i.low.le r && r.le i.high else i.low.lt r && r.lt i.high

/-- The ratios that round to the nearest, ties to even, as this positive double. -/
def rounding (d : Double) : Interval :=
  let (m, q) := d.magnitude
  let low :=
    if d.fractionField = 0 ∧ d.exponentField > 1 then Ratio.ofBinary (4 * m - 1) (q - 2)
    else Ratio.ofBinary (2 * m - 1) (q - 1)
  ⟨low, Ratio.ofBinary (2 * m + 1) (q - 1), m % 2 = 0⟩

/-- The greatest `e` with `10^e ≤ m · 2^q`, for a positive `m`. -/
def decimalExponent (m : Nat) (q : Int) : Int :=
  let value := Ratio.ofBinary m q
  let guess := ((Nat.log2 m : Int) + q) * 1233 / 4096
  if (Ratio.ofDecimal 1 (guess + 1)).le value then guess + 1
  else if (Ratio.ofDecimal 1 guess).le value then guess
  else guess - 1

/-- Of the two neighbours of the value on the grid of multiples of `10^e`, the nearest one that
lies in the interval; of two as near, the even one. -/
def onGrid (value : Ratio) (interval : Interval) (e : Int) : Option Nat :=
  let unit := Ratio.ofDecimal 1 e
  let num := value.num * unit.den
  let den := value.den * unit.num
  let below := num / den
  let twice := 2 * (num % den)
  let nearest := if twice < den ∨ (twice = den ∧ below % 2 = 0) then below else below + 1
  let farther := if nearest = below then below + 1 else below
  [nearest, farther].find? fun n => interval.has (Ratio.ofDecimal n e)

/-- The digits `n` and the exponent `e` of `n · 10^e`, without zeros at the end of `n`. -/
def strip : Nat → Nat → Int → Nat × Int
  | 0, n, e => (n, e)
  | steps + 1, n, e => if n ≠ 0 ∧ n % 10 = 0 then strip steps (n / 10) (e + 1) else (n, e)

/-- The shortest decimal `n · 10^e` that reads back as this positive finite double. -/
def shortest (d : Double) : Nat × Int :=
  let (m, q) := d.magnitude
  let value := Ratio.ofBinary m q
  let interval := d.rounding
  let top := decimalExponent m q
  let hit := (List.range 17).findSome? fun (places : Nat) =>
    let e := top - places
    (onGrid value interval e).map fun n => (n, e)
  match hit with
  | some (n, e) => strip 20 n e
  | none => (m, 0)

/-- Where positional notation ends, and how the exponent is written after it. -/
structure Layout where
  /-- The most digits before the point. -/
  wholeDigits : Int
  /-- The most zeros between the point and the first digit. -/
  leadingZeros : Int
  /-- What stands before a positive exponent. -/
  plus : String

/-- Numbers in JSON text: sixteen places before the point, four zeros after it, and a sign on
every exponent. -/
def jsonLayout : Layout := ⟨16, 4, "+"⟩

/-- Lays out the decimal `n · 10^e`. -/
def Layout.decimal (layout : Layout) (n : Nat) (e : Int) : String :=
  let digits := (Nat.toDigits 10 n)
  let count : Int := digits.length
  let point := count + e
  let zeros (k : Int) := List.replicate k.toNat '0'
  if 0 ≤ e ∧ point ≤ layout.wholeDigits then
    String.ofList (digits ++ zeros e ++ ['.', '0'])
  else if 0 < point ∧ point ≤ layout.wholeDigits then
    String.ofList (digits.take point.toNat ++ '.' :: digits.drop point.toNat)
  else if point ≤ 0 ∧ -layout.leadingZeros ≤ point then
    String.ofList (['0', '.'] ++ zeros (-point) ++ digits)
  else
    let exponent := point - 1
    let lead := digits.take 1
    let more := digits.drop 1
    let fraction := if more.isEmpty then [] else '.' :: more
    let sign := if exponent < 0 then "-" else layout.plus
    String.ofList (lead ++ fraction) ++ "e" ++ sign ++ toString exponent.natAbs

/-- The text of a finite double. -/
def render (layout : Layout) (d : Double) : String :=
  let body :=
    if d.magnitude.1 = 0 then "0.0"
    else
      let (n, e) := d.shortest
      layout.decimal n e
  if d.negative then "-" ++ body else body

/-- The value `significand · 10^exponent` computed by one rounding of the significand and one
multiplication or division for every step of at most 308 places; `none` when it overflows. -/
def ofParts (significand : Nat) (exponent : Int) : Option Double :=
  scale 8 significand.toUInt64.toFloat exponent
where
  /-- At most seven steps of 308 places pass before a nonzero value has vanished. -/
  scale : Nat → Float → Int → Option Double
    | 0, f, _ => some (ofFloat f)
    | steps + 1, f, exponent =>
      if exponent.natAbs ≤ 308 then
        let power := Float.ofScientific 1 false exponent.natAbs
        if exponent ≥ 0 then
          let product := f * power
          if product.isInf then none else some (ofFloat product)
        else some (ofFloat (f / power))
      else if f == 0.0 then some (ofFloat f)
      else if exponent ≥ 0 then none
      else scale steps (f / Float.ofScientific 1 false 308) (exponent + 308)

/-- The double with the opposite sign. -/
def negate (d : Double) : Double := ⟨d.bits ^^^ 0x8000000000000000⟩

end Double

end Treecast
