import Treecast.Decimal.Double

/-!
# The double nearest to a decimal

`Double.ofDecimal` rounds a decimal once, to the nearest double and to the even one of two as
near; `Double.plainText` writes a double without an exponent; `Double.roundedWord` is the nearest
whole number of 64 bits.
-/

set_option autoImplicit false

namespace Treecast.Double

def zero : Double := ⟨0⟩

def infinity : Double := ⟨0x7FF0000000000000⟩

/-- A double that stands for no number. -/
def notNumber : Double := ⟨0x7FF8000000000000⟩

/-- Whether the double stands for no number. -/
def isNotNumber (d : Double) : Bool := !d.isFinite && d.fractionField != 0

/-- The natural number nearest to a quotient; of two as near, the even one. -/
def divNearest (num den : Nat) : Nat :=
  let below := num / den
  let twice := 2 * (num % den)
  if twice < den ∨ (twice = den ∧ below % 2 = 0) then below else below + 1

/-- The exponent `q` such that the doubles near a positive ratio are multiples of `2^q`. -/
def lastPlace (r : Ratio) : Int :=
  let guess : Int := (Nat.log2 r.num : Int) - (Nat.log2 r.den : Int) - 53
  max (-1074) (if (Ratio.ofBinary (Nat.pow 2 53) guess).le r then guess + 1 else guess)

/-- The double nearest to a ratio. -/
def ofRatio (r : Ratio) : Double :=
  if r.num = 0 then zero
  else
    let q := lastPlace r
    let unit := Ratio.ofBinary 1 q
    let n := divNearest (r.num * unit.den) (r.den * unit.num)
    let bits := (q + 1074).toNat * Nat.pow 2 52 + n
    if bits ≥ infinity.bits.toNat then infinity else ⟨bits.toUInt64⟩

/-- The double nearest to `m · 10^e`; beyond the greatest double it is infinity. -/
def ofDecimal (m : Nat) (e : Int) : Double :=
  let places : Int := (Nat.toDigits 10 m).length + e
  if m = 0 ∨ places < -330 then zero
  else if places > 310 then infinity
  else ofRatio (Ratio.ofDecimal m e)

/-- The decimal `n · 10^e` without an exponent. -/
def plainDecimal (n : Nat) (e : Int) : String :=
  let digits := Nat.toDigits 10 n
  let point : Int := digits.length + e
  let zeros (k : Int) := List.replicate k.toNat '0'
  if 0 ≤ e then String.ofList (digits ++ zeros e)
  else if 0 < point then
    String.ofList (digits.take point.toNat ++ '.' :: digits.drop point.toNat)
  else String.ofList (['0', '.'] ++ zeros (-point) ++ digits)

/-- The shortest text that reads back, without an exponent and without a point after a whole
number. -/
def plainText (d : Double) : String :=
  if d.isNotNumber then "NaN"
  else
    let body :=
      if !d.isFinite then "inf"
      else if d.magnitude.1 = 0 then "0"
      else
        let (n, e) := d.shortest
        plainDecimal n e
    if d.negative then "-" ++ body else body

/-- The nearest whole number from zero to the greatest of 64 bits, a half going up. -/
def roundedWord (d : Double) : Nat :=
  let greatest := Nat.pow 2 64 - 1
  if d.isNotNumber || d.negative then 0
  else if !d.isFinite then greatest
  else
    let (m, q) := d.magnitude
    let r := Ratio.ofBinary m q
    min greatest ((2 * r.num + r.den) / (2 * r.den))

/-- Whether the double is neither zero. -/
def isNonzero (d : Double) : Bool := !d.isFinite || d.magnitude.1 != 0

end Treecast.Double
