/-
# JSON numbers

A number is an integer or a double, and the two never equal each other: `1` and `1.0` are
different values.  Integers reach from -2^63 to 2^64 - 1; a literal outside that range, or
one with a fraction or an exponent, is a double, and so is `-0`.

A literal is read by keeping its leading digits as long as they make a number below 2^64,
rounding that number to a double, and scaling it by the power of ten that is left, one
rounding at a time.  A double is written with its shortest digits (`Json/Shortest`): in
positional notation from 10^-5 up to 10^16, with an exponent elsewhere.
-/
import ComponentTree.Json.Shortest

namespace ComponentTree.Json

/-- A JSON number. -/
inductive Number where
  /-- A literal without fraction or exponent, from -2^63 to 2^64 - 1. -/
  | integer (value : Int)
  /-- Any other number. -/
  | float (value : Float)
deriving BEq, Inhabited

namespace Number

/-! ### Writing -/

/-- Where a double is written positionally: the decimal point of its digits 0.d1d2… · 10^`point`
stands at most this far to the left and to the right. -/
def positional (point : Int) : Bool := -5 < point && point ≤ 16

/-- A decimal as text, always with a fraction or an exponent. -/
def renderDecimal (d : Decimal) : String :=
  let digits := toString d.digits
  let count := digits.length
  let point : Int := count + d.exponent
  if positional point then
    if 0 ≤ d.exponent then
      digits ++ "".pushn '0' d.exponent.toNat ++ ".0"
    else if 0 < point then
      String.ofList (digits.toList.take point.toNat) ++ "." ++
        String.ofList (digits.toList.drop point.toNat)
    else "0." ++ "".pushn '0' (-point).toNat ++ digits
  else
    let whole := String.ofList (digits.toList.take 1)
    let fraction := String.ofList (digits.toList.drop 1)
    let exponent := point - 1
    whole ++ (if fraction.isEmpty then "" else "." ++ fraction) ++ "e" ++
      (if exponent < 0 then "-" else "+") ++ toString exponent.natAbs

/-- A double as text; what is not finite has no number and is written as `null`. -/
def renderFloat (x : Float) : String :=
  if x.isNaN || x.isInf then "null"
  else
    let sign := if x.toBits >>> 63 = 1 then "-" else ""
    let size := Magnitude.ofBits x.toBits
    sign ++ if size.mantissa = 0 then "0.0" else renderDecimal size.shortest

/-- A number as text. -/
def render : Number → String
  | integer n => toString n
  | float x => renderFloat x

/-! ### Reading -/

/-- The leading digits of a literal: a number below 2^64, and the power of ten that the
digits left out, or read behind the point, add to it. -/
structure Significand where
  value : Nat
  exponent : Int

namespace Significand

/-- Whether another digit can be kept. -/
def fits (s : Significand) (digit : Nat) : Bool := s.value * 10 + digit < UInt64.size

/-- Read the digits in front of the point.  After the first digit that does not fit, every
further one counts as a power of ten. -/
def readWhole (digits : List Nat) : Significand :=
  digits.foldl (fun s d =>
    if s.exponent = 0 && s.fits d then { s with value := s.value * 10 + d }
    else { s with exponent := s.exponent + 1 }) ⟨0, 0⟩

/-- Read the digits behind the point, up to the first that does not fit. -/
def readFraction (s : Significand) : List Nat → Significand
  | [] => s
  | d :: ds =>
    if s.fits d then readFraction ⟨s.value * 10 + d, s.exponent - 1⟩ ds else s

end Significand

/-- The double nearest to a power of ten. -/
def powerOfTen (n : Nat) : Float := Float.ofScientific 1 false n

/-- Divide by a power of ten, 10^308 at a time as long as anything is left. -/
def scaleDown (x : Float) (n : Nat) : Float :=
  if n ≤ 308 then x / powerOfTen n
  else if x == 0 then x
  else scaleDown (x / powerOfTen 308) (n - 308)
termination_by n

/-- The double of a significand, unless it is too large. -/
def scale (s : Significand) : Option Float :=
  let x := s.value.toUInt64.toFloat
  if 0 ≤ s.exponent then
    if x == 0 then some x
    else if s.exponent ≤ 308 then
      let y := x * powerOfTen s.exponent.toNat
      if y.isInf then none else some y
    else none
  else some (scaleDown x s.exponent.natAbs)

/-- The parts of a number literal. -/
structure Literal where
  negative : Bool
  /-- The digits in front of the point. -/
  whole : List Nat
  /-- The digits behind the point, if there is one. -/
  fraction : Option (List Nat)
  /-- The exponent, if there is one. -/
  exponent : Option Int

namespace Literal

/-- The number of a run of decimal digits. -/
def ofDigits (digits : List Nat) : Nat := digits.foldl (fun n d => n * 10 + d) 0

/-- The double a literal stands for, unless it is too large. -/
def toFloat? (l : Literal) : Option Float :=
  let s := (Significand.readWhole l.whole).readFraction (l.fraction.getD [])
  (scale { s with exponent := s.exponent + l.exponent.getD 0 }).map fun x =>
    if l.negative then -x else x

/-- The number a literal stands for, unless it is too large. -/
def number? (l : Literal) : Option Number :=
  let whole := ofDigits l.whole
  if l.fraction.isNone && l.exponent.isNone && !l.negative && whole < UInt64.size then
    some (.integer whole)
  else if l.fraction.isNone && l.exponent.isNone && l.negative && 0 < whole &&
      whole ≤ UInt64.size / 2 then
    some (.integer (-whole))
  else l.toFloat?.map .float

end Literal

end Number

end ComponentTree.Json
