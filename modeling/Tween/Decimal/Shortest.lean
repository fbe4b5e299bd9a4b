import Tween.Binary64.Parts

/-! The shortest decimal that reads back as a given double. The reals that round to the double
form an interval; the first grid of tens, hundreds, … below the leading digit that has a point in
the interval gives the digits. All is exact integer arithmetic. -/

namespace Tween.Decimal
open Binary64

-- Powers of natural numbers are those of the core library, whatever else is loaded.
attribute [local instance (high)] instPowNat

/-- Which of two equally near decimals is taken. -/
inductive Tie where
  | even | up

/-- The decimal `coefficient * 10 ^ exponent`. -/
structure Scaled where
  coefficient : Nat
  exponent : Int

/-- A positive double as the quotient of `value` and `unit`, with the bounds of the interval that
rounds to it over the same unit. The bounds belong to it when the mantissa is even. -/
structure Target where
  value : Nat
  unit : Nat
  lower : Nat
  upper : Nat
  closed : Bool

/-- Neighbours are an ulp apart, except that below a power of two they are half as far. -/
def Target.ofParts (parts : Magnitude) (narrowBelow : Bool) : Target :=
  let ulp := 2 ^ parts.exponent.toNat
  let value := 4 * parts.mantissa * ulp
  { value
    unit := 4 * 2 ^ (-parts.exponent).toNat
    lower := value - (if narrowBelow then 1 else 2) * ulp
    upper := value + 2 * ulp
    closed := parts.mantissa % 2 = 0 }

def Target.ofFloat (x : Float) : Target :=
  .ofParts (magnitude x) (fractionField x = 0 && 1 < exponentField x)

namespace Target

/-- `coefficient * 10 ^ exponent` against `bound / unit`. -/
def compareTo (target : Target) (d : Scaled) (bound : Nat) : Ordering :=
  compare (d.coefficient * target.unit * 10 ^ d.exponent.toNat) (bound * 10 ^ (-d.exponent).toNat)

/-- Whether the decimal lies among the reals that round to the double. -/
def readsBack (target : Target) (d : Scaled) : Bool :=
  let low := target.compareTo d target.lower
  let high := target.compareTo d target.upper
  (low == .gt || (target.closed && low == .eq)) && (high == .lt || (target.closed && high == .eq))

/-- The greatest multiple of `10 ^ exponent` that is not above the double. -/
def floorAt (target : Target) (exponent : Int) : Nat :=
  target.value * 10 ^ (-exponent).toNat / (target.unit * 10 ^ exponent.toNat)

/-- The decimal on a grid that reads back, if there is one; of two the nearer one. -/
def onGrid? (tie : Tie) (target : Target) (exponent : Int) : Option Scaled :=
  let below : Scaled := ⟨target.floorAt exponent, exponent⟩
  let above : Scaled := ⟨below.coefficient + 1, exponent⟩
  match target.readsBack below, target.readsBack above with
  | true, false => some below
  | false, true => some above
  | false, false => none
  | true, true =>
    match target.compareTo ⟨2 * below.coefficient + 1, exponent⟩ (2 * target.value), tie with
    | .gt, _ => some below
    | .lt, _ => some above
    | .eq, .up => some above
    | .eq, .even => some (if below.coefficient % 2 = 0 then below else above)

/-- The least power of ten above the double. The binary length tells it up to two. -/
def decade (target : Target) : Int :=
  let length : Int := (target.value.log2 : Int) - target.unit.log2
  let guess := length * 30103 / 100000
  ([guess, guess + 1, guess + 2].find? fun k => target.compareTo ⟨1, k⟩ target.value == .gt).getD (guess + 2)

/-- The double itself as a decimal. -/
def exact (target : Target) : Scaled :=
  let places := target.unit.log2
  ⟨target.value * 5 ^ places, -places⟩

/-- Seventeen digits are enough for every double. -/
def shortest (tie : Tie) (target : Target) : Scaled :=
  let onDigits (count : Nat) := target.onGrid? tie (target.decade - (count + 1 : Nat))
  ((List.range 17).findSome? onDigits).getD target.exact

end Target

/-- Digits without zeros at the end, and the place of the decimal point counted from the first. -/
structure Digits where
  digits : List Char
  point : Int

def Scaled.toDigits (d : Scaled) : Digits :=
  let digits := Nat.toDigits 10 d.coefficient
  { digits := (digits.reverse.dropWhile (· == '0')).reverse
    point := (digits.length : Int) + d.exponent }

/-- The shortest digits of a finite double apart from its sign. A zero has the one digit zero. -/
def shortestDigits (tie : Tie) (x : Float) : Digits :=
  if x == 0.0 then ⟨['0'], 1⟩ else ((Target.ofFloat x).shortest tie).toDigits

end Tween.Decimal
