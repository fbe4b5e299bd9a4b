/-! A double taken apart into sign, mantissa and exponent, and put together again. Rounding,
remainder and decimal text work on these parts in exact integer arithmetic. -/

namespace Tween.Binary64

-- Powers of natural numbers are those of the core library, whatever else is loaded.
attribute [local instance (high)] instPowNat

/-- A finite double apart from its sign: `mantissa * 2 ^ exponent`. -/
structure Magnitude where
  mantissa : Nat
  exponent : Int

def isNegative (x : Float) : Bool := x.toBits >>> 63 == 1

def exponentField (x : Float) : Nat := (x.toBits >>> 52 &&& 0x7ff).toNat

def fractionField (x : Float) : Nat := (x.toBits &&& 0xfffffffffffff).toNat

/-- Only meant for finite doubles. An exponent field of zero has no leading bit to add. -/
def magnitude (x : Float) : Magnitude :=
  if exponentField x = 0 then ⟨fractionField x, -1074⟩
  else ⟨2 ^ (52 : Nat) + fractionField x, (exponentField x : Int) - 1075⟩

/-- The double `mantissa * 2 ^ exponent` with the given sign. The mantissa has at most 53 binary
digits and the exponent is at least -1074, the form of every finite double, so nothing is rounded. -/
def compose (negative : Bool) (mantissa : Nat) (exponent : Int) : Float :=
  let sign : Nat := if negative then 2 ^ (63 : Nat) else 0
  let top := mantissa.log2
  let unsigned :=
    if mantissa = 0 then 0
    else if exponent + top < -1022 then mantissa * 2 ^ (exponent + 1074).toNat
    else (exponent + top + 1022).toNat * 2 ^ (52 : Nat) + mantissa * 2 ^ (52 - top)
  Float.ofBits (UInt64.ofNat (sign + unsigned))

end Tween.Binary64
