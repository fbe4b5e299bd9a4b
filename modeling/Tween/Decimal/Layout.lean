import Tween.Decimal.Numeral
import Tween.Decimal.Shortest

/-! How selected digits become a numeral. A style is what one kind of text decides for all its
numbers. -/

namespace Tween.Decimal

structure Style where
  /-- Which exponents of the leading digit are written out with zeros. -/
  isPlain : Int → Bool
  /-- Whether an integral number is written with `.0`. -/
  pointZero : Bool
  /-- The sign of an exponent that is not negative. -/
  exponentSign : ExponentSign
  tie : Tie

/-- Digits around the point, with zeros where it lies outside of them. -/
def plainNumeral (style : Style) (negative : Bool) (d : Digits) : Numeral :=
  if d.point ≤ 0 then
    { negative, whole := ['0'], fraction := List.replicate (-d.point).toNat '0' ++ d.digits }
  else
    let count := d.point.toNat
    let fraction := d.digits.drop count
    { negative
      whole := d.digits.take count ++ List.replicate (count - d.digits.length) '0'
      fraction := if fraction.isEmpty && style.pointZero then ['0'] else fraction }

/-- One digit before the point, and an exponent. -/
def exponentNumeral (style : Style) (negative : Bool) (d : Digits) : Numeral :=
  let exponent := d.point - 1
  { negative
    whole := d.digits.take 1
    fraction := d.digits.drop 1
    exponent := some
      { sign := if exponent < 0 then .minus else style.exponentSign
        digits := Nat.toDigits 10 exponent.natAbs } }

/-- The numeral of a finite double. A negative zero keeps its sign. -/
def Style.numeral (style : Style) (x : Float) : Numeral :=
  let digits := shortestDigits style.tie x
  let negative := Binary64.isNegative x
  if style.isPlain (digits.point - 1) then plainNumeral style negative digits
  else exponentNumeral style negative digits

/-- The text of any double. -/
def Style.text (style : Style) (x : Float) : String :=
  if x.isNaN then "NaN"
  else if x.isInf then if x < 0.0 then "-inf" else "inf"
  else String.ofList (style.numeral x).text

end Tween.Decimal
