/-! Decimal numerals as they stand in a text, digit by digit. -/

namespace Tween

/-- How the sign of an exponent is written. -/
inductive ExponentSign where
  | bare | plus | minus
  deriving DecidableEq

structure Exponent where
  sign : ExponentSign
  digits : List Char
  deriving DecidableEq

/-- Without digits in `fraction` there is no decimal point. -/
structure Numeral where
  negative : Bool := false
  whole : List Char
  fraction : List Char := []
  exponent : Option Exponent := none
  deriving DecidableEq

namespace Numeral

def ofNat (n : Nat) : Numeral := { whole := Nat.toDigits 10 n }

/-- The number that digits write. -/
def digitsValue (digits : List Char) : Nat :=
  digits.foldl (fun value digit => 10 * value + (digit.toNat - 48)) 0

/-- Only digits, with no point and no exponent. -/
def isInteger (n : Numeral) : Bool := n.fraction.isEmpty && n.exponent.isNone

def exponentText (exponent : Exponent) : List Char :=
  let sign := match exponent.sign with
    | .bare => []
    | .plus => ['+']
    | .minus => ['-']
  'e' :: sign ++ exponent.digits

def text (n : Numeral) : List Char :=
  let sign := if n.negative then ['-'] else []
  let fraction := if n.fraction.isEmpty then [] else '.' :: n.fraction
  sign ++ n.whole ++ fraction ++ (n.exponent.map exponentText).getD []

end Numeral
end Tween
