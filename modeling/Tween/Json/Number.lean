import Tween.Decimal.Layout
import Tween.Json

/-! Numbers of JSON texts as doubles. Reading is quick rather than exact: the digits that fit into
a word are scaled by one rounded power of ten, so that a long numeral may miss the nearest double
by a unit. -/

namespace Tween.Json
open Decimal

/-- Appends digits to a number as long as it fits into 64 bits; the second answer counts the
digits that are left. -/
def absorb (significand : Nat) : List Char → Nat × Nat
  | [] => (significand, 0)
  | digit :: rest =>
    let next := 10 * significand + (digit.toNat - 48)
    if next < UInt64.size then absorb next rest else (significand, rest.length + 1)

def tenTo (n : Nat) : Float := Float.ofScientific 1 false n

/-- Division by a power of ten, in steps that doubles can hold. -/
def shrink (x : Float) (n : Nat) : Float :=
  if n ≤ 308 then x / tenTo n
  else if x == 0.0 then x
  else shrink (x / tenTo 308) (n - 308)
termination_by n

/-- `significand * 10 ^ exponent`, unless that is too large for a double. -/
def scaled? (significand : Nat) (exponent : Int) : Option Float :=
  let x := (UInt64.ofNat significand).toFloat
  if exponent < 0 then some (shrink x exponent.natAbs)
  else if exponent ≤ 308 then
    let product := x * tenTo exponent.toNat
    if product.isInf then none else some product
  else if significand = 0 then some x else none

def exponentValue (exponent : Exponent) : Int :=
  let value : Int := Numeral.digitsValue exponent.digits
  if exponent.sign = .minus then -value else value

/-- Digits that do not fit are dropped; those before the point leave their weight behind. -/
def numeralValue? (n : Numeral) : Option Float :=
  let (significand, dropped) := absorb 0 n.whole
  let (significand, unread) := absorb significand n.fraction
  let places : Int := (n.fraction.length : Int) - unread
  let exponent := (n.exponent.map exponentValue).getD 0 + dropped - places
  (scaled? significand exponent).map fun x => if n.negative then -x else x

def float? : Json → Option Float
  | number n => numeralValue? n
  | _ => none

/-- Numbers of a text: an integral one shows it is no integer, and a positive exponent its sign. -/
def numberStyle : Style where
  isPlain := fun exponent => -5 ≤ exponent && exponent < 16
  pointZero := true
  exponentSign := .plus
  tie := .even

/-- JSON has no infinite and no undefined numbers. -/
def ofFloat (x : Float) : Json := if x.isFinite then .number (numberStyle.numeral x) else .null

end Tween.Json
