/-! The numbers that times and values are made of. Every rule of the library is written over
`Scalar`, so that one text serves both the doubles that run and the exact numbers of a proof.
The class asks for operations and never for laws: doubles obey few of them, and a statement
that needs one says so. -/

namespace Tween

/-- What the arithmetic of an animation needs. Decimal literals such as `0.5` come through
`OfScientific`. Comparisons are decidable, and `==` need not be reflexive. -/
class Scalar (α : Type) extends
    Add α, Sub α, Mul α, Div α, Neg α, LE α, LT α, BEq α, OfScientific α where
  decideLE : DecidableLE α
  decideLT : DecidableLT α
  /-- Neither infinite nor undefined. -/
  isFinite : α → Bool
  abs : α → α
  sqrt : α → α
  cos : α → α
  sin : α → α
  acos : α → α
  /-- The first number raised to the second. -/
  pow : α → α → α
  pi : α
  /-- The nearest integral number; a half goes away from zero. -/
  round : α → α
  /-- What a quotient truncated towards zero leaves over; it has the sign of the first number. -/
  remainder : α → α → α

attribute [reducible, instance] Scalar.decideLE Scalar.decideLT

namespace Scalar
variable {α : Type} [Scalar α]

/-- A full turn in radians. -/
def turn : α := 2.0 * pi

/-- The smaller of two numbers. An undefined number gives way to the other one, and of two
equal numbers the first stays. -/
def least (first second : α) : α :=
  if first == first then if second < first then second else first else second

/-- The greater of two numbers, with the conventions of `least`. -/
def greatest (first second : α) : α :=
  if first == first then if first < second then second else first else second

def toDegrees (radians : α) : α := radians * 57.29577951308232

/-- Multiplies `result` by the squares of `base` that the binary digits of `n` select, lowest
digit first. Rounding makes the order of the products matter. -/
def selectSquares : Nat → α → α → Nat → α
  | 0, result, _, _ => result
  | digits + 1, result, base, n =>
    let result := if n % 2 = 1 then result * base else result
    if n / 2 = 0 then result else selectSquares digits result (base * base) (n / 2)

/-- A natural power by repeated squaring. -/
def power (base : α) (n : Nat) : α := selectSquares (n.log2 + 1) 1.0 base n

/-- A whole power of ten; a negative one is the reciprocal of the positive one. -/
def powerOfTen (exponent : Int) : α :=
  let magnitude := power 10.0 exponent.natAbs
  if exponent < 0 then 1.0 / magnitude else magnitude

end Scalar
end Tween
