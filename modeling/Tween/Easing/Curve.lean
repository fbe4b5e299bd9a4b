import Tween.Scalar

/-! Curves from progress to eased progress. Each family is drawn once, either as it sets off or
as it arrives, and the two combinators give the rest. Nothing is clamped: some families
overshoot on purpose. -/

namespace Tween

/-- The families that come with a way in, a way out and both. -/
inductive Curve where
  | quad | cubic | quart | quint | sine | expo | circ | back | bounce | elastic
  deriving DecidableEq

namespace Curve
variable {α : Type} [Scalar α]

/-- The curve turned about its middle, so that its end becomes its beginning. -/
def reverse (f : α → α) (x : α) : α := 1.0 - f (1.0 - x)

/-- The curve at half size on the first half and turned about on the second. -/
def inOut (f : α → α) (x : α) : α :=
  if x < 0.5 then f (2.0 * x) / 2.0 else 1.0 - f (2.0 - 2.0 * x) / 2.0

def step (x : α) : α := if 1.0 ≤ x then 1.0 else 0.0

def quadIn (x : α) : α := x * x
def cubicIn (x : α) : α := x * x * x
def quartIn (x : α) : α := x * x * x * x
def quintIn (x : α) : α := x * x * x * x * x

def sineIn (x : α) : α := 1.0 - Scalar.cos (x * Scalar.pi / 2.0)

/-- An exponential is never zero, so the start is cut off. -/
def expoIn (x : α) : α := if x ≤ 0.0 then 0.0 else Scalar.pow 2.0 (10.0 * (x - 1.0))

/-- Past the end of the arc the root is taken of zero. -/
def circIn (x : α) : α := 1.0 - Scalar.sqrt (Scalar.greatest (1.0 - x * x) 0.0)

def backOvershoot : α := 1.70158

def backIn (x : α) : α := x * x * ((backOvershoot + 1.0) * x - backOvershoot)

/-- One arc of the bounce, with its lowest point at `middle / 2.75` and height `floor` there. -/
def bounceArc (middle floor x : α) : α :=
  let x := x - middle / 2.75
  7.5625 * x * x + floor

def bounceOut (x : α) : α :=
  if x < 1.0 / 2.75 then 7.5625 * x * x
  else if x < 2.0 / 2.75 then bounceArc 1.5 0.75 x
  else if x < 2.5 / 2.75 then bounceArc 2.25 0.9375 x
  else bounceArc 2.625 0.984375 x

/-- A decaying oscillation around the end value, cut off outside the unit interval. -/
def elasticOut (frequency x : α) : α :=
  if x ≤ 0.0 then 0.0
  else if 1.0 ≤ x then 1.0
  else
    Scalar.pow 2.0 (-10.0 * x) * Scalar.sin ((frequency * x - 0.075) * (2.0 * Scalar.pi) / 0.3) + 1.0

def easeIn : Curve → α → α
  | quad => quadIn
  | cubic => cubicIn
  | quart => quartIn
  | quint => quintIn
  | sine => sineIn
  | expo => expoIn
  | circ => circIn
  | back => backIn
  | bounce => reverse bounceOut
  | elastic => reverse (elasticOut 1.0)

def easeOut : Curve → α → α
  | bounce => bounceOut
  | elastic => elasticOut 1.0
  | curve => reverse curve.easeIn

end Curve
end Tween
