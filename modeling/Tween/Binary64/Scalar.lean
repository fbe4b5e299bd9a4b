import Tween.Scalar
import Tween.Binary64.Integral
import Tween.Binary64.Remainder

/-! Doubles as scalars. Addition, multiplication, division, square roots and comparisons are the
rounded operations of the format. -/

namespace Tween.Binary64

/-- The cosine of a zero angle is exactly one, so an object that is not turned needs no library. -/
def cos (x : Float) : Float := if x == 0.0 then 1.0 else x.cos

/-- The sine of a zero is that zero. -/
def sin (x : Float) : Float := if x == 0.0 then x else x.sin

instance : Scalar Float where
  decideLE := inferInstance
  decideLT := inferInstance
  isFinite := Float.isFinite
  abs := Float.abs
  sqrt := Float.sqrt
  cos := cos
  sin := sin
  acos := Float.acos
  pow := Float.pow
  pi := 3.141592653589793
  round := round
  remainder := remainder

end Tween.Binary64
