/-! Doubles as they are stored, and an order on all of them. -/

namespace Tween.Binary64

/-- The 64 bits of a double. As numbers all undefined doubles are one; as stored they differ in
sign and payload. -/
structure Stored where
  bits : UInt64

namespace Stored

def ofFloat (x : Float) : Stored := ⟨x.toBits⟩

def toFloat (s : Stored) : Float := .ofBits s.bits

/-- Equal as numbers: zeros of both signs are equal, and an undefined number equals nothing. -/
instance : BEq Stored := ⟨fun a b => a.toFloat == b.toFloat⟩

/-- The bits below the sign count up for positive doubles and down for negative ones. -/
def rank (s : Stored) : Int :=
  let unsigned : Int := (s.bits &&& 0x7fffffffffffffff).toNat
  if s.bits >>> 63 == 1 then -unsigned - 1 else unsigned

/-- Negative zero is below zero, and undefined doubles lie beyond the infinity of their sign, the
farther the greater their payload. -/
def compareTotal (a b : Stored) : Ordering := compare a.rank b.rank

end Stored
end Tween.Binary64
