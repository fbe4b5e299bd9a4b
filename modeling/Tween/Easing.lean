import Tween.Easing.Curve

/-! The easings that a keyframe can name. An easing shapes the way into its keyframe. -/

namespace Tween

inductive Easing where
  | step
  | linear
  | easeIn (curve : Curve)
  | easeOut (curve : Curve)
  | easeInOut (curve : Curve)
  | elasticOutHalf
  | elasticOutQuarter
  deriving DecidableEq

namespace Easing

/-- The eased progress at progress `x`. -/
def apply {α : Type} [Scalar α] : Easing → α → α
  | step, x => Curve.step x
  | linear, x => x
  | easeIn curve, x => curve.easeIn x
  | easeOut curve, x => curve.easeOut x
  | easeInOut curve, x => Curve.inOut curve.easeIn x
  | elasticOutHalf, x => Curve.elasticOut 0.5 x
  | elasticOutQuarter, x => Curve.elasticOut 0.25 x

def curveName : Curve → String
  | .quad => "quad"
  | .cubic => "cubic"
  | .quart => "quart"
  | .quint => "quint"
  | .sine => "sine"
  | .expo => "expo"
  | .circ => "circ"
  | .back => "back"
  | .bounce => "bounce"
  | .elastic => "elastic"

/-- The words of an easing's name. -/
def words : Easing → List String
  | step => ["step"]
  | linear => ["linear"]
  | easeIn curve => [curveName curve, "in"]
  | easeOut curve => [curveName curve, "out"]
  | easeInOut curve => [curveName curve, "in", "out"]
  | elasticOutHalf => ["elastic", "out", "half"]
  | elasticOutQuarter => ["elastic", "out", "quarter"]

/-- The name in lower case with underscores, for people. -/
def label (easing : Easing) : String := "_".intercalate easing.words

/-- The name in capitalized words, for exchange. -/
def name (easing : Easing) : String := String.join (easing.words.map String.capitalize)

def curves : List Curve :=
  [.quad, .cubic, .quart, .quint, .sine, .expo, .circ, .back, .bounce, .elastic]

def all : List Easing :=
  [step, linear, elasticOutHalf, elasticOutQuarter]
    ++ curves.flatMap fun curve => [easeIn curve, easeOut curve, easeInOut curve]

def ofName? (name : String) : Option Easing := all.find? (·.name == name)

end Easing
end Tween
