import Tween.Binary64.Scalar
import Tween.Config
import Tween.Decimal.Layout
import Tween.Problem

/-! The wording of problems that mention numbers. -/

namespace Tween.Report
open Decimal

/-- Numbers in a sentence are written out, however long. -/
def sentence : Style where
  isPlain := fun _ => true
  pointZero := false
  exponentSign := .bare
  tie := .up

/-- Numbers of a record that is shown with its fields: it is seen that they are not integers. -/
def field : Style where
  isPlain := fun exponent => -4 ≤ exponent && exponent < 16
  pointZero := true
  exponentSign := .bare
  tie := .up

def problem (p : Problem Float) : String := p.message sentence.text

def canvas (c : Canvas Float) : String :=
  "CanvasBounds \x7b left: " ++ field.text c.left ++ ", top: " ++ field.text c.top
    ++ ", right: " ++ field.text c.right ++ ", bottom: " ++ field.text c.bottom ++ " \x7d"

def fault : Config.Fault Float → String
  | .tolerance aspect value =>
    aspect.name ++ "_tolerance must be finite and non-negative, got " ++ sentence.text value
  | .places aspect value =>
    aspect.name ++ "_decimals must be at most " ++ toString Config.maxPlaces.toNat ++ ", got "
      ++ toString value.toNat
  | .inverted bounds => "canvas bounds are inverted: " ++ canvas bounds

end Report

/-- Settings that the compiler can work with; otherwise the first fault is reported. -/
def Config.checked (config : Config Float) : Except (Problem Float) (Config Float) :=
  match config.fault? with
  | some fault => .error (.configuration (Report.fault fault))
  | none => .ok config

end Tween
