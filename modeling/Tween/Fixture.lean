import Tween.Exchange.State
import Tween.Exchange.Text
import Tween.Fixture.Orbit

/-! Named examples: sampled objects, a configuration and the bitmaps that the objects show. Each
stands under a path of the collection, as the text that the file at the path holds. -/

namespace Tween

structure Fixture where
  name : String
  path : String
  text : String

namespace Fixture

inductive Kind where
  | state | config
  deriving DecidableEq

def Kind.name : Kind → String
  | state => "state"
  | config => "config"

inductive Failure where
  | unknown (kind : Kind) (name : String)
  /-- The text is not what it was asked to be. -/
  | unreadable (name : String)

def Failure.message : Failure → String
  | unknown kind name => "no " ++ kind.name ++ " fixture named '" ++ name ++ "' in manifest"
  | unreadable name => "parsing state fixture '" ++ name ++ "'"

/-- A numeral with a point: `n` units of `10 ^ -places`, with at least one digit behind the point
and no other zero at the end. -/
def decimal (n places : Nat) : Json :=
  let digits := Nat.toDigits 10 n
  let padded := List.replicate (places + 1 - digits.length) '0' ++ digits
  let fraction := ((padded.drop (padded.length - places)).reverse.dropWhile (· == '0')).reverse
  .number { whole := padded.take (padded.length - places), fraction := if fraction.isEmpty then ['0'] else fraction }

def sample (time : Nat) (x y opacity : Json) : List (String × Json) :=
  [("time", .ofNat time), ("position", .array [x, y]), ("opacity", opacity)]

/-- States that fade in to the middle and out again. -/
def fadeInOut : Json :=
  .array <| (List.range 11).map fun i =>
    let tenths := 2 * min i (10 - i)
    .ofFields (sample (100 * i) (.ofNat 320) (.ofNat 240) (if tenths = 0 then .ofNat 0 else decimal tenths 1))

/-- States that move to the right and cannot be seen for a while. -/
def gap : Json :=
  .array <| (List.range 11).map fun i =>
    let hidden := 5 ≤ i && i < 8
    .ofFields (sample (100 * i) (decimal (1000 + 200 * i) 1) (.ofNat 240) (decimal (if hidden then 0 else 10) 1))

def orbit : Json :=
  .array <| orbitSamples.mapIdx fun i (x, y, rotation) =>
    .ofFields (sample (10 * i) (decimal x 6) (decimal y 6) (decimal 10 1) ++ [("rotation", decimal rotation 9)])

def coarse : Json := .ofFields [("position_tolerance", decimal 50 1), ("rotation_tolerance", decimal 20 1)]

/-- In the order of names. -/
def states : List Fixture :=
  [⟨"fade_in_out", "states/fade_in_out.json", fadeInOut.text (.indented 1)⟩,
    ⟨"offscreen_gap", "states/offscreen_gap.json", gap.text (.indented 1)⟩,
    ⟨"orbit", "states/orbit.json", orbit.text (.indented 1)⟩]

def configs : List Fixture := [⟨"coarse", "configs/coarse.json", coarse.text (.indented 2)⟩]

/-- In the order of paths. -/
def bitmaps : List (String × Vec2 Float) := [("sb/bar.png", ⟨200.0, 20.0⟩), ("sb/dot.png", ⟨10.0, 10.0⟩)]

def bitmapSize? (path : String) : Option (Vec2 Float) := bitmaps.lookup path

def ofKind : Kind → List Fixture
  | .state => states
  | .config => configs

def find (kind : Kind) (name : String) : Except Failure Fixture :=
  match (ofKind kind).find? (·.name == name) with
  | some fixture => .ok fixture
  | none => .error (.unknown kind name)

/-- The states of a name, read as whatever `read` makes of their text. -/
def load {β : Type} (read : Json → Option β) (name : String) : Except Failure β := do
  let fixture ← find .state name
  match Json.ofText? fixture.text >>= read with
  | some value => .ok value
  | none => .error (.unreadable name)

end Fixture
end Tween
