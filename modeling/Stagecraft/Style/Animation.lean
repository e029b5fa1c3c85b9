import Stagecraft.Motion.Basic
import Stagecraft.Style.Settings
import Stagecraft.Style.Sheet
/-!
# Animations

An animation is a motion with every default applied and every side turned into a sign.  It is played with two
classes: one for its place and one for its transition.  Keys and bodies are written from the animation alone, so
equal animations have equal classes.
-/
namespace Stagecraft

inductive Axis
  | x
  | y
  deriving DecidableEq, Repr

namespace Axis

def ofSide (s : Side) : Axis := if s.isVertical then .y else .x

def letter : Axis → String
  | .x => "X"
  | .y => "Y"

end Axis

/-- What an animation changes. -/
inductive Change
  /-- Starts hidden and displaced along an axis, then slides into place. -/
  | enter (axis : Axis) (offset : Length) (scale : Option Binary32)
  /-- Moves to a transform and stays there. -/
  | transform (x y : Option Length) (skew : Option Degrees) (scale : Option Binary32)
  deriving DecidableEq, Repr

structure Timing where
  duration : Seconds
  delay : Seconds
  easing : Easing
  deriving DecidableEq, Repr

/-- In the order in which a stylesheet lists them. -/
def Timing.css (t : Timing) : String := t.duration.css ++ " " ++ t.easing.css ++ " " ++ t.delay.css

structure Animation where
  change : Change
  timing : Timing
  deriving DecidableEq, Repr

namespace Animation

/-! ## From a motion -/

/-- A distance towards a side, as a coordinate. -/
def signed (side : Side) (distance : Length) : Length := if side.isNegative then distance.neg else distance

/-- The hundredth part, as the factor that a percentage is multiplied by. -/
def hundredth : Binary32 := .ofRatio false 1 100

/-- The factor for a power in percent, to four places: `up` takes the power away from one, anything else adds it.
A power of zero is no scaling. -/
def scaleFactor (s : Scaling) : Option Binary32 :=
  if s.power.isZero then none
  else
    let delta := s.power.scale hundredth.grainCount Binary32.unitGrains
    let delta := if s.direction = some .up then delta.neg else delta
    some ((delta.addOne.scale 10000 1).round.scale 1 10000)

def timingOf (m : Motion) (duration : Seconds) (settings : Settings) : Timing :=
  ⟨m.duration.getD duration, m.delay.getD settings.delay, m.easing.getD settings.easing⟩

/-- The entry that a motion describes.  The side comes from `enter`, else from a move, else it is the left. -/
def enter (m : Motion) (settings : Settings) : Animation :=
  let side := (m.enter.or m.moveSide).getD .left
  ⟨.enter (.ofSide side) (signed side (m.distance.getD settings.defaultDistance)) (m.scaling.bind scaleFactor),
    timingOf m settings.enterDuration settings⟩

/-- The coordinate that a move sets on the horizontal or the vertical axis, if it sets one there. -/
def coordinate? (vertical : Bool) (m : Move) : Option Length :=
  match m.side, m.distance with
  | some side, some distance => if side.isVertical == vertical then some (signed side distance) else none
  | _, _ => none

/-- The last coordinate that the moves set on an axis. -/
def translation (vertical : Bool) (moves : List Move) : Option Length :=
  moves.reverse.findSome? (coordinate? vertical)

/-- A twist to the right skews by the negated angle. -/
def skew (t : Twist) : Degrees := if t.side = .right then t.angle.neg else t.angle

/-- The transform that a motion describes. -/
def transform (m : Motion) (settings : Settings) : Animation :=
  ⟨.transform (translation false m.moves) (translation true m.moves) (m.twist.map skew)
      (m.scaling.bind scaleFactor),
    timingOf m settings.transformDuration settings⟩

/-! ## To rules -/

/-- What a rule is asked for with: the key of its class, and its body. -/
structure Request where
  key : String
  body : String
  deriving DecidableEq, Repr

def Request.name (r : Request) : String := Stylesheet.classKey r.key

/-- The functions of a transform, as written in a rule. -/
def functions : Change → List String
  | .enter axis offset scale =>
    ("translate" ++ axis.letter ++ "(" ++ offset.css ++ ")")
      :: (scale.map fun s => "scale(" ++ s.text ++ ")").toList
  | .transform x y skew scale =>
    (skew.map fun a => "skewX(" ++ a.css ++ ")").toList
      ++ (x.map fun l => "translateX(" ++ l.css ++ ")").toList
      ++ (y.map fun l => "translateY(" ++ l.css ++ ")").toList
      ++ (scale.map fun s => "scale(" ++ s.text ++ ")").toList

/-- The key of the class for the place. -/
def placeKey : Change → String
  | .enter axis offset scale =>
    "translate" ++ axis.letter ++ "_" ++ offset.css ++ "_hidden"
      ++ (scale.elim "" fun s => "_scale" ++ s.text)
  | .transform x y skew scale =>
    "transform" ++ (skew.elim "" fun a => "_skew" ++ a.css) ++ (x.elim "" fun l => "_x" ++ l.css)
      ++ (y.elim "" fun l => "_y" ++ l.css) ++ (scale.elim "" fun s => "_scale" ++ s.text)

/-- The rule for the place: where an entry starts from, or where a transform ends. -/
def place (c : Change) : Request :=
  let fs := " ".intercalate (functions c)
  ⟨placeKey c,
    match c with
    | .enter .. => "transform: " ++ fs ++ "; opacity: 0;"
    | .transform .. => if (functions c).isEmpty then "transform: none;" else "transform: " ++ fs ++ ";"⟩

/-- The properties that change while the animation plays. -/
def properties : Change → List String
  | .enter .. => ["transform", "opacity"]
  | .transform .. => ["transform"]

/-- The rule for the transition.  It names only the properties that change, for the end of each is reported by an
event of its own. -/
def transition (a : Animation) : Request :=
  ⟨"_" ++ "_".intercalate (properties a.change) ++ "_" ++ a.timing.css,
    "transition: " ++ ", ".intercalate ((properties a.change).map fun p => p ++ " " ++ a.timing.css) ++ ";"⟩

/-- The rules of an animation, in the order in which they are asked for. -/
def requests (a : Animation) : List Request := [a.transition, place a.change]

/-- The stylesheet with the rules of an animation. -/
def addTo (a : Animation) (s : Stylesheet) : Stylesheet :=
  a.requests.foldl (fun s r => s.resolve r.key r.body) s

end Animation
end Stagecraft
