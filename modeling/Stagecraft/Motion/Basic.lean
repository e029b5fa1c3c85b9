import Stagecraft.Motion.Value
/-!
# Motions

What a motion text says about an effect, before any default is applied.  A motion is the fold of its clauses:
moves pile up, and of everything else the last word counts.
-/
namespace Stagecraft

inductive ScaleDirection
  | up
  | down
  deriving DecidableEq, Repr

namespace ScaleDirection

def word : ScaleDirection → String
  | .up => "up"
  | .down => "down"

def parse? : String → Option ScaleDirection
  | "up" => some .up
  | "down" => some .down
  | _ => none

end ScaleDirection

/-- A scaling by `power` percent. -/
structure Scaling where
  direction : Option ScaleDirection
  power : Binary32
  deriving DecidableEq, Repr

/-- A turn to the left or to the right. -/
structure Twist where
  side : Side
  angle : Degrees
  deriving DecidableEq, Repr

/-- A shift: towards a side, over a distance, or both. -/
structure Move where
  side : Option Side
  distance : Option Length
  deriving DecidableEq, Repr

/-- One clause of a motion text. -/
inductive MotionClause
  /-- `enter`, and the side to come in from if it is named. -/
  | enter (side : Option Side)
  | move (m : Move)
  | over (duration : Seconds)
  | after (delay : Seconds)
  | ease (easing : Easing)
  | scale (s : Scaling)
  | twist (t : Twist)
  deriving DecidableEq, Repr

/-- Everything that a motion text says. -/
structure Motion where
  enter : Option Side := none
  moves : List Move := []
  duration : Option Seconds := none
  delay : Option Seconds := none
  easing : Option Easing := none
  scaling : Option Scaling := none
  twist : Option Twist := none
  deriving DecidableEq, Repr

namespace Motion

/-- The motion with one more clause.  `enter` without a side leaves the side as it is. -/
def add (m : Motion) : MotionClause → Motion
  | .enter side => { m with enter := side.or m.enter }
  | .move v => { m with moves := m.moves ++ [v] }
  | .over t => { m with duration := some t }
  | .after t => { m with delay := some t }
  | .ease e => { m with easing := some e }
  | .scale s => { m with scaling := some s }
  | .twist t => { m with twist := some t }

def ofClauses (cs : List MotionClause) : Motion := cs.foldl add {}

theorem ofClauses_append (cs ds : List MotionClause) : ofClauses (cs ++ ds) = ds.foldl add (ofClauses cs) :=
  List.foldl_append

/-- The distance of the last move that has one. -/
def distance (m : Motion) : Option Length := m.moves.reverse.findSome? Move.distance

/-- The side of the last move that has one. -/
def moveSide (m : Motion) : Option Side := m.moves.reverse.findSome? Move.side

end Motion
end Stagecraft
