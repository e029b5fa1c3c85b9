import Stagecraft.Motion.Value
/-!
# Settings

What effects take where their description is silent, and the names they share with the page.
-/
namespace Stagecraft

structure Settings where
  /-- The event with which the page reports the end of a transition. -/
  transitionEnd : String := "transitionend"
  /-- The event with which the page reports the end of a keyframe animation. -/
  animationEnd : String := "animationend"
  /-- The class that marks an element while a keyframe animation plays. -/
  animatedClass : String := "animated"
  /-- How far an entering element comes in. -/
  defaultDistance : Length := ⟨.ofRatio false 100 1, .percent⟩
  enterDuration : Seconds := ⟨.ofRatio false 7 10⟩
  transformDuration : Seconds := ⟨.ofRatio false 1 1⟩
  delay : Seconds := ⟨.zero⟩
  easing : Easing := .easeInOut
  deriving DecidableEq, Repr

end Stagecraft
