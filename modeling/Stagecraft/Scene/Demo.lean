/-!
# The bundled scene

What is played when no scene is named: a card that slides in, reacts to clicks, and is reset by a button.
-/
namespace Stagecraft
namespace Scene

/-- The name under which reports know the bundled scene. -/
def demoName : String := "demo.scene"

def demoLines : List String := [
  "# A card that slides in, reacts to clicks and can be reset from a button.",
  "#",
  "#   state <name> [@ <selector> <event>] = <description>",
  "#   select <selector> <element-id>",
  "#   start visible|hidden",
  "#   fire <event> [on <element-id>]",
  "#   frame [count]",
  "#   visible true|false",
  "#   show",
  "",
  "select #reset 2",
  "",
  "state default = enter left move 60px over 0.4s on click animate pulse go focused",
  "state focused = :on click :transform move top 12px twist left 4 :go default",
  "state reset @ #reset click = animate shake go default",
  "",
  "start visible",
  "frame",
  "show",
  "fire transitionend",
  "show",
  "",
  "fire click",
  "fire animationend",
  "show",
  "",
  "fire click",
  "fire transitionend",
  "frame",
  "fire transitionend",
  "show",
  "",
  "fire click on 2",
  "frame",
  "fire animationend",
  "show"]

/-- The bundled scene as text. -/
def demo : String := String.join (demoLines.map (· ++ "\n"))

end Scene
end Stagecraft
