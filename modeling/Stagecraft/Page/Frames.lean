/-!
# Frames

Calls wait here for the next frame.  A frame takes all that wait when it begins; what is scheduled while it runs
waits for the frame after it.
-/
namespace Stagecraft

structure Frames (γ : Type) where
  waiting : List γ := []
  /-- The number of the next frame.  Numbers start at 0 and wrap at 64 bits. -/
  index : UInt64 := 0

namespace Frames

variable {γ : Type}

def schedule (f : Frames γ) (call : γ) : Frames γ := { f with waiting := f.waiting ++ [call] }

/-- The frames after one more has begun. -/
def begin (f : Frames γ) : Frames γ := ⟨[], f.index + 1⟩

end Frames
end Stagecraft
