import Stagecraft.Studio
/-!
# The command line

Reads the scene that the first argument names, runs the studio on it, and prints what comes of it.
-/
namespace Stagecraft

/-- A refusal of the system as the cause that the studio reports. -/
def ReadFault.ofError : IO.Error → ReadFault
  | .noFileOrDirectory .. => .notFound
  | .permissionDenied _ code details => .refused details code.toNat
  | .inappropriateType _ code details => .refused details code.toNat
  | .invalidArgument _ code details => .refused details code.toNat
  | .otherError code details => .refused details code.toNat
  | other => .refused (toString other) 5

/-- Reads a file as text. -/
def readScene (path : String) : IO (Except ReadFault String) := do
  try
    let bytes ← IO.FS.readBinFile path
    match String.fromUTF8? bytes with
    | some text => pure (.ok text)
    | none => pure (.error .notText)
  catch e => pure (.error (.ofError e))

end Stagecraft

open Stagecraft in
def main (args : List String) : IO UInt32 := do
  let env : LogEnvironment := { own := ← IO.getEnv "CHOREO_LOG", shared := ← IO.getEnv "RUST_LOG" }
  let source : SceneSource ← match args with
    | [] => pure .bundled
    | path :: _ => do pure (.file path (← readScene path))
  let result := Studio.run env source
  IO.print result.output
  IO.eprint result.errors
  pure result.code.toUInt32
