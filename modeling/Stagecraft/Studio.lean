import Stagecraft.Log.Setup
import Stagecraft.Scene.Demo
import Stagecraft.Scene.Play
import Stagecraft.Scene.Reader
/-!
# The studio

The program as a function: from the scene that was asked for and the environment to all that is printed and the exit
code.  Standard output shows the scene; the log and the report of an error go to standard error.
-/
namespace Stagecraft

/-- Why a file could not be read. -/
inductive ReadFault
  | notFound
  | isDirectory
  | notText
  /-- Another refusal of the system, with its number. -/
  | refused (description : String) (code : Nat)
  deriving DecidableEq, Repr

namespace ReadFault

/-- A refusal of the system and its number. -/
def numbered (description : String) (code : Nat) : String :=
  description ++ " (os error " ++ Text.decimal code ++ ")"

def message : ReadFault → String
  | .notFound => numbered "No such file or directory" 2
  | .isDirectory => numbered "Is a directory" 21
  | .notText => "stream did not contain valid UTF-8"
  | .refused description code => numbered description code

end ReadFault

/-- The scene that was asked for. -/
inductive SceneSource
  | bundled
  /-- A file, with what came of reading it. -/
  | file (path : String) (contents : Except ReadFault String)

/-- What a run of the program leaves behind. -/
structure StudioResult where
  code : Nat
  output : String
  errors : String
  deriving DecidableEq, Repr

namespace Studio

def unlines (ls : List String) : String := String.join (ls.map (· ++ "\n"))

/-- The causes of an error, numbered if there are several. -/
def causes : List String → List String
  | [] => []
  | [cause] => ["", "Caused by:", "    " ++ cause]
  | cs => "" :: "Caused by:" ::
    cs.zipIdx.map fun (cause, i) => Text.flushRight 5 (Text.decimal i) ++ ": " ++ cause

/-- The report of an error: what failed, and the causes from the nearest to the last. -/
def report (failed : String) (because : List String) : List String := ("Error: " ++ failed) :: causes because

/-- The head of the output. -/
def banner (name : String) (steps : Nat) : List String :=
  ["",
   "  ╔════════════════════════════════════════╗",
   "  ║            CHOREO STUDIO v0.1          ║",
   "  ║   headless host  ·  frame-by-frame     ║",
   "  ╚════════════════════════════════════════╝",
   "",
   "  scene: " ++ name ++ " (" ++ Text.decimal steps ++ " step(s))",
   ""]

/-- The set-up of the log: lines without times. -/
def logSetup : LogSetup := { compact := true }

/-- A run that has printed some lines and logged some notices, and then failed if there is a report. -/
def result (env : LogEnvironment) (printed : List String) (notices : List Notice) (failure : List String) :
    StudioResult :=
  { code := if failure.isEmpty then 0 else 1
    output := unlines printed
    errors := logSetup.written env "" (notices.map Notice.record) ++ unlines failure }

/-- Plays a scene that has been read. -/
def perform (env : LogEnvironment) (name : String) (scene : Scene) : StudioResult :=
  let playback := scene.play
  let printed := banner name scene.lines.length ++ playback.printed
  match playback.fault with
  | some fault => result env printed playback.notices (report ("playing " ++ name) [fault.message])
  | none => result env printed (playback.notices ++ [.sceneFinished name]) []

/-- Reads the text of a scene and plays it. -/
def present (env : LogEnvironment) (name src : String) : StudioResult :=
  match Scene.parse src with
  | .error fault => result env [] [] (report ("parsing " ++ name) fault.messages)
  | .ok scene => perform env name scene

/-- A run of the program. -/
def run (env : LogEnvironment) : SceneSource → StudioResult
  | .bundled => present env Scene.demoName Scene.demo
  | .file path (.ok src) => present env path src
  | .file path (.error fault) => result env [] [] (report ("reading scene " ++ path) [fault.message])

end Studio
end Stagecraft
