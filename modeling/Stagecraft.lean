import Stagecraft.Binary32.Basic
import Stagecraft.Binary32.Decimal
import Stagecraft.Grammar.Clause
import Stagecraft.Grammar.Diagnostic
import Stagecraft.Grammar.Token
import Stagecraft.Log.Filter
import Stagecraft.Log.Level
import Stagecraft.Log.Notice
import Stagecraft.Log.Setup
import Stagecraft.Machine.Basic
import Stagecraft.Machine.Declaration
import Stagecraft.Main
import Stagecraft.Motion.Basic
import Stagecraft.Motion.Reader
import Stagecraft.Motion.Value
import Stagecraft.Page.Basic
import Stagecraft.Page.Frames
import Stagecraft.Pattern.Basic
import Stagecraft.Pattern.Bracket
import Stagecraft.Pattern.CharSet
import Stagecraft.Pattern.Compile
import Stagecraft.Pattern.Escape
import Stagecraft.Pattern.Fault
import Stagecraft.Pattern.Meaning
import Stagecraft.Pattern.Reader
import Stagecraft.Pattern.Reading
import Stagecraft.Pattern.Written
import Stagecraft.Proofs.Binary32.Exact
import Stagecraft.Proofs.Binary32.Figure
import Stagecraft.Proofs.Binary32.Order
import Stagecraft.Proofs.Binary32.Written
import Stagecraft.Proofs.Grammar.Scanned
import Stagecraft.Proofs.Grammar.Tiled
import Stagecraft.Proofs.Machine.Declared
import Stagecraft.Proofs.Machine.Hearing
import Stagecraft.Proofs.Motion.Folded
import Stagecraft.Proofs.Motion.Quantity
import Stagecraft.Proofs.Motion.Sound
import Stagecraft.Proofs.Scene.Linewise
import Stagecraft.Proofs.Scene.Order
import Stagecraft.Proofs.Scene.Written
import Stagecraft.Proofs.Stage.Backlog
import Stagecraft.Proofs.Stage.Busy
import Stagecraft.Proofs.Stage.Called
import Stagecraft.Proofs.Stage.Classes
import Stagecraft.Proofs.Stage.Conclusion
import Stagecraft.Proofs.Stage.Course
import Stagecraft.Proofs.Stage.Cycle
import Stagecraft.Proofs.Stage.Delivered
import Stagecraft.Proofs.Stage.Dispatched
import Stagecraft.Proofs.Stage.Dropped
import Stagecraft.Proofs.Stage.Firing
import Stagecraft.Proofs.Stage.Footprint
import Stagecraft.Proofs.Stage.Frame
import Stagecraft.Proofs.Stage.Frugal
import Stagecraft.Proofs.Stage.Gone
import Stagecraft.Proofs.Stage.Halting
import Stagecraft.Proofs.Stage.Held
import Stagecraft.Proofs.Stage.Independence
import Stagecraft.Proofs.Stage.Injected
import Stagecraft.Proofs.Stage.LastTurn
import Stagecraft.Proofs.Stage.Ledger
import Stagecraft.Proofs.Stage.Listeners
import Stagecraft.Proofs.Stage.Listening
import Stagecraft.Proofs.Stage.Lockstep
import Stagecraft.Proofs.Stage.Mirror
import Stagecraft.Proofs.Stage.Naming
import Stagecraft.Proofs.Stage.Nested
import Stagecraft.Proofs.Stage.Offspring
import Stagecraft.Proofs.Stage.Owed
import Stagecraft.Proofs.Stage.Owner
import Stagecraft.Proofs.Stage.Pending
import Stagecraft.Proofs.Stage.Phase
import Stagecraft.Proofs.Stage.Played
import Stagecraft.Proofs.Stage.Progress
import Stagecraft.Proofs.Stage.Queue
import Stagecraft.Proofs.Stage.Recital
import Stagecraft.Proofs.Stage.Reentrant
import Stagecraft.Proofs.Stage.Relay
import Stagecraft.Proofs.Stage.Reports
import Stagecraft.Proofs.Stage.Role
import Stagecraft.Proofs.Stage.Scriptless
import Stagecraft.Proofs.Stage.Sequence
import Stagecraft.Proofs.Stage.Still
import Stagecraft.Proofs.Stage.Ticked
import Stagecraft.Proofs.Stage.Tickets
import Stagecraft.Proofs.Stage.Tokens
import Stagecraft.Proofs.Stage.Tracked
import Stagecraft.Proofs.Stage.Transition
import Stagecraft.Proofs.Stage.Triggers
import Stagecraft.Proofs.Stage.Troupe
import Stagecraft.Proofs.Stage.Unbroken
import Stagecraft.Proofs.Stage.Understood
import Stagecraft.Proofs.Stage.Unfolded
import Stagecraft.Proofs.Stage.Wiring
import Stagecraft.Proofs.Stage.Worn
import Stagecraft.Proofs.State.Captured
import Stagecraft.Proofs.State.Draft
import Stagecraft.Proofs.State.Entry
import Stagecraft.Proofs.State.Inside
import Stagecraft.Proofs.State.Printed
import Stagecraft.Proofs.State.Reported
import Stagecraft.Proofs.State.Runnable
import Stagecraft.Proofs.State.Steps
import Stagecraft.Proofs.Style.ClassName
import Stagecraft.Proofs.Style.Compiled
import Stagecraft.Proofs.Style.Distinct
import Stagecraft.Proofs.Style.Finite
import Stagecraft.Proofs.Style.Mirrored
import Stagecraft.Proofs.Style.Resolved
import Stagecraft.Proofs.Style.SameValues
import Stagecraft.Proofs.Style.Spelled
import Stagecraft.Proofs.Text.Lines
import Stagecraft.Proofs.Text.Numeral
import Stagecraft.Proofs.Text.Trimmed
import Stagecraft.Registry
import Stagecraft.Scene.Basic
import Stagecraft.Scene.Demo
import Stagecraft.Scene.Play
import Stagecraft.Scene.Reader
import Stagecraft.Stage.Basic
import Stagecraft.Stage.Call
import Stagecraft.Stage.Cue
import Stagecraft.Stage.Delivery
import Stagecraft.Stage.Direction
import Stagecraft.Stage.Performance
import Stagecraft.Stage.Run
import Stagecraft.Stage.Task
import Stagecraft.Stage.Work
import Stagecraft.State.Description
import Stagecraft.State.Reaction
import Stagecraft.Studio
import Stagecraft.Style.Animation
import Stagecraft.Style.Settings
import Stagecraft.Style.Sheet
import Stagecraft.Text.Blank
import Stagecraft.Text.Combining
import Stagecraft.Text.Control
import Stagecraft.Text.Letter
import Stagecraft.Text.Numeral
import Stagecraft.Text.Quoted
import Stagecraft.Text.Unprintable
