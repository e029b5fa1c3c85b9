import Stagecraft.Stage.Direction
import Stagecraft.Stage.Performance
import Stagecraft.Stage.Work
/-!
# Running a stage

A run takes the first task off the agenda, does it, and puts what it leaves in front of the rest, until the agenda is
empty.  `Config.step` is one such step, and a run is a number of steps; nothing else changes a stage while it runs.
-/
namespace Stagecraft

/-- Does one task.  The agenda is what has been begun before and is not yet over. -/
def Task.carryOut (s : Stage) (agenda : List Task) : Task → Outcome
  | .script cues => s.script cues
  | .cue c => s.follow c
  | .reply a => (s.reply a, [])
  | .report word => (s.record (.answered word s.answer), [])
  | .dispatch el event => s.dispatch el event
  | .deliver once listeners ran => s.deliver once listeners ran
  | .callOnce c => s.callOnce agenda c
  | .callListener c => s.callListener c
  | .perform op => Stage.perform s op
  | .await el event call => s.await el event call
  | .detach el id => s.detach el id
  | .tick => s.tick
  | .frame calls => s.frame calls
  | .callFrame c => s.callFrame c
  | .frameOver index ran => s.frameOver index ran
  | .untilIdle most ran => s.untilIdle most ran
  | .enqueue q job => s.enqueue q job
  | .pump q => s.pump q
  | .run body token => s.run body token
  | .settle name fate token => s.settle name fate token
  | .complete token => s.complete token
  | .lose token => s.lose token
  | .finish _ f => s.finish f
  | .jobOver q => s.jobOver q
  | .transition m state => s.transition m state
  | .arrive m state again => s.arrive m state again
  | .bind m slot again => s.bind m slot again
  | .bound m index id => s.bound m index id
  | .fire m slot anew => s.fire m slot anew
  | .hook m name state => s.hook m name state
  | .act m slot _ => s.act m slot
  | .conclude m slot => s.conclude m slot
  | .stepOver m slot k => s.stepOver m slot k
  | .jump m slot => s.jump m slot
  | .start m visible => s.start m visible
  | .install m state trigger => s.install m state trigger
  | .watch m el event state => s.watch m el event state
  | .watched m el id => s.watched m el id
  | .appear m visible => s.appear m visible
  | .enterDefault m => s.enterDefault m
  | .visibility m visible => s.visibility m visible
  | .release h => s.release agenda h
  | .closed m => s.closed m

/-- A stage at work: all that has been begun and is not yet over, what comes first in front. -/
structure Config where
  stage : Stage
  agenda : List Task

namespace Config

/-- Does the first task of the agenda; nothing if the agenda is empty. -/
def step? (c : Config) : Option Config :=
  match c.agenda with
  | [] => none
  | t :: rest => some ⟨(t.carryOut c.stage rest).1, (t.carryOut c.stage rest).2 ++ rest⟩

/-- Does at most `fuel` tasks. -/
def run : Nat → Config → Config
  | 0, c => c
  | fuel + 1, c =>
    match c.step? with
    | none => c
    | some c' => run fuel c'

theorem step?_eq_none_iff (c : Config) : c.step? = none ↔ c.agenda = [] := by
  unfold step?
  split <;> simp_all

/-- A run that is over stays as it is. -/
theorem run_of_agenda_eq_nil {c : Config} (h : c.agenda = []) : ∀ fuel, run fuel c = c
  | 0 => rfl
  | fuel + 1 => by rw [run, (step?_eq_none_iff c).2 h]

/-- A run may be stopped anywhere and taken up again. -/
theorem run_add : ∀ (n k : Nat) (c : Config), run (n + k) c = run k (run n c)
  | 0, k, c => by rw [Nat.zero_add, run]
  | n + 1, k, c => by
    rw [Nat.succ_add, run, run]
    cases h : c.step? with
    | none => exact (run_of_agenda_eq_nil ((step?_eq_none_iff c).1 h) k).symm
    | some c' => exact run_add n k c'

end Config

namespace Stage

/-- The number of tasks after which a run is given up.  Only a host that answers every call with an event can make a
run that long. -/
def patience : Nat := 0x100000000

/-- The stage once the tasks, and all that they lead to, have been done. -/
def runTasks (s : Stage) (tasks : List Task) : Stage := ((Config.mk s tasks).run patience).stage

/-- Carries out one cue from outside.  The answer is in the stage. -/
def runCue (s : Stage) (c : Cue) : Stage := s.runTasks [.cue c]

/-- A new stage on which no one has done anything. -/
def opened (manners : Manners) : Stage := { manners }

end Stage
end Stagecraft
