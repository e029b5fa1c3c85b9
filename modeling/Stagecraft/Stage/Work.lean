import Stagecraft.Stage.Task
/-!
# The work of a queue

A queue starts its next job when nothing runs.  A job is over when its token is completed; what is to be done at its
end is done first, and only then does the queue look for the next job.
-/
namespace Stagecraft
namespace Stage

def enqueue (s : Stage) (q : Nat) (job : Job) : Outcome :=
  ((s.notify (.jobEnqueued job.label)).mapQueue q (·.add job), [.pump q])

def pump (s : Stage) (q : Nat) : Outcome :=
  match (s.queue? q).bind JobQueue.start? with
  | some (job, q') =>
    ((s.mapQueue q fun _ => q').notify (.jobStarted job.label), [.run job.body ⟨q, q'.started, job.label⟩])
  | none => (s, [])

/-- An effect sets up the wait for its end between the two parts of its plan, and keeps the host while it starts. -/
def run (s : Stage) (body : JobBody) (token : Completion) : Outcome :=
  match body with
  | .effect p =>
    (s, p.lead.map .perform ++ [.await p.element p.endEvent (.effectEnd p.element p.temporary token)]
      ++ p.tail.map .perform ++ [.release .host])
  | .outside name script fate =>
    (s.record (.called .run name),
      if fate = .lend then [.settle name fate token, .script script] else [.script script, .settle name fate token])

/-- What becomes of a token.  A token that is kept takes the place of one kept under the same name. -/
def settle (s : Stage) (name : String) (fate : Fate) (token : Completion) : Outcome :=
  match fate with
  | .complete => (s, [.complete token])
  | .drop => (s, [.lose token])
  | .park | .lend => ({ s with tokens := s.tokens.put name token }, (s.tokens.get? name).toList.map .lose)

/-- Completes a job, unless no one holds its queue any more.  The queue is held until the next job has started. -/
def complete (s : Stage) (token : Completion) : Outcome :=
  if s.isOpen token.queue then
    match (s.queue? token.queue).bind (·.takeFinish? token.ticket) with
    | some (finish, q') =>
      (s.mapQueue token.queue fun _ => q',
        finish.toList.map (.finish token.queue) ++ [.jobOver token.queue, .pump token.queue, .release (.queue token.queue)])
    | none => (s, [])
  else (s, [])

/-- A token that is lost leaves its queue waiting for ever. -/
def lose (s : Stage) (token : Completion) : Outcome :=
  (if s.isOpen token.queue then s.notify (.tokenLost token.label) else s, [])

def finish (s : Stage) : Finish → Outcome
  | .reaction m slot => (s, if s.isLive m then [.conclude m slot, .release (.machine m)] else [])
  | .sequenceStep m slot k => (s, if s.isLive m then [.stepOver m slot k, .release (.machine m)] else [])
  | .outside label script => (s.record (.called .finish label), [.script script])

def jobOver (s : Stage) (q : Nat) : Outcome := (s.mapQueue q (·.rest), [])

end Stage
end Stagecraft
