import Stagecraft.Stage.Task
/-!
# Events, host calls and frames

A dispatch gathers its calls when it begins.  The calls made once come first and are forgotten by the page at that
moment; a listener is called only if it is still registered when its turn comes.
-/
namespace Stagecraft
namespace Stage

/-! ## Dispatching -/

def dispatch (s : Stage) (el : ElementId) (event : String) : Outcome :=
  (s.mapPage (·.forget el event),
    [.deliver ((s.page.awaiting el event).map Waiting.call)
      ((s.page.listening el event).map fun l => (l.id, l.call)) 0])

def deliver (s : Stage) : List OnceCall → List (Nat × ListenerCall) → Nat → Outcome
  | c :: cs, ls, ran => (s, [.callOnce c, .deliver cs ls (ran + 1)])
  | [], (id, c) :: ls, ran =>
    if s.page.isRegistered id then (s, [.callListener c, .deliver [] ls (ran + 1)])
    else (s, [.deliver [] ls ran])
  | [], [], ran => (s.reply (.count ran), [])

/-- A machine that is live is held while a call of its own runs; one that is not ignores the call. -/
def onMachine (s : Stage) (m : Nat) (tasks : List Task) : Outcome :=
  (s, if s.isLive m then tasks ++ [.release (.machine m)] else [])

def callListener (s : Stage) : ListenerCall → Outcome
  | .react m slot => s.onMachine m [.fire m slot true]
  | .enter m state => s.onMachine m [.transition m state]
  | .outside label script => (s.record (.called .listener label), [.script script])

/-! ## The host

After each call the host may dispatch, as its manners say. -/

/-- The dispatches that follow a call of the host. -/
def reflexes (s : Stage) (call : HostCall) (argument : String) (el : ElementId) : List Task :=
  (s.manners.reflexes.filter fun r => r.call = call && r.argument.all fun a => a = argument).map
    fun r => .dispatch el r.event

def perform (s : Stage) (op : PageOp) : Outcome :=
  let s' := (s.mapPage (·.perform op)).record (.op op)
  match op with
  | .addClass el names => (s', s.reflexes .addClass names el)
  | .removeClass el names => (s', s.reflexes .removeClass names el)
  | .flush el => if s.manners.bare then (s, []) else (s', s.reflexes .flush "" el)

def await (s : Stage) (el : ElementId) (event : String) (call : OnceCall) : Outcome :=
  (s.mapPage (·.listenOnce el event call), s.reflexes .listenOnce event el)

def detach (s : Stage) (el : ElementId) (id : Nat) : Outcome :=
  (s.mapPage (·.removeListener el id), s.reflexes .removeListener "" el)

/-- Adds a listener, and leaves what is done with its id until the host has returned. -/
def attach (s : Stage) (el : ElementId) (event : String) (call : ListenerCall) (next : Nat → Task) : Outcome :=
  (s.mapPage (·.addListener el event call), s.reflexes .addListener event el ++ [next s.page.nextId])

/-- The elements that the host finds for a selector. -/
def select (s : Stage) (selector : String) : List ElementId :=
  if s.manners.bare then [] else s.page.select selector

/-- Whether the host is still there: it may be used from outside, or a machine, an effect that waits for its turn,
or a running call keeps it. -/
def hasHost (s : Stage) (agenda : List Task) : Bool :=
  s.hosted || s.machines.any (fun m => m.life != .closed)
    || s.queues.any (fun q => !q.closed && q.waiting.any Job.isEffect) || Task.holds .host agenda

/-- The end of an effect takes its classes off through the host, if the host is still there. -/
def callOnce (s : Stage) (agenda : List Task) : OnceCall → Outcome
  | .effectEnd el classes token =>
    if s.hasHost agenda then
      (s, classes.map (fun c => .perform (.removeClass el c)) ++ [.release .host, .complete token])
    else (s, [.complete token])
  | .outside label script => (s.record (.called .once label), [.script script])

/-! ## Frames -/

def tick (s : Stage) : Outcome :=
  ({ s with frames := s.frames.begin },
    [.frame s.frames.waiting, .frameOver s.frames.index s.frames.waiting.length])

def frame (s : Stage) : List FrameCall → Outcome
  | [] => (s, [])
  | c :: cs => (s, [.callFrame c, .frame cs])

def callFrame (s : Stage) : FrameCall → Outcome
  | .react m slot => s.onMachine m [.fire m slot true]
  | .resume m slot => s.onMachine m [.fire m slot false]
  | .outside label script => (s.record (.called .frame label), [.script script])

def frameOver (s : Stage) (index : UInt64) (ran : Nat) : Outcome :=
  ((if ran = 0 then s else s.notify (.frameRan index ran)).reply (.frame index ran), [])

def untilIdle (s : Stage) (most ran : Nat) : Outcome :=
  if ran < most && !s.frames.waiting.isEmpty then (s, [.tick, .untilIdle most (ran + 1)])
  else (s.reply (.count ran), [])

end Stage
end Stagecraft
