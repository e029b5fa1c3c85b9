import Stagecraft.Stage.Delivery
/-!
# The performance of a machine

How a machine acts: it enters states, binds their reactions to events and frames, runs them, and follows them to the
next state.
-/
namespace Stagecraft
namespace Stage

/-! ## Entering a state -/

/-- Moves a machine into a state.  Unless it is there already, the listeners of the state it leaves are removed
before anything else. -/
def transition (s : Stage) (m : Nat) (state : String) : Outcome :=
  match s.machine? m with
  | none => (s, [])
  | some c =>
    if c.current = some state then (s, [.arrive m state true])
    else
      (s.mapMachine m fun c => { c with bindings := [] },
        c.bound.map (.detach c.element) ++ [.arrive m state false])

/-- The machine is in the state, and its reactions are set up one after another. -/
def arrive (s : Stage) (m : Nat) (state : String) (again : Bool) : Outcome :=
  let s := s.mapMachine m fun c => { c with current := if again then c.current else some state }
  match s.machine? m with
  | none => (s, [])
  | some c =>
    match c.state? state with
    | none => (s.notify (.stateUnknown c.element state), [])
    | some d =>
      (s.notify (.stateEntered c.element state again),
        (List.range d.reactions.length).map fun i => .bind m ⟨state, i⟩ again)

/-- A reaction to the entry waits for the next frame; any other listens for its event, unless it does so already. -/
def bind (s : Stage) (m : Nat) (slot : Slot) (again : Bool) : Outcome :=
  match s.machine? m with
  | none => (s, [])
  | some c =>
    match (c.reaction? slot).map Reaction.on with
    | none => (s, [])
    | some .entry => (s.schedule (.react m slot), [])
    | some (.event name) =>
      if again && c.isAttached slot.index then (s, [])
      else s.attach c.element name (.react m slot) (.bound m slot.index)

def bound (s : Stage) (m index id : Nat) : Outcome := (s.mapMachine m (·.bind index id), [])

/-! ## Running a reaction -/

def fire (s : Stage) (m : Nat) (slot : Slot) (anew : Bool) : Outcome :=
  match s.machine? m with
  | none => (s, [])
  | some c =>
    match c.reaction? slot with
    | none => (s, [])
    | some r =>
      (s.notify (.reactionFired c.element r.on.text slot.state), [.hook m r.before slot.state, .act m slot anew])

/-- Calls a hook by its name, if there is a name and the machine finds the hook. -/
def hook (s : Stage) (m : Nat) (name : Option String) (state : String) : Outcome :=
  match s.machine? m, name with
  | some c, some name =>
    match if c.hooked then s.hooks.get? name else none with
    | some script => (s.record (.hooked name c.element state), [.script script])
    | none => (s.notify (.hookUnknown c.element name), [])
  | _, _ => (s, [])

/-- Makes the jobs for the actions of a reaction.  An action that is no effect is reported and passed over. -/
def jobs (s : Stage) (c : Machine) : List String → Stage × List Job
  | [] => (s, [])
  | action :: rest =>
    match Effect.parse? action with
    | none => (s.notify (.effectUnknown c.element action)).jobs c rest
    | some e =>
      let (s', js) := (s.prepare c.settings e).jobs c rest
      (s', (job? c.settings c.element e).toList ++ js)

/-- The jobs with an end for the last of them. -/
def withFinish (f : Finish) : List Job → List Job
  | [] => []
  | [j] => [{ j with finish := some f }]
  | j :: js => j :: withFinish f js

/-- Runs all effects of a reaction.  The reaction is concluded when the last of them is complete, or at once if there
is none. -/
def runAll (s : Stage) (c : Machine) (m : Nat) (slot : Slot) (r : Reaction) : Outcome :=
  match s.jobs c r.actions with
  | (s, []) => (s.notify (.nothingToRun c.element r.action), [.conclude m slot])
  | (s, js) => (s, (withFinish (.reaction m slot) js).map (.enqueue c.queue))

/-- Runs the next step of a sequence.  After the last step has been started there is none until it is complete. -/
def runNext (s : Stage) (c : Machine) (m : Nat) (slot : Slot) (r : Reaction) (kind : EffectKind) : Outcome :=
  let next := ((c.step? slot).map (· + 1)).getD 0
  match r.steps[next]? with
  | none => (s.notify (.sequenceOver c.element r.action), [])
  | some step =>
    let effect := Effect.step kind step
    let s := s.prepare c.settings effect
    match job? c.settings c.element effect with
    | none => (s.mapMachine m (·.setStep slot none), [])
    | some job =>
      (s.mapMachine m (·.setStep slot (some next)),
        [.enqueue c.queue { job with finish := some (.sequenceStep m slot next) }])

/-- Runs the action of a reaction.  One without an action jumps at once. -/
def act (s : Stage) (m : Nat) (slot : Slot) : Outcome :=
  match s.machine? m with
  | none => (s, [])
  | some c =>
    match c.reaction? slot with
    | none => (s, [])
    | some r =>
      if !r.hasAction then (s, [.jump m slot])
      else match r.encoding with
        | .several => s.runAll c m slot r
        | .sequence kind => s.runNext c m slot r kind

/-! ## After a reaction -/

/-- The reaction jumps, and then its last hook is called. -/
def conclude (s : Stage) (m : Nat) (slot : Slot) : Outcome :=
  (s, .jump m slot ::
    match (s.machine? m).bind (·.reaction? slot) with
    | some r => [.hook m r.after slot.state]
    | none => [])

/-- A step that is not the last waits for a frame before the next one.  The number is that of the step that is over,
for the sequence may have gone on since. -/
def stepOver (s : Stage) (m : Nat) (slot : Slot) (step : Nat) : Outcome :=
  match (s.machine? m).bind (·.reaction? slot) with
  | none => (s, [])
  | some r =>
    if step < r.steps.length - 1 then (s.schedule (.resume m slot), [])
    else (s.mapMachine m (·.setStep slot none), [.conclude m slot])

/-- Moves the machine to the state that a reaction names.  If the machine is still in the state of the reaction, the
listener of the reaction is removed first, so that it is bound anew if the jump leads back. -/
def jump (s : Stage) (m : Nat) (slot : Slot) : Outcome :=
  match s.machine? m with
  | none => (s, [])
  | some c =>
    match c.reaction? slot with
    | none => (s, [])
    | some r =>
      match r.goto with
      | none => (s, [])
      | some target =>
        match if !r.on.isEntry && c.current = some slot.state then c.listenerOf? slot.index else none with
        | some id =>
          (s.mapMachine m (·.unbind slot.index), [.detach c.element id, .transition m target])
        | none => (s, [.transition m target])

/-! ## Coming and going -/

/-- The first start installs the triggers; every start enters the first state. -/
def start (s : Stage) (m : Nat) (visible : Bool) : Outcome :=
  match s.machine? m with
  | none => (s, [])
  | some c =>
    (s.mapMachine m fun c => { c with pending := [] },
      c.pending.map (fun (state, trigger) => .install m state trigger) ++ [.appear m visible])

/-- Listens for the event of a trigger on every element that the host finds for it. -/
def install (s : Stage) (m : Nat) (state : String) (trigger : Trigger) : Outcome :=
  match trigger.on with
  | .entry => (s.notify (.triggerWithoutEvent state), [])
  | .event name =>
    let els := s.select trigger.selector
    (if els.isEmpty then s.notify (.triggerMatchedNothing trigger.selector state) else s,
      els.map fun el => .watch m el name state)

def watch (s : Stage) (m : Nat) (el : ElementId) (event state : String) : Outcome :=
  s.attach el event (.enter m state) (.watched m el)

def watched (s : Stage) (m : Nat) (el : ElementId) (id : Nat) : Outcome :=
  (s.mapMachine m fun c => { c with triggers := c.triggers ++ [(el, id)] }, [])

/-- Enters `enter` if the element starts in view and has no `default`, and then `default` if it has one. -/
def appear (s : Stage) (m : Nat) (visible : Bool) : Outcome :=
  match s.machine? m with
  | none => (s, [])
  | some c =>
    if c.tracksVisibility then
      (s.mapMachine m fun c => { c with visible := some visible },
        if visible && !c.hasState "default" then [.transition m "enter", .enterDefault m] else [.enterDefault m])
    else (s, [.enterDefault m])

def enterDefault (s : Stage) (m : Nat) : Outcome :=
  match s.machine? m with
  | none => (s, [])
  | some c => (s, if c.hasState "default" then [.transition m "default"] else [])

/-- Coming into view leads to `enter` and going out of it to `leave`; what was reported before leads nowhere. -/
def visibility (s : Stage) (m : Nat) (visible : Bool) : Outcome :=
  match s.machine? m with
  | none => (s, [])
  | some c =>
    if c.tracksVisibility && c.visible ≠ some visible then
      (s.mapMachine m fun c => { c with visible := some visible },
        [.transition m (if visible then "enter" else "leave")])
    else (s, [])

/-! ## Letting go -/

/-- Whether a machine can be reached by a name or runs a call on the agenda. -/
def holdsMachine (s : Stage) (agenda : List Task) (m : Nat) : Bool :=
  s.cast.values.contains m || Task.holds (.machine m) agenda

/-- Whether a queue can be reached by a name, belongs to a machine that is not closed, or runs a call on the
agenda. -/
def holdsQueue (s : Stage) (agenda : List Task) (q : Nat) : Bool :=
  s.queueNames.values.contains q || s.machines.any (fun c => c.queue = q && c.life != .closed)
    || Task.holds (.queue q) agenda

/-- Gives up one hold.  A machine that no one holds any more ignores all calls, removes every listener it has, and is
closed; a queue that no one holds any more is closed at once. -/
def release (s : Stage) (agenda : List Task) : Hold → Outcome
  | .machine m =>
    match s.machine? m with
    | none => (s, [])
    | some c =>
      if c.life = .live && !s.holdsMachine agenda m then
        (s.mapMachine m fun c => { c with life := .closing, bindings := [], triggers := [] },
          c.bound.map (.detach c.element) ++ c.triggers.map (fun (el, id) => .detach el id) ++ [.closed m])
      else (s, [])
  | .queue q => (if s.holdsQueue agenda q then s else s.mapQueue q (·.close), [])
  | .host => (s, [])

def closed (s : Stage) (m : Nat) : Outcome :=
  match s.machine? m with
  | none => (s, [])
  | some c => (s.mapMachine m fun c => { c with life := .closed }, [.release (.queue c.queue)])

end Stage
end Stagecraft
