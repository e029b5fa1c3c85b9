import Stagecraft.Stage.Delivery
/-!
# Directing a stage

How each cue is carried out.  Cues speak to the page itself and not to the host in front of it.  Whatever a cue
works on is held until the cue is over, so that a script inside it cannot take it away.
-/
namespace Stagecraft
namespace Stage

/-- Carries out a cue on a machine that has a name. -/
def withMachine (s : Stage) (name : String) (f : Nat → Machine → Outcome) : Outcome :=
  match s.cast.get? name with
  | none => (s.complain (.noMachine name), [])
  | some m =>
    match s.machine? m with
    | none => (s.complain (.noMachine name), [])
    | some c => f m c

/-- Lets a machine do something that answers nothing, and holds it meanwhile. -/
def direct (s : Stage) (name : String) (f : Nat → Task) : Outcome :=
  s.withMachine name fun m _ => (s, [f m, .release (.machine m), .reply .nothing])

/-- Sends a job to a queue that has a name. -/
def submit (s : Stage) (queue : String) (job : Job) : Outcome :=
  match s.queueNames.get? queue with
  | none => (s.complain (.noQueue queue), [])
  | some q => (s, [.enqueue q job, .release (.queue q), .reply (.job job.label)])

/-- Puts a new machine on the stage, with a queue of its own. -/
def addMachine (s : Stage) (el : ElementId) (settings : Settings) (hooked : Bool) (states : List StateDecl) : Stage :=
  { s with
    machines := s.machines ++ [.ofStates el settings hooked s.queues.length states]
    queues := s.queues ++ [JobQueue.empty] }

/-- Gives a machine a name; the machine that had it is let go. -/
def castAs (s : Stage) (name : String) (m : Nat) : Outcome :=
  ({ s with cast := s.cast.put name m },
    (s.cast.get? name).toList.map fun old => .release (.machine old))

/-- Declares states, builds a machine with them and gives it a name. -/
def build (s : Stage) (name : String) (el : ElementId) (settings : Settings) (hooked : Bool)
    (declarations : List Declaration) : Outcome :=
  if s.hosted then
    let s := declarations.foldl (fun s d => s.notifyAll (d.notices el)) s
    let (s, tasks) := (s.addMachine el settings hooked (declarations.foldl declare [])).castAs name s.machines.length
    (s, tasks ++ [.reply .nothing])
  else (s.complain .noHost, [])

/-- Gives a queue a name; the queue that had it is let go. -/
def nameQueue (s : Stage) (name : String) (q : Nat) : Outcome :=
  ({ s with queueNames := s.queueNames.put name q },
    (s.queueNames.get? name).toList.map (fun old => .release (.queue old)) ++ [.reply .nothing])

/-- Takes a token that is kept, and does something with it. -/
def withToken (s : Stage) (name : String) (f : Completion → Task) : Outcome :=
  match s.tokens.get? name with
  | some token => ({ s with tokens := s.tokens.erase name }, [f token, .reply (.truth true)])
  | none => (s.reply (.truth false), [])

/-- Makes the job for an effect and sends it to a queue. -/
def submitEffect (s : Stage) (queue effect : String) (el : ElementId) (settings : Settings)
    (finish : Option (List Cue)) : Outcome :=
  if s.hosted then
    match Effect.parse? effect with
    | none => (s.reply .noEffect, [])
    | some e =>
      let s := s.prepare settings e
      match job? settings el e with
      | none => (s.reply .noJob, [])
      | some job => s.submit queue { job with finish := finish.map (.outside e.source) }
  else (s.complain .noHost, [])

/-- Carries out a cue. -/
def follow (s : Stage) : Cue → Outcome
  | .addClass el names => ((s.mapPage (·.addClass el names)).record (.op (.addClass el names)) |>.reply .nothing, [])
  | .removeClass el names =>
    ((s.mapPage (·.removeClass el names)).record (.op (.removeClass el names)) |>.reply .nothing, [])
  | .flush el => ((s.record (.op (.flush el))).reply .nothing, [])
  | .listenOnce el event label script =>
    ((s.mapPage (·.listenOnce el event (.outside label script))).reply .nothing, [])
  | .addListener el event label script =>
    ((s.mapPage (·.addListener el event (.outside label script))).reply (.count s.page.nextId), [])
  | .removeListener el id => ((s.mapPage (·.removeListener el id)).reply .nothing, [])
  | .registerSelector selector els => ((s.mapPage (·.registerSelector selector els)).reply .nothing, [])
  | .select selector => (s.reply (.elements (s.page.select selector)), [])
  | .dispatch el event => (s, [.dispatch el event])
  | .hasClass el name => (s.reply (.truth (s.page.hasClass el name)), [])
  | .listenerCount el event => (s.reply (.count (s.page.listening el event).length), [])
  | .pendingOnce el event => (s.reply (.count (s.page.awaiting el event).length), [])
  | .nextFrame label script => ((s.schedule (.outside label script)).reply .nothing, [])
  | .tick => (s, [.tick])
  | .runUntilIdle most => (s, [.untilIdle most 0])
  | .resolve key body => ((s.resolve key body).reply (.text (Stylesheet.classKey key)), [])
  | .hook name script => ({ s with hooks := s.hooks.put name script }.reply .nothing, [])
  | .unhook name => ({ s with hooks := s.hooks.erase name }.reply (.truth (s.hooks.get? name).isSome), [])
  | .build name el settings hooked states => s.build name el settings hooked states
  | .start name visible => s.direct name (.start · visible)
  | .transition name state => s.direct name (.transition · state)
  | .visibility name visible => s.direct name (.visibility · visible)
  | .hasState name state => s.withMachine name fun _ c => (s.reply (.truth (c.hasState state)), [])
  | .step name state index =>
    s.withMachine name fun _ c =>
      (s.reply (((c.position? ⟨state, index⟩).map Answer.count).getD .nothing), [])
  | .debug name => s.withMachine name fun _ c => (s.reply (.text c.text), [])
  | .drop name =>
    match s.cast.get? name with
    | some m => ({ s with cast := s.cast.erase name }, [.release (.machine m), .reply (.truth true)])
    | none => (s.reply (.truth false), [])
  | .dropHost => ({ s with hosted := false }.reply (.truth s.hosted), [])
  | .queue name => { s with queues := s.queues ++ [JobQueue.empty] }.nameQueue name s.queues.length
  | .queueClone name copy =>
    match s.queueNames.get? name with
    | some q => s.nameQueue copy q
    | none => (s.complain (.noQueue name), [])
  | .queueDrop name =>
    match s.queueNames.get? name with
    | some q => ({ s with queueNames := s.queueNames.erase name }, [.release (.queue q), .reply (.truth true)])
    | none => (s.reply (.truth false), [])
  | .enqueue queue name labelled fate script finish =>
    s.submit queue
      { label := if labelled then name else "", body := .outside name script fate,
        finish := finish.map (.outside name) }
  | .effectJob queue effect el settings finish => s.submitEffect queue effect el settings finish
  | .complete token => s.withToken token .complete
  | .dropToken token => s.withToken token .lose
  | .unknown word => (s.complain (.unknownStep word), [])

/-- Carries out a script cue by cue, and writes down what each cue answers. -/
def script (s : Stage) : List Cue → Outcome
  | [] => (s, [])
  | c :: cs => (s, [.cue c, .report c.word, .script cs])

end Stage
end Stagecraft
