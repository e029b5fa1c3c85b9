import Stagecraft.Proofs.Stage.Injected
import Stagecraft.Proofs.Stage.Unfolded
import Stagecraft.Scene.Play
/-!
# The order of a scene

A scene declares states, is started once, and is looked at and shown only then.  Playing it keeps account of this with the
machine, which is there exactly if there has been a `start`.  So whether a scene is given up, and where, can be read off its
lines, whatever happens on the stage; and up to that line the scene is played like any other.
-/
namespace Stagecraft

/-! ## Breaches of the order -/

/-- The command breaks the order of a scene, which has been started or has not. -/
inductive Breach (started : Prop) : Command → OrderFault → Prop
  | stateAfterStart {name : String} {trigger : Option String} {description : String} (h : started) :
    Breach started (.state name trigger description) .stateAfterStart
  | startTwice {visible : Bool} (h : started) : Breach started (.start visible) .startTwice
  | visibleBeforeStart {inView : Bool} (h : ¬ started) : Breach started (.visible inView) .visibleBeforeStart
  | showBeforeStart (h : ¬ started) : Breach started .show .showBeforeStart

/-- One of the lines is a `start`. -/
def Started (ls : List SceneLine) : Prop := ∃ l ∈ ls, ∃ visible, l.command = .start visible

/-- No line breaks the order. -/
def InOrder (ls : List SceneLine) : Prop :=
  ∀ pre l post, ls = pre ++ l :: post → ∀ cause, ¬ Breach (Started pre) l.command cause

/-! ## The steps of a scene -/

/-- A command that has its place in the order. -/
inductive SceneStep
  | state
  | start
  | visible
  | show
  deriving DecidableEq, Repr

/-- The step that a command is; the commands that may stand anywhere are none. -/
def Command.step? : Command → Option SceneStep
  | .state .. => some .state
  | .start _ => some .start
  | .visible _ => some .visible
  | .show => some .show
  | .select .. | .fire .. | .frame _ => none

def SceneLine.step? (l : SceneLine) : Option (Nat × SceneStep) := l.command.step?.map (l.number, ·)

namespace SceneStep

/-- How a step breaks the order, if it does. -/
def breach? (started : Bool) : SceneStep → Option OrderFault
  | .state => if started then some .stateAfterStart else none
  | .start => if started then some .startTwice else none
  | .visible => if started then none else some .visibleBeforeStart
  | .show => if started then none else some .showBeforeStart

/-- The first breach of the order, in a scene that has been started or has not. -/
def firstBreach (started : Bool) : List (Nat × SceneStep) → Option PlayFault
  | [] => none
  | (number, step) :: steps =>
    match step.breach? started with
    | some cause => some ⟨number, cause⟩
    | none => firstBreach (started || step = .start) steps

end SceneStep

open SceneStep (firstBreach)

theorem breach_iff {started : Bool} {c : Command} {cause : OrderFault} :
    Breach (started = true) c cause ↔ c.step?.bind (·.breach? started) = some cause := by
  constructor
  · intro h
    cases h with
    | stateAfterStart h | startTwice h =>
      subst h
      rfl
    | visibleBeforeStart h | showBeforeStart h =>
      rw [Bool.not_eq_true] at h
      subst h
      rfl
  · intro h
    cases c with
    | select | fire | frame => cases h
    | state | start | visible | «show» =>
      cases started <;> cases h
      all_goals
        constructor
        decide

namespace SceneStep

/-- One of the steps is a start. -/
def anyStart (steps : List (Nat × SceneStep)) : Bool := steps.any (·.2 = .start)

theorem firstBreach_append (ys : List (Nat × SceneStep)) : ∀ (started : Bool) (xs : List (Nat × SceneStep)),
    firstBreach started (xs ++ ys) = (firstBreach started xs).or (firstBreach (started || anyStart xs) ys)
  | started, [] => by rw [List.nil_append, firstBreach, Option.none_or, anyStart, List.any_nil, Bool.or_false]
  | started, (number, step) :: xs => by
    rw [List.cons_append, firstBreach, firstBreach]
    cases step.breach? started with
    | some cause => rfl
    | none =>
      simp only
      rw [firstBreach_append ys _ xs, anyStart, anyStart, List.any_cons, Bool.or_assoc]

end SceneStep

theorem anyStart_iff {ls : List SceneLine} :
    SceneStep.anyStart (ls.filterMap SceneLine.step?) = true ↔ Started ls := by
  rw [SceneStep.anyStart, List.any_eq_true]
  constructor
  · rintro ⟨x, hx, hstart⟩
    obtain ⟨l, hl, hstep⟩ := List.mem_filterMap.1 hx
    obtain ⟨step, hcommand, rfl⟩ := Option.map_eq_some_iff.1 hstep
    obtain rfl : step = .start := of_decide_eq_true hstart
    refine ⟨l, hl, ?_⟩
    cases hc : l.command with
    | start visible => exact ⟨visible, rfl⟩
    | _ =>
      rw [hc] at hcommand
      cases hcommand
  · rintro ⟨l, hl, visible, hc⟩
    exact ⟨(l.number, .start), List.mem_filterMap.2 ⟨l, hl, by rw [SceneLine.step?, hc]; rfl⟩, rfl⟩

/-- A line breaks the order, or else the lines behind it may. -/
theorem firstBreach_cons (started : Bool) (l : SceneLine) (ls : List SceneLine) :
    firstBreach started ((l :: ls).filterMap SceneLine.step?) =
      match l.command.step?.bind (·.breach? started) with
      | some cause => some ⟨l.number, cause⟩
      | none => firstBreach (started || l.command.step? = some .start) (ls.filterMap SceneLine.step?) := by
  rw [List.filterMap_cons, SceneLine.step?]
  cases l.command.step? with
  | none =>
    simp only [Option.map_none, Option.bind_none, reduceCtorEq, decide_false, Bool.or_false]
  | some step =>
    simp only [Option.map_some, Option.bind_some, firstBreach, Option.some.injEq]

theorem firstBreach_singleton {started : Bool} {l : SceneLine} {f : PlayFault} :
    firstBreach started ([l].filterMap SceneLine.step?) = some f ↔
      Breach (started = true) l.command f.cause ∧ f.number = l.number := by
  obtain ⟨number, cause⟩ := f
  rw [firstBreach_cons, breach_iff]
  cases l.command.step?.bind (·.breach? started) with
  | none => simp [firstBreach]
  | some cause' => simp [and_comm, eq_comm]

/-- A breach behind lines that keep the order. -/
theorem firstBreach_concat {pre : List SceneLine} (hpre : firstBreach false (pre.filterMap SceneLine.step?) = none)
    {l : SceneLine} {f : PlayFault} : firstBreach false ((pre ++ [l]).filterMap SceneLine.step?) = some f ↔
      Breach (Started pre) l.command f.cause ∧ f.number = l.number := by
  rw [List.filterMap_append, SceneStep.firstBreach_append, hpre, Option.none_or, firstBreach_singleton, Bool.false_or,
    anyStart_iff]

/-- Where there is no first breach there is none. -/
theorem inOrder_of_firstBreach {ls : List SceneLine} (h : firstBreach false (ls.filterMap SceneLine.step?) = none) :
    InOrder ls := by
  rintro pre l post rfl cause hbreach
  rw [List.append_cons, List.filterMap_append, SceneStep.firstBreach_append, Option.or_eq_none_iff] at h
  have hfront := h.1
  rw [List.filterMap_append, SceneStep.firstBreach_append, Option.or_eq_none_iff] at hfront
  have hsome := (firstBreach_concat (f := ⟨l.number, cause⟩) hfront.1).2 ⟨hbreach, rfl⟩
  rw [h.1] at hsome
  cases hsome

/-! ## What a command does to the player -/

/-- What is known of the stage when a command has been carried out. -/
structure Player.Leads (p p' : Player) : Prop where
  adds : p.stage.Adds p'.stage
  scriptless : Scriptless ⟨p.stage, []⟩ → Scriptless ⟨p'.stage, []⟩

namespace Player

open Stage

theorem Leads.refl (p : Player) : Leads p p := ⟨.refl _, id⟩

theorem Leads.trans {p p' p'' : Player} (h : Leads p p') (h' : Leads p' p'') : Leads p p'' :=
  ⟨h.adds.trans h'.adds, h'.scriptless ∘ h.scriptless⟩

theorem Leads.tell {p p' : Player} (h : Leads p p') (number : Nat) (text : String) : Leads p (p'.tell number text) :=
  ⟨h.adds, h.scriptless⟩

/-- Whether all that the tasks lead to comes to an end. -/
def Ends (p : Player) (tasks : List Task) : Prop := ∃ n, (Config.run n ⟨p.stage, tasks⟩).agenda = []

theorem leads_run (p : Player) {tasks : List Task} (h : ∀ t ∈ tasks, t.isScriptless = true) : Leads p (p.run tasks) where
  adds := adds_runTasks p.stage tasks
  scriptless hs := by
    have hrun : Scriptless ((Config.mk p.stage tasks).run patience) :=
      Config.run_preserves (fun _ _ _ => scriptless_after) patience { hs with agenda := h }
    exact { hrun with agenda := nofun }

theorem leads_declare (p : Player) (d : Declaration) : Leads p (p.declare d) where
  adds := adds_notifyAll _ _
  scriptless hs := hs.undisturbed (undisturbed_notifyAll _ _)

theorem leads_build (p : Player) : Leads p p.build where
  adds := .beside rfl rfl
  scriptless hs := { hs with
    queues := by
      intro jq hjq
      rcases List.mem_append.1 hjq with hjq | hjq
      · exact hs.queues jq hjq
      · rw [List.mem_singleton.1 hjq]
        rfl }

theorem leads_select (p : Player) (selector : String) (els : List ElementId) :
    Leads p { p with stage := p.stage.mapPage (·.registerSelector selector els) } :=
  ⟨.beside rfl rfl, fun hs => { hs with }⟩

theorem leads_fire (p : Player) (number : Nat) (event : String) (el : ElementId) : Leads p (p.fire number event el) := by
  have hrun : Leads p (p.run [.dispatch el event]) := leads_run p (List.forall_mem_singleton.2 rfl)
  exact hrun.tell number _

theorem leads_frame (p : Player) (number : Nat) :
    Leads p (p.frame number) ∧ (p.frame number).machine = p.machine := by
  have hrun : Leads p (p.run [.tick]) := leads_run p (List.forall_mem_singleton.2 rfl)
  unfold frame
  simp only
  split
  · exact ⟨hrun.tell number _, rfl⟩
  · exact ⟨hrun, rfl⟩

theorem leads_frames (number : Nat) : ∀ (n : Nat) (p : Player),
    Leads p (p.frames number n) ∧ (p.frames number n).machine = p.machine
  | 0, p => ⟨.refl p, rfl⟩
  | n + 1, p => by
    obtain ⟨hfirst, hmachine⟩ := leads_frame p number
    obtain ⟨hrest, hmachine'⟩ := leads_frames number n (p.frame number)
    exact ⟨hfirst.trans hrest, hmachine'.trans hmachine⟩

theorem leads_display (p : Player) (number m : Nat) :
    Leads p (p.display number m) ∧ (p.display number m).machine = p.machine := by
  unfold display
  split
  · exact ⟨.refl p, rfl⟩
  · exact ⟨(Leads.refl p).tell number _, rfl⟩

theorem command_of_breach {p : Player} {c : Command} {cause : OrderFault}
    (h : c.step?.bind (·.breach? p.machine.isSome) = some cause) (number : Nat) : p.command number c = .error cause := by
  cases c with
  | select | fire | frame => cases h
  | state | start | visible | «show» =>
    rw [command]
    cases hmachine : p.machine <;> rw [hmachine] at h <;> cases h
    all_goals rfl

/-- **A command that keeps the order is carried out**, and then there is a machine if there was one before or the command is a
start. -/
theorem command_of_order {p : Player} {c : Command} (h : c.step?.bind (·.breach? p.machine.isSome) = none) (number : Nat) :
    ∃ p', p.command number c = .ok p' ∧ Leads p p' ∧
      p'.machine.isSome = (p.machine.isSome || c.step? = some .start) := by
  cases c with
  | state name trigger description =>
    cases hmachine : p.machine with
    | some m =>
      rw [hmachine] at h
      cases h
    | none =>
      have hkeep : (p.declare (.described name trigger description)).machine = none := hmachine
      exact ⟨_, by rw [command, hmachine]; rfl, leads_declare p _, by rw [hkeep]; rfl⟩
  | start visible =>
    cases hmachine : p.machine with
    | some m =>
      rw [hmachine] at h
      cases h
    | none =>
      have hrun : Leads p.build (p.build.run [.start p.stage.machines.length visible]) :=
        leads_run p.build (List.forall_mem_singleton.2 rfl)
      exact ⟨_, by rw [command, hmachine]; rfl, (leads_build p).trans hrun, rfl⟩
  | visible inView =>
    cases hmachine : p.machine with
    | none =>
      rw [hmachine] at h
      cases h
    | some m =>
      have hkeep : (p.run [.visibility m inView]).machine = some m := hmachine
      exact ⟨_, by rw [command, hmachine], leads_run p (List.forall_mem_singleton.2 rfl), by rw [hkeep]; rfl⟩
  | «show» =>
    cases hmachine : p.machine with
    | none =>
      rw [hmachine] at h
      cases h
    | some m =>
      obtain ⟨hleads, hkeep⟩ := leads_display p number m
      exact ⟨_, by rw [command, hmachine], hleads, by rw [hkeep, hmachine]; rfl⟩
  | select selector el => exact ⟨_, rfl, leads_select p selector [el], (Bool.or_false _).symm⟩
  | fire event el => exact ⟨_, rfl, leads_fire p number event el, (Bool.or_false _).symm⟩
  | frame n =>
    obtain ⟨hleads, hkeep⟩ := leads_frames number n p
    exact ⟨_, rfl, hleads, by rw [hkeep]; exact (Bool.or_false _).symm⟩

/-- **Playing fails with the first breach of the order.** -/
theorem lines_cases : ∀ (p : Player) (ls : List SceneLine),
    (p.lines ls).2 = firstBreach p.machine.isSome (ls.filterMap SceneLine.step?) ∧ Leads p (p.lines ls).1
  | p, [] => ⟨rfl, .refl p⟩
  | p, l :: ls => by
    rw [lines, firstBreach_cons]
    cases hbreach : l.command.step?.bind (·.breach? p.machine.isSome) with
    | some cause =>
      rw [command_of_breach hbreach]
      exact ⟨rfl, .refl p⟩
    | none =>
      obtain ⟨p', hcommand, hleads, hmachine⟩ := command_of_order hbreach l.number
      obtain ⟨hfault, hrest⟩ := lines_cases p' ls
      rw [hcommand, ← hmachine]
      exact ⟨hfault, hleads.trans hrest⟩

/-- A line that fails is reached as the lines before it leave the player, and the player stays there. -/
theorem lines_of_fault : ∀ {p : Player} {ls : List SceneLine} {f : PlayFault}, (p.lines ls).2 = some f →
    ∃ pre l post, ls = pre ++ l :: post ∧ p.lines pre = ((p.lines ls).1, none) ∧ (p.lines (pre ++ [l])).2 = some f
  | p, [], f, h => by cases h
  | p, l :: ls, f, h => by
    rw [lines] at h
    cases hcommand : p.command l.number l.command with
    | error cause =>
      rw [hcommand] at h
      refine ⟨[], l, ls, rfl, ?_, ?_⟩
      · rw [lines, lines, hcommand]
      · rw [List.nil_append, lines, hcommand]
        exact h
    | ok p' =>
      rw [hcommand] at h
      obtain ⟨pre, l', post, rfl, hpre, hfault⟩ := lines_of_fault h
      refine ⟨l :: pre, l', post, rfl, ?_, ?_⟩
      · rw [lines, lines, hcommand]
        exact hpre
      · rw [List.cons_append, lines, hcommand]
        exact hfault

end Player

/-! ## Playing a scene -/

/-- The lines in which a stylesheet is printed. -/
def Stylesheet.printed (sheet : Stylesheet) : List String :=
  "" :: ("  stylesheet (" ++ Text.decimal sheet.size ++ " rule(s)):") :: (Text.linesOf sheet.css).map ("    " ++ ·)

namespace Player

theorem printed_printAll : ∀ (ls : List String) (p : Player), (p.printAll ls).printed = ls.reverse ++ p.printed
  | [], _ => rfl
  | l :: ls, p => by
    rw [printAll, List.foldl_cons, ← printAll, printed_printAll ls, List.reverse_cons, List.append_assoc]
    rfl

theorem printed_showStyles (p : Player) :
    p.showStyles.printed.reverse = p.printed.reverse ++ p.stage.styles.printed := by
  rw [showStyles, printed_printAll, List.reverse_append, List.reverse_reverse, print, print, Stylesheet.printed]
  simp

/-- Whether all that a command sets going on the stage comes to an end; a frame is set going after the one before it. -/
def Finishes (p : Player) (number : Nat) : Command → Prop
  | .start visible => p.build.Ends [.start p.stage.machines.length visible]
  | .fire event el => p.Ends [.dispatch el event]
  | .frame n => ∀ k < n, (p.frames number k).Ends [.tick]
  | .visible inView => ∀ m ∈ p.machine, p.Ends [.visibility m inView]
  | .state .. | .select .. | .show => True

theorem finishes (p : Player) (hs : Scriptless ⟨p.stage, []⟩) (number : Nat) (c : Command) : p.Finishes number c := by
  have hends : ∀ {q : Player} {t : Task}, Scriptless ⟨q.stage, []⟩ → t.isScriptless = true → q.Ends [t] := by
    intro q t hq ht
    have htasks : ∀ t' ∈ [t], t'.isScriptless = true := List.forall_mem_singleton.2 ht
    exact Scriptless.halts { hq with agenda := htasks }
  cases c with
  | start visible => exact hends ((leads_build p).scriptless hs) rfl
  | fire event el => exact hends hs rfl
  | frame n => exact fun k _ => hends ((leads_frames number k p).1.scriptless hs) rfl
  | visible inView => exact fun m _ => hends hs rfl
  | state | select | «show» => trivial

end Player

namespace Scene

/-- The player when the lines of the scene have been played, or those before the first that breaks the order. -/
def played (s : Scene) : Player := (({} : Player).lines s.lines).1

theorem fault_play (s : Scene) : s.play.fault = firstBreach false (s.lines.filterMap SceneLine.step?) :=
  (Player.lines_cases {} s.lines).1

theorem leads_played (s : Scene) : Player.Leads {} s.played := (Player.lines_cases {} s.lines).2

theorem printed_play (s : Scene) : s.play.printed =
    s.played.printed.reverse ++ if s.play.fault.isSome then [] else s.played.stage.styles.printed := by
  unfold play played
  generalize ({} : Player).lines s.lines = outcome
  obtain ⟨p, fault⟩ := outcome
  cases fault with
  | some f => exact (List.append_nil _).symm
  | none => exact p.printed_showStyles

/-- A scene that breaks the order is played like the lines before the first that does. -/
theorem played_of_breach {s : Scene} {f : PlayFault} (h : s.play.fault = some f) :
    ∃ pre l post, s.lines = pre ++ l :: post ∧ InOrder pre ∧ Breach (Started pre) l.command f.cause ∧
      f.number = l.number ∧ (Scene.mk pre).play.fault = none ∧ s.played = (Scene.mk pre).played := by
  obtain ⟨pre, l, post, hlines, hpre, hl⟩ := Player.lines_of_fault h
  have hnone : firstBreach false (pre.filterMap SceneLine.step?) = none := by
    rw [← fault_play ⟨pre⟩]
    exact congrArg Prod.snd hpre
  have hbreach := firstBreach_concat hnone |>.1 ((fault_play ⟨pre ++ [l]⟩).symm.trans hl)
  exact ⟨pre, l, post, hlines, inOrder_of_firstBreach hnone, hbreach.1, hbreach.2, congrArg Prod.snd hpre,
    (congrArg Prod.fst hpre).symm⟩

theorem fault_of_inOrder {s : Scene} (h : InOrder s.lines) : s.play.fault = none := by
  cases hfault : s.play.fault with
  | none => rfl
  | some f =>
    obtain ⟨pre, l, post, hlines, -, hbreach, -⟩ := played_of_breach hfault
    exact absurd hbreach (h pre l post hlines f.cause)

/-- **Playing a scene fails exactly on its first breach of the order.** -/
theorem play_order :
    (∀ s : Scene, (∃ f, s.play.fault = some f) ↔
      ∃ pre l post cause, s.lines = pre ++ l :: post ∧ Breach (Started pre) l.command cause) ∧
    (∀ (s : Scene) (f : PlayFault), s.play.fault = some f → ∃ pre l post, s.lines = pre ++ l :: post ∧ InOrder pre ∧
      Breach (Started pre) l.command f.cause ∧ f.number = l.number ∧
      (Scene.mk pre).play.fault = none ∧
      (Scene.mk pre).play.printed = s.play.printed ++ (Scene.mk pre).played.stage.styles.printed) ∧
    (∀ s : Scene, InOrder s.lines → s.play.fault = none ∧
      s.play.printed = s.played.printed.reverse ++ s.played.stage.styles.printed ∧
      s.played.stage.styles.rules = s.played.stage.handed) ∧
    (∀ s t : Scene, s.lines.filterMap SceneLine.step? = t.lines.filterMap SceneLine.step? → s.play.fault = t.play.fault) ∧
    ∀ (s : Scene) (pre : List SceneLine) (l : SceneLine) (post : List SceneLine), s.lines = pre ++ l :: post →
      (Scene.mk pre).played.Finishes l.number l.command := by
  refine ⟨fun s => ?_, fun s f h => ?_, fun s h => ?_, fun s t h => ?_, fun s pre l post _ => ?_⟩
  · constructor
    · rintro ⟨f, hf⟩
      obtain ⟨pre, l, post, hlines, -, hbreach, -⟩ := played_of_breach hf
      exact ⟨pre, l, post, f.cause, hlines, hbreach⟩
    · rintro ⟨pre, l, post, cause, hlines, hbreach⟩
      cases hfault : s.play.fault with
      | some f => exact ⟨f, rfl⟩
      | none =>
        rw [fault_play] at hfault
        exact absurd hbreach (inOrder_of_firstBreach hfault pre l post hlines cause)
  · obtain ⟨pre, l, post, hlines, hpre, hbreach, hnumber, hnone, hplayed⟩ := played_of_breach h
    refine ⟨pre, l, post, hlines, hpre, hbreach, hnumber, hnone, ?_⟩
    rw [printed_play, printed_play, hnone, h, hplayed]
    simp only [Option.isSome_none, Option.isSome_some, Bool.false_eq_true, if_false, if_true, List.append_nil]
  · have hnone := fault_of_inOrder h
    obtain ⟨rules, hstyles, hhanded⟩ := s.leads_played.adds
    refine ⟨hnone, ?_, hstyles.trans hhanded.symm⟩
    rw [printed_play, hnone]
    rfl
  · rw [fault_play, fault_play, h]
  · exact Player.finishes _ ((leads_played ⟨pre⟩).scriptless (.opened rfl)) _ _

/-- A scene that is never started fails where it is shown, whatever has been fired before. -/
theorem play_show_before_start :
    let s : Scene := ⟨[⟨1, .select "#a" ⟨2⟩⟩, ⟨3, .show⟩]⟩
    let t : Scene := ⟨[⟨1, .fire "click" ⟨2⟩⟩, ⟨2, .frame 5⟩, ⟨3, .show⟩]⟩
    t.play.fault = some ⟨3, .showBeforeStart⟩ ∧
    (∃ pre l post, s.lines = pre ++ l :: post ∧ InOrder pre ∧ Breach (Started pre) l.command .showBeforeStart ∧ 3 = l.number ∧
      (Scene.mk pre).play.fault = none ∧
      (Scene.mk pre).play.printed = s.play.printed ++ (Scene.mk pre).played.stage.styles.printed) ∧
    (Scene.mk [⟨1, .select "#a" ⟨2⟩⟩]).play.fault = none ∧
    (Scene.mk []).played.Finishes 1 (.fire "click" ⟨2⟩) := by
  intro s t
  have hs : s.play.fault = some ⟨3, .showBeforeStart⟩ := rfl
  obtain ⟨-, hbreach, horder, hsteps, hfinishes⟩ := play_order
  exact ⟨(hsteps t s rfl).trans hs, hbreach s _ hs, (horder _ (inOrder_of_firstBreach rfl)).1, hfinishes t [] _ _ rfl⟩

end Scene
end Stagecraft
