import Stagecraft.Proofs.Stage.Played
import Stagecraft.Proofs.Style.Resolved
/-!
# The rules of a run

The stylesheet grows only where an effect is prepared or a class is asked for, and then the rule is handed to the page in
the same moment.  So a stage that begins with an empty stylesheet has in it just the rules that were handed over since.
-/
namespace Stagecraft
namespace Stage

/-- The rules that have come to the stylesheet are those that have been handed to the page. -/
def Adds (s s' : Stage) : Prop :=
  ∃ rules, s'.styles.rules = s.styles.rules ++ rules ∧ s'.handed = s.handed ++ rules

namespace Adds

variable {s s' s'' : Stage}

theorem refl (s : Stage) : Adds s s := ⟨[], (List.append_nil _).symm, (List.append_nil _).symm⟩

theorem trans (h : Adds s s') (h' : Adds s' s'') : Adds s s'' := by
  obtain ⟨rules, hstyles, hhanded⟩ := h
  obtain ⟨rules', hstyles', hhanded'⟩ := h'
  exact ⟨rules ++ rules', by rw [hstyles', hstyles, List.append_assoc], by rw [hhanded', hhanded, List.append_assoc]⟩

/-- What is changed beside the stylesheet and the journal does not matter. -/
theorem congr (h : Adds s s') (hstyles : s''.styles = s'.styles) (hjournal : s''.journal = s'.journal) : Adds s s'' := by
  obtain ⟨rules, hs, hh⟩ := h
  exact ⟨rules, by rw [hstyles, hs], by rw [← hh, handed, handed, entries, entries, hjournal]⟩

theorem beside (hstyles : s'.styles = s.styles) (hjournal : s'.journal = s.journal) : Adds s s' :=
  (refl s).congr hstyles hjournal

end Adds

/-! ## What is written beside the rules -/

theorem adds_record {e : Entry} (s : Stage) (he : ∀ rule, e ≠ .styled rule) : Adds s (s.record e) := by
  refine ⟨[], (List.append_nil _).symm, ?_⟩
  rw [handed, handed, entries, entries, record, List.reverse_cons, List.filterMap_append]
  cases e with
  | styled rule => exact absurd rfl (he rule)
  | _ => rfl

theorem adds_notify (s : Stage) (n : Notice) : Adds s (s.notify n) := adds_record s (by simp)

theorem adds_notifyAll : ∀ (ns : List Notice) (s : Stage), Adds s (s.notifyAll ns)
  | [], s => .refl s
  | n :: ns, s => (adds_notify s n).trans (adds_notifyAll ns (s.notify n))

theorem adds_resolve (s : Stage) (key body : String) : Adds s (s.resolve key body) := by
  have hhanded := handed_runCue s ⟨key, body⟩
  rw [runCue_resolve] at hhanded
  refine ⟨_, ?_, hhanded⟩
  rw [styles_resolve, Stylesheet.resolve, Animation.Request.name]
  cases s.styles.rule? (Stylesheet.classKey key) with
  | none => rfl
  | some b => exact (List.append_nil _).symm

theorem adds_resolveAll (s : Stage) (a : Animation) : Adds s (s.resolveAll a) := by
  unfold resolveAll
  induction a.requests generalizing s with
  | nil => exact .refl s
  | cons r rs ih => exact (adds_resolve s r.key r.body).trans (ih _)

theorem adds_prepare (s : Stage) (settings : Settings) (e : Effect) : Adds s (s.prepare settings e) := by
  unfold prepare
  split
  · split
    · exact .refl s
    · exact adds_notify s _
  · exact (adds_notifyAll _ s).trans (adds_resolveAll _ _)

theorem adds_jobs (c : Machine) : ∀ (actions : List String) (s : Stage), Adds s (s.jobs c actions).1
  | [], s => .refl s
  | action :: rest, s => by
    unfold jobs
    split
    · exact (adds_notify s _).trans (adds_jobs c rest _)
    · exact (adds_prepare s c.settings _).trans (adds_jobs c rest _)

theorem adds_declared (el : ElementId) : ∀ (ds : List Declaration) (s : Stage),
    Adds s (ds.foldl (fun s d => s.notifyAll (d.notices el)) s)
  | [], s => .refl s
  | d :: ds, s => (adds_notifyAll (d.notices el) s).trans (adds_declared el ds _)

/-! ## Cues and tasks -/

theorem adds_withMachine (s : Stage) (name : String) {f : Nat → Machine → Outcome} (hf : ∀ m c, Adds s (f m c).1) :
    Adds s (s.withMachine name f).1 := by
  unfold withMachine
  split
  · exact .beside rfl rfl
  · split
    · exact .beside rfl rfl
    · exact hf _ _

theorem adds_submit (s : Stage) (queue : String) (job : Job) : Adds s (s.submit queue job).1 := by
  unfold submit
  split <;> exact .beside rfl rfl

theorem adds_withToken (s : Stage) (name : String) (f : Completion → Task) : Adds s (s.withToken name f).1 := by
  unfold withToken
  split <;> exact .beside rfl rfl

theorem adds_build (s : Stage) (name : String) (el : ElementId) (settings : Settings) (hooked : Bool)
    (ds : List Declaration) : Adds s (s.build name el settings hooked ds).1 := by
  unfold build
  split
  · exact (adds_declared el ds s).congr rfl rfl
  · exact .beside rfl rfl

theorem adds_submitEffect (s : Stage) (queue effect : String) (el : ElementId) (settings : Settings)
    (finish : Option (List Cue)) : Adds s (s.submitEffect queue effect el settings finish).1 := by
  unfold submitEffect
  split
  · split
    · exact .beside rfl rfl
    · simp only
      split
      · exact (adds_prepare s settings _).congr rfl rfl
      · exact (adds_prepare s settings _).trans (adds_submit _ queue _)
  · exact .beside rfl rfl

theorem adds_follow (s : Stage) (c : Cue) : Adds s (s.follow c).1 := by
  cases c with
  | addClass | removeClass => exact (adds_record _ (by simp)).congr rfl rfl
  | flush => exact (adds_record s (by simp)).congr rfl rfl
  | resolve key body => exact (adds_resolve s key body).congr rfl rfl
  | build name el settings hooked ds => exact adds_build s name el settings hooked ds
  | start | transition | visibility | hasState | step | debug =>
    exact adds_withMachine s _ fun _ _ => .beside rfl rfl
  | drop | queueClone | queueDrop =>
    simp only [follow]
    split <;> exact .beside rfl rfl
  | enqueue => exact adds_submit s _ _
  | effectJob => exact adds_submitEffect s _ _ _ _ _
  | complete | dropToken => exact adds_withToken s _ _
  | _ => exact .beside rfl rfl

theorem adds_act (s : Stage) (m : Nat) (slot : Slot) : Adds s (s.act m slot).1 := by
  unfold act
  split
  · exact .refl s
  · rename_i c _
    split
    · exact .refl s
    · rename_i r _
      split
      · exact .refl s
      · split
        · have hjobs := adds_jobs c r.actions s
          unfold runAll
          split
          · rename_i s' heq
            rw [heq] at hjobs
            exact hjobs.trans (adds_notify s' _)
          · rename_i s' js _ heq
            rw [heq] at hjobs
            exact hjobs
        · unfold runNext
          simp only
          split
          · exact adds_notify s _
          · split <;> exact (adds_prepare s c.settings _).congr rfl rfl

/-- **No task adds a rule that it does not hand to the page**, and none hands one over that it does not add. -/
theorem adds_carryOut (s : Stage) (rest : List Task) (t : Task) : Adds s (t.carryOut s rest).1 := by
  cases t with
  | cue c => exact adds_follow s c
  | act m slot anew => exact adds_act s m slot
  | report => exact adds_record s (by simp)
  | script cues => cases cues <;> exact .refl s
  | deliver once listeners ran =>
    cases once with
    | cons => exact .refl s
    | nil =>
      cases listeners with
      | nil => exact .beside rfl rfl
      | cons =>
        simp only [Task.carryOut, deliver]
        split <;> exact .refl s
  | callOnce c =>
    cases c with
    | outside => exact adds_record s (by simp)
    | effectEnd =>
      simp only [Task.carryOut, callOnce]
      split <;> exact .refl s
  | callListener c =>
    cases c with
    | outside => exact adds_record s (by simp)
    | _ => exact .refl s
  | callFrame c =>
    cases c with
    | outside => exact adds_record s (by simp)
    | _ => exact .refl s
  | perform op =>
    have hrecord : Adds s ((s.mapPage (·.perform op)).record (.op op)) := (adds_record s (by simp)).congr rfl rfl
    cases op with
    | addClass | removeClass => exact hrecord
    | flush =>
      simp only [Task.carryOut, perform]
      split
      · exact .refl s
      · exact hrecord
  | frame calls => cases calls <;> exact .refl s
  | frameOver index ran =>
    simp only [Task.carryOut, frameOver]
    split
    · exact .beside rfl rfl
    · exact (adds_notify s _).congr rfl rfl
  | untilIdle =>
    simp only [Task.carryOut, untilIdle]
    split <;> exact .beside rfl rfl
  | enqueue q job => exact (adds_notify s (.jobEnqueued job.label)).congr rfl rfl
  | pump q =>
    simp only [Task.carryOut, pump]
    split
    · exact (adds_notify s _).congr rfl rfl
    · exact .refl s
  | run body token =>
    cases body with
    | effect => exact .refl s
    | outside => exact adds_record s (by simp)
  | settle name fate token => cases fate <;> exact .beside rfl rfl
  | complete token =>
    simp only [Task.carryOut, complete]
    split
    · split <;> exact .beside rfl rfl
    · exact .refl s
  | lose token =>
    simp only [Task.carryOut, lose]
    split
    · exact adds_notify s _
    · exact .refl s
  | finish q f =>
    cases f with
    | outside => exact adds_record s (by simp)
    | _ => exact .refl s
  | transition m state =>
    simp only [Task.carryOut, transition]
    split
    · exact .refl s
    · split <;> exact .beside rfl rfl
  | arrive m state again =>
    simp only [Task.carryOut, arrive]
    split
    · exact .beside rfl rfl
    · split <;> exact (adds_notify s _).congr rfl rfl
  | bind m slot again =>
    simp only [Task.carryOut, bind]
    split
    · exact .refl s
    · split
      · exact .refl s
      · exact .beside rfl rfl
      · split <;> exact .beside rfl rfl
  | fire m slot anew =>
    simp only [Task.carryOut, fire]
    split
    · exact .refl s
    · split
      · exact .refl s
      · exact adds_notify s _
  | hook m name state =>
    simp only [Task.carryOut, hook]
    split
    · split
      · exact adds_record s (by simp)
      · exact adds_notify s _
    · exact .refl s
  | conclude => exact .refl s
  | stepOver m slot step =>
    simp only [Task.carryOut, stepOver]
    split
    · exact .refl s
    · split <;> exact .beside rfl rfl
  | jump m slot =>
    simp only [Task.carryOut, jump]
    split
    · exact .refl s
    · split
      · exact .refl s
      · split
        · exact .refl s
        · split <;> exact .beside rfl rfl
  | start m visible =>
    simp only [Task.carryOut, start]
    split <;> exact .beside rfl rfl
  | install m state trigger =>
    simp only [Task.carryOut, install]
    split
    · exact adds_notify s _
    · simp only
      split
      · exact adds_notify s _
      · exact .refl s
  | appear m visible =>
    simp only [Task.carryOut, appear]
    split
    · exact .refl s
    · split <;> exact .beside rfl rfl
  | enterDefault m =>
    simp only [Task.carryOut, enterDefault]
    split <;> exact .refl s
  | visibility m visible =>
    simp only [Task.carryOut, visibility]
    split
    · exact .refl s
    · split <;> exact .beside rfl rfl
  | release hold =>
    cases hold with
    | host => exact .refl s
    | queue q =>
      simp only [Task.carryOut, release]
      split <;> exact .beside rfl rfl
    | machine m =>
      simp only [Task.carryOut, release]
      split
      · exact .refl s
      · split <;> exact .beside rfl rfl
  | closed m =>
    simp only [Task.carryOut, closed]
    split <;> exact .beside rfl rfl
  | reply | dispatch | await | detach | tick | jobOver | bound | watch | watched => exact .beside rfl rfl

/-- **Over a run, what comes to the stylesheet is what is handed to the page.** -/
theorem adds_runTasks (s : Stage) (tasks : List Task) : Adds s (s.runTasks tasks) := by
  have hstep : ∀ (s' : Stage) t rest, Adds s s' → Adds s (Config.after s' t rest).stage := fun s' t rest h =>
    h.trans (adds_carryOut s' rest t)
  exact Config.run_preserves (I := fun c => Adds s c.stage) hstep patience (Adds.refl s)

end Stage
end Stagecraft
