import Stagecraft.Proofs.Stage.Scriptless
/-!
# Cues played to their end

Cues are given one after another, each when the one before it is over.  Without scripts every cue comes to an end, and
there is one stage that a list of cues leads to.
-/
namespace Stagecraft

namespace Config

/-- What every task preserves holds at the end of a run. -/
theorem run_preserves {I : Config → Prop} (hstep : ∀ s t rest, I ⟨s, t :: rest⟩ → I (.after s t rest)) :
    ∀ (n : Nat) {c : Config}, I c → I (run n c)
  | 0, _, h => h
  | n + 1, ⟨s, agenda⟩, h => by
    cases agenda with
    | nil => exact h
    | cons t rest => exact run_preserves hstep n (hstep s t rest h)

/-- A run that has come to its end has come to the only one. -/
theorem end_unique {c d d' : Config} {n n' : Nat} (h : run n c = d) (h' : run n' c = d') (hd : d.agenda = [])
    (hd' : d'.agenda = []) : d = d' := by
  rw [← run_of_agenda_eq_nil hd n', ← run_of_agenda_eq_nil hd' n, ← h, ← h', ← run_add, ← run_add, Nat.add_comm]

end Config

/-- The cues, given one after another, lead from a stage to another one. -/
inductive Plays : Stage → List Cue → Stage → Prop
  | nil (s : Stage) : Plays s [] s
  | cons {s s' s'' : Stage} {c : Cue} {cues : List Cue} (n : Nat) (first : Config.run n ⟨s, [.cue c]⟩ = ⟨s', []⟩)
      (later : Plays s' cues s'') : Plays s (c :: cues) s''

namespace Plays

variable {s s' s'' : Stage} {cues cues' : List Cue}

theorem append (h : Plays s cues s') (h' : Plays s' cues' s'') : Plays s (cues ++ cues') s'' := by
  induction h with
  | nil => exact h'
  | cons n first _ ih => exact .cons n first (ih h')

theorem unique (h : Plays s cues s') (h' : Plays s cues s'') : s' = s'' := by
  induction h with
  | nil =>
    cases h'
    rfl
  | cons n first _ ih =>
    cases h' with
    | cons n' first' later' =>
      obtain rfl := congrArg Config.stage (Config.end_unique first first' rfl rfl)
      exact ih later'

/-- Where the cues lead if none of them takes more than `fuel` tasks. -/
def last (fuel : Nat) : Stage → List Cue → Option Stage
  | s, [] => some s
  | s, c :: cues =>
    match Config.run fuel ⟨s, [.cue c]⟩ with
    | ⟨s', []⟩ => last fuel s' cues
    | _ => none

theorem of_last {fuel : Nat} : ∀ {cues : List Cue} {s : Stage}, last fuel s cues = some s' → Plays s cues s'
  | [], s, h => by
    cases h
    exact .nil _
  | c :: cues, s, h => by
    unfold last at h
    split at h
    · rename_i s'' hrun
      exact .cons fuel hrun (of_last h)
    · cases h

end Plays

/-- **Without scripts everything comes to an end**, and what every task preserves on the way holds there. -/
theorem Scriptless.ends {I : Config → Prop} {c : Config} (hscriptless : Scriptless c)
    (hstep : ∀ s t rest, I ⟨s, t :: rest⟩ → I (.after s t rest)) (h : I c) :
    ∃ n s', Config.run n c = ⟨s', []⟩ ∧ I ⟨s', []⟩ := by
  obtain ⟨n, hend⟩ := hscriptless.halts
  have h' := Config.run_preserves hstep n h
  generalize hd : Config.run n c = d at hend h'
  obtain ⟨s', agenda⟩ := d
  obtain rfl : agenda = [] := hend
  exact ⟨n, s', hd, h'⟩

/-- The stage with one more machine, which has a name. -/
def Stage.built (s : Stage) (name : String) (el : ElementId) (settings : Settings) (hooked : Bool)
    (declarations : List Declaration) : Stage :=
  { s.addMachine el settings hooked (declarations.foldl declare []) with cast := s.cast.put name s.machines.length }

/-- **A machine is built** under a name that is free, and beside it there are only reports. -/
theorem Plays.build {s : Stage} (hhosted : s.hosted = true) {name : String} (hname : s.cast.get? name = none)
    (el : ElementId) (settings : Settings) (hooked : Bool) (declarations : List Declaration) :
    ∃ s', Plays s [.build name el settings hooked declarations] s' ∧
      Stage.Undisturbed (s.built name el settings hooked declarations) s' := by
  have hdeclared := Stage.undisturbed_declared el declarations s
  generalize hs' : declarations.foldl (fun s d => s.notifyAll (d.notices el)) s = s' at hdeclared
  have hfollow : s.follow (.build name el settings hooked declarations) =
      (s'.built name el settings hooked declarations, [.reply .nothing]) := by
    have hcast : (s'.addMachine el settings hooked (declarations.foldl declare [])).cast = s.cast := hdeclared.cast
    simp only [Stage.follow, Stage.build, hhosted, if_true, hs', Stage.castAs, hcast, hname, Stage.built, hdeclared.cast]
    rfl
  have hrun : Config.run 2 ⟨s, [.cue (.build name el settings hooked declarations)]⟩ =
      ⟨(s'.built name el settings hooked declarations).reply .nothing, []⟩ := by
    rw [Config.run, Config.step?_cons]
    simp only [Config.after, Task.carryOut, hfollow]
    rfl
  refine ⟨_, .cons 2 hrun (.nil _), hdeclared.page, hdeclared.frames, hdeclared.hooks, hdeclared.manners,
    hdeclared.hosted, ?_, ?_, ?_, hdeclared.queueNames, hdeclared.tokens⟩
  · simp only [Stage.reply, Stage.built, Stage.addMachine, hdeclared.machines, hdeclared.queues]
  · simp only [Stage.reply, Stage.built, hdeclared.machines, hdeclared.cast]
  · simp only [Stage.reply, Stage.built, Stage.addMachine, hdeclared.queues]

end Stagecraft
