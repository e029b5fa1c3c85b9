import Stagecraft.Stage.Run
/-!
# What only reports

Notices, answers and rules of the stylesheet are written down beside what happens.  No machine, queue, listener or
frame ever depends on them.
-/
namespace Stagecraft
namespace Stage

/-- The two stages differ at most in what was reported, answered and asked of the stylesheet. -/
structure Undisturbed (s s' : Stage) : Prop where
  page : s'.page = s.page
  frames : s'.frames = s.frames
  hooks : s'.hooks = s.hooks
  manners : s'.manners = s.manners
  hosted : s'.hosted = s.hosted
  machines : s'.machines = s.machines
  cast : s'.cast = s.cast
  queues : s'.queues = s.queues
  queueNames : s'.queueNames = s.queueNames
  tokens : s'.tokens = s.tokens

namespace Undisturbed

theorem refl (s : Stage) : Undisturbed s s := ⟨rfl, rfl, rfl, rfl, rfl, rfl, rfl, rfl, rfl, rfl⟩

theorem trans {s s' s'' : Stage} (h : Undisturbed s s') (h' : Undisturbed s' s'') : Undisturbed s s'' :=
  ⟨h'.page.trans h.page, h'.frames.trans h.frames, h'.hooks.trans h.hooks, h'.manners.trans h.manners,
    h'.hosted.trans h.hosted, h'.machines.trans h.machines, h'.cast.trans h.cast, h'.queues.trans h.queues,
    h'.queueNames.trans h.queueNames, h'.tokens.trans h.tokens⟩

theorem machine? {s s' : Stage} (h : Undisturbed s s') (m : Nat) : s'.machine? m = s.machine? m := by
  rw [Stage.machine?, Stage.machine?, h.machines]

theorem queue? {s s' : Stage} (h : Undisturbed s s') (q : Nat) : s'.queue? q = s.queue? q := by
  rw [Stage.queue?, Stage.queue?, h.queues]

end Undisturbed

theorem undisturbed_record (s : Stage) (e : Entry) : Undisturbed s (s.record e) :=
  ⟨rfl, rfl, rfl, rfl, rfl, rfl, rfl, rfl, rfl, rfl⟩

theorem undisturbed_reply (s : Stage) (a : Answer) : Undisturbed s (s.reply a) :=
  ⟨rfl, rfl, rfl, rfl, rfl, rfl, rfl, rfl, rfl, rfl⟩

theorem undisturbed_notifyAll : ∀ (ns : List Notice) (s : Stage), Undisturbed s (s.notifyAll ns)
  | [], s => .refl s
  | n :: ns, s => (undisturbed_record s (.notice n)).trans (undisturbed_notifyAll ns (s.notify n))

theorem undisturbed_resolve (s : Stage) (key body : String) : Undisturbed s (s.resolve key body) := by
  have h := undisturbed_notifyAll
    (Notice.ofVerdict? (Stylesheet.classKey key) (s.styles.verdict (Stylesheet.classKey key) body)).toList s
  unfold resolve
  simp only
  split
  · exact ⟨h.page, h.frames, h.hooks, h.manners, h.hosted, h.machines, h.cast, h.queues, h.queueNames, h.tokens⟩
  · exact ⟨h.page, h.frames, h.hooks, h.manners, h.hosted, h.machines, h.cast, h.queues, h.queueNames, h.tokens⟩

theorem undisturbed_resolveAll (s : Stage) (a : Animation) : Undisturbed s (s.resolveAll a) := by
  unfold resolveAll
  induction a.requests generalizing s with
  | nil => exact .refl s
  | cons r rs ih => exact (undisturbed_resolve s r.key r.body).trans (ih _)

/-- Making a plan disturbs nothing. -/
theorem undisturbed_prepare (s : Stage) (settings : Settings) (e : Effect) : Undisturbed s (s.prepare settings e) := by
  unfold prepare
  split
  · split
    · exact .refl s
    · exact undisturbed_record s _
  · exact (undisturbed_notifyAll _ s).trans (undisturbed_resolveAll _ _)

theorem undisturbed_jobs (c : Machine) : ∀ (actions : List String) (s : Stage), Undisturbed s (s.jobs c actions).1
  | [], s => .refl s
  | action :: rest, s => by
    unfold jobs
    split
    · exact (undisturbed_record s _).trans (undisturbed_jobs c rest _)
    · exact (undisturbed_prepare s c.settings _).trans (undisturbed_jobs c rest _)

theorem undisturbed_declared (el : ElementId) : ∀ (ds : List Declaration) (s : Stage),
    Undisturbed s (ds.foldl (fun s d => s.notifyAll (d.notices el)) s)
  | [], s => .refl s
  | d :: ds, s => (undisturbed_notifyAll (d.notices el) s).trans (undisturbed_declared el ds _)

end Stage
end Stagecraft
