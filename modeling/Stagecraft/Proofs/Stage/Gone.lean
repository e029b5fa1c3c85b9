import Stagecraft.Proofs.Stage.Dropped
import Stagecraft.Proofs.Stage.Firing
import Stagecraft.Proofs.Stage.Worn
/-!
# A machine that is gone

Once a machine is closed nothing works on it any more: no reaction of it is run, no hook of it is called, and nothing is
put on the page or left for a frame on its behalf.
-/
namespace Stagecraft

/-- The machine that a call of a frame works on. -/
def FrameCall.machine? : FrameCall → Option Nat
  | .react m _ | .resume m _ => some m
  | .outside .. => none

/-- The machine is closed for good. -/
def Stage.Gone (s : Stage) (m : Nat) : Prop := ∃ c, s.machine? m = some c ∧ c.life = .closed

namespace Stage

variable {s : Stage} {t : Task} {rest : List Task} {m : Nat}

theorem Gone.isLive (h : s.Gone m) : s.isLive m = false := by
  obtain ⟨c, hc, hlife⟩ := h
  rw [isLive_of_machine? hc, hlife]
  rfl

theorem gone_closed (hm : ∃ c, s.machine? m = some c) : (Task.carryOut s rest (.closed m)).1.Gone m := by
  obtain ⟨c, hc⟩ := hm
  refine ⟨{ c with life := .closed }, ?_, rfl⟩
  simp only [Task.carryOut, closed, hc, machine?_mapMachine_self]
  rfl

/-- A machine that is closed stays so. -/
theorem Gone.after (h : s.Gone m) : (t.carryOut s rest).1.Gone m := by
  obtain ⟨c, hc, hlife⟩ := h
  by_cases ht : .lives ∈ t.touches
  · cases t with
    | cue cue =>
      cases cue with
      | build name el settings hooked states =>
        refine ⟨c, ?_, hlife⟩
        simp only [Task.carryOut, follow, build]
        split
        · rw [← (undisturbed_declared el states s).machine? m] at hc
          exact machine?_append _ [JobQueue.empty] hc
        · exact hc
      | _ => simp [Task.touches, Cue.touches] at ht
    | closed n =>
      by_cases hn : n = m
      · exact hn ▸ gone_closed ⟨c, hn ▸ hc⟩
      · refine ⟨c, ?_, hlife⟩
        simp only [Task.carryOut, closed]
        split
        · exact hc
        · exact (machine?_mapMachine_ne s (Ne.symm hn) _).trans hc
    | release hold =>
      cases hold with
      | machine n =>
        refine ⟨c, ?_, hlife⟩
        simp only [Task.carryOut, release]
        split
        · exact hc
        · rename_i c' hc'
          split
          · rename_i hlive
            have hn : m ≠ n := by
              rintro rfl
              obtain rfl : c = c' := Option.some.inj (hc.symm.trans hc')
              simp [hlife] at hlive
            exact (machine?_mapMachine_ne s hn _).trans hc
          · exact hc
      | _ => simp [Task.touches] at ht
    | _ => simp [Task.touches] at ht
  · have hlives : _ = _ := (within_carryOut s rest t).touched.agree .lives ht
    have hmap := congrArg (·[m]?) hlives
    rw [List.getElem?_map, List.getElem?_map, show s.machines[m]? = some c from hc] at hmap
    obtain ⟨c', hc', heq⟩ := Option.map_eq_some_iff.1 hmap
    exact ⟨c', hc', (congrArg Prod.fst heq).trans hlife⟩

/-- A listener that works on the machine was there before, or a task of the machine has just added it. -/
theorem listener_carryOut {l : Listener ListenerCall} (hl : l ∈ (t.carryOut s rest).1.page.listeners)
    (hm : l.call.machine? = some m) : l ∈ s.page.listeners ∨ t.machine? = some m := by
  by_cases ht : .listeners ∈ t.touches
  · have hattach : ∀ el event call next, l ∈ (s.attach el event call next).1.page.listeners →
        l ∈ s.page.listeners ∨ l.call = call := by
      intro el event call next hl
      refine (List.mem_append.1 hl).imp id fun hnew => ?_
      rw [List.mem_singleton.1 hnew]
    cases t with
    | cue cue =>
      cases cue with
      | addListener el event label script =>
        rcases hattach el event (.outside label script) (fun _ => .reply .nothing) hl with hl | hcall
        · exact .inl hl
        · rw [hcall] at hm
          cases hm
      | removeListener el id => exact .inl (List.mem_filter.1 hl).1
      | _ => simp [Task.touches, Cue.touches] at ht
    | detach el id => exact .inl (List.mem_filter.1 hl).1
    | watch n el event state =>
      rcases hattach el event (.enter n state) (.watched n el) hl with hl | hcall
      · exact .inl hl
      · rw [hcall] at hm
        exact .inr hm
    | bind n slot again =>
      simp only [Task.carryOut, bind] at hl
      split at hl
      · exact .inl hl
      · split at hl
        · exact .inl hl
        · exact .inl hl
        · split at hl
          · exact .inl hl
          · rcases hattach _ _ _ _ hl with hl | hcall
            · exact .inl hl
            · rw [hcall] at hm
              exact .inr hm
    | release hold => cases hold <;> simp [Task.touches] at ht
    | _ => simp [Task.touches] at ht
  · have hsame := ((within_carryOut s rest t).touched.agree .listeners ht).1
    exact .inl (hsame ▸ hl)

/-- A call of a frame that works on the machine was there before, or a task of the machine has just left it. -/
theorem frame_carryOut {call : FrameCall} (hcall : call ∈ (t.carryOut s rest).1.frames.waiting)
    (hm : call.machine? = some m) : call ∈ s.frames.waiting ∨ t.machine? = some m := by
  by_cases ht : .frames ∈ t.touches
  · have hschedule : ∀ call', call ∈ (s.schedule call').frames.waiting → call ∈ s.frames.waiting ∨ call = call' :=
      fun call' hmem => (List.mem_append.1 hmem).imp id List.mem_singleton.1
    cases t with
    | cue cue =>
      cases cue with
      | nextFrame label script =>
        rcases hschedule (.outside label script) hcall with hold | rfl
        · exact .inl hold
        · cases hm
      | _ => simp [Task.touches, Cue.touches] at ht
    | tick => cases hcall
    | bind n slot again =>
      simp only [Task.carryOut, bind] at hcall
      split at hcall
      · exact .inl hcall
      · split at hcall
        · exact .inl hcall
        · rcases hschedule _ hcall with hold | rfl
          · exact .inl hold
          · exact .inr hm
        · split at hcall <;> exact .inl hcall
    | stepOver n slot k =>
      simp only [Task.carryOut, stepOver] at hcall
      split at hcall
      · exact .inl hcall
      · split at hcall
        · rcases hschedule _ hcall with hold | rfl
          · exact .inl hold
          · exact .inr hm
        · exact .inl hcall
    | release hold => cases hold <;> simp [Task.touches] at ht
    | _ => simp [Task.touches] at ht
  · have hsame : _ = _ := (within_carryOut s rest t).touched.agree .frames ht
    exact .inl (hsame ▸ hcall)

end Stage
open Stage

section
variable {manners : Manners} {c b d : Config} {past later earlier : List Config} {m : Nat} {rest : List Task}

theorem Course.gone_next (h : Course manners (c :: d :: past)) (hd : d.stage.Gone m) : c.stage.Gone m := by
  rcases h.undisturbed_or_after with ⟨-, hsame⟩ | ⟨t, rest, -, rfl⟩
  · obtain ⟨machine, hm, hlife⟩ := hd
    exact ⟨machine, (hsame.machine? m).trans hm, hlife⟩
  · exact hd.after

theorem Course.gone_since (hb : b.agenda = .closed m :: rest) (hm : ∃ machine, b.stage.machine? m = some machine) :
    ∀ {later : List Config} {c : Config}, Course manners (c :: (later ++ b :: earlier)) → c.stage.Gone m
  | [], c, h => by
    rw [h.eq_after hb]
    exact gone_closed hm
  | d :: later, c, h => h.gone_next (gone_since hb hm h.tail)

/-- **No task works on a machine that is gone.** -/
theorem Course.idle_of_gone (h : Course manners (c :: past)) (hgone : c.stage.Gone m) :
    ∀ t ∈ c.agenda, t.machine? ≠ some m := by
  intro t ht hm
  have hlive := h.held.machines m (.inr (h.held.backed.release_mem ⟨t, ht, hm⟩))
  rw [hgone.isLive] at hlive
  cases hlive

theorem Course.head_ne (h : Course manners (d :: past)) (hgone : d.stage.Gone m) {t : Task}
    (hd : d.agenda = t :: rest) : t.machine? ≠ some m :=
  h.idle_of_gone hgone t (hd ▸ List.mem_cons_self)

/-- Nothing is put on the page on behalf of a machine that is gone. -/
theorem Course.listener_since (hb : b.agenda = .closed m :: rest)
    (hm : ∃ machine, b.stage.machine? m = some machine) {l : Listener ListenerCall} (hl : l.call.machine? = some m) :
    ∀ {later : List Config} {c : Config}, Course manners (c :: (later ++ b :: earlier)) →
      l ∈ c.stage.page.listeners → l ∈ b.stage.page.listeners
  | [], c, h, hmem => by
    rw [h.eq_after hb] at hmem
    exact (listener_carryOut hmem hl).resolve_right nofun
  | d :: later, c, h, hmem => by
    refine listener_since hb hm hl h.tail ?_
    rcases h.undisturbed_or_after with ⟨-, hsame⟩ | ⟨t, rest, hd, rfl⟩
    · rwa [hsame.page] at hmem
    · exact (listener_carryOut hmem hl).resolve_right (h.tail.head_ne (gone_since hb hm h.tail) hd)

/-- Nothing is left for a frame on behalf of a machine that is gone. -/
theorem Course.frame_since (hb : b.agenda = .closed m :: rest)
    (hm : ∃ machine, b.stage.machine? m = some machine) {call : FrameCall} (hcall : call.machine? = some m) :
    ∀ {later : List Config} {c : Config}, Course manners (c :: (later ++ b :: earlier)) →
      call ∈ c.stage.frames.waiting → call ∈ b.stage.frames.waiting
  | [], c, h, hmem => by
    rw [h.eq_after hb] at hmem
    exact (frame_carryOut hmem hcall).resolve_right nofun
  | d :: later, c, h, hmem => by
    refine frame_since hb hm hcall h.tail ?_
    rcases h.undisturbed_or_after with ⟨-, hsame⟩ | ⟨t, rest, hd, rfl⟩
    · rwa [hsame.frames] at hmem
    · exact (frame_carryOut hmem hcall).resolve_right (h.tail.head_ne (gone_since hb hm h.tail) hd)

end

end Stagecraft
