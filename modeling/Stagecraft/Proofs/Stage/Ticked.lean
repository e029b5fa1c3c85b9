import Stagecraft.Proofs.Stage.Ledger
/-!
# The calls of a frame

A frame makes the calls that were waiting when it began, in their order.  Whatever these do, to schedule others or to run
a frame themselves, does not change which others it makes: what is scheduled meanwhile waits for a frame that begins
later, and that may be one inside.
-/
namespace Stagecraft

open Stage

/-- The call that a task makes for a frame. -/
def Task.framed? : Task → Option FrameCall
  | .callFrame call => some call
  | _ => none

/-- Whether a task runs a frame. -/
def Task.ticked? : Task → Option Unit
  | .tick => some ()
  | _ => none

namespace Tick

/-- The calls that the next task schedules. -/
def schedules (c : Config) : List FrameCall :=
  match c.agenda with
  | t :: rest => (t.carryOut c.stage rest).1.frames.waiting.drop c.stage.frames.waiting.length
  | [] => []

/-- The calls that the next task runs as a frame. -/
def takes (c : Config) : List FrameCall :=
  match c.agenda with
  | .tick :: _ => c.stage.frames.waiting
  | _ => []

/-- The calls that wait for a frame. -/
def pool : Pool FrameCall FrameCall where
  waiting s := s.frames.waiting
  puts := schedules
  takes := takes
  start := .tick
  depth := 2
  made := Task.framed?
  call := id

/-- The frames that have begun. -/
def begun (past : List Config) : Nat := past.countP fun c => (c.agenda.head?.bind Task.ticked?).isSome

/-- The number of frames that were run by a task that stood before `outer` when it began. -/
def ticks (outer : List Task) (cs : List Config) : Nat := (deeds (fun _ t => t.ticked?) (outer.length + 1) cs).length

/-- How far a frame has come that began on the stage `s`: it makes a call, or is inside one, or has none left, or is over.
The calls that are still to come are `left`. -/
inductive Stands (s : Stage) (outer : List Task) (left : List FrameCall) (c : Config) : Prop
  | calling (call : FrameCall)
      (hc : c.agenda = .callFrame call :: .frame left :: .frameOver s.frames.index s.frames.waiting.length :: outer)
  | inside (hc : Inside (fun u => u.framed? = none)
      (.frame left :: .frameOver s.frames.index s.frames.waiting.length :: outer) c.agenda)
  | ending (hleft : left = []) (hc : c.agenda = .frameOver s.frames.index s.frames.waiting.length :: outer)
  | ended (hleft : left = []) (hc : c.agenda = outer)
      (hanswer : c.stage.answer = .frame s.frames.index s.frames.waiting.length)

end Tick

open Tick

section
variable {manners : Manners} {s : Stage} {t : Task} {rest outer : List Task} {b c d : Config}
  {later earlier past : List Config} {left : List FrameCall}

/-! ## What happens to the frames -/

theorem frames_follow (s : Stage) (c : Cue) :
    (s.follow c).1.frames = s.frames ∨ ∃ call, (s.follow c).1.frames = s.frames.schedule call := by
  cases c with
  | nextFrame label cues => exact .inr ⟨_, rfl⟩
  | build name el settings hooked declarations =>
    refine .inl ?_
    simp only [follow, build]
    split
    · exact (undisturbed_declared el declarations s).frames
    · rfl
  | resolve key body => exact .inl (undisturbed_resolve s key body).frames
  | effectJob queue effect el settings finish =>
    refine .inl ?_
    simp only [follow, submitEffect]
    (repeat' split)
    · rfl
    · exact (undisturbed_prepare s settings _).frames
    · unfold submit
      split <;> exact (undisturbed_prepare s settings _).frames
    · rfl
  | start | transition | visibility | hasState | step | debug =>
    refine .inl ?_
    simp only [follow, direct, withMachine]
    (repeat' split) <;> rfl
  | enqueue =>
    refine .inl ?_
    simp only [follow, submit]
    split <;> rfl
  | drop | queueClone | queueDrop | complete | dropToken =>
    refine .inl ?_
    simp only [follow, nameQueue, withToken]
    split <;> rfl
  | _ => exact .inl rfl

theorem frames_act (s : Stage) (m : Nat) (slot : Slot) : (s.act m slot).1.frames = s.frames := by
  unfold act
  split
  · rfl
  rename_i c _
  split
  · rfl
  rename_i r _
  split
  · rfl
  split
  · have hjobs := (undisturbed_jobs c r.actions s).frames
    unfold runAll
    split <;> (rename_i heq; rw [heq] at hjobs; exact hjobs)
  · rename_i kind _
    unfold runNext
    simp only
    (repeat' split)
    · rfl
    · exact (undisturbed_prepare s c.settings _).frames
    · exact (undisturbed_prepare s c.settings _).frames

/-- **Only the beginning of a frame does more to the frames than to schedule a call.** -/
theorem frames_carryOut (s : Stage) (rest : List Task) (ht : t ≠ .tick) :
    (t.carryOut s rest).1.frames = s.frames ∨ ∃ call, (t.carryOut s rest).1.frames = s.frames.schedule call := by
  cases t with
  | tick => exact absurd rfl ht
  | cue c => exact frames_follow s c
  | act m slot anew => exact .inl (frames_act s m slot)
  | bind | stepOver =>
    simp only [Task.carryOut, Stage.bind, stepOver, attach]
    (repeat' split) <;> first | exact .inl rfl | exact .inr ⟨_, rfl⟩
  | script cues => cases cues <;> exact .inl rfl
  | deliver once ls ran =>
    refine .inl ?_
    simp only [Task.carryOut]
    unfold deliver
    (repeat' split) <;> rfl
  | callOnce c | callListener c | callFrame c | finish q c =>
    refine .inl ?_
    cases c <;> simp only [Task.carryOut, callOnce, callListener, callFrame, finish, onMachine]
    all_goals first | rfl | (split <;> rfl)
  | perform op =>
    refine .inl ?_
    simp only [Task.carryOut, perform]
    (repeat' split) <;> rfl
  | frame calls => cases calls <;> exact .inl rfl
  | frameOver | untilIdle | pump | run | settle | complete | lose | transition | arrive | fire | hook | jump | start
  | install | appear | enterDefault | visibility | closed =>
    refine .inl ?_
    simp only [Task.carryOut, frameOver, untilIdle, pump, run, settle, complete, lose, transition, arrive, fire, hook,
      jump, start, install, appear, enterDefault, visibility, closed]
    (repeat' split) <;> rfl
  | release hold =>
    refine .inl ?_
    simp only [Task.carryOut]
    unfold release
    (repeat' split) <;> rfl
  | _ => exact .inl rfl

theorem Tick.sound_pool : pool.Sound where
  opened _ := rfl
  cleared _ := rfl
  idle _ := ⟨rfl, rfl⟩
  step s t rest := by
    by_cases ht : t = .tick
    · subst ht
      change s.frames.waiting ++ [] = s.frames.waiting ++ List.drop _ []
      rw [List.drop_nil]
    · have htakes : takes ⟨s, t :: rest⟩ = [] := by
        cases t with
        | tick => exact absurd rfl ht
        | _ => rfl
      change takes _ ++ (t.carryOut s rest).1.frames.waiting =
        s.frames.waiting ++ (t.carryOut s rest).1.frames.waiting.drop s.frames.waiting.length
      rw [htakes, List.nil_append]
      rcases frames_carryOut s rest ht with hsame | ⟨call, hmore⟩
      · rw [hsame, List.drop_length, List.append_nil]
      · rw [hmore, Frames.schedule, List.drop_left]
  start _ _ := rfl

/-- **The number of a frame says how many have begun before it**, up to 64 bits. -/
theorem Course.index_eq (h : Course manners (c :: past)) : c.stage.frames.index = UInt64.ofNat (begun past) := by
  induction past generalizing c with
  | nil =>
    cases h with
    | opened => rfl
  | cons d past ih =>
    have hbefore := ih h.tail
    rw [begun, List.countP_cons, ← begun]
    cases h with
    | cleared h => exact hbefore
    | called cue h => exact hbefore
    | stepped h hstep =>
      obtain ⟨s, agenda⟩ := d
      cases agenda with
      | nil => cases hstep
      | cons t rest =>
        rw [Config.step?_cons, Option.some.injEq] at hstep
        rw [← hstep]
        by_cases ht : t = .tick
        · subst ht
          change s.frames.index + 1 = UInt64.ofNat (begun past + 1)
          rw [UInt64.ofNat_add, ← hbefore]
          rfl
        · have hnone : t.ticked? = none := by
            cases t with
            | tick => exact absurd rfl ht
            | _ => rfl
          have hindex : (t.carryOut s rest).1.frames.index = s.frames.index := by
            rcases frames_carryOut s rest ht with hsame | ⟨call, hmore⟩
            · rw [hsame]
            · rw [hmore, Frames.schedule]
          simp only [List.head?_cons, Option.bind_some, hnone, Option.isSome_none, Bool.false_eq_true, if_false]
          exact hindex.trans hbefore

/-! ## The calls of a frame -/

theorem Task.kind_of_framed? {call : FrameCall} (h : t.framed? = some call) : t.kind = .callFrame := by
  cases t with
  | callFrame => rfl
  | _ => cases h

/-- Only a frame leaves a call of a frame, and behind it the others. -/
theorem frame_of_framed? {call : FrameCall} {u : Task} (hmem : u ∈ (t.carryOut s rest).2) (hu : u.framed? = some call) :
    ∃ calls, t = .frame (call :: calls) ∧ (t.carryOut s rest).2 = [.callFrame call, .frame calls] := by
  have hkind := (within_carryOut s rest t).kinds u hmem
  rw [Task.kind_of_framed? hu] at hkind
  cases t with
  | frame calls =>
    cases calls with
    | nil => cases hmem
    | cons call' calls =>
      rcases List.mem_cons.1 hmem with rfl | hmem
      · cases hu
        exact ⟨calls, rfl, rfl⟩
      · rw [List.mem_singleton.1 hmem] at hu
        cases hu
  | cue c => cases c <;> simp [Task.leaves, Cue.leaves] at hkind
  | release hold => cases hold <;> simp [Task.leaves] at hkind
  | _ => simp [Task.leaves] at hkind

/-- A call of a frame is never the last thing that a task leaves. -/
theorem framed?_of_getLast? : ∀ u ∈ (t.carryOut s rest).2.getLast?, u.framed? = none := by
  intro u hu
  cases hframed : u.framed? with
  | none => rfl
  | some call =>
    obtain ⟨calls, -, hleft⟩ := frame_of_framed? (List.mem_of_getLast? hu) hframed
    rw [hleft] at hu
    cases hu
    cases hframed

/-- What is left of the calls of a frame was left when the frame began, or by the call before. -/
theorem tick_or_frame {u : Task} {pre post : List Task} (h : (t.carryOut s rest).2 = pre ++ u :: post)
    (hu : u.kind = .frame) :
    (t = .tick ∧ post = [.frameOver s.frames.index s.frames.waiting.length]) ∨ (t.kind = .frame ∧ post = []) := by
  have hmem : u ∈ (t.carryOut s rest).2 := h ▸ List.mem_append_right _ List.mem_cons_self
  have hkind := (within_carryOut s rest t).kinds u hmem
  rw [hu] at hkind
  cases t with
  | tick =>
    refine .inl ⟨rfl, ?_⟩
    cases pre with
    | nil => exact (List.cons.inj h).2.symm
    | cons v pre =>
      have hlast : u ∈ [Task.frameOver s.frames.index s.frames.waiting.length] :=
        (List.cons.inj h).2 ▸ List.mem_append_right pre List.mem_cons_self
      rw [List.mem_singleton.1 hlast] at hu
      cases hu
  | frame calls =>
    refine .inr ⟨rfl, ?_⟩
    cases calls with
    | nil => cases hmem
    | cons call calls =>
      cases pre with
      | nil =>
        rw [← (List.cons.inj h).1] at hu
        cases hu
      | cons v pre =>
        have hlast := congrArg List.length h
        simp only [Task.carryOut, frame, List.length_cons, List.length_append, List.length_nil] at hlast
        exact List.length_eq_zero_iff.1 (by omega)
  | cue c => cases c <;> simp [Task.leaves, Cue.leaves] at hkind
  | release hold => cases hold <;> simp [Task.leaves] at hkind
  | _ => simp [Task.leaves] at hkind

/-- **A call of a frame is made in a frame.** -/
theorem Course.tick_of_callFrame {call : FrameCall} (h : Course manners (c :: past))
    (hc : c.agenda = .callFrame call :: rest) : ∃ later b earlier outer left, past = later ++ b :: earlier ∧
      b.agenda = .tick :: outer ∧ (∀ d ∈ later, d.awaits outer) ∧
      rest = .frame left :: .frameOver b.stage.frames.index b.stage.frames.waiting.length :: outer := by
  obtain ⟨left, rest', rfl⟩ : ∃ left rest', rest = .frame left :: rest' := by
    rcases h.left_by [] hc with ⟨cue, heq, -⟩ | ⟨later, s, t, rest', earlier, pre, post, -, hleft, hrest, -⟩
    · cases heq
    · have hmem : Task.callFrame call ∈ (t.carryOut s rest').2 := hleft ▸ List.mem_append_right _ List.mem_cons_self
      obtain ⟨calls, -, hcalls⟩ := frame_of_framed? hmem rfl
      rw [hcalls] at hleft
      cases pre with
      | nil => exact ⟨calls, rest', by rw [hrest, ← (List.cons.inj hleft).2]; rfl⟩
      | cons v pre =>
        have hlast : Task.callFrame call ∈ [Task.frame calls] :=
          (List.cons.inj hleft).2 ▸ List.mem_append_right pre List.mem_cons_self
        cases List.mem_singleton.1 hlast
  obtain ⟨later, b, earlier, t, u, pre, post, outer, hpast, hb, rfl, hleft, rfl, hu, hover⟩ :=
    Course.begun_by (P := fun u => u.kind = .frame) (Q := fun u => u = .tick) (fun _ => Kind.noConfusion)
      (fun _ _ _ _ _ _ hleft hu => (tick_or_frame hleft hu).imp And.left id) [.callFrame call] h hc rfl
  obtain ⟨-, rfl⟩ := (tick_or_frame hleft hu).resolve_right fun h => by cases h.1
  exact ⟨later, b, earlier, outer, left, hpast, hb, fun d hd => (hover d hd).of_cons, rfl⟩

namespace Tick

theorem calls_of_agenda {u v : Task} {cs : List Config} (hc : c.agenda = t :: u :: v :: outer) :
    pool.calls outer (c :: cs) = pool.calls outer cs ++ t.framed?.toList := by
  rw [Pool.calls, deeds_cons, first?_of_agenda hc (by rw [List.length_cons, List.length_cons]; rfl)]
  rfl

theorem calls_of_inside {u v : Task} {cs : List Config}
    (h : Inside (fun u => u.framed? = none) (u :: v :: outer) c.agenda) :
    pool.calls outer (c :: cs) = pool.calls outer cs := by
  have hnone : c.first? (fun _ t => t.framed?) (u :: v :: outer).length = none := h.first?_eq_none fun u _ hu => hu
  rw [Pool.calls, deeds_cons, Pool.calls, show outer.length + pool.depth = (u :: v :: outer).length from rfl]
  change _ ++ (c.first? (fun _ t => t.framed?) _).toList = _
  rw [hnone]
  exact List.append_nil _

theorem calls_of_length {cs : List Config} (h : c.agenda.length < outer.length + 3) :
    pool.calls outer (c :: cs) = pool.calls outer cs := by
  rw [Pool.calls, deeds_cons, first?_of_length (by change _ ≠ outer.length + 2 + 1; omega)]
  exact List.append_nil _

end Tick

/-- **A frame makes the calls that waited when it began, in their order**, and whatever these do, it goes on with the
next. -/
theorem Course.ticking (hb : b.agenda = .tick :: outer) (h : Course manners (c :: (later ++ b :: earlier)))
    (hover : ∀ d ∈ later, d.awaits outer) : ∃ left,
      b.stage.frames.waiting = pool.calls outer (c :: later) ++ left ∧ Tick.Stands b.stage outer left c := by
  refine Course.during (I := fun c later => ∃ left, b.stage.frames.waiting = pool.calls outer (c :: later) ++ left ∧
    Tick.Stands b.stage outer left c) hb ?_ ?_ h hover
  · have hinside : Inside (fun u => u.framed? = none) (.frame b.stage.frames.waiting ::
        .frameOver b.stage.frames.index b.stage.frames.waiting.length :: outer)
        (Config.after b.stage .tick outer).agenda := .inl rfl
    have hfirst : pool.calls outer [.after b.stage .tick outer] = [] := calls_of_inside hinside
    exact ⟨_, by rw [hfirst]; rfl, .inside (.inl rfl)⟩
  intro s u us later hcourse ⟨left, hleft, hstands⟩
  cases hstands with
  | calling call hc =>
    obtain ⟨-, hrest⟩ := List.cons.inj hc
    have hinside : Inside (fun u => u.framed? = none) _ (Config.after s u (us ++ outer)).agenda :=
      .of_turn framed?_of_getLast? hrest
    exact ⟨left, by rw [calls_of_inside hinside]; exact hleft, .inside hinside⟩
  | inside hc =>
    by_cases hturn : u :: (us ++ outer) =
        .frame left :: .frameOver b.stage.frames.index b.stage.frames.waiting.length :: outer
    · obtain ⟨rfl, hrest⟩ := List.cons.inj hturn
      cases left with
      | nil =>
        -- no call is left
        refine ⟨[], ?_, .ending rfl hrest⟩
        rw [calls_of_length]
        · exact hleft
        · change (us ++ outer).length < _
          rw [hrest, List.length_cons]
          omega
      | cons call left =>
        have hafter : (Config.after s (.frame (call :: left)) (us ++ outer)).agenda = .callFrame call :: .frame left ::
            .frameOver b.stage.frames.index b.stage.frames.waiting.length :: outer :=
          congrArg (fun rest => [Task.callFrame call, .frame left] ++ rest) hrest
        refine ⟨left, ?_, .calling call hafter⟩
        rw [calls_of_agenda hafter, List.append_assoc]
        exact hleft
    · have hinside := hc.after (s := s) (fun _ _ _ _ => framed?_of_getLast?) hturn
      exact ⟨left, by rw [calls_of_inside hinside]; exact hleft, .inside hinside⟩
  | ending hnone hc =>
    obtain ⟨rfl, hrest⟩ := List.cons.inj hc
    refine ⟨left, ?_, .ended hnone ?_ rfl⟩
    · rw [calls_of_length]
      · exact hleft
      · change (us ++ outer).length < _
        rw [hrest]
        omega
    · exact hrest
  | ended hnone hc =>
    have := congrArg List.length hc
    simp only [List.length_cons, List.length_append] at this
    omega

/-- **A frame that is over has made all the calls that waited when it began, and no others.** -/
theorem Course.ticked (h : Course manners (c :: (later ++ b :: earlier))) (hb : b.agenda = .tick :: outer)
    (hover : ∀ d ∈ later, d.awaits outer) (hc : c.agenda = outer) :
    pool.calls outer later = b.stage.frames.waiting ∧
      c.stage.answer = .frame (UInt64.ofNat (begun earlier)) (pool.calls outer later).length := by
  obtain ⟨left, hleft, hstands⟩ := h.ticking hb hover
  obtain ⟨rfl, hanswer⟩ : left = [] ∧
      c.stage.answer = .frame b.stage.frames.index b.stage.frames.waiting.length := by
    cases hstands with
    | calling call heq =>
      have := congrArg List.length (hc.symm.trans heq)
      simp only [List.length_cons] at this
      omega
    | inside hinside =>
      rcases hinside with heq | ⟨ts, u, -, heq⟩
      · have := congrArg List.length (hc.symm.trans heq)
        simp only [List.length_cons] at this
        omega
      · have := congrArg List.length (hc.symm.trans heq)
        simp only [List.length_append, List.length_cons] at this
        omega
    | ending hnone heq =>
      have := congrArg List.length (hc.symm.trans heq)
      simp at this
    | ended hnone _ hanswer => exact ⟨hnone, hanswer⟩
  rw [List.append_nil, calls_of_length (by rw [hc]; omega)] at hleft
  have hindex : b.stage.frames.index = UInt64.ofNat (begun earlier) :=
    (show Course manners (b :: earlier) from Course.drop (c :: later) h).index_eq
  exact ⟨hleft.symm, by rw [hanswer, hindex, hleft]⟩

/-- **Whenever a call of a frame is made, a frame makes it that began when the call was waiting.** -/
theorem Course.exists_scheduled {call : FrameCall} (h : Course manners (c :: past))
    (hc : c.agenda = .callFrame call :: rest) : ∃ k, pool.Serves k call (c :: past) := by
  obtain ⟨later, b, earlier, outer, left, rfl, hb, hover, rfl⟩ := h.tick_of_callFrame hc
  have hfirst : c.first? (fun _ t => t.framed?) (outer.length + 2) = some call :=
    first?_of_agenda hc (by rw [List.length_cons, List.length_cons])
  refine Tick.sound_pool.serves h hb hover hfirst ?_
  obtain ⟨left', hleft, -⟩ := h.ticking hb hover
  change b.stage.frames.waiting[_]? = _
  rw [hleft, calls_of_agenda hc, List.append_assoc, Task.framed?, Option.toList_some,
    List.getElem?_append_right (Nat.le_refl _), Nat.sub_self]
  rfl

/-! ## Frames until nothing waits -/

namespace Tick

/-- How far a run of frames has come that has begun `n` of at most `most`: it looks whether another one is to be run, or
runs one, or is inside one, or is over. -/
inductive Idles (outer : List Task) (most n : Nat) (c : Config) : Prop
  | running (hn : n ≤ most) (hc : c.agenda = .tick :: .untilIdle most n :: outer)
  | inside (hn : n ≤ most) (hc : Inside (fun u => u.kind = .frameOver) (.untilIdle most n :: outer) c.agenda)
  | ended (hn : n ≤ most) (hc : c.agenda = outer) (hanswer : c.stage.answer = .count n)
      (hidle : n < most → c.stage.frames.waiting = [])

theorem ticks_cons (cs : List Config) : ticks outer (c :: cs) =
    ticks outer cs + (c.first? (fun _ t => t.ticked?) (outer.length + 1)).toList.length := by
  rw [ticks, deeds_cons, List.length_append, ticks]

end Tick

/-- **A run of frames counts those that it runs itself.** -/
theorem Course.idling {most : Nat} (hb : b.agenda = .cue (.runUntilIdle most) :: outer)
    (h : Course manners (c :: (later ++ b :: earlier))) (hover : ∀ d ∈ later, d.awaits outer) :
    Idles outer most (ticks outer (c :: later)) c := by
  refine Course.during (I := fun c later => Idles outer most (ticks outer (c :: later)) c) hb ?_ ?_ h hover
  · have hfirst : ticks outer [.after b.stage (.cue (.runUntilIdle most)) outer] = 0 := by
      rw [ticks_cons, first?_of_length (by simp [Config.after, Task.carryOut, follow])]
      rfl
    rw [hfirst]
    exact .inside (Nat.zero_le _) (.inl rfl)
  intro s u us later hcourse hidles
  generalize hn : ticks outer (⟨s, u :: (us ++ outer)⟩ :: later) = n at hidles
  -- inside a frame no other one begins for the run
  have hgoes_on : n ≤ most →
      Inside (fun u => u.kind = .frameOver) (.untilIdle most n :: outer) (Config.after s u (us ++ outer)).agenda →
      Idles outer most (ticks outer (.after s u (us ++ outer) :: ⟨s, u :: (us ++ outer)⟩ :: later))
        (.after s u (us ++ outer)) := by
    intro hle hinside
    have hnone : (Config.after s u (us ++ outer)).first? (fun _ t => t.ticked?) (outer.length + 1) = none :=
      hinside.first?_eq_none fun u _ hu => by
        cases u with
        | frameOver => rfl
        | _ => cases hu
    rw [ticks_cons, hnone, hn]
    exact .inside hle hinside
  cases hidles with
  | running hle hc =>
    obtain ⟨rfl, hrest⟩ := List.cons.inj hc
    refine hgoes_on hle (.of_turn (fun v hv => ?_) hrest)
    cases hv
    rfl
  | inside hle hc =>
    by_cases hturn : u :: (us ++ outer) = .untilIdle most n :: outer
    · obtain ⟨rfl, hrest⟩ := List.cons.inj hturn
      rw [ticks_cons, hn]
      by_cases hmore : (decide (n < most) && !s.frames.waiting.isEmpty) = true
      · have hafter : (Config.after s (.untilIdle most n) (us ++ outer)).agenda =
            .tick :: .untilIdle most (n + 1) :: outer := by
          simp only [Config.after, Task.carryOut, untilIdle, if_pos hmore, hrest]
          rfl
        rw [first?_of_agenda hafter (List.length_cons ..)]
        simp only [Bool.and_eq_true, decide_eq_true_eq] at hmore
        exact .running hmore.1 hafter
      · have hafter : (Config.after s (.untilIdle most n) (us ++ outer)) = ⟨s.reply (.count n), outer⟩ := by
          simp only [Config.after, Task.carryOut, untilIdle, if_neg hmore, hrest]
          rfl
        have hidle : n < most → s.frames.waiting = [] := by simpa using hmore
        rw [hafter, first?_of_length (show outer.length ≠ outer.length + 1 + 1 by omega)]
        exact .ended hle rfl rfl hidle
    · refine hgoes_on hle (hc.after (fun v hv s rest w hw => ?_) hturn)
      cases v with
      | frameOver => cases hw
      | _ => cases hv
  | ended _ hc =>
    have := congrArg List.length hc
    simp only [List.length_cons, List.length_append] at this
    omega

/-- **Frames are run until nothing waits or there have been enough.** -/
theorem Course.idled {most : Nat} (h : Course manners (c :: (later ++ b :: earlier)))
    (hb : b.agenda = .cue (.runUntilIdle most) :: outer) (hover : ∀ d ∈ later, d.awaits outer) (hc : c.agenda = outer) :
    c.stage.answer = .count (ticks outer later) ∧ ticks outer later ≤ most ∧
      (ticks outer later < most → c.stage.frames.waiting = []) := by
  have hidles := h.idling hb hover
  rw [ticks_cons, first?_of_length (by rw [hc]; omega)] at hidles
  cases hidles with
  | running _ heq =>
    have := congrArg List.length (hc.symm.trans heq)
    simp only [List.length_cons] at this
    omega
  | inside _ hinside =>
    rcases hinside with heq | ⟨ts, u, -, heq⟩
    · have := congrArg List.length (hc.symm.trans heq)
      simp at this
    · have := congrArg List.length (hc.symm.trans heq)
      simp only [List.length_append, List.length_cons] at this
      omega
  | ended hn _ hanswer hidle => exact ⟨hanswer, hn, hidle⟩

end

/-- **Frames lose nothing, and run nothing early or twice.**  Whatever the calls of a frame do, to schedule others or to
run frames themselves:
- A frame that is over has made the calls that waited when it began, in their order and no others, and answers their
  number, and how many frames have begun before it.
- Each time a call of a frame is made, the frame began when the call was waiting; no call is made twice; and each that
  was ever scheduled has been taken by a frame or still waits.
- A run of frames that is over answers how many it has run itself, which are not more than were wanted, and less only if
  nothing waits any more. -/
theorem frames_nest {manners : Manners} {c : Config} {past : List Config} (h : Course manners (c :: past)) :
    (∀ later b earlier outer, past = later ++ b :: earlier → b.agenda = .tick :: outer → (∀ d ∈ later, d.awaits outer) →
      c.agenda = outer → pool.calls outer later = b.stage.frames.waiting ∧
        c.stage.answer = .frame (UInt64.ofNat (begun earlier)) (pool.calls outer later).length) ∧
    (∀ call rest, c.agenda = .callFrame call :: rest → ∃ k, pool.Serves k call (c :: past)) ∧
    (∀ k call call' cs cs', cs <:+ c :: past → cs' <:+ c :: past → pool.Serves k call cs → pool.Serves k call' cs' →
      cs = cs') ∧
    pool.entered past = pool.drawn past ++ c.stage.frames.waiting ∧
    ∀ later b earlier outer most, past = later ++ b :: earlier → b.agenda = .cue (.runUntilIdle most) :: outer →
      (∀ d ∈ later, d.awaits outer) → c.agenda = outer → c.stage.answer = .count (ticks outer later) ∧
        ticks outer later ≤ most ∧ (ticks outer later < most → c.stage.frames.waiting = []) := by
  refine ⟨?_, fun call rest hc => h.exists_scheduled hc, ?_, Tick.sound_pool.entered_eq h, ?_⟩
  · rintro later b earlier outer rfl hb hover hc
    exact h.ticked hb hover hc
  · exact fun k call call' cs cs' hcs hcs' => Tick.sound_pool.serves_once h hcs hcs'
  · rintro later b earlier outer most rfl hb hover hc
    exact h.idled hb hover hc

/-- A call for the next frame schedules another one and runs a frame itself; a third one waits beside it.  Frames are to
be run, five at most. -/
def reeled : List Config :=
  Course.play 0 ([.nextFrame "a" [.nextFrame "b" [], .tick], .nextFrame "c" []].foldl (Course.play 40) [⟨.opened {}, []⟩])
    (.runUntilIdle 5)

/-- The frame inside the first one makes the call that was scheduled there, so one frame is enough. -/
theorem frames_nest_reeled : ∃ c later b earlier, Course.passed 60 b ++ reeled = c :: (later ++ b :: earlier) ∧
    c.agenda = [] ∧ ticks [] later = 1 ∧ c.stage.answer = .count 1 ∧ c.stage.frames.waiting = [] := by
  obtain ⟨c, later, b, earlier, hb, hpassed, hagenda, hc, hover, hone⟩ : ∃ c later b earlier, reeled = b :: earlier ∧
      Course.passed 60 b = c :: later ∧ b.agenda = [.cue (.runUntilIdle 5)] ∧ c.agenda = [] ∧
      later.all (fun d => !d.agenda.isEmpty) = true ∧ ticks [] later = 1 :=
    ⟨_, _, _, _, rfl, rfl, rfl, rfl, rfl, rfl⟩
  have hbcourse : Course {} (b :: earlier) := hb ▸ Course.play_course 0 (Course.plays {} 40 _ .opened) _
  have hcourse : Course {} (c :: (later ++ b :: earlier)) := by
    have := hbcourse.run 60
    rwa [hpassed] at this
  obtain ⟨hanswer, -, hidle⟩ :=
    (frames_nest hcourse).2.2.2.2 later b earlier [] 5 rfl hagenda (Config.awaits_nil hover) hc
  exact ⟨c, later, b, earlier, by rw [hpassed, hb]; rfl, hc, hone, hone ▸ hanswer, hidle (by omega)⟩

end Stagecraft
