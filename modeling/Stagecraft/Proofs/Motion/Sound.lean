import Stagecraft.Motion.Reader
import Stagecraft.Proofs.Binary32.Order
import Stagecraft.Proofs.State.Entry
/-!
# Values that a motion can have

Whatever a motion text says, the numbers in it are finite, and what is twisted is twisted to the left or to the right.  For
a word that stands for no such value is no parameter, and the clause it was meant for is skipped.
-/
namespace Stagecraft

/-! ## Words that are read as values -/

theorem Quantity.isFinite_of_split? {u unit : String} {x : Binary32} (h : split? u = some (x, unit)) :
    x.isFinite = true := by
  unfold split? at h
  split at h
  · split at h
    · rename_i hfinite
      cases h
      exact hfinite
    · cases h
  · cases h

theorem Length.isFinite_of_parse? {u : String} {l : Length} (h : parse? u = some l) : l.value.isFinite = true := by
  unfold parse? at h
  split at h
  · rename_i x suffix hsplit
    obtain ⟨unit, -, rfl⟩ := Option.map_eq_some_iff.1 h
    exact Quantity.isFinite_of_split? hsplit
  · cases h

/-- A unit of time makes a number smaller or leaves it as it is. -/
theorem Seconds.isFinite_of_parse? {u : String} {t : Seconds} (h : parse? u = some t) : t.value.isFinite = true := by
  unfold parse? at h
  split at h
  · rename_i x suffix hsplit
    split at h
    · rename_i d hd
      have hpos : 0 < d := by
        unfold divisor? at hd
        split at hd <;> cases hd <;> decide
      simp only at h
      split at h
      · cases h
        exact Binary32.isFinite_scale (Quantity.isFinite_of_split? hsplit) hpos hpos
      · cases h
    · cases h
  · cases h

theorem Degrees.isFinite_of_parse? {u : String} {a : Degrees} (h : parse? u = some a) : a.value.isFinite = true := by
  unfold parse? at h
  split at h
  · rename_i x suffix hsplit
    split at h
    · cases h
      exact Quantity.isFinite_of_split? hsplit
    · cases h
  · cases h

theorem isFinite_of_power? {u : String} {x : Binary32} (h : power? u = some x) : x.isFinite = true := by
  unfold power? at h
  split at h
  · rename_i x' suffix hsplit
    split at h
    · cases h
      exact Quantity.isFinite_of_split? hsplit
    · cases h
  · cases h

/-! ## Clauses -/

/-- The numbers of a clause are finite, and a twist has one of its two sides. -/
def MotionClause.Sound : MotionClause → Prop
  | .enter _ => True
  | .move v => ∀ l ∈ v.distance, l.value.isFinite = true
  | .over t => t.value.isFinite = true
  | .after t => t.value.isFinite = true
  | .ease _ => True
  | .scale s => s.power.isFinite = true
  | .twist t => t.angle.value.isFinite = true ∧ t.side.isVertical = false

namespace Motion

/-- A parameter has been read from a word. -/
theorem exists_of_param? {α : Type} {f : String → Option α} {ws : List Word} {a : α} {n : Nat}
    (h : param? f ws = (some a, n)) : ∃ u, f u = some a := by
  cases ws with
  | nil => cases h
  | cons w ws =>
    unfold param? at h
    simp only at h
    split at h
    · rename_i a' ha
      cases h
      exact ⟨w.text, ha⟩
    · cases h

theorem exists_of_required {α : Type} {f : String → Option α} {mean : α → MotionClause} {fault : Fault} {w : Word}
    {ws : List Word} {c : MotionClause} (h : (required f mean fault w ws).1.clause = some c) :
    ∃ u a, f u = some a ∧ c = mean a := by
  unfold required at h
  split at h
  · rename_i a n hparam
    obtain ⟨u, hu⟩ := exists_of_param? hparam
    cases h
    exact ⟨u, a, hu, rfl⟩
  · cases h

theorem sound_readMove {w : Word} {ws : List Word} {c : MotionClause} (h : (readMove w ws).1.clause = some c) :
    c.Sound := by
  unfold readMove at h
  simp only at h
  split at h
  · cases h
  · cases h
    intro l hl
    obtain ⟨u, hu⟩ := exists_of_param? (Prod.ext (Option.mem_def.1 hl) rfl)
    exact Length.isFinite_of_parse? hu

theorem sound_readScale {w : Word} {ws : List Word} {c : MotionClause} (h : (readScale w ws).1.clause = some c) :
    c.Sound := by
  unfold readScale at h
  simp only at h
  split at h
  · rename_i power n hparam
    obtain ⟨u, hu⟩ := exists_of_param? hparam
    cases h
    exact isFinite_of_power? hu
  · cases h

theorem sound_readTwist {w : Word} {ws : List Word} {c : MotionClause} (h : (readTwist w ws).1.clause = some c) :
    c.Sound := by
  unfold readTwist at h
  split at h
  · cases h
  · rename_i side i hside
    obtain ⟨v, hv⟩ := exists_of_param? hside
    split at h
    · rename_i angle j hangle
      obtain ⟨u, hu⟩ := exists_of_param? hangle
      cases h
      have hturn := (Option.filter_eq_some_iff.1 hv).2
      exact ⟨Degrees.isFinite_of_parse? hu, by simpa using hturn⟩
    · cases h

theorem sound_readClause {w : Word} {ws : List Word} {c : MotionClause} (h : (readClause w ws).1.clause = some c) :
    c.Sound := by
  unfold readClause at h
  split at h
  · cases h
    exact trivial
  · obtain ⟨u, t, hu, rfl⟩ := exists_of_required h
    exact Seconds.isFinite_of_parse? hu
  · obtain ⟨u, t, hu, rfl⟩ := exists_of_required h
    exact Seconds.isFinite_of_parse? hu
  · obtain ⟨u, t, hu, rfl⟩ := exists_of_required h
    exact Seconds.isFinite_of_parse? hu
  · obtain ⟨u, e, -, rfl⟩ := exists_of_required h
    exact trivial
  · obtain ⟨u, e, -, rfl⟩ := exists_of_required h
    exact trivial
  · exact sound_readMove h
  · exact sound_readScale h
  · exact sound_readTwist h
  · cases h

/-! ## Motions -/

/-- The numbers of a motion are finite, and a twist has one of its two sides. -/
structure Sound (m : Motion) : Prop where
  distance : ∀ v ∈ m.moves, ∀ l ∈ v.distance, l.value.isFinite = true
  duration : ∀ t ∈ m.duration, t.value.isFinite = true
  delay : ∀ t ∈ m.delay, t.value.isFinite = true
  power : ∀ s ∈ m.scaling, s.power.isFinite = true
  angle : ∀ t ∈ m.twist, t.angle.value.isFinite = true
  turn : ∀ t ∈ m.twist, t.side.isVertical = false

theorem sound_empty : ({} : Motion).Sound where
  distance := nofun
  duration := nofun
  delay := nofun
  power := nofun
  angle := nofun
  turn := nofun

theorem Sound.add {m : Motion} (hm : m.Sound) : ∀ {c : MotionClause}, c.Sound → (m.add c).Sound
  | .enter _, _ => { hm with }
  | .move v, hc => by
    refine { hm with distance := fun u hu => ?_ }
    rcases List.mem_append.1 hu with hu | hu
    · exact hm.distance u hu
    · rw [List.mem_singleton.1 hu]
      exact hc
  | .over _, hc => { hm with duration := fun _ h => Option.some.inj h ▸ hc }
  | .after _, hc => { hm with delay := fun _ h => Option.some.inj h ▸ hc }
  | .ease _, _ => { hm with }
  | .scale _, hc => { hm with power := fun _ h => Option.some.inj h ▸ hc }
  | .twist _, hc =>
    { hm with angle := fun _ h => Option.some.inj h ▸ hc.1, turn := fun _ h => Option.some.inj h ▸ hc.2 }

theorem Sound.foldl_add {cs : List MotionClause} (hcs : ∀ c ∈ cs, c.Sound) : ∀ {m : Motion}, m.Sound →
    (cs.foldl Motion.add m).Sound := by
  induction cs with
  | nil => exact fun hm => hm
  | cons c cs ih =>
    intro m hm
    rw [List.foldl_cons]
    exact ih (fun d hd => hcs d (List.mem_cons_of_mem _ hd)) (hm.add (hcs c List.mem_cons_self))

/-- **No text describes a motion with an infinite number or a vertical twist.** -/
theorem sound_parse (src : String) : (parse src).Sound := by
  refine Sound.foldl_add (fun c hc => ?_) sound_empty
  obtain ⟨r, hr, hclause⟩ := List.mem_filterMap.1 hc
  obtain ⟨w, ws, -, rfl⟩ := Description.exists_of_mem_clauses hr
  exact sound_readClause hclause

theorem Sound.isFinite_distance {m : Motion} (hm : m.Sound) {l : Length} (h : m.distance = some l) :
    l.value.isFinite = true := by
  obtain ⟨v, hv, hl⟩ := List.exists_of_findSome?_eq_some h
  exact hm.distance v (List.mem_reverse.1 hv) l hl

end Motion
end Stagecraft
