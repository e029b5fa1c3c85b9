import Stagecraft.Motion.Reader
import Stagecraft.Proofs.Grammar.Tiled
/-!
# Motions clause by clause

A motion text is a list of clauses, and words that belong to none of them may stray in between.  Where a clause ends is
seen from the word behind it, for some parameters may be left out; but neither a word that opens a clause nor a stray one
could be such a parameter.  So the clauses that were written are those that are read.  Each says something of one
attribute at most, and clauses about different attributes may stand in any order.
-/
namespace Stagecraft

open Text

/-! ## Words set apart -/

/-- The words stand in the text in this order, set apart by blanks and colons. -/
def Text.Spaced : List String → List Char → Prop
  | [], cs => ∀ c ∈ cs, Separates c
  | u :: us, cs => ∃ gap rest, cs = gap ++ (u.toList ++ rest) ∧ (∀ c ∈ gap, Separates c) ∧ IsWord u.toList ∧
      Breaks rest ∧ Spaced us rest

namespace Token

def texts (ts : List Token) : List String := (ts.filterMap word?).map Word.text

theorem texts_push {c : Char} (hc : Separates c) (n : Nat) (ts : List Token) : texts (push c n ts) = texts ts := by
  unfold push
  split
  · rfl
  · rename_i hcolon
    rw [if_pos (hc.resolve_right hcolon)]
    split <;> rfl

/-- What is between words does not change them. -/
theorem texts_scan_append {gap : List Char} (hgap : ∀ c ∈ gap, Separates c) (cs : List Char) :
    ∀ n, ∃ m, texts (scan n (gap ++ cs)) = texts (scan m cs) := by
  induction gap with
  | nil => exact fun n => ⟨n, rfl⟩
  | cons c gap ih =>
    intro n
    rw [List.cons_append, scan, texts_push (hgap c List.mem_cons_self)]
    exact ih (fun d hd => hgap d (List.mem_cons_of_mem _ hd)) _

/-- **Words that are set apart are the words of the text.** -/
theorem texts_of_spaced : ∀ {us : List String} {cs : List Char}, Spaced us cs → ∀ n, texts (scan n cs) = us
  | [], cs, h, n => by
    obtain ⟨m, hm⟩ := texts_scan_append h [] n
    rw [← List.append_nil cs, hm]
    rfl
  | u :: us, cs, ⟨gap, rest, hcs, hgap, hu, hrest, h⟩, n => by
    obtain ⟨m, hm⟩ := texts_scan_append hgap (u.toList ++ rest) n
    rw [hcs, hm, scan_word hu hrest]
    change String.ofList u.toList :: texts (scan _ rest) = u :: us
    rw [String.ofList_toList, texts_of_spaced h]

end Token

/-! ## What a list of clauses says -/

/-- What a clause of a motion may be about. -/
inductive Motion.Attribute
  | enter
  | moves
  | duration
  | delay
  | easing
  | scaling
  | twist
  deriving DecidableEq, Repr

/-- What a clause is about; an `enter` that names no side says nothing. -/
def MotionClause.attribute : MotionClause → Option Motion.Attribute
  | .enter none => none
  | .enter (some _) => some .enter
  | .move _ => some .moves
  | .over _ => some .duration
  | .after _ => some .delay
  | .ease _ => some .easing
  | .scale _ => some .scaling
  | .twist _ => some .twist

namespace Motion

/-- All moves in order, and of everything else what is said last. -/
def told (cs : List MotionClause) : Motion where
  enter := (cs.filterMap fun | .enter side => side | _ => none).getLast?
  moves := cs.filterMap fun | .move v => some v | _ => none
  duration := (cs.filterMap fun | .over t => some t | _ => none).getLast?
  delay := (cs.filterMap fun | .after t => some t | _ => none).getLast?
  easing := (cs.filterMap fun | .ease e => some e | _ => none).getLast?
  scaling := (cs.filterMap fun | .scale s => some s | _ => none).getLast?
  twist := (cs.filterMap fun | .twist t => some t | _ => none).getLast?

theorem told_append (cs : List MotionClause) (c : MotionClause) : told (cs ++ [c]) = (told cs).add c := by
  cases c with
  | enter side => cases side <;> simp [told, add]
  | _ => simp [told, add]

theorem ofClauses_eq_told (cs : List MotionClause) : ofClauses cs = told cs := by
  induction cs using List.reverseRecOn with
  | nil => rfl
  | append_singleton cs c ih => rw [ofClauses_append, ih, told_append, List.foldl_cons, List.foldl_nil]

/-- The clauses about one attribute, in order. -/
def about (a : Attribute) (cs : List MotionClause) : List MotionClause := cs.filter fun c => c.attribute = some a

theorem filterMap_about {α : Type} {a : Attribute} {f : MotionClause → Option α}
    (hf : ∀ c, c.attribute ≠ some a → f c = none) (cs : List MotionClause) : (about a cs).filterMap f = cs.filterMap f := by
  rw [about, List.filterMap_filter]
  refine congrArg (List.filterMap · cs) (funext fun c => ?_)
  by_cases hc : c.attribute = some a
  · rw [if_pos (decide_eq_true hc)]
  · rw [if_neg (by simpa using hc), hf c hc]

/-- **Clauses about different attributes may stand in any order.** -/
theorem told_congr {cs ds : List MotionClause} (h : ∀ a, about a cs = about a ds) : told cs = told ds := by
  have hsame : ∀ {α : Type} (a : Attribute) (f : MotionClause → Option α),
      (∀ c, c.attribute ≠ some a → f c = none) → cs.filterMap f = ds.filterMap f := fun a f hf => by
    rw [← filterMap_about hf, h, filterMap_about hf]
  simp only [told, Motion.mk.injEq]
  refine ⟨congrArg _ (hsame .enter _ ?_), hsame .moves _ ?_, congrArg _ (hsame .duration _ ?_),
    congrArg _ (hsame .delay _ ?_), congrArg _ (hsame .easing _ ?_), congrArg _ (hsame .scaling _ ?_),
    congrArg _ (hsame .twist _ ?_)⟩
  all_goals
    rintro ((_ | side) | v | t | t | e | s | t) hc
    all_goals first | rfl | exact absurd rfl hc

/-! ## How clauses are written -/

/-- What a parameter that may be left out is written as. -/
inductive Given {α : Type} (f : String → Option α) : Option α → List String → Prop
  | absent : Given f none []
  | present {a : α} {u : String} : f u = some a → Given f (some a) [u]

/-- The words that open a clause. -/
def openers : List String := ["enter", "move", "over", "after", "wait", "ease", "easing", "scale", "twist"]

/-- A word that opens no clause and that no clause could take. -/
def Strays (u : String) : Prop := u ∉ openers ∧ Side.parse? u = none ∧ Length.parse? u = none

/-- The words that a clause is written with; or a word of no clause. -/
inductive Phrase : Option MotionClause → List String → Prop
  | enter {side : Option Side} {us : List String} : Given Side.parse? side us → Phrase (some (.enter side)) ("enter" :: us)
  | move {side : Option Side} {distance : Option Length} {us vs : List String} : Given Side.parse? side us →
      Given Length.parse? distance vs → (side.isSome || distance.isSome) = true →
        Phrase (some (.move ⟨side, distance⟩)) ("move" :: (us ++ vs))
  | during {t : Seconds} {u : String} : Seconds.parse? u = some t → Phrase (some (.over t)) ["over", u]
  | after {t : Seconds} {k u : String} : k = "after" ∨ k = "wait" → Seconds.parse? u = some t →
      Phrase (some (.after t)) [k, u]
  | ease {e : Easing} {k u : String} : k = "ease" ∨ k = "easing" → Easing.parse? u = some e →
      Phrase (some (.ease e)) [k, u]
  | scale {direction : Option ScaleDirection} {power : Binary32} {us : List String} {u : String} :
      Given ScaleDirection.parse? direction us → power? u = some power →
        Phrase (some (.scale ⟨direction, power⟩)) ("scale" :: (us ++ [u]))
  | twist {side : Side} {angle : Degrees} {u v : String} : u = side.word → side.isVertical = false →
      Degrees.parse? v = some angle → Phrase (some (.twist ⟨side, angle⟩)) ["twist", u, v]
  | stray {u : String} : Strays u → Phrase none [u]

/-- A clause as it is written, or a word that strays. -/
structure Passage where
  clause : Option MotionClause
  texts : List String
  phrase : Phrase clause texts

/-! ## How clauses are read -/

section
variable {α : Type} {f : String → Option α}

/-- A parameter is read if it is given, and no other word is taken for it. -/
theorem param?_given {a : Option α} {us : List String} (h : Given f a us) {ws rest : List Word} (hws : ws.map Word.text = us)
    (hrest : a = none → ∀ w ∈ rest.head?, f w.text = none) : param? f (ws ++ rest) = (a, ws.length) := by
  cases h with
  | absent =>
    rw [List.map_eq_nil_iff.1 hws]
    cases rest with
    | nil => rfl
    | cons w rest => simp only [List.nil_append, param?, hrest rfl w rfl, List.length_nil]
  | present ha =>
    obtain ⟨w, rfl, rfl⟩ := List.map_eq_singleton_iff.1 hws
    simp only [List.singleton_append, param?, ha, List.length_singleton]

/-- A parameter that is given is none of another kind. -/
theorem head_given {β : Type} {g : String → Option β} {b : Option β} {us : List String} (h : Given g b us)
    (hother : ∀ {u b}, g u = some b → f u = none) {ws rest : List Word} (hws : ws.map Word.text = us)
    (hrest : ∀ w ∈ rest.head?, f w.text = none) : ∀ w ∈ (ws ++ rest).head?, f w.text = none := by
  cases h with
  | absent =>
    rw [List.map_eq_nil_iff.1 hws]
    exact hrest
  | present hb =>
    obtain ⟨v, rfl, rfl⟩ := List.map_eq_singleton_iff.1 hws
    intro w hw
    obtain rfl := Option.some.inj hw
    exact hother hb

theorem required_given {mean : α → MotionClause} {fault : Fault} {a : α} {u : String} (h : f u = some a) {w v : Word}
    (hv : v.text = u) (rest : List Word) : required f mean fault w (v :: rest) = (.meant (mean a), 1) := by
  rw [← hv] at h
  simp only [required, param?, h]

end

/-- What stands behind a clause is none of the parameters that may be left out. -/
def Ends (rest : List Word) : Prop := ∀ w ∈ rest.head?, Side.parse? w.text = none ∧ Length.parse? w.text = none

/-- No length is a side. -/
theorem side_eq_none_of_length {u : String} {l : Length} (h : Length.parse? u = some l) : Side.parse? u = none := by
  unfold Side.parse?
  split
  all_goals first | rfl | exact absurd (Option.isSome_of_eq_some h) (by decide)

theorem direction_eq_none_of_power {u : String} {x : Binary32} (h : power? u = some x) :
    ScaleDirection.parse? u = none := by
  unfold ScaleDirection.parse?
  split
  all_goals first | rfl | exact absurd (Option.isSome_of_eq_some h) (by decide)

theorem Phrase.ne_nil {c : Option MotionClause} {us : List String} (h : Phrase c us) : us ≠ [] := by
  cases h <;> exact List.cons_ne_nil _ _

/-- What a phrase is read as. -/
def Phrase.reading (c : Option MotionClause) (ws : List Word) : Reading MotionClause :=
  ⟨c, if c.isNone then ws.map (Diagnostic.skipping · .unknownMotion) else []⟩

theorem readClause_stray {w : Word} (h : Strays w.text) (ws : List Word) :
    readClause w ws = (.skip w .unknownMotion, 0) := by
  unfold readClause
  split
  all_goals first | rfl | (rename_i heq; rw [heq] at h; exact absurd (by decide) h.1)

/-- **A clause is read as it is written**, whatever ends it. -/
theorem readClause_phrase {c : Option MotionClause} {us : List String} (h : Phrase c us) {w : Word} {ws rest : List Word}
    (hws : (w :: ws).map Word.text = us) (hrest : Ends rest) :
    readClause w (ws ++ rest) = (Phrase.reading c (w :: ws), ws.length) := by
  have hside := fun v hv => (hrest v hv).1
  have hlength := fun v hv => (hrest v hv).2
  cases h with
  | enter hs =>
    obtain ⟨hw, hws⟩ := List.cons.inj hws
    simp only [readClause, hw, param?_given hs hws fun _ => hside]
    rfl
  | @move side distance us vs hs hd hgiven =>
    obtain ⟨hw, hws⟩ := List.cons.inj hws
    obtain ⟨ss, ls, rfl, hss, hls⟩ := List.map_eq_append_iff.1 hws
    have hfirst : param? Side.parse? (ss ++ (ls ++ rest)) = (side, ss.length) :=
      param?_given hs hss fun _ => head_given hd side_eq_none_of_length hls hside
    have hsecond : param? Length.parse? (ls ++ rest) = (distance, ls.length) := param?_given hd hls fun _ => hlength
    have hnot : ¬ (side.isNone && distance.isNone) = true := by
      cases side <;> cases distance <;> first | exact Bool.false_ne_true | cases hgiven
    simp only [readClause, hw, readMove, List.append_assoc, hfirst, List.drop_left, hsecond, if_neg hnot,
      List.length_append]
    rfl
  | during ht =>
    obtain ⟨hw, hws⟩ := List.cons.inj hws
    obtain ⟨v, rfl, hv⟩ := List.map_eq_singleton_iff.1 hws
    simp only [readClause, hw, List.singleton_append, required_given ht hv]
    rfl
  | after hk ht =>
    obtain ⟨hw, hws⟩ := List.cons.inj hws
    obtain ⟨v, rfl, hv⟩ := List.map_eq_singleton_iff.1 hws
    rcases hk with rfl | rfl <;> simp only [readClause, hw, List.singleton_append, required_given ht hv] <;> rfl
  | ease hk he =>
    obtain ⟨hw, hws⟩ := List.cons.inj hws
    obtain ⟨v, rfl, hv⟩ := List.map_eq_singleton_iff.1 hws
    rcases hk with rfl | rfl <;> simp only [readClause, hw, List.singleton_append, required_given he hv] <;> rfl
  | @scale direction power us u hd hp =>
    obtain ⟨hw, hws⟩ := List.cons.inj hws
    obtain ⟨ds, ps, rfl, hds, hps⟩ := List.map_eq_append_iff.1 hws
    obtain ⟨v, rfl, rfl⟩ := List.map_eq_singleton_iff.1 hps
    have hfirst : param? ScaleDirection.parse? (ds ++ v :: rest) = (direction, ds.length) := by
      refine param?_given hd hds fun _ w hw => ?_
      obtain rfl := Option.some.inj hw
      exact direction_eq_none_of_power hp
    have hsecond : param? power? (v :: rest) = (some power, 1) := by simp only [param?, hp]
    simp only [readClause, hw, readScale, List.append_assoc, List.singleton_append, hfirst, List.drop_left, hsecond,
      List.length_append]
    rfl
  | @twist side angle u v hu hs ha =>
    obtain ⟨hw, hws⟩ := List.cons.inj hws
    obtain ⟨x, ws, rfl, hx, hws⟩ := List.map_eq_cons_iff.1 hws
    obtain ⟨y, rfl, rfl⟩ := List.map_eq_singleton_iff.1 hws
    have hturn : turn? x.text = some side := by
      rw [hx, hu]
      cases side with
      | left | right => rfl
      | top | bottom => cases hs
    simp only [readClause, hw, readTwist, List.cons_append, List.nil_append, param?, hturn, List.drop_succ_cons,
      List.drop_zero, ha]
    rfl
  | stray hu =>
    obtain ⟨hw, hws⟩ := List.cons.inj hws
    rw [← hw] at hu
    rw [List.map_eq_nil_iff.1 hws, readClause_stray hu]
    rfl

/-! ## Texts of clauses and stray words -/

/-- For each word of the passages, whether it strays. -/
def strays (ps : List Passage) : List Bool := ps.flatMap fun p => p.texts.map fun _ => p.clause.isNone

/-- What is reported of the words that stray. -/
def reported (ws : List Word) (marks : List Bool) : List Diagnostic :=
  (ws.zip marks).filterMap fun (w, stray) => if stray then some (.skipping w .unknownMotion) else none

theorem reported_append {ws vs : List Word} {ms ns : List Bool} (h : ws.length = ms.length) :
    reported (ws ++ vs) (ms ++ ns) = reported ws ms ++ reported vs ns := by
  rw [reported, List.zip_append h, List.filterMap_append]
  rfl

theorem reported_const (stray : Bool) (ws : List Word) (us : List String) (h : ws.map Word.text = us) :
    reported ws (us.map fun _ => stray) = if stray then ws.map (Diagnostic.skipping · .unknownMotion) else [] := by
  subst h
  induction ws with
  | nil => cases stray <;> rfl
  | cons w ws ih =>
    change reported ([w] ++ ws) ([stray] ++ (ws.map Word.text).map fun _ => stray) = _
    rw [reported_append rfl, ih]
    cases stray <;> rfl

/-- No passage begins with a word that the one before it could take. -/
theorem ends_of_passages {ps : List Passage} {ws : List Word} (hws : ws.map Word.text = ps.flatMap Passage.texts) :
    Ends ws := by
  intro w hw
  cases ps with
  | nil =>
    rw [List.map_eq_nil_iff.1 hws] at hw
    cases hw
  | cons p ps =>
    obtain ⟨ws, rfl⟩ : ∃ vs, ws = w :: vs := by
      cases ws with
      | nil => cases hw
      | cons v vs => exact ⟨vs, by rw [Option.some.inj hw]⟩
    obtain ⟨c, us, hp⟩ := p
    rw [List.map_cons, List.flatMap_cons] at hws
    cases hp with
    | enter | move | during | scale | twist =>
      rw [(List.cons.inj hws).1]
      decide
    | after hk | ease hk =>
      rw [(List.cons.inj hws).1]
      rcases hk with rfl | rfl <;> decide
    | stray hu =>
      rw [(List.cons.inj hws).1]
      exact hu.2

/-- **Every passage is read by itself**: its clause counts, and its words are reported if it is none. -/
theorem clauses_passages : ∀ {ps : List Passage} {ws : List Word}, ws.map Word.text = ps.flatMap Passage.texts →
    Reading.meanings (Reading.clauses readClause ws) = ps.filterMap Passage.clause ∧
    Reading.diagnostics (Reading.clauses readClause ws) = reported ws (strays ps)
  | [], ws, hws => by
    rw [List.map_eq_nil_iff.1 hws]
    exact ⟨rfl, rfl⟩
  | ⟨c, us, hp⟩ :: ps, ws, hws => by
    rw [List.flatMap_cons] at hws
    obtain ⟨front, rest, rfl, hfront, hrest⟩ := List.map_eq_append_iff.1 hws
    obtain ⟨w, vs, rfl⟩ : ∃ w vs, front = w :: vs := by
      refine List.exists_cons_of_ne_nil ?_
      rintro rfl
      exact hp.ne_nil hfront.symm
    obtain ⟨ihmeanings, ihdiagnostics⟩ := clauses_passages hrest
    have hread : Reading.clauses readClause (w :: vs ++ rest) =
        Phrase.reading c (w :: vs) :: Reading.clauses readClause rest := by
      rw [List.cons_append, Reading.clauses_cons, readClause_phrase hp hfront (ends_of_passages hrest), List.drop_left]
    have hlength : (w :: vs).length = us.length := (List.length_map Word.text).symm.trans (congrArg List.length hfront)
    rw [hread]
    constructor
    · rw [Reading.meanings, List.filterMap_cons, List.filterMap_cons, ← ihmeanings]
      rfl
    · rw [strays, List.flatMap_cons, reported_append (by rw [List.length_map, hlength]), reported_const _ _ _ hfront,
        Reading.diagnostics, List.flatMap_cons]
      exact congrArg _ ihdiagnostics

/-- The words that name the kind of an effect and mean nothing more. -/
def NamesKind (u : String) : Prop := u = "transform" ∨ u = "animate"

/-- The word in front is left out if it names the kind of the effect. -/
theorem body_eq_drop {ws : List Word} {kind : Option String} {us : List String} (hws : ws.map Word.text = kind.toList ++ us)
    (hkind : ∀ u ∈ kind, NamesKind u) (hfirst : kind = none → ∀ u ∈ us.head?, ¬ NamesKind u) :
    body ws = ws.drop kind.toList.length := by
  have hif : ∀ w : Word, (w.text = "transform" || w.text = "animate") = true ↔ NamesKind w.text := fun w => by
    rw [Bool.or_eq_true, decide_eq_true_eq, decide_eq_true_eq, NamesKind]
  cases ws with
  | nil => exact List.drop_nil.symm
  | cons w ws =>
    cases kind with
    | none =>
      have hw : us.head? = some w.text := by rw [← show _ = us from hws, List.map_cons, List.head?_cons]
      rw [body, if_neg fun h => hfirst rfl _ hw ((hif w).1 h)]
      rfl
    | some u =>
      obtain ⟨hw, -⟩ := List.cons.inj hws
      rw [body, if_pos ((hif w).2 (hw ▸ hkind u rfl))]
      rfl

/-- **A motion text is the fold of its clauses**, whatever sets its words apart and wherever words stray between clauses:
all moves count, in order, and of everything else what is said last.  Just the stray words are reported, one by one.  So
the order matters only among clauses about the same attribute. -/
theorem motion_is_fold_of_clauses {src : String} {kind : Option String} {ps : List Passage}
    (hkind : ∀ u ∈ kind, NamesKind u)
    (hfirst : kind = none → ∀ u ∈ (ps.flatMap Passage.texts).head?, ¬ NamesKind u)
    (hsrc : Spaced (kind.toList ++ ps.flatMap Passage.texts) src.toList) :
    let cs := ps.filterMap Passage.clause
    parse src = ofClauses cs ∧ ofClauses cs = told cs ∧
    diagnostics src = reported ((Token.wordsOf src).drop kind.toList.length) (strays ps) ∧
    ∀ ds, (∀ a, about a ds = about a cs) → ofClauses ds = parse src := by
  have hwords : (Token.wordsOf src).map Word.text = kind.toList ++ ps.flatMap Passage.texts := Token.texts_of_spaced hsrc 0
  have hbody : body (Token.wordsOf src) = (Token.wordsOf src).drop kind.toList.length :=
    body_eq_drop hwords hkind hfirst
  have hrest : ((Token.wordsOf src).drop kind.toList.length).map Word.text = ps.flatMap Passage.texts := by
    rw [List.map_drop, hwords, List.drop_left]
  obtain ⟨hmeanings, hdiagnostics⟩ := clauses_passages hrest
  have hparse : parse src = ofClauses (ps.filterMap Passage.clause) := by
    rw [parse, readings, hbody, hmeanings]
  refine ⟨hparse, ofClauses_eq_told _, ?_, fun ds h => ?_⟩
  · rw [diagnostics, readings, hbody, hdiagnostics]
  · rw [hparse, ofClauses_eq_told, ofClauses_eq_told, told_congr h]

/-- The `enter` takes no side, for the word behind it strays. -/
theorem motion_is_fold_of_clauses_astray :
    parse "animate:enter fast move left" = ofClauses [.move ⟨some .left, none⟩, .enter none] ∧
    diagnostics "animate:enter fast move left" = [⟨14, "fast", .unknownMotion⟩] := by
  have hspace : ∀ c ∈ [' '], Separates c := List.forall_mem_singleton.2 (by decide)
  have hcolon : ∀ c ∈ [':'], Separates c := List.forall_mem_singleton.2 (by decide)
  have hspaced : Spaced ["animate", "enter", "fast", "move", "left"] "animate:enter fast move left".toList :=
    ⟨[], ":enter fast move left".toList, rfl, nofun, by decide, by decide,
      [':'], " fast move left".toList, rfl, hcolon, by decide, by decide,
      [' '], " move left".toList, rfl, hspace, by decide, by decide,
      [' '], " left".toList, rfl, hspace, by decide, by decide,
      [' '], [], rfl, hspace, by decide, by decide, nofun⟩
  obtain ⟨hparse, -, hdiagnostics, horder⟩ := @motion_is_fold_of_clauses "animate:enter fast move left" (some "animate")
    [⟨_, _, .enter .absent⟩, ⟨_, ["fast"], .stray ⟨by decide, by decide, by decide⟩⟩,
      ⟨_, _, .move (.present (a := Side.left) (u := "left") rfl) .absent rfl⟩]
    (fun _ hu => .inr (Option.some.inj hu).symm) nofun hspaced
  refine ⟨(horder _ fun a => ?_).symm, hdiagnostics.trans (by decide)⟩
  cases a <;> rfl

end Motion
end Stagecraft
