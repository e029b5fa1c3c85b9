import Mathlib.Data.List.Infix
import Stagecraft.Proofs.State.Steps
import Stagecraft.State.Description
/-!
# The reaction to the entry

Whether a description has a reaction to the entry of its state is settled in two places.  A look ahead at the tokens
decides whether an empty one is put in front; which `on` opens a reaction is decided later, when the clauses are read.
Every clause that names the entry has been seen in the look ahead, but not all that is seen there is a clause.
-/
namespace Stagecraft

/-! ## The occasions of reactions -/

namespace Description

/-- The clauses that are read in a description. -/
def clausesOf (src : String) : List StateClause := Reading.meanings (readings (Token.ofText src))

/-- The reaction of the clauses before the first `on`. -/
def preamble (cs : List StateClause) : Reaction := Reaction.ofClauses .entry (sections cs).1

/-- The occasions that clauses name. -/
def occasions (cs : List StateClause) : List Occasion :=
  cs.filterMap fun
    | .on occasion => some occasion
    | _ => none

theorem mem_occasions {cs : List StateClause} {o : Occasion} : o ∈ occasions cs ↔ .on o ∈ cs := by
  rw [occasions, List.mem_filterMap]
  constructor
  · rintro ⟨c, hc, ho⟩
    cases c with
    | on occasion =>
      cases ho
      exact hc
    | goto | loop | effect => cases ho
  · exact fun h => ⟨_, h, rfl⟩

theorem map_fst_sections : ∀ cs : List StateClause, (sections cs).2.map Prod.fst = occasions cs
  | [] => rfl
  | .on o :: cs => congrArg (o :: ·) (map_fst_sections cs)
  | .goto _ :: cs => map_fst_sections cs
  | .loop _ :: cs => map_fst_sections cs
  | .effect _ :: cs => map_fst_sections cs

/-- A clause never changes the occasion of a reaction. -/
theorem on_add (r : Reaction) (c : StateClause) : (r.add c).on = r.on := by
  cases c with
  | on | goto | loop => rfl
  | effect text =>
    simp only [Reaction.add, Reaction.addEffect]
    split <;> rfl

theorem on_ofClauses (o : Occasion) (cs : List StateClause) : (Reaction.ofClauses o cs).on = o := by
  suffices h : ∀ r : Reaction, (cs.foldl Reaction.add r).on = r.on from h _
  induction cs with
  | nil => exact fun _ => rfl
  | cons c cs ih => exact fun r => (ih _).trans (on_add r c)

/-- The reactions after the preamble are one for each occasion that is named, in this order. -/
theorem reactionsOf_eq (entryNamed : Bool) (cs : List StateClause) : ∃ rest : List Reaction,
    rest.map Reaction.on = occasions cs ∧
      reactionsOf entryNamed cs = if entryNamed && !(preamble cs).isWritten then rest else preamble cs :: rest := by
  refine ⟨(sections cs).2.map fun e => Reaction.ofClauses e.1 e.2, ?_, rfl⟩
  rw [← map_fst_sections, List.map_map]
  exact List.map_congr_left fun e _ => on_ofClauses e.1 e.2

end Description

/-! ## Words cut from a text -/

/-- A word as it is cut from a text: some characters that are not blank, behind blanks. -/
structure Word.Solid (w : Word) : Prop where
  ne_nil : w.chars ≠ []
  chars : ∀ c ∈ w.chars, Text.isBlank c = false
  gap : ∀ c ∈ w.gap, Text.isBlank c = true

/-- The tokens of a text: a blank stands between any two words that follow each other, and the end comes last. -/
inductive Cut : List Token → Prop
  | stop (offset : Nat) : Cut [.stop offset]
  | colon (offset : Nat) {ts : List Token} : Cut ts → Cut (.colon offset :: ts)
  | word {w : Word} {ts : List Token} : w.Solid → (∀ v ts', ts = .word v :: ts' → v.gap ≠ []) → Cut ts →
      Cut (.word w :: ts)

namespace Cut

theorem push {c : Char} {offset : Nat} {ts : List Token} (h : Cut ts) : Cut (Token.push c offset ts) := by
  unfold Token.push
  split
  · exact .colon offset h
  split
  · rename_i hblank
    cases h with
    | stop n => exact .stop n
    | colon n h => exact .colon n h
    | word hw hgap h =>
      refine .word ⟨hw.ne_nil, hw.chars, fun d hd => ?_⟩ hgap h
      rcases List.mem_cons.1 hd with rfl | hd
      · exact hblank
      · exact hw.gap d hd
  · rename_i hblank
    have hblank : Text.isBlank c = false := by simpa using hblank
    split
    · -- the character joins the word behind it
      cases h with
      | word hw hgap h =>
        refine .word ⟨List.cons_ne_nil _ _, fun d hd => ?_, hw.gap⟩ hgap h
        rcases List.mem_cons.1 hd with rfl | hd
        · exact hblank
        · exact hw.chars d hd
    · rename_i hjoins
      have hsolid : Word.Solid ⟨[], [c], offset⟩ :=
        ⟨List.cons_ne_nil _ _, fun d hd => List.mem_singleton.1 hd ▸ hblank, fun d hd => by cases hd⟩
      refine .word hsolid (fun v ts' hts hgap => ?_) h
      obtain ⟨gap, chars, start⟩ := v
      obtain rfl : gap = [] := hgap
      exact hjoins chars start ts' hts

theorem scan : ∀ (cs : List Char) (offset : Nat), Cut (Token.scan offset cs)
  | [], offset => .stop offset
  | c :: cs, offset => (scan cs (offset + c.utf8Size)).push

/-- Without colons there are only words, up to the end. -/
theorem eq_words {ts : List Token} (h : Cut ts) (hcolon : ts.any Token.isColon = false) :
    ∃ offset, ts = (ts.filterMap Token.word?).map .word ++ [.stop offset] := by
  induction h with
  | stop n => exact ⟨n, rfl⟩
  | colon n h ih => cases hcolon
  | @word w ts hw hgap h ih =>
    obtain ⟨n, hn⟩ := ih hcolon
    exact ⟨n, congrArg (Token.word w :: ·) hn⟩

/-- What follows a token is cut, too, if anything follows. -/
theorem of_suffix {ts : List Token} (h : Cut ts) : ∀ {ts' : List Token}, ts' <:+ ts → ts' ≠ [] → Cut ts' := by
  have hstep : ∀ {t : Token} {ts ts' : List Token}, Cut (t :: ts) → (∀ {ts'}, ts' <:+ ts → ts' ≠ [] → Cut ts') →
      ts' <:+ t :: ts → ts' ≠ [] → Cut ts' := by
    rintro t ts ts' hcut ih hsuf hne
    rcases List.suffix_cons_iff.1 hsuf with rfl | hsuf
    · exact hcut
    · exact ih hsuf hne
  induction h with
  | stop n => exact hstep (.stop n) fun hsuf hne => absurd (List.suffix_nil.1 hsuf) hne
  | colon n h ih => exact hstep (.colon n h) ih
  | word hw hgap h ih => exact hstep (.word hw hgap h) ih

/-- Words that follow each other are solid, and there are blanks between them. -/
theorem words {ws : List Word} : ∀ {ts : List Token}, Cut ts → ws.map .word <+: ts →
    (∀ w ∈ ws, w.Solid) ∧ ∀ v ∈ ws.tail, v.gap ≠ [] := by
  induction ws with
  | nil => exact fun _ _ => ⟨fun _ h => (nomatch h), fun _ h => (nomatch h)⟩
  | cons w ws ih =>
    intro ts hcut hpre
    obtain ⟨rest, hrest⟩ := hpre
    rw [List.map_cons, List.cons_append] at hrest
    subst hrest
    cases hcut with
    | word hw hgap hcut =>
      obtain ⟨hsolid, htail⟩ := ih hcut (List.prefix_append _ _)
      refine ⟨List.forall_mem_cons.2 ⟨hw, hsolid⟩, ?_⟩
      cases ws with
      | nil => exact fun _ h => nomatch h
      | cons v ws => exact List.forall_mem_cons.2 ⟨hgap v _ rfl, htail⟩

end Cut

namespace Token

theorem runs_word (w : Word) (ts : List Token) : ∃ r rs, runs ts = r :: rs ∧ runs (.word w :: ts) = (w :: r) :: rs := by
  have hne : ∀ ts, runs ts ≠ []
    | [] => List.cons_ne_nil _ _
    | .stop _ :: _ => List.cons_ne_nil _ _
    | .colon _ :: _ => List.cons_ne_nil _ _
    | .word _ :: _ => by
      unfold runs
      split <;> exact List.cons_ne_nil _ _
  obtain ⟨r, rs, h⟩ := List.exists_cons_of_ne_nil (hne ts)
  exact ⟨r, rs, h, by rw [runs, h]⟩

/-- The words of a run follow each other in the tokens, and those of the first run stand in front. -/
theorem prefix_of_runs : ∀ {ts : List Token} {r : List Word} {rs : List (List Word)}, runs ts = r :: rs →
    r.map .word <+: ts ∧ ∀ r' ∈ rs, r'.map .word <:+: ts
  | [], r, rs, h => by
    cases h
    exact ⟨List.nil_prefix, fun _ h => nomatch h⟩
  | .stop _ :: ts, r, rs, h => by
    cases h
    exact ⟨List.nil_prefix, fun _ h => nomatch h⟩
  | .colon n :: ts, r, rs, h => by
    cases h
    obtain ⟨r', rs', hruns⟩ : ∃ r' rs', runs ts = r' :: rs' := by
      obtain ⟨r', rs', hruns, -⟩ := runs_word ⟨[], [], 0⟩ ts
      exact ⟨r', rs', hruns⟩
    obtain ⟨hfirst, hlater⟩ := prefix_of_runs hruns
    refine ⟨List.nil_prefix, fun r hr => ?_⟩
    rw [hruns] at hr
    rcases List.mem_cons.1 hr with rfl | hr
    · exact List.infix_cons hfirst.isInfix
    · exact List.infix_cons (hlater r hr)
  | .word w :: ts, r, rs, h => by
    obtain ⟨r', rs', hruns, hword⟩ := runs_word w ts
    obtain ⟨rfl, rfl⟩ := List.cons.inj (h.symm.trans hword)
    obtain ⟨hfirst, hlater⟩ := prefix_of_runs hruns
    exact ⟨List.cons_prefix_cons.2 ⟨rfl, hfirst⟩, fun r hr => List.infix_cons (hlater r hr)⟩

theorem infix_of_mem_runs {ts : List Token} {r : List Word} (h : r ∈ runs ts) : r.map .word <:+: ts := by
  obtain ⟨r', rs, hruns, -⟩ := runs_word ⟨[], [], 0⟩ ts
  obtain ⟨hfirst, hlater⟩ := prefix_of_runs hruns
  rw [hruns] at h
  rcases List.mem_cons.1 h with rfl | h
  · exact hfirst.isInfix
  · exact hlater r h

end Token

/-! ## Texts that name the entry -/

namespace Text

/-- A blank between characters that are not blank stays when a text is trimmed. -/
theorem mem_trim_between {x y : List Char} {b : Char} (hx : ∃ c ∈ x, isBlank c = false)
    (hy : ∃ c ∈ y, isBlank c = false) : b ∈ trim (x ++ b :: y) := by
  have hdrop : ∀ {u v : List Char}, (∃ c ∈ u, isBlank c = false) →
      (u ++ v).dropWhile isBlank = u.dropWhile isBlank ++ v := by
    intro u v hu
    obtain ⟨c, hc, -⟩ := dropWhile_ne_nil hu
    rw [List.dropWhile_append, if_neg (by simp [List.ne_nil_of_mem hc])]
  obtain ⟨c, hc, hblank⟩ := hy
  rw [trim, trimStart, hdrop hx, trimEnd, List.reverse_append, List.reverse_cons, List.append_assoc,
    hdrop ⟨c, List.mem_reverse.2 hc, hblank⟩]
  simp

end Text

/-- Several words never name the entry. -/
theorem Occasion.eq_nil_of_parse_span {v : Word} {ws : List Word} (hsolid : ∀ w ∈ v :: ws, w.Solid)
    (hgap : ∀ w ∈ ws, w.gap ≠ []) (h : Occasion.parse (Word.span (v :: ws)) = .entry) : ws = [] := by
  cases ws with
  | nil => rfl
  | cons u us =>
    exfalso
    obtain ⟨b, g, hg⟩ := List.exists_cons_of_ne_nil (hgap u List.mem_cons_self)
    have hv := hsolid v List.mem_cons_self
    have hu := hsolid u (List.mem_cons_of_mem _ List.mem_cons_self)
    have hb : Text.isBlank b = true := hu.gap b (by rw [hg]; exact List.mem_cons_self)
    have hmem : b ∈ (Text.trimmed (Word.span (v :: u :: us))).toList := by
      have hspan : (Word.span (v :: u :: us)).toList =
          v.chars ++ b :: (g ++ u.chars ++ us.flatMap fun w => w.gap ++ w.chars) := by
        simp [Word.span, hg]
      obtain ⟨c, hc⟩ := List.exists_mem_of_ne_nil _ hv.ne_nil
      obtain ⟨d, hd⟩ := List.exists_mem_of_ne_nil _ hu.ne_nil
      rw [Text.trimmed, String.toList_ofList, hspan]
      exact Text.mem_trim_between ⟨c, hc, hv.chars c hc⟩ ⟨d, by simp [hd], hu.chars d hd⟩
    unfold Occasion.parse at h
    split at h
    · rename_i hempty
      simp [hempty] at hmem
    · rename_i hactive
      rw [hactive] at hmem
      have hactive : ("active".toList.all fun c => !Text.isBlank c) = true := by decide
      simpa [hb] using List.all_eq_true.1 hactive b hmem
    all_goals cases h

namespace Description

open Token Text

/-- The look ahead finds the words `on` and the name of the entry wherever they follow each other. -/
theorem namesEntry_iff : ∀ {ts : List Token}, namesEntry ts = true ↔
    ∃ w v, [.word w, .word v] <:+: ts ∧ w.text = "on" ∧ Occasion.parse v.text = .entry
  | [] => by simp [namesEntry]
  | [t] => by
    constructor
    · intro h
      cases t <;> simp [namesEntry] at h
    · rintro ⟨w, v, h, -⟩
      simpa using h.length_le
  | t :: t' :: ts => by
    have ih : namesEntry (t' :: ts) = true ↔ _ := namesEntry_iff
    have hentry : ∀ o : Occasion, o.isEntry = true ↔ o = .entry := fun o => by cases o <;> simp [Occasion.isEntry]
    have hpairs : ∀ w v, [Token.word w, .word v] <:+: t :: t' :: ts ↔
        (t = .word w ∧ t' = .word v) ∨ [Token.word w, .word v] <:+: t' :: ts := by
      intro w v
      rw [List.infix_cons_iff]
      simp [List.cons_prefix_cons, eq_comm]
    have hsplit : namesEntry (t :: t' :: ts) = true ↔
        (∃ w v, (t = .word w ∧ t' = .word v) ∧ w.text = "on" ∧ Occasion.parse v.text = .entry) ∨
          namesEntry (t' :: ts) = true := by
      cases t <;> cases t' <;> simp [namesEntry, hentry]
    rw [hsplit, ih]
    simp only [hpairs]
    constructor
    · rintro (⟨w, v, h, h'⟩ | ⟨w, v, h, h'⟩)
      · exact ⟨w, v, .inl h, h'⟩
      · exact ⟨w, v, .inr h, h'⟩
    · rintro ⟨w, v, h | h, h'⟩
      · exact .inl ⟨w, v, h, h'⟩
      · exact .inr ⟨w, v, h, h'⟩

/-! ## The clauses that name the entry -/

/-- What a keyword opens is an `on` clause only if it is `on`, and then the next word names the occasion. -/
theorem exists_of_readKeyword {w : Word} {ws : List Word} {o : Occasion}
    (h : (readKeyword w ws).1.clause = some (.on o)) :
    w.text = "on" ∧ ∃ v ws', ws = v :: ws' ∧ Occasion.parse v.text = o := by
  unfold readKeyword at h
  split at h
  · rename_i hon
    split at h
    · simp only [Reading.meant, Option.some.injEq, StateClause.on.injEq] at h
      exact ⟨hon, _, _, rfl, h⟩
    · cases h
  · split at h <;> cases h
  · split at h
    · split at h <;> cases h
    · cases h
  · split at h <;> cases h

/-- Each clause is opened by some word, and read with all words after it in view. -/
theorem exists_of_mem_clauses {α : Type} {read : Word → List Word → Reading α × Nat} {r : Reading α} :
    ∀ {n : Nat} {ws : List Word}, r ∈ Reading.clausesFrom read n ws → ∃ w ws', w :: ws' <:+ ws ∧ (read w ws').1 = r
  | _, [], h => by simp [Reading.clausesFrom] at h
  | 0, w :: ws, h => by
    rw [Reading.clausesFrom] at h
    rcases List.mem_cons.1 h with rfl | h
    · exact ⟨w, ws, List.suffix_refl _, rfl⟩
    · obtain ⟨v, ws', hsuf, hr⟩ := exists_of_mem_clauses h
      exact ⟨v, ws', hsuf.trans (List.suffix_cons w ws), hr⟩
  | n + 1, w :: ws, h => by
    obtain ⟨v, ws', hsuf, hr⟩ := exists_of_mem_clauses (n := n) h
    exact ⟨v, ws', hsuf.trans (List.suffix_cons w ws), hr⟩

/-- Between colons, too, an `on` clause is opened by `on`; the rest of its run names the occasion. -/
theorem exists_of_readRun {run : List Word} {r : Reading StateClause} {o : Occasion} (hr : r ∈ readRun run)
    (h : r.clause = some (.on o)) :
    ∃ w v ws, run = w :: v :: ws ∧ w.text = "on" ∧ Occasion.parse (Word.span (v :: ws)) = o := by
  cases run with
  | nil => cases hr
  | cons w ws =>
    obtain rfl := List.mem_singleton.1 hr
    simp only [meaning] at h
    split at h
    · rename_i hon
      cases ws with
      | nil => cases h
      | cons v ws =>
        simp only [List.isEmpty_cons, Bool.false_eq_true, if_false, Reading.meant, Option.some.injEq,
          StateClause.on.injEq] at h
        exact ⟨w, v, ws, rfl, hon, h⟩
    · cases h
    · cases h
    · split at h <;> cases h

/-- **Every `on` clause that names the entry is seen in the look ahead**, in either form. -/
theorem namesEntry_of_mem {ts : List Token} (hcut : Cut ts) (h : .on .entry ∈ Reading.meanings (readings ts)) :
    namesEntry ts = true := by
  obtain ⟨r, hr, hclause⟩ := List.mem_filterMap.1 h
  unfold readings at hr
  split at hr
  · obtain ⟨run, hrun, hr⟩ := List.mem_flatMap.1 hr
    obtain ⟨w, v, ws, rfl, hon, hspan⟩ := exists_of_readRun hr hclause
    have hpair := infix_of_mem_runs hrun
    obtain ⟨rest, hpre, hsuf⟩ := List.infix_iff_prefix_suffix.1 hpair
    obtain ⟨hsolid, hgap⟩ := (hcut.of_suffix hsuf (by rintro rfl; simp at hpre)).words hpre
    obtain rfl := Occasion.eq_nil_of_parse_span (fun u hu => hsolid u (List.mem_cons_of_mem _ hu))
      (fun u hu => hgap u (List.mem_cons_of_mem _ hu)) hspan
    refine namesEntry_iff.2 ⟨w, v, hpair, hon, ?_⟩
    rwa [Word.span, List.flatMap_nil, List.append_nil] at hspan
  · rename_i hcolon
    obtain ⟨offset, hts⟩ := hcut.eq_words (by simpa using hcolon)
    obtain ⟨w, ws, hsuf, rfl⟩ := exists_of_mem_clauses hr
    obtain ⟨hon, v, ws', rfl, hv⟩ := exists_of_readKeyword hclause
    refine namesEntry_iff.2 ⟨w, v, ?_, hon, hv⟩
    rw [hts]
    have hpair : [Token.word w, .word v] <:+: (w :: v :: ws').map .word := ⟨[], ws'.map .word, rfl⟩
    exact (hpair.trans (hsuf.isInfix.map _)).trans (List.prefix_append _ _).isInfix

/-- **When a description has a reaction to the entry.**  It has none exactly if the look ahead has seen the entry named
where no clause names it and nothing is written before the first `on`; then no reaction is put in front.  Otherwise, if
no clause names the entry, the reaction to it comes first and is the only one. -/
theorem reaction_to_entry (src : String) :
    (.on .entry ∈ clausesOf src → namesEntry (Token.ofText src) = true) ∧
    ((∀ r ∈ (read src).reactions, r.on ≠ .entry) ↔
      .on .entry ∉ clausesOf src ∧ namesEntry (Token.ofText src) = true ∧
        (preamble (clausesOf src)).isWritten = false) ∧
    (.on .entry ∉ clausesOf src →
      namesEntry (Token.ofText src) = false ∨ (preamble (clausesOf src)).isWritten = true →
      ∃ rest, (read src).reactions = preamble (clausesOf src) :: rest ∧ (preamble (clausesOf src)).on = .entry ∧
        ∀ r ∈ rest, r.on ≠ .entry) := by
  obtain ⟨rest, hon, heq⟩ := reactionsOf_eq (namesEntry (Token.ofText src)) (clausesOf src)
  have hreactions : (read src).reactions = _ := heq
  have hrest : (∀ r ∈ rest, r.on ≠ .entry) ↔ .on .entry ∉ clausesOf src := by
    rw [← mem_occasions, ← hon, List.mem_map]
    simp
  have hpreamble : (preamble (clausesOf src)).on = .entry := on_ofClauses _ _
  refine ⟨namesEntry_of_mem (Cut.scan _ _), ?_, fun hnone hstands => ?_⟩
  · rw [hreactions]
    split
    · rename_i hleft
      simp only [Bool.and_eq_true, Bool.not_eq_true'] at hleft
      rw [hrest]
      exact ⟨fun h => ⟨h, hleft⟩, And.left⟩
    · rename_i hleft
      simp only [Bool.and_eq_true, Bool.not_eq_true'] at hleft
      exact ⟨fun h => absurd hpreamble (h _ List.mem_cons_self), fun h => absurd h.2 hleft⟩
  · refine ⟨rest, ?_, hpreamble, hrest.2 hnone⟩
    rw [hreactions, if_neg]
    simp only [Bool.and_eq_true, Bool.not_eq_true', not_and]
    rcases hstands with h | h <;> simp [h]

/-- A state named `on`, and after it the word `active`: it is no clause, but there is no reaction to the entry.  A jump
written before the click brings it back. -/
theorem reaction_to_entry_swallowed :
    (∀ r ∈ (read "on click go on active").reactions, r.on ≠ .entry) ∧
    namesEntry (Token.ofText "click :on active") = true ∧
    ∃ rest, (read "go away on click go on active").reactions = { on := .entry, goto := some "away" } :: rest ∧
      ∀ r ∈ rest, r.on ≠ .entry := by
  refine ⟨(reaction_to_entry "on click go on active").2.1.2 (by decide),
    (reaction_to_entry "click :on active").1 (by decide), ?_⟩
  obtain ⟨rest, heq, -, hrest⟩ := (reaction_to_entry "go away on click go on active").2.2 (by decide) (by decide)
  exact ⟨rest, heq, hrest⟩

end Description
end Stagecraft
