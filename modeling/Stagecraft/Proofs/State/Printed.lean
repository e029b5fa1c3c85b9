import Stagecraft.Proofs.Grammar.Scanned
/-!
# Descriptions written and read back

A list of reactions can be written down clause by clause in either form.  Whatever is written so is read back: the same
reactions, with every text as it was, and in the form that keywords open with nothing skipped.
-/
namespace Stagecraft

/-- What an author says about one reaction. -/
structure Sketch where
  on : Occasion
  effects : List String := []
  goto : Option String := none
  loop : Option String := none

namespace Sketch

/-- The clauses behind the one that names the occasion. -/
def body (k : Sketch) : List StateClause :=
  k.effects.map .effect ++ k.goto.toList.map (fun s => .goto (some s)) ++ k.loop.toList.map .loop

def clauses (k : Sketch) : List StateClause := .on k.on :: k.body

/-- The reaction that is meant. -/
def reaction (k : Sketch) : Reaction :=
  { on := k.on
    action := if k.effects = [] then none else some (String.join (k.effects.map (":" ++ ·)))
    goto := k.goto
    loop := k.loop }

end Sketch

namespace StateClause

open Text (Clean)

/-- A clause written down, with `gap` between its keyword and its argument. -/
def written (gap : String) : StateClause → String
  | .on occasion => "on" ++ gap ++ occasion.text
  | .goto state => "go" ++ gap ++ state.getD ""
  | .loop marker => "loop" ++ gap ++ marker
  | .effect text => text

/-- Whether the texts of a clause can be written between colons. -/
def Plain : StateClause → Prop
  | .on .entry => True
  | .on (.event name) => Clean name ∧ name ≠ "" ∧ name ∉ ["active", "enter", "leave"]
  | .goto state => ∃ s ∈ state, Clean s ∧ s ≠ ""
  | .loop marker => Clean marker
  | .effect text => Clean text ∧ ∃ w ∈ (Text.wordsOf text).head?, (EffectKind.ofKeyword? w).isSome = true

/-- Whether the words of a clause can stand among keywords. -/
def Worded : StateClause → Prop
  | .on .entry => True
  | .on (.event name) => Text.wordsOf name = [name]
  | .goto state => ∀ s ∈ state, Text.wordsOf s = [s]
  | .loop marker => marker = "" ∨ Text.wordsOf marker = [marker] ∧ Description.isKeyword marker = false
  | .effect text => ∀ w ∈ (Text.wordsOf text).tail, Description.isKeyword w = false

instance : DecidablePred Clean := fun s => inferInstanceAs (Decidable (Text.trimmed s = s ∧ ':' ∉ s.toList))

instance : DecidablePred Plain
  | .on .entry => isTrue trivial
  | .on (.event name) => inferInstanceAs (Decidable (Clean name ∧ name ≠ "" ∧ name ∉ ["active", "enter", "leave"]))
  | .goto state => inferInstanceAs (Decidable (∃ s ∈ state, Clean s ∧ s ≠ ""))
  | .loop marker => inferInstanceAs (Decidable (Clean marker))
  | .effect text => inferInstanceAs (Decidable
      (Clean text ∧ ∃ w ∈ (Text.wordsOf text).head?, (EffectKind.ofKeyword? w).isSome = true))

instance : DecidablePred Worded
  | .on .entry => isTrue trivial
  | .on (.event name) => inferInstanceAs (Decidable (Text.wordsOf name = [name]))
  | .goto state => inferInstanceAs (Decidable (∀ s ∈ state, Text.wordsOf s = [s]))
  | .loop marker => inferInstanceAs (Decidable
      (marker = "" ∨ Text.wordsOf marker = [marker] ∧ Description.isKeyword marker = false))
  | .effect text => inferInstanceAs (Decidable
      (∀ w ∈ (Text.wordsOf text).tail, Description.isKeyword w = false))

end StateClause

namespace Description

/-- The form in which a colon stands before each clause. -/
def betweenColons (gap : String) (cs : List StateClause) : String := gap.intercalate (cs.map fun c => ":" ++ c.written gap)

/-- The form in which keywords open the clauses. -/
def byKeywords (gap : String) (cs : List StateClause) : String := gap.intercalate (cs.map (·.written gap))

open Token Text

/-! ## The words of a clause -/

/-- The words are those of the clause: its keyword and its argument, or an effect as it stands. -/
def Spells : StateClause → List Word → Prop
  | .on occasion, ws => ∃ w vs, ws = w :: vs ∧ w.text = "on" ∧ Spell vs occasion.text
  | .goto state, ws => ∃ w vs, ws = w :: vs ∧ w.text = "go" ∧ Spell vs (state.getD "")
  | .loop marker, ws => ∃ w vs, ws = w :: vs ∧ w.text = "loop" ∧ Spell vs marker
  | .effect text, ws => Spell ws text

theorem spell_nil : Spell [] "" := ⟨rfl, rfl⟩

/-- The words that stand behind a keyword. -/
theorem scan_argument {keyword : String} (hkeyword : Solid keyword.toList) (hword : Text.wordsOf keyword = [keyword])
    {gap : String} (hgap : Blanks gap.toList) (hne : gap ≠ "") {s : String} (hs : Clean s) {b rest : List Char}
    (hb : Blanks b) (hrest : Breaks rest) (offset : Nat) : ∃ w vs b' offset',
      scan offset (b ++ ((keyword ++ gap ++ s).toList ++ rest)) =
        (w :: vs).map .word ++ scan offset' (b' ++ rest) ∧ Blanks b' ∧ w.text = keyword ∧ Spell vs s := by
  have hbreaks := fun rest => hgap.breaks (fun h => hne (String.toList_eq_nil_iff.1 h)) rest
  obtain ⟨w, ws, offset', hscan, -, htexts⟩ := scan_spaced hb hkeyword (hbreaks (s.toList ++ rest)) offset
  -- the keyword is one word
  rw [hword, List.map_cons, List.cons.injEq, List.map_eq_nil_iff] at htexts
  obtain ⟨htext, rfl⟩ := htexts
  simp only [String.toList_append, List.append_assoc]
  rw [hscan]
  by_cases hempty : s = ""
  · subst hempty
    exact ⟨w, [], gap.toList, offset', rfl, hgap, htext, spell_nil⟩
  · obtain ⟨v, vs, offset'', hscan', hspell⟩ := scan_spaced hgap (hs.solid hempty) hrest offset'
    refine ⟨w, v :: vs, [], offset'', ?_, .nil, htext, hspell⟩
    rw [List.map_nil, List.nil_append, hscan']
    rfl

/-- An occasion is written as a text of its own. -/
theorem clean_text_of_plain {o : Occasion} (h : StateClause.Plain (.on o)) :
    Clean o.text ∧ o.text ≠ "" ∧ Occasion.parse o.text = o := by
  cases o with
  | entry => exact ⟨⟨by decide, by decide⟩, by decide, by decide⟩
  | event name =>
    obtain ⟨hclean, hne, hnames⟩ := h
    simp only [List.mem_cons, List.not_mem_nil, or_false, not_or] at hnames
    refine ⟨hclean, hne, ?_⟩
    rw [Occasion.text, Occasion.parse, hclean.1]
    split
    · exact absurd rfl hne
    · exact absurd rfl hnames.1
    · exact absurd rfl hnames.2.1
    · exact absurd rfl hnames.2.2
    · rfl

/-- **A clause is cut into its own words**, wherever it stands. -/
theorem scan_clause {gap : String} (hgap : Blanks gap.toList) (hne : gap ≠ "") {c : StateClause} (hc : c.Plain)
    {b rest : List Char} (hb : Blanks b) (hrest : Breaks rest) (offset : Nat) : ∃ ws b' offset',
      scan offset (b ++ ((c.written gap).toList ++ rest)) = ws.map .word ++ scan offset' (b' ++ rest) ∧ Blanks b' ∧
        Spells c ws := by
  have hkeyword : ∀ {keyword s : String}, Solid keyword.toList → Text.wordsOf keyword = [keyword] → Clean s →
      ∃ ws b' offset', scan offset (b ++ ((keyword ++ gap ++ s).toList ++ rest)) =
        ws.map .word ++ scan offset' (b' ++ rest) ∧ Blanks b' ∧
        ∃ w vs, ws = w :: vs ∧ w.text = keyword ∧ Spell vs s := by
    intro keyword s hsolid hword hs
    obtain ⟨w, vs, b', offset', hscan, hb', htext, hspell⟩ := scan_argument hsolid hword hgap hne hs hb hrest offset
    exact ⟨w :: vs, b', offset', hscan, hb', w, vs, rfl, htext, hspell⟩
  cases c with
  | on o => exact hkeyword (Text.solid_of rfl rfl (by decide)) (by decide) (clean_text_of_plain hc).1
  | goto state =>
    obtain ⟨s, rfl, hs, -⟩ := hc
    exact hkeyword (Text.solid_of rfl rfl (by decide)) (by decide) hs
  | loop marker => exact hkeyword (Text.solid_of rfl rfl (by decide)) (by decide) hc
  | effect text =>
    obtain ⟨hclean, w, hw, -⟩ := hc
    have hsolid := hclean.solid (by rintro rfl; cases hw)
    obtain ⟨w, ws, offset', hscan, hspell⟩ := scan_spaced hb hsolid hrest offset
    exact ⟨w :: ws, [], offset', hscan, .nil, hspell⟩

/-- What follows a clause in a list of them breaks off its last word: the end, or a gap before the other clauses. -/
theorem intercalate_cons {gap : String} (hgap : Blanks gap.toList) (hne : gap ≠ "") (a : String) (as : List String) :
    ∃ g, Blanks g ∧ Breaks (g ++ (gap.intercalate as).toList) ∧
      (gap.intercalate (a :: as)).toList = a.toList ++ (g ++ (gap.intercalate as).toList) := by
  cases as with
  | nil =>
    refine ⟨[], .nil, ?_, ?_⟩
    · rw [show (gap.intercalate []).toList = [] from rfl]
      exact fun _ hc => by cases hc
    · rw [show gap.intercalate [a] = a from rfl, show (gap.intercalate []).toList = [] from rfl, List.append_nil,
        List.append_nil]
  | cons a' as =>
    refine ⟨gap.toList, hgap, hgap.breaks (fun h => hne (String.toList_eq_nil_iff.1 h)) _, ?_⟩
    simp only [String.toList_intercalate, List.map_cons, List.intercalate_cons_cons, List.append_assoc]

theorem runs_append (ws : List Word) {ts : List Token} {rs : List (List Word)} (h : runs ts = [] :: rs) :
    runs (ws.map .word ++ ts) = ws :: rs := by
  induction ws with
  | nil => exact h
  | cons w ws ih => rw [List.map_cons, List.cons_append, runs, ih]

/-- **Between colons each clause is a run.** -/
theorem runs_betweenColons {gap : String} (hgap : Blanks gap.toList) (hne : gap ≠ "") :
    ∀ {cs : List StateClause}, (∀ c ∈ cs, c.Plain) → ∀ {b : List Char}, Blanks b → ∀ offset, ∃ rs,
      runs (scan offset (b ++ (betweenColons gap cs).toList)) = [] :: rs ∧ List.Forall₂ Spells cs rs
  | [], _, b, hb, offset => by
    refine ⟨[], ?_, .nil⟩
    rw [show (betweenColons gap []).toList = [] from rfl, List.append_nil, scan_end hb]
    rfl
  | c :: cs, hplain, b, hb, offset => by
    obtain ⟨g, hg, hbreaks, htext⟩ := intercalate_cons hgap hne (":" ++ c.written gap) (cs.map fun c => ":" ++ c.written gap)
    rw [← betweenColons] at hbreaks htext
    obtain ⟨ws, b', stop, hscan, hb', hspells⟩ := scan_clause hgap hne (hplain c List.mem_cons_self) .nil hbreaks
      (offset + bytes b + 1)
    obtain ⟨rs, hruns, hrs⟩ := runs_betweenColons hgap hne (fun d hd => hplain d (List.mem_cons_of_mem _ hd))
      (hb'.append hg) stop
    rw [List.append_assoc] at hruns
    refine ⟨ws :: rs, ?_, .cons hspells hrs⟩
    rw [betweenColons, List.map_cons, htext, String.toList_append, show ":".toList = [':'] from rfl, List.append_assoc,
      List.singleton_append, scan_colon_behind hb, runs, ← runs_append ws hruns, ← hscan, List.nil_append]

/-- **Among keywords each clause stands in one piece.** -/
theorem words_byKeywords {gap : String} (hgap : Blanks gap.toList) (hne : gap ≠ "") :
    ∀ {cs : List StateClause}, (∀ c ∈ cs, c.Plain) → ∀ {b : List Char}, Blanks b → ∀ offset, ∃ rs stop,
      scan offset (b ++ (byKeywords gap cs).toList) = rs.flatten.map .word ++ [.stop stop] ∧
        List.Forall₂ Spells cs rs
  | [], _, b, hb, offset => by
    refine ⟨[], offset + bytes b, ?_, .nil⟩
    rw [show (byKeywords gap []).toList = [] from rfl, List.append_nil, scan_end hb]
    rfl
  | c :: cs, hplain, b, hb, offset => by
    obtain ⟨g, hg, hbreaks, htext⟩ := intercalate_cons hgap hne (c.written gap) (cs.map (·.written gap))
    rw [← byKeywords] at hbreaks htext
    obtain ⟨ws, b', start, hscan, hb', hspells⟩ := scan_clause hgap hne (hplain c List.mem_cons_self) hb hbreaks offset
    obtain ⟨rs, stop, hrest, hrs⟩ := words_byKeywords hgap hne (fun d hd => hplain d (List.mem_cons_of_mem _ hd))
      (hb'.append hg) start
    rw [List.append_assoc] at hrest
    refine ⟨ws :: rs, stop, ?_, .cons hspells hrs⟩
    rw [byKeywords, List.map_cons, htext, hscan, hrest, List.flatten_cons, List.map_append, List.append_assoc]

/-! ## Reading clauses back -/

/-- **A run is read as the clause that it was written for.** -/
theorem meanings_readRun {c : StateClause} (hc : c.Plain) {ws : List Word} (h : Spells c ws) :
    Reading.meanings (readRun ws) = [c] := by
  have hone : ∀ w vs, (meaning w vs).clause = some c → Reading.meanings (readRun (w :: vs)) = [c] := fun w vs h => by
    rw [readRun, Reading.meanings, List.filterMap_cons]
    simp only [h, List.filterMap_nil]
  cases c with
  | on o =>
    obtain ⟨w, vs, rfl, htext, hspan, -⟩ := h
    obtain ⟨-, hne, hparse⟩ := clean_text_of_plain hc
    obtain ⟨v, vs, rfl⟩ := List.exists_cons_of_ne_nil (fun hnil : vs = [] => hne (by rw [← hspan, hnil]; rfl))
    refine hone w _ ?_
    rw [meaning, htext]
    simp only [List.isEmpty_cons, Bool.false_eq_true, if_false, Reading.meant, hspan, hparse]
  | goto state =>
    obtain ⟨w, vs, rfl, htext, hspan, -⟩ := h
    obtain ⟨s, rfl, hclean, hne⟩ := hc
    refine hone w _ ?_
    rw [meaning, htext]
    simp only [Reading.meant, hspan, Option.getD_some, hclean.filled hne]
  | loop marker =>
    obtain ⟨w, vs, rfl, htext, hspan, -⟩ := h
    refine hone w _ ?_
    rw [meaning, htext]
    simp only [Reading.meant, hspan]
  | effect text =>
    obtain ⟨hspan, htexts⟩ := h
    obtain ⟨-, word, hhead, hkind⟩ := hc
    cases ws with
    | nil =>
      rw [← htexts] at hhead
      cases hhead
    | cons w vs =>
      obtain rfl : w.text = word := by
        rw [← htexts] at hhead
        simpa using hhead
      refine hone w vs ?_
      unfold meaning
      split
      · rename_i hw
        rw [hw] at hkind
        cases hkind
      · rename_i hw
        rw [hw] at hkind
        cases hkind
      · rename_i hw
        rw [hw] at hkind
        cases hkind
      · rw [if_pos hkind, Reading.meant, hspan]

/-- **Among keywords a clause is read with the words that were written for it**, and nothing is skipped. -/
theorem readKeyword_of_spells {c : StateClause} (hc : c.Plain) (hwords : c.Worded) {ws later : List Word}
    (h : Spells c ws) (hlater : ∀ v ∈ later.head?, isKeyword v.text = true) :
    ∃ w vs, ws = w :: vs ∧ isKeyword w.text = true ∧ readKeyword w (vs ++ later) = (.meant c, vs.length) := by
  have hsingle : ∀ {vs : List Word} {s : String}, Spell vs s → Text.wordsOf s = [s] → ∃ v, vs = [v] ∧ v.text = s := by
    rintro vs s ⟨-, htexts⟩ hs
    rw [hs, List.map_eq_singleton_iff] at htexts
    exact htexts
  cases c with
  | on o =>
    obtain ⟨w, vs, rfl, htext, hspell⟩ := h
    have hword : Text.wordsOf o.text = [o.text] := by
      cases o with
      | entry => decide
      | event name => exact hwords
    obtain ⟨v, rfl, hv⟩ := hsingle hspell hword
    refine ⟨w, [v], rfl, by rw [htext]; decide, ?_⟩
    unfold readKeyword
    rw [htext]
    simp only [List.singleton_append, hv, (clean_text_of_plain hc).2.2, List.length_singleton]
  | goto state =>
    obtain ⟨w, vs, rfl, htext, hspell⟩ := h
    obtain ⟨s, rfl, -⟩ := hc
    obtain ⟨v, rfl, hv⟩ := hsingle hspell (hwords s rfl)
    refine ⟨w, [v], rfl, by rw [htext]; decide, ?_⟩
    unfold readKeyword
    rw [htext]
    simp only [List.singleton_append, hv, Option.getD_some, List.length_singleton]
  | loop marker =>
    obtain ⟨w, vs, rfl, htext, hspell⟩ := h
    refine ⟨w, vs, rfl, by rw [htext]; decide, ?_⟩
    unfold readKeyword
    rw [htext]
    rcases hwords with rfl | ⟨hword, hkeyword⟩
    · obtain rfl : vs = [] := List.map_eq_nil_iff.1 hspell.2
      cases later with
      | nil => rfl
      | cons v later =>
        simp only [List.nil_append, hlater v rfl, if_true, List.length_nil]
    · obtain ⟨v, rfl, hv⟩ := hsingle hspell hword
      simp only [List.singleton_append, hv, hkeyword, Bool.false_eq_true, if_false, List.length_singleton]
  | effect text =>
    obtain ⟨hspan, htexts⟩ := h
    obtain ⟨-, word, hhead, hkind⟩ := hc
    cases ws with
    | nil =>
      rw [← htexts] at hhead
      cases hhead
    | cons w vs =>
      obtain rfl : w.text = word := by
        rw [← htexts] at hhead
        simpa using hhead
      have hbody : (vs ++ later).takeWhile (fun v => !isKeyword v.text) = vs := by
        have hvs : ∀ v ∈ vs, (!isKeyword v.text) = true := fun v hv => by
          have := hwords v.text (by rw [← htexts]; exact List.mem_map_of_mem hv)
          rw [this]
          rfl
        rw [List.takeWhile_append_of_pos hvs]
        cases later with
        | nil => rw [List.takeWhile_nil, List.append_nil]
        | cons v later => rw [List.takeWhile_cons_of_neg (by rw [hlater v rfl]; decide), List.append_nil]
      refine ⟨w, vs, rfl, by simp [isKeyword, hkind], ?_⟩
      unfold readKeyword
      split
      · rename_i hw
        rw [hw] at hkind
        cases hkind
      · rename_i hw
        rw [hw] at hkind
        cases hkind
      · rename_i hw
        rw [hw] at hkind
        cases hkind
      · rw [if_pos hkind]
        simp only [hbody, hspan]

theorem clauses_of_spells : ∀ {cs : List StateClause} {rs : List (List Word)}, (∀ c ∈ cs, c.Plain) →
    (∀ c ∈ cs, c.Worded) → List.Forall₂ Spells cs rs →
      Reading.clauses readKeyword rs.flatten = cs.map .meant ∧ ∀ v ∈ rs.flatten.head?, isKeyword v.text = true
  | [], _, _, _, .nil => ⟨rfl, fun _ hv => by cases hv⟩
  | c :: cs, ws :: rs, hplain, hwords, .cons h hrest => by
    obtain ⟨hclauses, hlater⟩ := clauses_of_spells (fun d hd => hplain d (List.mem_cons_of_mem _ hd))
      (fun d hd => hwords d (List.mem_cons_of_mem _ hd)) hrest
    obtain ⟨w, vs, rfl, hkeyword, hread⟩ :=
      readKeyword_of_spells (hplain c List.mem_cons_self) (hwords c List.mem_cons_self) h hlater
    rw [List.flatten_cons, List.cons_append]
    refine ⟨?_, fun v hv => ?_⟩
    · rw [Reading.clauses_cons, hread, List.drop_left, hclauses, List.map_cons]
    · obtain rfl : w = v := by simpa using hv
      exact hkeyword

/-- **Clauses written between colons are read back.** -/
theorem meanings_betweenColons {gap : String} (hgap : Blanks gap.toList) (hne : gap ≠ "") {cs : List StateClause}
    (hcs : cs ≠ []) (hplain : ∀ c ∈ cs, c.Plain) : clausesOf (betweenColons gap cs) = cs := by
  obtain ⟨rs, hruns, hspells⟩ := runs_betweenColons hgap hne hplain .nil 0
  have hcolon : (ofText (betweenColons gap cs)).any isColon = true := by
    obtain ⟨c, cs, rfl⟩ := List.exists_cons_of_ne_nil hcs
    obtain ⟨g, -, -, htext⟩ := intercalate_cons hgap hne (":" ++ c.written gap) (cs.map fun c => ":" ++ c.written gap)
    rw [ofText, betweenColons, List.map_cons, htext, String.toList_append, show ":".toList = [':'] from rfl,
      List.append_assoc, List.singleton_append, scan_colon]
    rfl
  rw [List.nil_append] at hruns
  rw [clausesOf, readings, if_pos hcolon, ofText, hruns, List.flatMap_cons, readRun, List.nil_append]
  clear hruns hcolon hcs
  induction hspells with
  | nil => rfl
  | cons h _ ih =>
    rw [List.flatMap_cons, Reading.meanings, List.filterMap_append, ← Reading.meanings, ← Reading.meanings,
      meanings_readRun (hplain _ List.mem_cons_self) h, ih fun d hd => hplain d (List.mem_cons_of_mem _ hd)]
    rfl

/-- **Clauses written among keywords are read back**, and nothing is skipped. -/
theorem readings_byKeywords {gap : String} (hgap : Blanks gap.toList) (hne : gap ≠ "") {cs : List StateClause}
    (hplain : ∀ c ∈ cs, c.Plain) (hwords : ∀ c ∈ cs, c.Worded) :
    readings (ofText (byKeywords gap cs)) = cs.map .meant := by
  obtain ⟨rs, stop, hscan, hspells⟩ := words_byKeywords hgap hne hplain .nil 0
  rw [List.nil_append] at hscan
  have hcolon : ¬ (rs.flatten.map Token.word ++ [Token.stop stop]).any isColon = true := by
    simp [isColon]
  have htokens : (rs.flatten.map Token.word ++ [Token.stop stop]).filterMap word? = rs.flatten := by
    rw [List.filterMap_append, List.filterMap_map, show word? ∘ Token.word = some from rfl, List.filterMap_some]
    exact List.append_nil _
  rw [readings, ofText, hscan, if_neg hcolon, htokens]
  exact (clauses_of_spells hplain hwords hspells).1

/-! ## From clauses back to reactions -/

theorem sections_append {cs : List StateClause} (hcs : ∀ c ∈ cs, ∀ o, c ≠ .on o) (rest : List StateClause) :
    sections (cs ++ rest) = (cs ++ (sections rest).1, (sections rest).2) := by
  induction cs with
  | nil => rfl
  | cons c cs ih =>
    have hrest := ih fun d hd => hcs d (List.mem_cons_of_mem _ hd)
    rw [List.cons_append, sections, hrest]
    · rfl
    · exact hcs c List.mem_cons_self

theorem not_on_of_mem_body {k : Sketch} {c : StateClause} (hc : c ∈ k.body) (o : Occasion) : c ≠ .on o := by
  rintro rfl
  simp [Sketch.body] at hc

theorem sections_clauses (ks : List Sketch) : sections (ks.flatMap Sketch.clauses) = ([], ks.map fun k => (k.on, k.body)) := by
  induction ks with
  | nil => rfl
  | cons k ks ih =>
    rw [List.flatMap_cons, show k.clauses = .on k.on :: k.body from rfl, List.cons_append, sections,
      sections_append (fun _ => not_on_of_mem_body), ih, List.append_nil]
    rfl

theorem foldl_effects {ts : List String} (hts : ∀ t ∈ ts, Text.filled t = some t) (r : Reaction) :
    (ts.map StateClause.effect).foldl Reaction.add r =
      { r with action := if ts = [] then r.action
                         else some (r.action.getD "" ++ String.join (ts.map (":" ++ ·))) } := by
  induction ts generalizing r with
  | nil => rfl
  | cons t ts ih =>
    rw [List.map_cons, List.foldl_cons, ih fun u hu => hts u (List.mem_cons_of_mem _ hu)]
    simp only [Reaction.add, Reaction.addEffect, hts t List.mem_cons_self, reduceCtorEq, if_false, Option.getD_some]
    cases ts with
    | nil => simp [String.append_assoc]
    | cons u us => simp [String.append_assoc]

/-- **The clauses of a sketch come to its reaction.** -/
theorem ofClauses_body {k : Sketch} (hplain : ∀ c ∈ k.clauses, c.Plain) : Reaction.ofClauses k.on k.body = k.reaction := by
  have heffects : ∀ t ∈ k.effects, Text.filled t = some t := fun t ht => by
    obtain ⟨hclean, w, hw, -⟩ := hplain (.effect t) (by simp [Sketch.clauses, Sketch.body, ht])
    exact hclean.filled (by rintro rfl; cases hw)
  rw [Reaction.ofClauses, Sketch.body, List.foldl_append, List.foldl_append, foldl_effects heffects]
  obtain ⟨on, effects, goto, loop⟩ := k
  cases goto <;> cases loop <;> simp [Reaction.add, Sketch.reaction]

theorem pieces_append {t : List Char} (ht : ':' ∉ t) {cs p : List Char} {ps : List (List Char)}
    (h : Text.pieces ':' cs = p :: ps) : Text.pieces ':' (t ++ cs) = (t ++ p) :: ps := by
  induction t with
  | nil => exact h
  | cons c t ih =>
    obtain ⟨hc, ht⟩ : c ≠ ':' ∧ ':' ∉ t := by
      rw [List.mem_cons, not_or] at ht
      exact ⟨Ne.symm ht.1, ht.2⟩
    rw [List.cons_append, Text.pieces, if_neg hc, ih ht]
    rfl

theorem pieces_join {ts : List String} (hts : ∀ t ∈ ts, ':' ∉ t.toList) :
    Text.pieces ':' (String.join (ts.map (":" ++ ·))).toList = [] :: ts.map String.toList := by
  induction ts with
  | nil => rfl
  | cons t ts ih =>
    have hrest := ih fun u hu => hts u (List.mem_cons_of_mem _ hu)
    rw [List.map_cons, String.join_cons, String.toList_append, String.toList_append,
      show ":".toList = [':'] from rfl, List.append_assoc, List.singleton_append, Text.pieces, if_pos rfl,
      pieces_append (hts t List.mem_cons_self) hrest, List.append_nil]
    rfl

/-- Effects that have been joined to an action are taken apart again. -/
theorem actions_of_join {r : Reaction} {ts : List String}
    (haction : r.action.getD "" = String.join (ts.map (":" ++ ·))) (hts : ∀ t ∈ ts, Text.Clean t ∧ t ≠ "") :
    r.actions = ts := by
  rw [Reaction.actions, haction, Text.piecesOf, pieces_join fun t ht => (hts t ht).1.2]
  have hfilled : ∀ ts : List String, (∀ t ∈ ts, Text.Clean t ∧ t ≠ "") →
      (ts.map (fun t => String.ofList t.toList)).filterMap Text.filled = ts := by
    intro ts hts
    induction ts with
    | nil => rfl
    | cons t ts ih =>
      obtain ⟨hclean, hne⟩ := hts t List.mem_cons_self
      rw [List.map_cons, String.ofList_toList, List.filterMap_cons, hclean.filled hne]
      exact congrArg (t :: ·) (ih fun u hu => hts u (List.mem_cons_of_mem _ hu))
  rw [List.map_cons, List.filterMap_cons, show Text.filled (String.ofList []) = none from rfl, List.map_map]
  exact hfilled ts hts

/-- **The effects of a reaction are those of its sketch**, each as it was written. -/
theorem actions_reaction {k : Sketch} (hplain : ∀ c ∈ k.clauses, c.Plain) : k.reaction.actions = k.effects := by
  refine actions_of_join ?_ fun t ht => ?_
  · by_cases hnone : k.effects = []
    · rw [Sketch.reaction, if_pos hnone, hnone]
      rfl
    · rw [Sketch.reaction, if_neg hnone]
      rfl
  · obtain ⟨hclean, w, hw, -⟩ := hplain (.effect t) (by simp [Sketch.clauses, Sketch.body, ht])
    exact ⟨hclean, by rintro rfl; cases hw⟩

/-! ## Descriptions -/

/-- Reading a list of clauses that some text comes to, if they are those of sketches with one for the entry among
them. -/
theorem reactions_of_clausesOf {ks : List Sketch} (hentry : ∃ k ∈ ks, k.on = .entry)
    (hplain : ∀ k ∈ ks, ∀ c ∈ k.clauses, c.Plain) {src : String} (h : clausesOf src = ks.flatMap Sketch.clauses) :
    (read src).reactions = ks.map Sketch.reaction := by
  have hnamed : namesEntry (Token.ofText src) = true := by
    refine namesEntry_of_mem (Cut.scan _ _) ?_
    obtain ⟨k, hk, hon⟩ := hentry
    change .on .entry ∈ clausesOf src
    rw [h]
    exact List.mem_flatMap.2 ⟨k, hk, by rw [← hon]; exact List.mem_cons_self⟩
  change reactionsOf (namesEntry (Token.ofText src)) (clausesOf src) = _
  rw [hnamed, h, reactionsOf, sections_clauses]
  have hhead : (Reaction.ofClauses .entry []).isWritten = false := rfl
  simp only [hhead, Bool.not_false, Bool.and_true, if_true, List.map_map]
  exact List.map_congr_left fun k hk => ofClauses_body (hplain k hk)

/-- **What is written is read back.**  A list of sketches, one of them for the entry, may be written with a colon before
each clause, and comes back as the same reactions, with the same effects.  Where in addition its names are words and its
effects hold no further keyword, it may be written with keywords alone, and nothing of it is skipped. -/
theorem read_written {ks : List Sketch} (hentry : ∃ k ∈ ks, k.on = .entry) (hplain : ∀ k ∈ ks, ∀ c ∈ k.clauses, c.Plain)
    {gap : String} (hgap : ∀ c ∈ gap.toList, Text.isBlank c = true) (hne : gap ≠ "") :
    (read (betweenColons gap (ks.flatMap Sketch.clauses))).reactions = ks.map Sketch.reaction ∧
    (∀ k ∈ ks, k.reaction.actions = k.effects) ∧
    ((∀ k ∈ ks, ∀ c ∈ k.clauses, c.Worded) →
      read (byKeywords gap (ks.flatMap Sketch.clauses)) = ⟨ks.map Sketch.reaction, []⟩) := by
  have hplain' : ∀ c ∈ ks.flatMap Sketch.clauses, c.Plain := fun c hc => by
    obtain ⟨k, hk, hc⟩ := List.mem_flatMap.1 hc
    exact hplain k hk c hc
  have hclauses : ks.flatMap Sketch.clauses ≠ [] := by
    obtain ⟨k, hk, -⟩ := hentry
    exact List.ne_nil_of_mem (List.mem_flatMap.2 ⟨k, hk, List.mem_cons_self⟩)
  refine ⟨?_, fun k hk => actions_reaction (hplain k hk), fun hworded => ?_⟩
  · exact reactions_of_clausesOf hentry hplain (meanings_betweenColons hgap hne hclauses hplain')
  · have hreadings := readings_byKeywords hgap hne hplain' fun c hc => by
      obtain ⟨k, hk, hc⟩ := List.mem_flatMap.1 hc
      exact hworded k hk c hc
    have hmeant : clausesOf (byKeywords gap (ks.flatMap Sketch.clauses)) = ks.flatMap Sketch.clauses := by
      rw [clausesOf, hreadings, Reading.meanings, List.filterMap_map]
      exact List.filterMap_some
    have hskipped : (read (byKeywords gap (ks.flatMap Sketch.clauses))).skipped = [] := by
      change Reading.diagnostics (readings (Token.ofText _)) = []
      rw [hreadings, Reading.diagnostics, List.flatMap_map]
      simp [Reading.meant]
    rw [← hskipped, ← reactions_of_clausesOf hentry hplain hmeant]

/-- The loop of the first sketch has no marker, so its clause ends where the `on` of the second one stands. -/
theorem read_written_twice :
    let ks : List Sketch := [⟨.entry, ["enter left 8px", "animate  wave"], some "open", some ""⟩,
      ⟨.event "go", [], none, some "twice"⟩]
    (read ":on active :enter left 8px :animate  wave :go open :loop  :on go :loop twice").reactions =
      ks.map Sketch.reaction ∧
    (∀ k ∈ ks, k.reaction.actions = k.effects) ∧
    read "on active enter left 8px animate  wave go open loop  on go loop twice" = ⟨ks.map Sketch.reaction, []⟩ := by
  obtain ⟨hcolons, hactions, hkeywords⟩ := @read_written
    [⟨.entry, ["enter left 8px", "animate  wave"], some "open", some ""⟩, ⟨.event "go", [], none, some "twice"⟩]
    ⟨_, List.mem_cons_self, rfl⟩ (by decide) " " (List.forall_mem_singleton.2 rfl) (by decide)
  exact ⟨hcolons, hactions, hkeywords (by decide)⟩

end Description
end Stagecraft
