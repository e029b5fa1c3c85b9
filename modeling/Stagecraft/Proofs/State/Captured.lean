import Stagecraft.Proofs.State.Printed
/-!
# Effects captured from a description

The reader takes the effects of a description out of its text clause by clause, and joins those of one reaction to an
action, which is taken apart again when the reaction runs.  What comes out are the clauses that went in: pieces of the
text, one behind another, each of which opens with the keyword of its kind.
-/
namespace Stagecraft

open Text

/-! ## Words where they stand -/

namespace Token

/-- The tokens stand in the text in their order, each word right behind its gap. -/
def Stand : List Token → List Char → Prop
  | .word w :: ts, cs => ∃ rest, cs = w.gap ++ w.chars ++ rest ∧ Stand ts rest
  | .colon _ :: ts, cs => ∃ before rest, cs = before ++ ':' :: rest ∧ Stand ts rest
  | .stop _ :: _, _ => True
  | [], _ => True

theorem Stand.push {c : Char} {cs : List Char} {ts : List Token} (h : Stand ts cs) (offset : Nat) :
    Stand (push c offset ts) (c :: cs) := by
  unfold Token.push
  split
  · rename_i hc
    exact ⟨[], cs, by rw [hc]; rfl, h⟩
  split
  · cases ts with
    | nil => trivial
    | cons t ts =>
      cases t with
      | word w =>
        obtain ⟨rest, rfl, hrest⟩ := h
        exact ⟨rest, rfl, hrest⟩
      | colon n =>
        obtain ⟨before, rest, rfl, hrest⟩ := h
        exact ⟨c :: before, rest, rfl, hrest⟩
      | stop n => trivial
  · split
    · -- the character joins the word behind it
      obtain ⟨rest, rfl, hrest⟩ := h
      exact ⟨rest, rfl, hrest⟩
    · exact ⟨cs, rfl, h⟩

/-- **Every text is cut where it stands.** -/
theorem stand_scan : ∀ (cs : List Char) (offset : Nat), Stand (scan offset cs) cs
  | [], _ => trivial
  | c :: cs, offset => (stand_scan cs (offset + c.utf8Size)).push offset

theorem colon_notMem_push {c : Char} {offset : Nat} {ts : List Token} (h : ∀ w, .word w ∈ ts → ':' ∉ w.chars) :
    ∀ w, .word w ∈ push c offset ts → ':' ∉ w.chars := by
  intro w hw
  unfold Token.push at hw
  split at hw
  · exact h w ((List.mem_cons.1 hw).resolve_left nofun)
  rename_i hc
  split at hw
  · split at hw
    · rename_i v ts
      rcases List.mem_cons.1 hw with heq | hw
      · cases heq
        exact h v List.mem_cons_self
      · exact h w (List.mem_cons_of_mem _ hw)
    · exact h w hw
  · split at hw
    · rcases List.mem_cons.1 hw with heq | hw
      · cases heq
        rw [List.mem_cons, not_or]
        exact ⟨Ne.symm hc, h _ List.mem_cons_self⟩
      · exact h w (List.mem_cons_of_mem _ hw)
    · rcases List.mem_cons.1 hw with heq | hw
      · cases heq
        rw [List.mem_singleton]
        exact Ne.symm hc
      · exact h w hw

/-- No word holds a colon. -/
theorem colon_notMem_scan : ∀ (cs : List Char) (offset : Nat) (w : Word), .word w ∈ scan offset cs → ':' ∉ w.chars
  | [], _, _, hw => by simp [scan] at hw
  | c :: cs, offset, w, hw => colon_notMem_push (colon_notMem_scan cs (offset + c.utf8Size)) w hw

end Token

/-! ## Pieces of a text -/

/-- The texts are pieces of the source that stand in it one behind another. -/
def PiecesOf : List String → List Char → Prop
  | [], _ => True
  | t :: ts, cs => ∃ before rest, cs = before ++ t.toList ++ rest ∧ PiecesOf ts rest

theorem PiecesOf.behind {ts : List String} {cs : List Char} (h : PiecesOf ts cs) (before : List Char) :
    PiecesOf ts (before ++ cs) := by
  cases ts with
  | nil => trivial
  | cons t ts =>
    obtain ⟨before', rest, rfl, hrest⟩ := h
    exact ⟨before ++ before', rest, by simp only [List.append_assoc], hrest⟩

theorem PiecesOf.sublist {ts ts' : List String} (h : ts.Sublist ts') : ∀ {cs : List Char}, PiecesOf ts' cs →
    PiecesOf ts cs := by
  induction h with
  | slnil => exact fun h => h
  | cons t _ ih =>
    rintro cs ⟨before, rest, rfl, hrest⟩
    exact (ih hrest).behind _
  | cons_cons t _ ih =>
    rintro cs ⟨before, rest, rfl, hrest⟩
    exact ⟨before, rest, rfl, ih hrest⟩

theorem toList_span (w : Word) (ws : List Word) :
    w.gap ++ (Word.span (w :: ws)).toList = (w :: ws).flatMap fun v => v.gap ++ v.chars := by
  rw [Word.span, String.toList_ofList, List.flatMap_cons, List.append_assoc]

/-- Words that stand in front are a piece of the text, and what follows them follows it. -/
theorem PiecesOf.span {ws : List Word} {ts : List String} {cs rest : List Char}
    (hcs : cs = ws.flatMap (fun v => v.gap ++ v.chars) ++ rest) (h : PiecesOf ts rest) :
    PiecesOf (Word.span ws :: ts) cs := by
  cases ws with
  | nil => exact ⟨[], rest, hcs, h⟩
  | cons w ws => exact ⟨w.gap, rest, by rw [hcs, ← toList_span], h⟩

namespace Token

/-- The runs between colons stand one behind another. -/
theorem Stand.runs : ∀ {ts : List Token} {cs : List Char} {r : List Word} {rs : List (List Word)}, Stand ts cs →
    Token.runs ts = r :: rs →
      ∃ rest, cs = r.flatMap (fun v => v.gap ++ v.chars) ++ rest ∧ PiecesOf (rs.map Word.span) rest
  | [], cs, r, rs, _, hruns => by
    cases hruns
    exact ⟨cs, rfl, trivial⟩
  | .stop _ :: ts, cs, r, rs, _, hruns => by
    cases hruns
    exact ⟨cs, rfl, trivial⟩
  | .colon n :: ts, cs, r, rs, h, hruns => by
    cases hruns
    obtain ⟨before, rest, rfl, hrest⟩ := h
    obtain ⟨r', rs', hruns, -⟩ := runs_word ⟨[], [], 0⟩ ts
    obtain ⟨rest', hcs, hpieces⟩ := Stand.runs hrest hruns
    refine ⟨_, rfl, ?_⟩
    rw [hruns, List.map_cons]
    exact ((PiecesOf.span hcs hpieces).behind [':']).behind before
  | .word w :: ts, cs, r, rs, h, hruns => by
    obtain ⟨rest, rfl, hrest⟩ := h
    obtain ⟨r', rs', hruns', hword⟩ := runs_word w ts
    obtain ⟨rfl, rfl⟩ := List.cons.inj (hruns.symm.trans hword)
    obtain ⟨rest', rfl, hpieces⟩ := Stand.runs hrest hruns'
    exact ⟨rest', by simp only [List.flatMap_cons, List.append_assoc], hpieces⟩

/-- Words alone fill the text up to the last of them. -/
theorem Stand.words {ts : List Token} : ∀ {ws : List Word} {cs : List Char}, Stand (ws.map .word ++ ts) cs →
    ∃ rest, cs = ws.flatMap (fun v => v.gap ++ v.chars) ++ rest
  | [], cs, _ => ⟨cs, rfl⟩
  | w :: ws, cs, h => by
    obtain ⟨rest, rfl, hrest⟩ := h
    obtain ⟨rest', rfl⟩ := Stand.words hrest
    exact ⟨rest', by simp only [List.flatMap_cons, List.append_assoc]⟩

end Token

/-! ## Runs of words as texts -/

/-- A run of words as it is cut from a text: no word holds a colon, and blanks stand between the words. -/
structure Word.Run (ws : List Word) : Prop where
  solid : ∀ w ∈ ws, w.Solid
  gaps : ∀ v ∈ ws.tail, v.gap ≠ []
  colon : ∀ w ∈ ws, ':' ∉ w.chars

theorem Word.Run.of_tokens {ws : List Word} {ts : List Token} (hcut : Cut ts) (hcolon : ∀ w, .word w ∈ ts → ':' ∉ w.chars)
    (h : ws.map .word <:+: ts) : Word.Run ws := by
  cases ws with
  | nil => exact ⟨List.forall_mem_nil _, List.forall_mem_nil _, List.forall_mem_nil _⟩
  | cons w ws =>
    obtain ⟨rest, hpre, hsuf⟩ := List.infix_iff_prefix_suffix.1 h
    have hne : rest ≠ [] := by
      rintro rfl
      simp at hpre
    obtain ⟨hsolid, hgaps⟩ := (hcut.of_suffix hsuf hne).words hpre
    exact ⟨hsolid, hgaps, fun v hv => hcolon v (h.subset (List.mem_map_of_mem hv))⟩

theorem Word.Run.tail {w : Word} {ws : List Word} (h : Word.Run (w :: ws)) : Word.Run ws where
  solid v hv := h.solid v (List.mem_cons_of_mem _ hv)
  gaps v hv := h.gaps v (List.mem_of_mem_tail hv)
  colon v hv := h.colon v (List.mem_cons_of_mem _ hv)

theorem Word.Run.drop {ws : List Word} (h : Word.Run ws) : ∀ n, Word.Run (ws.drop n)
  | 0 => h
  | n + 1 => by
    cases ws with
    | nil => exact h
    | cons w ws => exact h.tail.drop n

theorem Word.Run.front {ws vs : List Word} (h : Word.Run ws) (hpre : vs <+: ws) : Word.Run vs where
  solid v hv := h.solid v (hpre.subset hv)
  gaps v hv := by
    cases vs with
    | nil => cases hv
    | cons w vs =>
      obtain ⟨rest, rfl⟩ := hpre
      exact h.gaps v (List.mem_append_left _ hv)
  colon v hv := h.colon v (hpre.subset hv)

namespace Text

theorem words_of_solid {u : List Char} (hne : u ≠ []) (hu : ∀ c ∈ u, isBlank c = false) : words u = [u] := by
  induction u with
  | nil => exact absurd rfl hne
  | cons c u ih =>
    cases u with
    | nil => simp [words, hu c List.mem_cons_self]
    | cons d u =>
      have hd := hu d (List.mem_cons_of_mem _ List.mem_cons_self)
      rw [words, hu c List.mem_cons_self, if_neg Bool.false_ne_true, hd, if_neg Bool.false_ne_true,
        ih (List.cons_ne_nil _ _) fun x hx => hu x (List.mem_cons_of_mem _ hx)]

/-- A text without blanks at either end is trimmed. -/
theorem trimmed_of_ends {s : String} (hfirst : ∀ c ∈ s.toList.head?, isBlank c = false)
    (hlast : ∀ c ∈ s.toList.getLast?, isBlank c = false) : trimmed s = s := by
  have hend : trimEnd s.toList = s.toList := by
    rw [trimEnd, dropWhile_of_head (by rwa [List.head?_reverse]), List.reverse_reverse]
  rw [trimmed, trim, trimStart, dropWhile_of_head hfirst, hend, String.ofList_toList]

end Text

/-- **A run as a text**: it is trimmed and holds no colon. -/
theorem Word.Run.clean {w : Word} {ws : List Word} (h : Word.Run (w :: ws)) : Clean (Word.span (w :: ws)) ∧
    Word.span (w :: ws) ≠ "" := by
  have hw := h.solid w List.mem_cons_self
  obtain ⟨c, chars, hchars⟩ := List.exists_cons_of_ne_nil hw.ne_nil
  have htext : (Word.span (w :: ws)).toList = w.chars ++ ws.flatMap fun v => v.gap ++ v.chars := by
    rw [Word.span, String.toList_ofList]
  refine ⟨⟨trimmed_of_ends ?_ ?_, ?_⟩, fun hempty => ?_⟩
  · rw [htext, hchars]
    intro d hd
    obtain rfl : c = d := by simpa using hd
    exact hw.chars c (hchars ▸ List.mem_cons_self)
  · -- the last character belongs to the last word
    rw [htext]
    rcases List.eq_nil_or_concat ws with rfl | ⟨vs, v, rfl⟩
    · intro d hd
      rw [List.flatMap_nil, List.append_nil] at hd
      exact hw.chars d (List.mem_of_getLast? hd)
    · have hv := h.solid v (by simp)
      intro d hd
      rw [List.concat_eq_append, List.flatMap_append, List.flatMap_singleton, ← List.append_assoc, ← List.append_assoc,
        List.getLast?_append_of_ne_nil _ hv.ne_nil] at hd
      exact hv.chars d (List.mem_of_getLast? hd)
  · rw [htext, List.mem_append, List.mem_flatMap, not_or]
    refine ⟨h.colon w List.mem_cons_self, ?_⟩
    rintro ⟨v, hv, hmem⟩
    rcases List.mem_append.1 hmem with hmem | hmem
    · have := (h.solid v (List.mem_cons_of_mem _ hv)).gap _ hmem
      rw [isBlank_colon] at this
      cases this
    · exact h.colon v (List.mem_cons_of_mem _ hv) hmem
  · rw [hempty, hchars] at htext
    cases htext

/-- The first word of a run is the first word of its text. -/
theorem Word.Run.head?_wordsOf {w : Word} {ws : List Word} (h : Word.Run (w :: ws)) :
    (wordsOf (Word.span (w :: ws))).head? = some w.text := by
  have hw := h.solid w List.mem_cons_self
  have hwords : ∃ vs, words (w.chars ++ ws.flatMap fun v => v.gap ++ v.chars) = w.chars :: vs := by
    cases ws with
    | nil => exact ⟨[], by rw [List.flatMap_nil, List.append_nil, words_of_solid hw.ne_nil hw.chars]⟩
    | cons v ws =>
      obtain ⟨b, gap, hgap⟩ := List.exists_cons_of_ne_nil (h.gaps v List.mem_cons_self)
      have hblank := (h.solid v (by simp)).gap b (hgap ▸ List.mem_cons_self)
      rw [List.flatMap_cons, hgap, List.cons_append, List.cons_append]
      exact ⟨_, words_append_blank hblank _ hw.ne_nil hw.chars⟩
  obtain ⟨vs, hvs⟩ := hwords
  rw [wordsOf, Word.span, String.toList_ofList, hvs]
  rfl

/-! ## Clauses as they are read -/

/-- Whether what a clause says can be read again: an effect opens with the keyword of its kind, and a state has a
name. -/
def StateClause.Sound : StateClause → Prop
  | .effect text => (StateClause.effect text).Plain
  | .goto state => ∀ s ∈ state, Clean s ∧ s ≠ ""
  | _ => True

namespace Description

open Token

/-- The effects that clauses ask for, in their order. -/
def effects (cs : List StateClause) : List String :=
  cs.filterMap fun
    | .effect text => some text
    | _ => none

theorem mem_effects {cs : List StateClause} {t : String} : t ∈ effects cs ↔ .effect t ∈ cs := by
  rw [effects, List.mem_filterMap]
  constructor
  · rintro ⟨c, hc, ht⟩
    cases c with
    | effect text =>
      cases ht
      exact hc
    | on | goto | loop => cases ht
  · exact fun h => ⟨_, h, rfl⟩

theorem effects_append (cs ds : List StateClause) : effects (cs ++ ds) = effects cs ++ effects ds :=
  List.filterMap_append

theorem plain_effect {w : Word} {ws : List Word} (h : Word.Run (w :: ws))
    (hkind : (EffectKind.ofKeyword? w.text).isSome = true) : (StateClause.effect (Word.span (w :: ws))).Plain :=
  ⟨h.clean.1, w.text, h.head?_wordsOf, hkind⟩

/-- **A run between colons means what can be read again**, and an effect is the whole run. -/
theorem sound_of_meaning {w : Word} {ws : List Word} (h : Word.Run (w :: ws)) {c : StateClause}
    (hc : (meaning w ws).clause = some c) : c.Sound ∧ ∀ t, c = .effect t → t = Word.span (w :: ws) := by
  unfold meaning at hc
  split at hc
  · split at hc
    · cases hc
    · cases hc
      exact ⟨trivial, nofun⟩
  · cases hc
    refine ⟨fun s hs => ?_, nofun⟩
    cases ws with
    | nil => cases hs
    | cons v ws =>
      obtain ⟨hclean, hne⟩ := h.tail.clean
      rw [hclean.filled hne] at hs
      cases hs
      exact ⟨hclean, hne⟩
  · cases hc
    exact ⟨trivial, nofun⟩
  · split at hc
    · rename_i hkind
      cases hc
      exact ⟨plain_effect h hkind, fun t ht => (StateClause.effect.inj ht).symm⟩
    · cases hc

theorem span_singleton (v : Word) : Word.span [v] = v.text := by
  rw [Word.span, List.flatMap_nil, List.append_nil, Word.text]

/-- **A keyword opens what can be read again**, and an effect is all that its clause takes. -/
theorem sound_of_readKeyword {w : Word} {ws : List Word} (h : Word.Run (w :: ws)) {c : StateClause}
    (hc : (readKeyword w ws).1.clause = some c) : c.Sound ∧
      ∀ t, c = .effect t → t = Word.span (w :: ws.take (readKeyword w ws).2) := by
  unfold readKeyword at hc ⊢
  split at hc
  · split at hc
    · cases hc
      exact ⟨trivial, nofun⟩
    · cases hc
  · split at hc
    · rename_i v vs
      cases hc
      refine ⟨fun s hs => ?_, nofun⟩
      cases hs
      rw [← span_singleton]
      have hpre : [v] <+: v :: vs := ⟨vs, rfl⟩
      exact (h.tail.front hpre).clean
    · cases hc
  · split at hc
    · split at hc
      · cases hc
        exact ⟨trivial, nofun⟩
      · cases hc
        exact ⟨trivial, nofun⟩
    · cases hc
      exact ⟨trivial, nofun⟩
  · split at hc
    · rename_i hkind
      have hpre : ws.takeWhile (fun v => !isKeyword v.text) <+: ws := List.takeWhile_prefix _
      cases hc
      refine ⟨plain_effect (h.front (List.cons_prefix_cons.2 ⟨rfl, hpre⟩)) hkind, fun t ht => ?_⟩
      rw [if_pos hkind, ← (List.prefix_iff_eq_take.1 hpre)]
      exact (StateClause.effect.inj ht).symm
    · cases hc

/-- Every clause of a description can be read again. -/
theorem sound_of_mem_clausesOf {src : String} {c : StateClause} (h : c ∈ clausesOf src) : c.Sound := by
  have hcut : Cut (ofText src) := .scan _ _
  have hcolon := colon_notMem_scan src.toList 0
  obtain ⟨r, hr, hclause⟩ := List.mem_filterMap.1 h
  unfold readings at hr
  split at hr
  · obtain ⟨run, hrun, hr⟩ := List.mem_flatMap.1 hr
    cases run with
    | nil => cases hr
    | cons w ws =>
      obtain rfl := List.mem_singleton.1 hr
      exact (sound_of_meaning (.of_tokens hcut hcolon (infix_of_mem_runs hrun)) hclause).1
  · rename_i hnone
    obtain ⟨offset, hts⟩ := hcut.eq_words (by simpa using hnone)
    obtain ⟨w, ws, hsuf, rfl⟩ := exists_of_mem_clauses hr
    have hinfix : (w :: ws).map Token.word <:+: ofText src := by
      rw [hts]
      exact (hsuf.isInfix.map _).trans (List.prefix_append _ _).isInfix
    exact (sound_of_readKeyword (.of_tokens hcut hcolon hinfix) hclause).1

/-! ## Effects where they stand -/

theorem effects_readRun {r : List Word} (h : Word.Run r) : (effects (Reading.meanings (readRun r))).Sublist [Word.span r] := by
  cases r with
  | nil => exact List.nil_sublist _
  | cons w ws =>
    rw [readRun, Reading.meanings, List.filterMap_cons, List.filterMap_nil]
    simp only
    cases hc : (meaning w ws).clause with
    | none => exact List.nil_sublist _
    | some c =>
      cases c with
      | effect t =>
        rw [(sound_of_meaning h hc).2 t rfl]
        exact List.Sublist.refl _
      | on | goto | loop => exact List.nil_sublist _

theorem effects_runs {rs : List (List Word)} (h : ∀ r ∈ rs, Word.Run r) :
    (effects (Reading.meanings (rs.flatMap readRun))).Sublist (rs.map Word.span) := by
  induction rs with
  | nil => exact List.Sublist.refl _
  | cons r rs ih =>
    rw [List.flatMap_cons, Reading.meanings, List.filterMap_append, effects_append, List.map_cons]
    exact (effects_readRun (h r List.mem_cons_self)).append (ih fun r' hr' => h r' (List.mem_cons_of_mem _ hr'))

/-- Among keywords the effects stand one behind another. -/
theorem pieces_clauses {ws : List Word} (h : Word.Run ws) {cs rest : List Char}
    (hcs : cs = ws.flatMap (fun v => v.gap ++ v.chars) ++ rest) :
    PiecesOf (effects (Reading.meanings (Reading.clauses readKeyword ws))) cs := by
  generalize hn : ws.length = n
  induction n using Nat.strong_induction_on generalizing ws cs with
  | _ n ih =>
    cases ws with
    | nil => trivial
    | cons w ws =>
      -- the clause takes some of the words, and the other clauses follow it
      let k := (readKeyword w ws).2
      have hrest : PiecesOf (effects (Reading.meanings (Reading.clauses readKeyword (ws.drop k))))
          ((ws.drop k).flatMap (fun v => v.gap ++ v.chars) ++ rest) := by
        refine ih (ws.drop k).length ?_ ?_ rfl rfl
        · rw [← hn, List.length_drop, List.length_cons]
          omega
        · exact h.tail.drop k
      have hwords : cs = (w :: ws.take k).flatMap (fun v => v.gap ++ v.chars) ++
          ((ws.drop k).flatMap (fun v => v.gap ++ v.chars) ++ rest) := by
        rw [hcs, ← List.append_assoc, ← List.flatMap_append, List.cons_append, List.take_append_drop]
      have hskip : PiecesOf (effects (Reading.meanings (Reading.clauses readKeyword (ws.drop k)))) cs := by
        rw [hwords]
        exact hrest.behind _
      rw [Reading.clauses_cons, Reading.meanings, List.filterMap_cons]
      cases hc : (readKeyword w ws).1.clause with
      | none => exact hskip
      | some c =>
        cases c with
        | effect t =>
          rw [(sound_of_readKeyword h hc).2 t rfl]
          exact .span hwords hrest
        | on | goto | loop => exact hskip

/-- **The effects of a description are pieces of it**, in the order in which they stand there. -/
theorem pieces_effects (src : String) : PiecesOf (effects (clausesOf src)) src.toList := by
  have hcut : Cut (ofText src) := .scan _ _
  have hcolon := colon_notMem_scan src.toList 0
  have hstand : Stand (ofText src) src.toList := stand_scan _ _
  unfold clausesOf readings
  split
  · obtain ⟨r, rs, hruns, -⟩ := runs_word ⟨[], [], 0⟩ (ofText src)
    obtain ⟨rest, hcs, hpieces⟩ := hstand.runs hruns
    refine PiecesOf.sublist (effects_runs fun r hr => .of_tokens hcut hcolon (infix_of_mem_runs hr)) ?_
    rw [hruns, List.map_cons]
    exact .span hcs hpieces
  · rename_i hnone
    obtain ⟨offset, hts⟩ := hcut.eq_words (by simpa using hnone)
    rw [hts] at hstand
    obtain ⟨rest, hcs⟩ := hstand.words
    have hpre : ((ofText src).filterMap word?).map Token.word <+: ofText src := ⟨_, hts.symm⟩
    exact pieces_clauses (.of_tokens hcut hcolon hpre.isInfix) hcs

end Description
end Stagecraft
