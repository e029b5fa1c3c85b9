import Mathlib.Data.List.Chain
import Stagecraft.Proofs.Grammar.Scanned
/-!
# Tokens tile their text

Every character of a text is blank, a colon, or part of one word, so the tokens lie one behind another with nothing but
blanks between them.  Their places are counted in bytes, and each of them falls between two characters.  All of this
leaves no choice: tokens that lie in a text in this way are those that the scan finds.
-/
namespace Stagecraft

namespace Text

/-! ## Places in a text -/

/-- The text `u` stands in `src` from byte `i` to byte `j`. -/
def Spans (src : String) (i : Nat) (u : String) (j : Nat) : Prop :=
  ∃ before after, src = before ++ u ++ after ∧ before.utf8ByteSize = i ∧ (before ++ u).utf8ByteSize = j

/-- Whether the character stands between words. -/
def Separates (c : Char) : Prop := isBlank c = true ∨ c = ':'

/-- Characters that make up a word. -/
def IsWord (u : List Char) : Prop := u ≠ [] ∧ ∀ c ∈ u, ¬ Separates c

instance (c : Char) : Decidable (Separates c) := inferInstanceAs (Decidable (isBlank c = true ∨ c = ':'))

-- the characters are checked along the list, not among all that there are
instance (u : List Char) : Decidable (IsWord u) :=
  decidable_of_iff (u ≠ [] ∧ (u.all fun c => !decide (Separates c)) = true) (by simp [IsWord])

instance (rest : List Char) : Decidable (Breaks rest) :=
  decidable_of_iff ((rest.head?.all fun c => decide (Separates c)) = true) (by
    simp only [Option.all_eq_true, decide_eq_true_eq]
    rfl)

theorem bytes_toList (s : String) : bytes s.toList = s.utf8ByteSize := by
  obtain ⟨cs, rfl⟩ : ∃ cs, s = String.ofList cs := ⟨s.toList, String.ofList_toList.symm⟩
  rw [String.toList_ofList]
  induction cs with
  | nil => rfl
  | cons c cs ih =>
    rw [show c :: cs = [c] ++ cs from rfl, bytes_append, String.ofList_append, String.utf8ByteSize_append, ih,
      ← String.singleton_eq_ofList, String.utf8ByteSize_singleton]
    rfl

/-- A place in a text parts it in one way. -/
theorem eq_of_bytes {a b x y : List Char} (h : a ++ x = b ++ y) (hbytes : bytes a = bytes b) : a = b ∧ x = y := by
  induction a generalizing b with
  | nil =>
    cases b with
    | nil => exact ⟨rfl, h⟩
    | cons d b =>
      have hpos := d.utf8Size_pos
      simp only [bytes] at hbytes
      omega
  | cons c a ih =>
    cases b with
    | nil =>
      have hpos := c.utf8Size_pos
      simp only [bytes] at hbytes
      omega
    | cons d b =>
      obtain ⟨rfl, hrest⟩ := List.cons.inj h
      obtain ⟨rfl, rfl⟩ := ih hrest (by simpa only [bytes, Nat.add_left_cancel_iff] using hbytes)
      exact ⟨rfl, rfl⟩

theorem spans_iff {src u : String} {i j : Nat} : Spans src i u j ↔
    ∃ before after, src.toList = before ++ (u.toList ++ after) ∧ bytes before = i ∧ i + bytes u.toList = j := by
  constructor
  · rintro ⟨before, after, rfl, rfl, rfl⟩
    refine ⟨before.toList, after.toList, ?_, bytes_toList _, ?_⟩
    · rw [String.toList_append, String.toList_append, List.append_assoc]
    · rw [bytes_toList, String.utf8ByteSize_append]
  · rintro ⟨before, after, hsrc, rfl, rfl⟩
    have hbefore := bytes_toList (String.ofList before)
    rw [String.toList_ofList] at hbefore
    refine ⟨String.ofList before, String.ofList after, ?_, hbefore.symm, ?_⟩
    · rw [← String.toList_inj, hsrc, String.toList_append, String.toList_append, String.toList_ofList,
        String.toList_ofList, List.append_assoc]
    · rw [String.utf8ByteSize_append, ← hbefore, bytes_toList]

/-- Both ends of what stands in a text are places between characters. -/
theorem Spans.isValid {src u : String} {i j : Nat} (h : Spans src i u j) :
    (⟨i⟩ : String.Pos.Raw).IsValid src ∧ (⟨j⟩ : String.Pos.Raw).IsValid src := by
  obtain ⟨before, after, rfl, rfl, rfl⟩ := h
  exact ⟨String.Pos.Raw.isValid_iff_exists_append.2 ⟨before, u ++ after, String.append_assoc, rfl⟩,
    String.Pos.Raw.isValid_iff_exists_append.2 ⟨before ++ u, after, rfl, rfl⟩⟩

/-- What stands behind a place is known from the place. -/
theorem Spans.behind {src u : String} {i j : Nat} (h : Spans src i u j) {done cs : List Char}
    (hsrc : src.toList = done ++ cs) (hi : bytes done = i) : ∃ rest, cs = u.toList ++ rest ∧ j = i + bytes u.toList := by
  obtain ⟨before, after, hsrc', rfl, rfl⟩ := spans_iff.1 h
  obtain ⟨-, rfl⟩ := eq_of_bytes (hsrc.symm.trans hsrc') hi
  exact ⟨after, rfl, rfl⟩

/-- The character behind a place. -/
theorem separates_of_spans_behind {src : String} {done cs : List Char} (hsrc : src.toList = done ++ cs) (hcs : Breaks cs)
    {c : Char} {j : Nat} (h : Spans src (bytes done) (String.singleton c) j) : Separates c := by
  obtain ⟨rest, rfl, -⟩ := h.behind hsrc rfl
  rw [String.toList_singleton] at hcs
  exact hcs c rfl

/-- The character in front of a place. -/
theorem separates_of_spans_before {src : String} {done cs : List Char} (hsrc : src.toList = done ++ cs)
    (hdone : ∀ c ∈ done.getLast?, Separates c) {c : Char} {i : Nat}
    (h : Spans src i (String.singleton c) (bytes done)) : Separates c := by
  obtain ⟨before, after, hsrc', rfl, hbytes⟩ := spans_iff.1 h
  rw [String.toList_singleton] at hsrc' hbytes
  rw [hsrc, ← List.append_assoc] at hsrc'
  obtain ⟨rfl, -⟩ := eq_of_bytes hsrc' (by rw [bytes_append, ← hbytes])
  exact hdone c (by rw [List.getLast?_append, List.getLast?_singleton]; rfl)

end Text

open Text

/-! ## How tokens lie in a text -/

namespace Token

/-- A token without the blanks before it. -/
def bare : Token → Token
  | .word w => .word { w with gap := [] }
  | t => t

def isWord (t : Token) : Bool := t.word?.isSome

/-- Behind the first token only blanks stand up to the second, and some of them if both are words. -/
def Next (src : String) (s t : Token) : Prop :=
  ∃ b, Blanks b.toList ∧ Spans src s.finish b t.offset ∧ (s.isWord = true → t.isWord = true → b ≠ "")

end Token

/-- The tokens lie in the text: each word is as long as it can be, the colons are all colons, and blanks fill the text
between one token and the next. -/
structure Tiles (src : String) (ts : List Token) : Prop where
  stop : ∃ front, ts = front ++ [.stop src.utf8ByteSize] ∧ (∀ n, .stop n ∉ front) ∧
    front.Pairwise fun s t => s.offset < t.offset
  word : ∀ w, .word w ∈ ts → IsWord w.chars ∧ Spans src w.offset w.text w.finish ∧
    (∀ c i, Spans src i (String.singleton c) w.offset → Separates c) ∧
    ∀ c j, Spans src w.finish (String.singleton c) j → Separates c
  colon : ∀ n, .colon n ∈ ts ↔ Spans src n ":" (n + 1)
  first : ∀ t ∈ ts.head?, ∃ b, Blanks b.toList ∧ Spans src 0 b t.offset
  next : ts.IsChain (Token.Next src)
  boundary : ∀ t ∈ ts, (⟨t.offset⟩ : String.Pos.Raw).IsValid src ∧ (⟨t.finish⟩ : String.Pos.Raw).IsValid src

/-- Tokens laid one behind another from byte `n` on, where the text `cs` stands. -/
inductive Laid : Nat → List Char → List Token → Prop
  | stop {n : Nat} {b : List Char} : Blanks b → Laid n b [.stop (n + bytes b)]
  | colon {n : Nat} {b rest : List Char} {ts : List Token} : Blanks b → Laid (n + bytes b + 1) rest ts →
      Laid n (b ++ ':' :: rest) (.colon (n + bytes b) :: ts)
  | word {n : Nat} {b rest : List Char} {w : Word} {ts : List Token} : Blanks b → IsWord w.chars →
      w.offset = n + bytes b → Breaks rest → Laid w.finish rest ts → Laid n (b ++ (w.chars ++ rest)) (.word w :: ts)

/-! ## The scan, token by token -/

namespace Token

/-- A word that something breaks off is found as a whole. -/
theorem scan_word {u rest : List Char} (hu : IsWord u) (hrest : Breaks rest) :
    ∀ n, scan n (u ++ rest) = .word ⟨[], u, n⟩ :: scan (n + bytes u) rest := by
  obtain ⟨hne, hu⟩ := hu
  induction u with
  | nil => exact absurd rfl hne
  | cons c u ih =>
    intro n
    obtain ⟨hblank, hcolon⟩ := not_or.1 (hu c List.mem_cons_self)
    rw [List.cons_append, scan]
    unfold push
    rw [if_neg hcolon, if_neg hblank]
    cases u with
    | nil =>
      rw [List.nil_append]
      split
      · rename_i cs start ts heq
        exact absurd rfl (gap_ne_nil_of_breaks hrest heq)
      · rfl
    | cons d u =>
      rw [ih (List.cons_ne_nil _ _) (fun x hx => hu x (List.mem_cons_of_mem _ hx)),
        show bytes (c :: d :: u) = c.utf8Size + bytes (d :: u) from rfl, ← Nat.add_assoc]

theorem scan_word_behind {b u rest : List Char} (hb : Blanks b) (hu : IsWord u) (hrest : Breaks rest) :
    ∀ n, scan n (b ++ (u ++ rest)) = .word ⟨b, u, n + bytes b⟩ :: scan (n + bytes b + bytes u) rest := by
  induction b with
  | nil => exact scan_word hu hrest
  | cons c b ih =>
    intro n
    rw [List.cons_append, scan, ih (fun d hd => hb d (List.mem_cons_of_mem _ hd)), push_blank (hb c List.mem_cons_self),
      bytes, ← Nat.add_assoc]

end Token

/-- How a text begins: behind some blanks there is the end, a colon or a whole word. -/
theorem Text.shape (cs : List Char) : ∃ b rest, cs = b ++ rest ∧ Blanks b ∧
    (rest = [] ∨ (∃ r, rest = ':' :: r) ∨ ∃ u r, rest = u ++ r ∧ IsWord u ∧ Breaks r) := by
  refine ⟨cs.takeWhile isBlank, cs.dropWhile isBlank, List.takeWhile_append_dropWhile.symm,
    fun c hc => List.all_eq_true.1 List.all_takeWhile c hc, ?_⟩
  have hhead := isBlank_head_dropWhile cs
  generalize cs.dropWhile isBlank = rest at hhead
  cases rest with
  | nil => exact .inl rfl
  | cons c cs =>
    by_cases hcolon : c = ':'
    · exact .inr (.inl ⟨cs, by rw [hcolon]⟩)
    · let inner (c : Char) : Bool := !isBlank c && c != ':'
      have hinner : ∀ d, inner d = true ↔ ¬ Separates d := fun d => by simp [inner, Separates]
      have hc : inner c = true := by simpa [inner, hcolon] using hhead c rfl
      refine .inr (.inr ⟨(c :: cs).takeWhile inner, (c :: cs).dropWhile inner, List.takeWhile_append_dropWhile.symm,
        ⟨?_, fun d hd => (hinner d).1 (List.all_eq_true.1 List.all_takeWhile d hd)⟩, fun d hd => ?_⟩)
      · rw [List.takeWhile_cons_of_pos hc]
        exact List.cons_ne_nil _ _
      · have hnot := List.head?_dropWhile_not inner (c :: cs)
        rw [Option.mem_def.1 hd] at hnot
        exact not_not.1 fun h => absurd ((hinner d).2 h) (by simpa using hnot)

/-- **Tokens laid in a text are those of the scan**, apart from the blanks that a word remembers. -/
theorem laid_iff {n : Nat} {cs : List Char} {ts : List Token} :
    Laid n cs ts ↔ ts.map Token.bare = (Token.scan n cs).map Token.bare := by
  constructor
  · intro h
    induction h with
    | stop hb => rw [Token.scan_end hb]
    | colon hb _ ih => rw [Token.scan_colon_behind hb, List.map_cons, List.map_cons, ih]
    | word hb hu hoffset hrest _ ih =>
      rw [Token.scan_word_behind hb hu hrest, List.map_cons, List.map_cons, ih, Word.finish, hoffset]
      simp only [Token.bare, hoffset]
  · generalize hlen : cs.length = k
    induction k using Nat.strong_induction_on generalizing n cs ts with
    | _ k ih =>
      intro h
      obtain ⟨b, rest, rfl, hb, rfl | ⟨r, rfl⟩ | ⟨u, r, rfl, hu, hr⟩⟩ := shape cs
      · rw [List.append_nil] at h ⊢
        rw [Token.scan_end hb, List.map_cons, List.map_nil, List.map_eq_singleton_iff] at h
        obtain ⟨t, rfl, ht⟩ := h
        cases t <;> cases ht
        exact .stop hb
      · rw [Token.scan_colon_behind hb, List.map_cons, List.map_eq_cons_iff] at h
        obtain ⟨t, ts, rfl, ht, hts⟩ := h
        cases t <;> cases ht
        refine .colon hb (ih r.length ?_ rfl hts)
        rw [← hlen, List.length_append, List.length_cons]
        omega
      · rw [Token.scan_word_behind hb hu hr, List.map_cons, List.map_eq_cons_iff] at h
        obtain ⟨t, ts, rfl, ht, hts⟩ := h
        cases t with
        | colon | stop => cases ht
        | word w =>
          obtain ⟨gap, chars, offset⟩ := w
          cases ht
          refine .word (w := ⟨gap, u, n + bytes b⟩) hb hu rfl hr (ih r.length ?_ rfl hts)
          have := List.length_pos_of_ne_nil hu.1
          rw [← hlen, List.length_append, List.length_append]
          omega

/-! ## What is laid tiles the text -/

theorem Text.bytes_pos {u : List Char} (hu : u ≠ []) : 0 < bytes u := by
  obtain ⟨c, u, rfl⟩ := List.exists_cons_of_ne_nil hu
  exact Nat.add_pos_left c.utf8Size_pos _

/-- A word does not begin where a word has just ended. -/
theorem Text.IsWord.not_breaks {u rest : List Char} (hu : IsWord u) : ¬ Breaks (u ++ rest) := by
  obtain ⟨c, u, rfl⟩ := List.exists_cons_of_ne_nil hu.1
  exact fun h => hu.2 c List.mem_cons_self (h c rfl)

theorem Text.IsWord.colon {u : List Char} (hu : IsWord u) : ':' ∉ u := fun h => hu.2 ':' h (.inr rfl)

theorem Text.Blanks.colon {b : List Char} (hb : Blanks b) : ':' ∉ b := fun h => absurd (hb ':' h) (by decide)

/-- A colon that does not stand in front stands behind. -/
theorem Text.colon_behind {p rest : List Char} (hp : ':' ∉ p) {n m : Nat} :
    (∃ before after, p ++ rest = before ++ ':' :: after ∧ m = n + bytes before) ↔
      ∃ before after, rest = before ++ ':' :: after ∧ m = n + bytes p + bytes before := by
  constructor
  · rintro ⟨before, after, heq, rfl⟩
    rcases List.append_eq_append_iff.1 heq with ⟨as, rfl, rfl⟩ | ⟨bs, rfl, hbs⟩
    · exact ⟨as, after, rfl, by rw [bytes_append, Nat.add_assoc]⟩
    · cases bs with
      | nil => exact ⟨[], after, hbs.symm, by rw [List.append_nil]; rfl⟩
      | cons c bs =>
        obtain ⟨rfl, -⟩ := List.cons.inj hbs
        exact absurd (List.mem_append_right _ List.mem_cons_self) hp
  · rintro ⟨before, after, rfl, rfl⟩
    exact ⟨p ++ before, after, by rw [List.append_assoc], by rw [bytes_append, Nat.add_assoc]⟩

namespace Laid

variable {n : Nat} {cs : List Char} {ts : List Token}

/-- The end is laid last. -/
theorem stop_last (h : Laid n cs ts) : ∃ front, ts = front ++ [.stop (n + bytes cs)] ∧ ∀ m, .stop m ∉ front := by
  induction h with
  | stop hb => exact ⟨[], rfl, fun _ => List.not_mem_nil⟩
  | @colon n b rest ts hb _ ih =>
    obtain ⟨front, rfl, hfront⟩ := ih
    refine ⟨.colon (n + bytes b) :: front, ?_, fun m hm => ?_⟩
    · rw [List.cons_append, bytes_append, ← Nat.add_assoc, bytes, ← Nat.add_assoc]
      rfl
    · cases hm with
      | tail _ hm => exact hfront m hm
  | @word n b rest w ts hb hu hoffset hrest _ ih =>
    obtain ⟨front, rfl, hfront⟩ := ih
    refine ⟨.word w :: front, ?_, fun m hm => ?_⟩
    · rw [List.cons_append, bytes_append, bytes_append, Word.finish, hoffset]
      simp only [Nat.add_assoc]
    · cases hm with
      | tail _ hm => exact hfront m hm

theorem le_offset (h : Laid n cs ts) : ∀ t ∈ ts, n ≤ t.offset := by
  induction h with
  | stop hb =>
    intro t ht
    rw [List.mem_singleton.1 ht]
    exact Nat.le_add_right _ _
  | colon hb _ ih =>
    intro t ht
    rcases List.mem_cons.1 ht with rfl | ht
    · exact Nat.le_add_right _ _
    · have := ih t ht
      omega
  | word hb hu hoffset hrest _ ih =>
    intro t ht
    rcases List.mem_cons.1 ht with rfl | ht
    · exact Nat.le.intro hoffset.symm
    · have := ih t ht
      rw [Word.finish] at this
      omega

/-- **Tokens come in the order of their places.** -/
theorem pairwise_offset (h : Laid n cs ts) : ts.Pairwise fun s t => s.offset < t.offset := by
  induction h with
  | stop hb => exact List.pairwise_singleton _ _
  | colon hb h ih => exact List.pairwise_cons.2 ⟨fun t ht => h.le_offset t ht, ih⟩
  | word hb hu hoffset hrest h ih =>
    refine List.pairwise_cons.2 ⟨fun t ht => ?_, ih⟩
    have hle := h.le_offset t ht
    have hpos := bytes_pos hu.1
    rw [Word.finish] at hle
    change Word.offset _ < _
    omega

/-- Each word is a whole one, where it is said to stand. -/
theorem word_at (h : Laid n cs ts) {w : Word} (hw : .word w ∈ ts) : IsWord w.chars ∧ ∃ before after,
    cs = before ++ (w.chars ++ after) ∧ w.offset = n + bytes before ∧ (∀ c ∈ before.getLast?, Separates c) ∧
      Breaks after := by
  induction h with
  | stop hb => cases List.mem_singleton.1 hw
  | @colon n b rest ts hb _ ih =>
    have hw : .word w ∈ ts := by
      cases hw with
      | tail _ hw => exact hw
    obtain ⟨hu, before, after, rfl, hoffset, hbefore, hafter⟩ := ih hw
    refine ⟨hu, b ++ ':' :: before, after, ?_, ?_, fun c hc => ?_, hafter⟩
    · rw [List.append_assoc, List.cons_append]
    · rw [hoffset, bytes_append, bytes, ← Nat.add_assoc, ← Nat.add_assoc]
      rfl
    · rw [List.getLast?_append_of_ne_nil _ (List.cons_ne_nil _ _)] at hc
      cases before with
      | nil =>
        obtain rfl : ':' = c := by simpa using hc
        exact .inr rfl
      | cons d before => exact hbefore c (by rwa [List.getLast?_cons_cons] at hc)
  | @word n b rest v ts hb hv hoffset hrest _ ih =>
    rcases List.mem_cons.1 hw with heq | hw
    · cases heq
      exact ⟨hv, b, rest, rfl, hoffset, fun c hc => .inl (hb c (List.mem_of_getLast? hc)), hrest⟩
    · obtain ⟨hu, before, after, rfl, hplace, hbefore, hafter⟩ := ih hw
      -- something breaks off the word in front, so it does not reach up to this one
      have hne : before ≠ [] := by
        rintro rfl
        exact hu.not_breaks hrest
      refine ⟨hu, b ++ (v.chars ++ before), after, ?_, ?_, fun c hc => hbefore c ?_, hafter⟩
      · simp only [List.append_assoc]
      · rw [hplace, Word.finish, hoffset, bytes_append, bytes_append]
        simp only [Nat.add_assoc]
      · rwa [← List.append_assoc, List.getLast?_append_of_ne_nil _ hne] at hc

/-- The colons are all colons of the text. -/
theorem colon_iff (h : Laid n cs ts) {m : Nat} :
    .colon m ∈ ts ↔ ∃ before after, cs = before ++ ':' :: after ∧ m = n + bytes before := by
  induction h with
  | @stop n b hb =>
    constructor
    · intro hm
      cases List.mem_singleton.1 hm
    · rintro ⟨before, after, rfl, -⟩
      exact absurd (List.mem_append_right _ List.mem_cons_self) hb.colon
  | @colon n b rest ts hb _ ih =>
    rw [List.mem_cons, ih, colon_behind hb.colon]
    constructor
    · rintro (heq | ⟨before, after, rfl, rfl⟩)
      · cases heq
        exact ⟨[], rest, rfl, rfl⟩
      · exact ⟨':' :: before, after, rfl, by rw [bytes, ← Nat.add_assoc]; rfl⟩
    · rintro ⟨before, after, heq, rfl⟩
      cases before with
      | nil => exact .inl rfl
      | cons c before =>
        obtain ⟨rfl, rfl⟩ := List.cons.inj heq
        exact .inr ⟨before, after, rfl, by rw [bytes, ← Nat.add_assoc]; rfl⟩
  | @word n b rest w ts hb hu hoffset hrest _ ih =>
    rw [List.mem_cons, ih, ← List.append_assoc, colon_behind fun hmem =>
      (List.mem_append.1 hmem).elim hb.colon hu.colon, Word.finish, hoffset, bytes_append, Nat.add_assoc n]
    exact or_iff_right fun h => by cases h

/-- Blanks lead to the first token, and there are some of them if it is a word that stands behind a word. -/
theorem first (h : Laid n cs ts) : ∀ t ∈ ts.head?, ∃ b rest, cs = b ++ rest ∧ Blanks b ∧ t.offset = n + bytes b ∧
    (Breaks cs → t.isWord = true → b ≠ []) := by
  intro t ht
  cases h with
  | stop hb =>
    obtain rfl := Option.some.inj ht
    exact ⟨cs, [], (List.append_nil _).symm, hb, rfl, fun _ hword => by cases hword⟩
  | @colon _ b rest _ hb h =>
    obtain rfl := Option.some.inj ht
    exact ⟨b, _, rfl, hb, rfl, fun _ hword => by cases hword⟩
  | @word _ b rest w _ hb hu hoffset hrest h =>
    obtain rfl := Option.some.inj ht
    refine ⟨b, _, rfl, hb, hoffset, fun hbreaks _ => ?_⟩
    rintro rfl
    exact hu.not_breaks hbreaks

section
variable {src : String}

/-- The blanks in front of the first token, in the whole text. -/
theorem first_spans (done : List Char) (h : Laid (bytes done) cs ts) (hsrc : src.toList = done ++ cs) : ∀ t ∈ ts.head?,
    ∃ b, Blanks b.toList ∧ Spans src (bytes done) b t.offset ∧ (Breaks cs → t.isWord = true → b ≠ "") := by
  intro t ht
  obtain ⟨b, rest, rfl, hb, hoffset, hword⟩ := h.first t ht
  refine ⟨String.ofList b, by rwa [String.toList_ofList], spans_iff.2 ⟨done, rest, ?_, rfl, ?_⟩, fun hbreaks ht => ?_⟩
  · rw [hsrc, String.toList_ofList]
  · rw [hoffset, String.toList_ofList]
  · rw [ne_eq, ← String.toList_eq_nil_iff, String.toList_ofList]
    exact hword hbreaks ht

theorem next (h : Laid n cs ts) : ∀ done : List Char, src.toList = done ++ cs → n = bytes done →
    ts.IsChain (Token.Next src) := by
  induction h with
  | stop hb => exact fun _ _ _ => List.isChain_singleton _
  | @colon n b rest ts hb h ih =>
    intro done hsrc hn
    have hsrc' : src.toList = (done ++ b ++ [':']) ++ rest := by
      rw [hsrc]
      simp only [List.append_assoc, List.singleton_append]
    have hn' : n + bytes b + 1 = bytes (done ++ b ++ [':']) := by
      rw [bytes_append, bytes_append, hn]
      rfl
    rw [hn'] at h
    refine List.isChain_cons.2 ⟨fun t ht => ?_, ih _ hsrc' hn'⟩
    obtain ⟨c, hc, hspans, -⟩ := h.first_spans _ hsrc' t ht
    exact ⟨c, hc, by rwa [← hn'] at hspans, fun hword => by cases hword⟩
  | @word n b rest w ts hb hu hoffset hrest h ih =>
    intro done hsrc hn
    have hsrc' : src.toList = (done ++ b ++ w.chars) ++ rest := by
      rw [hsrc]
      simp only [List.append_assoc]
    have hn' : w.finish = bytes (done ++ b ++ w.chars) := by
      rw [bytes_append, bytes_append, Word.finish, hoffset, hn]
    rw [hn'] at h
    refine List.isChain_cons.2 ⟨fun t ht => ?_, ih _ hsrc' hn'⟩
    obtain ⟨c, hc, hspans, hne⟩ := h.first_spans _ hsrc' t ht
    exact ⟨c, hc, by rwa [← hn'] at hspans, fun _ => hne hrest⟩

end

/-- **Tokens that are laid tile the text.** -/
theorem tiles {src : String} (h : Laid 0 src.toList ts) : Tiles src ts where
  stop := by
    obtain ⟨front, rfl, hfront⟩ := h.stop_last
    refine ⟨front, ?_, hfront, (List.pairwise_append.1 h.pairwise_offset).1⟩
    rw [bytes_toList, Nat.zero_add]
  word w hw := by
    obtain ⟨hu, before, after, hsrc, hoffset, hbefore, hafter⟩ := h.word_at hw
    rw [Nat.zero_add] at hoffset
    have hsrc' : src.toList = (before ++ w.chars) ++ after := by rw [hsrc, List.append_assoc]
    have hfinish : w.finish = bytes (before ++ w.chars) := by rw [Word.finish, hoffset, bytes_append]
    refine ⟨hu, spans_iff.2 ⟨before, after, ?_, hoffset.symm, ?_⟩, fun c i hspans => ?_, fun c j hspans => ?_⟩
    · rw [Word.text, String.toList_ofList, hsrc]
    · rw [Word.text, String.toList_ofList, Word.finish]
    · rw [hoffset] at hspans
      exact separates_of_spans_before hsrc hbefore hspans
    · rw [hfinish] at hspans
      exact separates_of_spans_behind hsrc' hafter hspans
  colon m := by
    rw [h.colon_iff, spans_iff]
    simp only [Nat.zero_add]
    constructor
    · rintro ⟨before, after, hsrc, rfl⟩
      exact ⟨before, after, hsrc, rfl, rfl⟩
    · rintro ⟨before, after, hsrc, rfl, -⟩
      exact ⟨before, after, hsrc, rfl⟩
  first t ht := by
    obtain ⟨b, hb, hspans, -⟩ := h.first_spans [] rfl t ht
    exact ⟨b, hb, hspans⟩
  next := h.next [] rfl rfl
  boundary t ht := by
    cases t with
    | word w =>
      obtain ⟨-, before, after, hsrc, hoffset, -⟩ := h.word_at ht
      refine (spans_iff (u := w.text).2 ⟨before, after, ?_, ?_, ?_⟩).isValid
      · rw [Word.text, String.toList_ofList, hsrc]
      · rw [← Nat.zero_add (bytes before), ← hoffset]
        rfl
      · rw [Word.text, String.toList_ofList]
        rfl
    | colon m =>
      obtain ⟨before, after, hsrc, rfl⟩ := h.colon_iff.1 ht
      exact (spans_iff (u := ":").2 ⟨before, after, hsrc, (Nat.zero_add _).symm, rfl⟩).isValid
    | stop m =>
      obtain ⟨front, rfl, hfront⟩ := h.stop_last
      rcases List.mem_append.1 ht with ht | ht
      · exact absurd ht (hfront m)
      · cases List.mem_singleton.1 ht
        rw [bytes_toList, Nat.zero_add]
        exact ⟨String.Pos.Raw.isValid_rawEndPos, String.Pos.Raw.isValid_rawEndPos⟩

end Laid

/-! ## What tiles the text is laid in it -/

/-- Tokens that go on behind a place are laid there, up to the end. -/
theorem Tiles.laid_behind {src : String} {all : List Token} (h : Tiles src all) : ∀ {front : List Token}
    (done : List Char) {cs : List Char}, (∀ t ∈ front, t ∈ all) → (∀ m, .stop m ∉ front) → src.toList = done ++ cs →
    (∀ t ∈ (front ++ [Token.stop src.utf8ByteSize]).head?, ∃ b, Blanks b.toList ∧ Spans src (bytes done) b t.offset) →
    (front ++ [Token.stop src.utf8ByteSize]).IsChain (Token.Next src) →
      Laid (bytes done) cs (front ++ [.stop src.utf8ByteSize])
  | [], done, cs, _, _, hsrc, hfirst, _ => by
    obtain ⟨b, hb, hspans⟩ := hfirst _ rfl
    obtain ⟨rest, rfl, hj⟩ := hspans.behind hsrc rfl
    obtain rfl : rest = [] := by
      by_contra hne
      have hpos := bytes_pos hne
      have hsize := bytes_toList src
      rw [hsrc, bytes_append, bytes_append] at hsize
      simp only [Token.offset] at hj
      omega
    rw [List.append_nil]
    simp only [Token.offset] at hj
    rw [hj]
    exact .stop hb
  | t :: front, done, cs, hall, hstop, hsrc, hfirst, hchain => by
    obtain ⟨b, hb, hspans⟩ := hfirst t rfl
    obtain ⟨rest, rfl, hj⟩ := hspans.behind hsrc rfl
    obtain ⟨hnext, hchain⟩ := List.isChain_cons.1 hchain
    have hsrc' : src.toList = (done ++ b.toList) ++ rest := by rw [hsrc, List.append_assoc]
    have hrest : ∀ (done' : List Char) {cs' : List Char}, src.toList = done' ++ cs' → bytes done' = t.finish →
        Laid t.finish cs' (front ++ [.stop src.utf8ByteSize]) := by
      intro done' cs' hsrc' hbytes
      rw [← hbytes]
      refine h.laid_behind done' (fun t ht => hall t (List.mem_cons_of_mem _ ht))
        (fun m hm => hstop m (List.mem_cons_of_mem _ hm)) hsrc' (fun t ht => ?_) hchain
      obtain ⟨b, hb, hspans, -⟩ := hnext t ht
      exact ⟨b, hb, hbytes ▸ hspans⟩
    cases t with
    | stop m => exact absurd List.mem_cons_self (hstop m)
    | colon m =>
      obtain ⟨after, rfl, -⟩ := ((h.colon m).1 (hall _ List.mem_cons_self)).behind hsrc' (by rw [bytes_append]; exact hj.symm)
      simp only [Token.offset] at hj
      subst hj
      refine .colon hb (hrest (done ++ b.toList ++ [':']) ?_ ?_)
      · rw [hsrc']
        simp only [List.append_assoc]
        rfl
      · rw [bytes_append, bytes_append]
        rfl
    | word w =>
      obtain ⟨hu, hplace, -, hbehind⟩ := h.word w (hall _ List.mem_cons_self)
      obtain ⟨after, rfl, -⟩ := hplace.behind hsrc' (by rw [bytes_append]; exact hj.symm)
      simp only [Token.offset] at hj
      rw [Word.text, String.toList_ofList] at hsrc' ⊢
      have hdone : bytes (done ++ b.toList ++ w.chars) = w.finish := by
        rw [bytes_append, bytes_append, ← hj, Word.finish]
      refine .word hb hu hj (fun c hc => ?_) (hrest (done ++ b.toList ++ w.chars) ?_ hdone)
      · obtain ⟨after, rfl⟩ : ∃ cs, after = c :: cs := by
          cases after with
          | nil => cases hc
          | cons d cs => exact ⟨cs, by rw [Option.some.inj hc]⟩
        refine hbehind c _ (spans_iff.2 ⟨done ++ b.toList ++ w.chars, after, ?_, hdone, rfl⟩)
        rw [hsrc', String.toList_singleton]
        simp only [List.append_assoc, List.singleton_append]
      · rw [hsrc']
        simp only [List.append_assoc]

theorem tiles_iff_laid {src : String} {ts : List Token} : Tiles src ts ↔ Laid 0 src.toList ts := by
  refine ⟨fun h => ?_, Laid.tiles⟩
  obtain ⟨front, rfl, hfront, -⟩ := h.stop
  exact h.laid_behind [] (fun t ht => List.mem_append_left _ ht) hfront rfl h.first h.next

/-- **The tokens of a text tile it, and nothing else does**, up to the blanks that a word remembers.  The words alone are
the same tokens without the colons and the end. -/
theorem only_tokens_tile (src : String) :
    (∀ ts, Tiles src ts ↔ ts.map Token.bare = (Token.ofText src).map Token.bare) ∧
    (Token.wordsOf src).map Token.word = (Token.ofText src).filter Token.isWord := by
  refine ⟨fun ts => tiles_iff_laid.trans laid_iff, ?_⟩
  rw [Token.wordsOf]
  induction Token.ofText src with
  | nil => rfl
  | cons t ts ih =>
    cases t with
    | word w => exact congrArg (Token.word w :: ·) ih
    | colon | stop => exact ih

/-- Places count bytes, and a colon may stand right behind a word. -/
example : (Token.ofText " é:on go").map Token.offset = [1, 3, 4, 7, 9] := by decide

end Stagecraft
