import Stagecraft.Proofs.Binary32.Written
import Stagecraft.Style.Sheet
/-!
# Class names read back

A class name writes `m` for a minus sign, `pct` for a percent sign, and one and the same `_` for a point, a blank and
an underscore, so it does not determine its key in general.  It does determine what stands in a key made of labels,
numbers and units: in such a key a number is followed by a letter or by nothing, and a unit by no letter.  Then a sign
stands only in front of a number, and a `_` between two digits can only be a point.
-/
namespace Stagecraft
namespace Stylesheet

open Binary32 (Unsigned Written)

/-- The characters of the class for a key. -/
def classOf (key : List Char) : List Char := key.flatMap classChars

theorem toList_classKey (key : String) : (classKey key).toList = classOf key.toList := by
  rw [classKey, String.toList_ofList, classOf]

theorem classOf_append (a b : List Char) : classOf (a ++ b) = classOf a ++ classOf b := List.flatMap_append

/-- **Where a run of characters ends is determined**, if what follows it is of another sort. -/
theorem run_inj {p : Char → Bool} : ∀ {a a' b b' : List Char}, (∀ c ∈ a, p c = true) → (∀ c ∈ a', p c = true) →
    (∀ c ∈ b.head?, p c = false) → (∀ c ∈ b'.head?, p c = false) → a ++ b = a' ++ b' → a = a' ∧ b = b'
  | [], [], _, _, _, _, _, _, h => ⟨rfl, h⟩
  | [], c :: a', b, b', _, ha', hb, _, h => by
    have hc : p c = false := hb c (by rw [show b = c :: (a' ++ b') from h]; rfl)
    rw [ha' c List.mem_cons_self] at hc
    cases hc
  | c :: a, [], b, b', ha, _, _, hb', h => by
    have hc : p c = false := hb' c (by rw [show b' = c :: (a ++ b) from h.symm]; rfl)
    rw [ha c List.mem_cons_self] at hc
    cases hc
  | c :: a, c' :: a', b, b', ha, ha', hb, hb', h => by
    simp only [List.cons_append, List.cons.injEq] at h
    obtain ⟨rfl, h⟩ := h
    obtain ⟨rfl, rfl⟩ := run_inj (fun x hx => ha x (List.mem_cons_of_mem _ hx))
      (fun x hx => ha' x (List.mem_cons_of_mem _ hx)) hb hb' h
    exact ⟨rfl, rfl⟩

/-! ## Numbers -/

theorem classChars_of_isAlphanum {c : Char} (h : c.isAlphanum = true) : classChars c = [c] := by
  have h1 : c ≠ '-' := by rintro rfl; revert h; decide
  have h2 : c ≠ '%' := by rintro rfl; revert h; decide
  rw [classChars, if_neg h1, if_neg h2, h, Bool.true_or, if_pos rfl]

theorem classOf_of_isAlphanum : ∀ {cs : List Char}, (∀ c ∈ cs, c.isAlphanum = true) → classOf cs = cs
  | [], _ => rfl
  | c :: cs, h => by
    have ih : classOf cs = cs := classOf_of_isAlphanum fun x hx => h x (List.mem_cons_of_mem _ hx)
    rw [classOf, List.flatMap_cons, classChars_of_isAlphanum (h c List.mem_cons_self), ← classOf, ih]
    rfl

theorem classOf_of_isDigit {cs : List Char} (h : ∀ c ∈ cs, c.isDigit = true) : classOf cs = cs :=
  classOf_of_isAlphanum fun c hc => by rw [Char.isAlphanum, h c hc, Bool.or_true]

theorem isDigit_of_isAlpha {c : Char} (h : c.isAlpha = true) : c.isDigit = false := by
  rw [Bool.eq_false_iff]
  intro hd
  replace h : (decide (c.val ≥ 'A'.val ∧ c.val ≤ 'Z'.val) || c.val ≥ 'a'.val && c.val ≤ 'z'.val) = true := h
  replace hd : (c.val ≥ '0'.val && c.val ≤ '9'.val) = true := hd
  simp only [Bool.or_eq_true, Bool.and_eq_true, decide_eq_true_eq, ge_iff_le, UInt32.le_iff_toNat_le] at h hd
  have hA : 'A'.val.toNat = 65 := rfl
  have ha : 'a'.val.toNat = 97 := rfl
  have h9 : '9'.val.toNat = 57 := rfl
  omega

/-- Whether nothing or a letter comes first. -/
def Stops (r : List Char) : Prop := ∀ c ∈ r.head?, c.isAlpha = true

/-- What may stand behind the digits before the point. -/
def Fraction (tl : List Char) : Prop := tl = [] ∨ ∃ fs, tl = '.' :: fs ∧ ∀ c ∈ fs, c.isDigit = true

theorem Unsigned.split {n : List Char} (h : Unsigned n) :
    n = ['i', 'n', 'f'] ∨ ∃ ds tl, n = ds ++ tl ∧ ds ≠ [] ∧ (∀ c ∈ ds, c.isDigit = true) ∧ Fraction tl := by
  cases h with
  | infinite => exact .inl rfl
  | whole hne hds => exact .inr ⟨_, [], (List.append_nil _).symm, hne, hds, .inl rfl⟩
  | fraction hne hds hfs => exact .inr ⟨_, _, rfl, hne, hds, .inr ⟨_, rfl, hfs⟩⟩

/-- A fraction in a class begins with the stand-in for its point. -/
theorem classOf_fraction {tl : List Char} (h : Fraction tl) :
    (tl = [] ∧ classOf tl = []) ∨ ∃ fs, tl = '.' :: fs ∧ (∀ c ∈ fs, c.isDigit = true) ∧ classOf tl = '_' :: fs := by
  rcases h with rfl | ⟨fs, rfl, hfs⟩
  · exact .inl ⟨rfl, rfl⟩
  · refine .inr ⟨fs, rfl, hfs, ?_⟩
    rw [classOf, List.flatMap_cons, ← classOf, classOf_of_isDigit hfs]
    rfl

theorem head?_fraction {tl r : List Char} (h : Fraction tl) (hr : Stops r) :
    ∀ c ∈ (classOf tl ++ r).head?, c.isDigit = false := by
  rcases classOf_fraction h with ⟨-, h⟩ | ⟨fs, -, -, h⟩
  · rw [h]
    exact fun c hc => isDigit_of_isAlpha (hr c hc)
  · rw [h]
    rintro c hc
    obtain rfl : '_' = c := by simpa using hc
    decide

theorem classOf_fraction_inj {tl tl' r r' : List Char} (h : Fraction tl) (h' : Fraction tl') (hr : Stops r)
    (hr' : Stops r') (heq : classOf tl ++ r = classOf tl' ++ r') : tl = tl' ∧ r = r' := by
  -- a letter cannot stand where the other text has the stand-in for a point
  have hno : ∀ {s t : List Char}, Stops s → s ≠ '_' :: t := by
    rintro s t hs rfl
    exact absurd (hs '_' rfl) (by decide)
  rcases classOf_fraction h with ⟨rfl, htl⟩ | ⟨fs, rfl, hfs, htl⟩ <;>
    rcases classOf_fraction h' with ⟨rfl, htl'⟩ | ⟨fs', rfl, hfs', htl'⟩
  · exact ⟨rfl, heq⟩
  · rw [htl'] at heq
    exact absurd heq (hno hr)
  · rw [htl] at heq
    exact absurd heq.symm (hno hr')
  · rw [htl, htl'] at heq
    simp only [List.cons_append, List.cons.injEq, true_and] at heq
    obtain ⟨rfl, rfl⟩ := run_inj hfs hfs' (fun c hc => isDigit_of_isAlpha (hr c hc))
      (fun c hc => isDigit_of_isAlpha (hr' c hc)) heq
    exact ⟨rfl, rfl⟩

theorem head_isDigit {ds : List Char} (hne : ds ≠ []) (hds : ∀ c ∈ ds, c.isDigit = true) (tl : List Char) :
    ∃ c cs, classOf (ds ++ tl) = c :: cs ∧ c.isDigit = true := by
  obtain ⟨c, ds, rfl⟩ := List.exists_cons_of_ne_nil hne
  rw [classOf_append, classOf_of_isDigit hds]
  exact ⟨c, ds ++ classOf tl, rfl, hds c List.mem_cons_self⟩

theorem classOf_unsigned_inj {n n' r r' : List Char} (hn : Unsigned n) (hn' : Unsigned n') (hr : Stops r)
    (hr' : Stops r') (h : classOf n ++ r = classOf n' ++ r') : n = n' ∧ r = r' := by
  have hinf : classOf ['i', 'n', 'f'] = ['i', 'n', 'f'] := by decide
  rcases Unsigned.split hn with rfl | ⟨ds, tl, rfl, hne, hds, htl⟩ <;>
    rcases Unsigned.split hn' with rfl | ⟨ds', tl', rfl, hne', hds', htl'⟩
  · exact ⟨rfl, List.append_cancel_left h⟩
  · obtain ⟨c, cs, hc, hdigit⟩ := head_isDigit hne' hds' tl'
    rw [hinf, hc] at h
    obtain rfl : 'i' = c := (List.cons.inj h).1
    cases hdigit
  · obtain ⟨c, cs, hc, hdigit⟩ := head_isDigit hne hds tl
    rw [hinf, hc] at h
    obtain rfl : c = 'i' := (List.cons.inj h).1
    cases hdigit
  · rw [classOf_append, classOf_append, classOf_of_isDigit hds, classOf_of_isDigit hds', List.append_assoc,
      List.append_assoc] at h
    obtain ⟨rfl, hrest⟩ := run_inj hds hds' (head?_fraction htl hr) (head?_fraction htl' hr') h
    obtain ⟨rfl, rfl⟩ := classOf_fraction_inj htl htl' hr hr' hrest
    exact ⟨rfl, rfl⟩

theorem head_classOf_unsigned {n : List Char} (h : Unsigned n) :
    ∃ c cs, classOf n = c :: cs ∧ (c.isDigit = true ∨ c = 'i') := by
  rcases Unsigned.split h with rfl | ⟨ds, tl, rfl, hne, hds, -⟩
  · exact ⟨'i', ['n', 'f'], by decide, .inr rfl⟩
  · obtain ⟨c, cs, hc, hdigit⟩ := head_isDigit hne hds tl
    exact ⟨c, cs, hc, .inl hdigit⟩

theorem head_ne_sign {n r r' : List Char} (h : Unsigned n) : classOf n ++ r ≠ 'm' :: r' := by
  obtain ⟨c, cs, hc, hhead⟩ := head_classOf_unsigned h
  rw [hc]
  intro heq
  obtain rfl : c = 'm' := (List.cons.inj heq).1
  revert hhead
  decide

/-- A number in a class begins with its sign, a digit or the text of an infinity. -/
theorem head_classOf_number {n : List Char} (h : Written n) :
    ∃ c cs, classOf n = c :: cs ∧ (c.isDigit = true ∨ c = 'i' ∨ c = 'm') := by
  cases h with
  | plain h =>
    obtain ⟨c, cs, hc, hhead⟩ := head_classOf_unsigned h
    exact ⟨c, cs, hc, hhead.imp_right .inl⟩
  | negative h => exact ⟨'m', _, rfl, .inr (.inr rfl)⟩

/-- **A number in a class reads back**, together with what follows it. -/
theorem classOf_number_inj {n n' r r' : List Char} (hn : Written n) (hn' : Written n') (hr : Stops r)
    (hr' : Stops r') (h : classOf n ++ r = classOf n' ++ r') : n = n' ∧ r = r' := by
  have hminus : ∀ cs, classOf ('-' :: cs) = 'm' :: classOf cs := fun _ => rfl
  cases hn with
  | plain hn =>
    cases hn' with
    | plain hn' => exact classOf_unsigned_inj hn hn' hr hr' h
    | negative hn' => exact absurd h (head_ne_sign hn)
  | negative hn =>
    cases hn' with
    | plain hn' => exact absurd h.symm (head_ne_sign hn')
    | negative hn' =>
      rw [hminus, hminus] at h
      obtain ⟨rfl, rfl⟩ := classOf_unsigned_inj hn hn' hr hr' (List.cons.inj h).2
      exact ⟨rfl, rfl⟩

end Stylesheet
end Stagecraft
