import Stagecraft.Proofs.Style.Distinct
import Stagecraft.Stage.Run
/-!
# A stylesheet that animations share

Animations that are compiled one after another through one stylesheet never get into each other's way: each finds under
its classes the rules it was written with, and keeps them whatever is asked for later.
-/
namespace Stagecraft
namespace Stage

open Animation (Request body_eq_of_name_eq)

/-- Every rule was brought by an animation, and no class was ever asked for with a rule that is not its own. -/
structure Harmonious (s : Stage) : Prop where
  brought : ∀ rule ∈ s.styles.rules, ∃ a : Animation, ∃ r ∈ a.requests, rule = ⟨r.name, r.body⟩
  quiet : ∀ name, Entry.notice (.ruleClash name) ∉ s.journal

theorem harmonious_opened (manners : Manners) : Harmonious (opened manners) where
  brought _ h := by cases h
  quiet _ h := by cases h

/-- What a class of an animation has for a rule is the rule of the animation. -/
theorem Harmonious.body_eq {s : Stage} (hs : Harmonious s) {a : Animation} {r : Request} (hr : r ∈ a.requests)
    {body : String} (h : s.styles.rule? r.name = some body) : body = r.body := by
  simp only [Stylesheet.rule?, Option.map_eq_some_iff] at h
  obtain ⟨rule, hfind, rfl⟩ := h
  obtain ⟨a', r', hr', rfl⟩ := hs.brought rule (List.mem_of_find?_eq_some hfind)
  have hname : r'.name = r.name := by simpa using List.find?_some hfind
  exact body_eq_of_name_eq hr' hr hname

theorem Harmonious.verdict_ne_clash {s : Stage} (hs : Harmonious s) {a : Animation} {r : Request}
    (hr : r ∈ a.requests) : s.styles.verdict r.name r.body ≠ .clash := by
  unfold Stylesheet.verdict
  cases h : s.styles.rule? r.name with
  | none => simp
  | some body => simp [hs.body_eq hr h]

theorem Harmonious.rule?_resolve {s : Stage} (hs : Harmonious s) {a : Animation} {r : Request}
    (hr : r ∈ a.requests) : (s.resolve r.key r.body).styles.rule? r.name = some r.body := by
  rw [styles_resolve, Request.name, Stylesheet.rule?_resolve_self]
  cases h : s.styles.rule? (Stylesheet.classKey r.key) with
  | none => rfl
  | some body => rw [hs.body_eq hr h, Option.getD_some]

theorem mem_journal_resolve {s : Stage} {key body : String} {e : Entry} (h : e ∈ (s.resolve key body).journal) :
    e ∈ s.journal ∨ (∃ rule, e = .styled rule) ∨
      ∃ n, e = .notice n ∧ Notice.ofVerdict? (Stylesheet.classKey key)
        (s.styles.verdict (Stylesheet.classKey key) body) = some n := by
  unfold resolve at h
  simp only at h
  generalize hv : s.styles.verdict (Stylesheet.classKey key) body = v at h ⊢
  cases v with
  | added =>
    simp only [↓reduceIte, record, notifyAll, Notice.ofVerdict?, Option.toList, List.foldl_cons, List.foldl_nil,
      notify, List.mem_cons] at h
    rcases h with rfl | rfl | h
    · exact .inr (.inl ⟨_, rfl⟩)
    · exact .inr (.inr ⟨_, rfl, rfl⟩)
    · exact .inl h
  | known =>
    simp only [reduceCtorEq, ↓reduceIte, notifyAll, Notice.ofVerdict?, Option.toList, List.foldl_nil] at h
    exact .inl h
  | clash =>
    simp only [reduceCtorEq, ↓reduceIte, record, notifyAll, Notice.ofVerdict?, Option.toList, List.foldl_cons,
      List.foldl_nil, notify, List.mem_cons] at h
    rcases h with rfl | h
    · exact .inr (.inr ⟨_, rfl, rfl⟩)
    · exact .inl h

theorem Harmonious.resolve {s : Stage} (hs : Harmonious s) {a : Animation} {r : Request} (hr : r ∈ a.requests) :
    Harmonious (s.resolve r.key r.body) := by
  refine ⟨fun rule hrule => ?_, fun name hname => ?_⟩
  · rw [styles_resolve, Stylesheet.resolve] at hrule
    split at hrule
    · rcases List.mem_append.1 hrule with hrule | hrule
      · exact hs.brought rule hrule
      · exact ⟨a, r, hr, List.mem_singleton.1 hrule⟩
    · exact hs.brought rule hrule
  · rcases mem_journal_resolve hname with h | ⟨rule, h⟩ | ⟨n, h, hn⟩
    · exact hs.quiet name h
    · cases h
    · cases h
      cases hv : s.styles.verdict r.name r.body with
      | clash => exact hs.verdict_ne_clash hr hv
      | added => rw [← Request.name, hv] at hn; cases hn
      | known => rw [← Request.name, hv] at hn; cases hn

theorem Harmonious.foldl_resolve {a : Animation} : ∀ {rs : List Request} {s : Stage}, Harmonious s →
    (∀ r ∈ rs, r ∈ a.requests) → Harmonious (rs.foldl (fun s r => s.resolve r.key r.body) s)
  | [], _, hs, _ => hs
  | r :: rs, s, hs, h => by
    rw [List.foldl_cons]
    exact foldl_resolve (hs.resolve (h r List.mem_cons_self)) fun q hq => h q (List.mem_cons_of_mem _ hq)

theorem Harmonious.foldl_resolveAll : ∀ {as : List Animation} {s : Stage}, Harmonious s →
    Harmonious (as.foldl resolveAll s)
  | [], _, hs => hs
  | a :: as, s, hs => by
    rw [List.foldl_cons]
    exact @foldl_resolveAll as _ (hs.foldl_resolve (a := a) fun r hr => hr)

/-- A class keeps its rule, whatever is asked for later. -/
theorem rule?_foldl_resolve {name body : String} : ∀ {rs : List Request} {s : Stage},
    s.styles.rule? name = some body →
      (rs.foldl (fun s r => s.resolve r.key r.body) s).styles.rule? name = some body
  | [], _, h => h
  | r :: rs, s, h => by
    rw [List.foldl_cons]
    refine rule?_foldl_resolve ?_
    rw [styles_resolve]
    exact Stylesheet.rule?_resolve_of_eq_some h r.key r.body

theorem Harmonious.rule?_foldl {a : Animation} {r : Request} : ∀ {rs : List Request} {s : Stage}, Harmonious s →
    (∀ q ∈ rs, q ∈ a.requests) → r ∈ rs →
      (rs.foldl (fun s r => s.resolve r.key r.body) s).styles.rule? r.name = some r.body
  | q :: rs, s, hs, h, hr => by
    rw [List.foldl_cons]
    rcases List.mem_cons.1 hr with rfl | hr
    · exact rule?_foldl_resolve (hs.rule?_resolve (h r List.mem_cons_self))
    · exact rule?_foldl (hs.resolve (h q List.mem_cons_self)) (fun q hq => h q (List.mem_cons_of_mem _ hq)) hr

/-- **Animations compiled through one stylesheet never collide.**  No clash is reported; from the moment an animation is
compiled each of its classes has the rule that was written for it, whatever is asked for later; and two animations
share a class only where they share the rule. -/
theorem compiled_classes_keep_their_rules (manners : Manners) (as : List Animation) :
    (∀ name, Entry.notice (.ruleClash name) ∉ (as.foldl resolveAll (opened manners)).journal) ∧
    (∀ before a after, as = before ++ a :: after → ∀ r ∈ a.requests, ∀ later : List Request,
      (later.foldl (fun s q => s.resolve q.key q.body)
        ((before ++ [a]).foldl resolveAll (opened manners))).styles.rule? r.name = some r.body) ∧
    (∀ a ∈ as, ∀ a' ∈ as, ∀ r ∈ a.requests, ∀ r' ∈ a'.requests, r.name = r'.name → r.body = r'.body) := by
  refine ⟨?_, ?_, ?_⟩
  · exact (harmonious_opened manners).foldl_resolveAll.quiet
  · intro before a after _ r hr later
    refine rule?_foldl_resolve ?_
    rw [List.foldl_append, List.foldl_cons, List.foldl_nil]
    exact (harmonious_opened manners).foldl_resolveAll.rule?_foldl (a := a) (fun q hq => hq) hr
  · intro a _ a' _ r hr r' hr' h
    exact body_eq_of_name_eq hr hr' h

end Stage
end Stagecraft
