import Stagecraft.Text.Quoted
/-!
# The stylesheet

Rules are found by a class that is derived from a key.  A class that has a rule keeps it: a rule is added once,
and never changed or removed.
-/
namespace Stagecraft

/-- A rule of the stylesheet. -/
structure Rule where
  name : String
  body : String
  deriving DecidableEq, Repr

/-- What came of asking for a class. -/
inductive Verdict
  /-- The class was new, and its rule was added. -/
  | added
  /-- The class had this rule. -/
  | known
  /-- The class had another rule, and keeps it. -/
  | clash
  deriving DecidableEq, Repr

/-- The rules in the order in which they were added. -/
structure Stylesheet where
  rules : List Rule := []
  deriving DecidableEq, Repr

namespace Stylesheet

/-- What stands in a class for a character of a key. -/
def classChars (c : Char) : List Char :=
  if c = '-' then ['m']
  else if c = '%' then ['p', 'c', 't']
  else if c.isAlphanum || c = '_' then [c]
  else ['_']

/-- The class for a key: letters, digits and underscores only. -/
def classKey (key : String) : String := String.ofList (key.toList.flatMap classChars)

/-- The body of the rule of a class. -/
def rule? (s : Stylesheet) (name : String) : Option String :=
  (s.rules.find? fun r => r.name == name).map Rule.body

/-- The classes in the order in which they were added. -/
def classes (s : Stylesheet) : List String := s.rules.map Rule.name

def size (s : Stylesheet) : Nat := s.rules.length

/-- What asking for a class with this body comes to. -/
def verdict (s : Stylesheet) (name body : String) : Verdict :=
  match s.rule? name with
  | none => .added
  | some b => if b = body then .known else .clash

/-- The stylesheet in which the class for `key` has a rule: its own, or else one with this body. -/
def resolve (s : Stylesheet) (key body : String) : Stylesheet :=
  match s.rule? (classKey key) with
  | none => ⟨s.rules ++ [⟨classKey key, body⟩]⟩
  | some _ => s

/-- A class keeps its rule. -/
theorem rule?_resolve_of_eq_some {s : Stylesheet} {name b : String} (h : s.rule? name = some b) (key body : String) :
    (s.resolve key body).rule? name = some b := by
  unfold resolve
  split
  · simp only [rule?, Option.map_eq_some_iff] at h
    obtain ⟨r, hr, rfl⟩ := h
    simp [rule?, List.find?_append, hr]
  · exact h

/-- The class that was asked for has a rule: its own, or else the one that was brought. -/
theorem rule?_resolve_self (s : Stylesheet) (key body : String) :
    (s.resolve key body).rule? (classKey key) = some ((s.rule? (classKey key)).getD body) := by
  cases h : s.rule? (classKey key) with
  | some b => exact rule?_resolve_of_eq_some h key body
  | none =>
    simp only [rule?, Option.map_eq_none_iff] at h
    simp [resolve, rule?, List.find?_append, h]

/-- A rule as a line of text. -/
def lineOf (r : Rule) : String := "." ++ r.name ++ " \x7b " ++ r.body ++ " \x7d\n"

/-- The whole stylesheet as text. -/
def css (s : Stylesheet) : String := String.join (s.rules.map lineOf)

end Stylesheet
end Stagecraft
