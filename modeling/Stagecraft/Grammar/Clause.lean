import Stagecraft.Grammar.Diagnostic
/-!
# Clauses

Both grammars read a run of words from left to right.  The word in front opens a clause; the clause is read with
all that follows in view, and the reading says how many of the following words belong to it.
-/
namespace Stagecraft

/-- What one clause came to: its meaning, if it has one, and what was skipped in it. -/
structure Reading (α : Type) where
  clause : Option α
  skipped : List Diagnostic
  deriving DecidableEq, Repr

namespace Reading

variable {α : Type}

def meant (a : α) : Reading α := ⟨some a, []⟩

/-- A clause without a meaning. -/
def skip (w : Word) (fault : Fault) : Reading α := ⟨none, [.skipping w fault]⟩

/-- Reads a run of words clause by clause.  The first `taken` words belong to a clause that has been read. -/
def clausesFrom (read : Word → List Word → Reading α × Nat) : Nat → List Word → List (Reading α)
  | _, [] => []
  | 0, w :: ws => (read w ws).1 :: clausesFrom read (read w ws).2 ws
  | n + 1, _ :: ws => clausesFrom read n ws

/-- Reads a run of words clause by clause.  `read` is given the word that opens a clause and all words after it;
it answers with what the clause means and how many of those words the clause takes. -/
def clauses (read : Word → List Word → Reading α × Nat) (ws : List Word) : List (Reading α) :=
  clausesFrom read 0 ws

/-- Words that belong to a clause already read are passed over. -/
theorem clausesFrom_eq (read : Word → List Word → Reading α × Nat) :
    ∀ (n : Nat) (ws : List Word), clausesFrom read n ws = clauses read (ws.drop n)
  | 0, _ => rfl
  | _ + 1, [] => rfl
  | n + 1, _ :: ws => clausesFrom_eq read n ws

/-- The clause that the first word opens comes first, and the reading goes on behind it. -/
theorem clauses_cons (read : Word → List Word → Reading α × Nat) (w : Word) (ws : List Word) :
    clauses read (w :: ws) = (read w ws).1 :: clauses read (ws.drop (read w ws).2) := by
  rw [clauses, clausesFrom, clausesFrom_eq]

def meanings (rs : List (Reading α)) : List α := rs.filterMap clause

def diagnostics (rs : List (Reading α)) : List Diagnostic := rs.flatMap skipped

end Reading
end Stagecraft
