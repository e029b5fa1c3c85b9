import Stagecraft.Machine.Basic
/-!
# What remains of declarations

A later declaration of a name takes the place of an earlier one.  So a machine has for each name the state that was
declared last, and its states are in the order of those last declarations.
-/
namespace Stagecraft

namespace Declaration

/-- The name that is declared.  A description and attributes come with a name that is trimmed, and that is `default` if
nothing is left of it; a state that is ready brings its own. -/
def name : Declaration → String
  | .described name .. => stateName name
  | .attributed name .. => stateName name
  | .ready s => s.name

theorem name_state (d : Declaration) : d.state.name = d.name := by
  cases d <;> simp only [state, StateDecl.parse, name]

/-- The declarations that no later one takes the place of. -/
def lasting : List Declaration → List Declaration
  | [] => []
  | d :: ds => if ds.any fun d' => d'.name = d.name then lasting ds else d :: lasting ds

/-- **What is left of earlier states, and then the lasting declarations in their order.** -/
theorem foldl_declare : ∀ (ds : List Declaration) (states : List StateDecl), ds.foldl declare states =
    (states.filter fun s => !ds.any fun d => d.name = s.name) ++ (lasting ds).map state
  | [], states => ((List.append_nil _).trans (List.filter_eq_self.2 fun _ _ => rfl)).symm
  | d :: ds, states => by
    have hstates : states.filter (fun s => !(d :: ds).any fun d => d.name = s.name) =
        (states.filter fun s => s.name != d.state.name).filter fun s => !ds.any fun d => d.name = s.name := by
      rw [List.filter_filter]
      refine List.filter_congr fun s _ => ?_
      rw [List.any_cons, Bool.not_or, name_state, Bool.and_comm, bne, Bool.beq_eq_decide_eq]
      simp only [eq_comm]
    rw [List.foldl_cons, foldl_declare ds, declare, List.filter_append, hstates, List.append_assoc]
    congr 1
    rw [lasting]
    by_cases hlater : (ds.any fun d' => d'.name = d.name) = true
    · rw [if_pos hlater, List.filter_cons_of_neg (by rw [name_state, hlater]; exact Bool.false_ne_true),
        List.filter_nil, List.nil_append]
    · rw [Bool.not_eq_true] at hlater
      rw [hlater, List.filter_cons_of_pos (by rw [name_state, hlater]; rfl), List.filter_nil,
        if_neg Bool.false_ne_true, List.map_cons, List.singleton_append]

theorem declared_eq (ds : List Declaration) : ds.foldl declare [] = (lasting ds).map state := foldl_declare ds []

/-- The lasting declaration of a name is the last one. -/
theorem find?_lasting (n : String) : ∀ ds : List Declaration,
    (lasting ds).find? (fun d => d.name = n) = ds.reverse.find? fun d => d.name = n
  | [] => rfl
  | d :: ds => by
    have hany : (ds.any fun d' => d'.name = n) = ((lasting ds).find? fun d' => d'.name = n).isSome := by
      rw [find?_lasting n ds, Bool.eq_iff_iff, List.find?_isSome, List.any_eq_true]
      simp only [List.mem_reverse]
    rw [List.reverse_cons, List.find?_append, ← find?_lasting n ds, lasting]
    by_cases hname : d.name = n
    · have hfirst : ∀ ds' : List Declaration, (d :: ds').find? (fun d' => d'.name = n) = some d := fun ds' =>
        List.find?_cons_of_pos (decide_eq_true hname)
      rw [hname, hany, hfirst]
      cases hfind : (lasting ds).find? fun d' => d'.name = n with
      | none => exact hfirst _
      | some d' => exact hfind
    · rw [List.find?_cons_of_neg (by simpa using hname), List.find?_nil, Option.or_none]
      split
      · rfl
      · exact List.find?_cons_of_neg (by simpa using hname)

end Declaration

namespace Machine

variable {c : Machine} {ds : List Declaration}

/-- **A machine has for each name the state that was declared last.** -/
theorem state?_of_declared (h : c.states = ds.foldl declare []) (n : String) :
    c.state? n = (ds.reverse.find? fun d => d.name = n).map Declaration.state := by
  have hname : (fun s : StateDecl => decide (s.name = n)) ∘ Declaration.state = fun d => decide (d.name = n) :=
    funext fun d => congrArg (fun name => decide (name = n)) d.name_state
  rw [state?, h, Declaration.declared_eq, List.find?_map, hname, Declaration.find?_lasting]

theorem hasState_of_declared (h : c.states = ds.foldl declare []) (n : String) :
    c.hasState n = ds.any fun d => d.name = n := by
  rw [hasState, state?_of_declared h, Option.isSome_map, Bool.eq_iff_iff, List.find?_isSome, List.any_eq_true]
  simp only [List.mem_reverse]

/-- The triggers that wait for the first start are those of the lasting declarations, in their order. -/
theorem pending_declared (el : ElementId) (settings : Settings) (hooked : Bool) (q : Nat) (ds : List Declaration) :
    (ofStates el settings hooked q (ds.foldl declare [])).pending =
      (Declaration.lasting ds).filterMap fun d => d.state.trigger.map (d.name, ·) := by
  rw [ofStates, Declaration.declared_eq, List.filterMap_map]
  refine congrArg (List.filterMap · _) (funext fun d => ?_)
  exact congrArg (fun name => d.state.trigger.map (name, ·)) d.name_state

end Machine

end Stagecraft
