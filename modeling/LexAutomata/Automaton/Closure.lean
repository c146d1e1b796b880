/-
# Epsilon closure

The states that a set leads to without consuming input.  They are found by a
search of the graph of epsilon transitions; states of the set itself are kept,
whether or not the automaton knows them.
-/
import LexAutomata.Automaton.Basic
import LexAutomata.Search

namespace LexAutomata.Automaton

/-- The epsilon transitions of an automaton as a graph. -/
def epsilonGraph (A : Automaton) : Graph Int where
  successors q := (A.targets q .epsilon).toList
  finite := ⟨A.transitions.map fun t => t.2.2, fun _ _ h =>
    List.mem_map.2 ⟨_, mem_transitions_of_mem_targets h, rfl⟩⟩

/-- The states that a set leads to along epsilon transitions. -/
def closure (A : Automaton) (S : StateSet) : StateSet :=
  .ofList (A.epsilonGraph.search S.toList)

/-- A property of the members of a set and of all targets holds throughout the closure. -/
theorem of_mem_closure {A : Automaton} {P : Int → Prop}
    (hP : ∀ p l q, q ∈ A.targets p l → P q) {S : StateSet} (hS : ∀ q ∈ S, P q) :
    ∀ q ∈ A.closure S, P q := by
  intro q hq
  rw [closure, StateSet.mem_ofList] at hq
  exact Graph.of_mem_searchFrom (fun p r h => hP p .epsilon r h) hS q hq

end LexAutomata.Automaton
