/-
# The subset construction

A nondeterministic automaton is followed through the sets of states it may be in.
Each set that can be reached becomes a state of a table; the states are numbered
from zero in the order in which a breadth-first search meets their sets, which
takes the symbols of a set in ascending order.  The table is written down here once
the search is over; the loop that fills it while it searches is `Worklist`.
-/
import LexAutomata.Table.Basic

namespace LexAutomata

namespace Automaton

/-- The symbols for which some member of the set has an entry, in ascending order. -/
def symbolsOf (A : Automaton) (S : StateSet) : List String :=
  sortedSymbols (S.toList.flatMap fun q => (A.row q).keys.filterMap Label.symbol?)

/-- The closed set that a set leads to under a symbol. -/
def successor (A : Automaton) (S : StateSet) (s : String) : StateSet := A.closure (A.move S s)

/-- The sets of states and what they lead to, as a graph. -/
def subsetGraph (A : Automaton) : Graph StateSet where
  successors S := (A.symbolsOf S).map (A.successor S)
  finite := by
    have hP : ∀ p l q, q ∈ A.targets p l →
        q ∈ StateSet.ofList (A.transitions.map fun t => t.2.2) := by
      intro p l q hq
      rw [StateSet.mem_ofList, List.mem_map]
      exact ⟨_, mem_transitions_of_mem_targets hq, rfl⟩
    obtain ⟨sets, hsets⟩ := StateSet.exists_forall_subset_mem
      (.ofList (A.transitions.map fun t => t.2.2))
    refine ⟨sets, fun S T h => hsets T ?_⟩
    rw [List.mem_map] at h
    obtain ⟨s, -, rfl⟩ := h
    apply of_mem_closure hP
    intro q hq
    rw [move, StateSet.mem_unions] at hq
    obtain ⟨U, hU, hq⟩ := hq
    rw [List.mem_map] at hU
    obtain ⟨p, -, rfl⟩ := hU
    exact hP p _ q hq

/-- The reachable sets in the order of their numbers, beginning with the closed start set. -/
def reachableSets (A : Automaton) (start : Int) : List StateSet :=
  A.subsetGraph.search [A.closure (.singleton start)]

/-- The entries of the row of a set, where `sets` gives every set its number. -/
def subsetRow (A : Automaton) (sets : List StateSet) (S : StateSet) : OrderedMap String Int :=
  .ofList ((A.symbolsOf S).map fun s => (s, (sets.idxOf (A.successor S s) : Int)))

/-- The table whose states are the reachable sets of an automaton with the given start state. -/
def subsetTable (A : Automaton) (start : Int) : Table :=
  let sets := A.reachableSets start
  { rows := .ofList ((Table.numbered sets).map fun e => (e.1, A.subsetRow sets e.2))
    finals := .ofList (((Table.numbered sets).filter fun e => e.2.meets A.finals).map Prod.fst)
    start := 0
    subsets := .ofList (Table.numbered sets) }

/-- The table of a valid automaton. -/
def determinize (A : Automaton) : Except Violation Table :=
  match A.validate with
  | .error v => .error v
  | .ok () =>
    match A.start with
    | none => .error (.noStart A.name)
    | some q => .ok (A.subsetTable q)

end Automaton

end LexAutomata
