/-
# Tables as automata

A table is copied into an automaton state by state and entry by entry, for
instance to be drawn.  Every symbol has to be one character, and the start state
and the final states have to occur in the table.
-/
import LexAutomata.Table.Basic

namespace LexAutomata

namespace Automaton

/-- Adds transitions one after the other, up to the first that is refused. -/
def addTransitions (A : Automaton) : List (Int × String × Int) → Except Violation Automaton
  | [] => .ok A
  | (p, s, q) :: ts =>
    match A.addTransition p q (.text s) with
    | .error v => .error v
    | .ok B => B.addTransitions ts

/-- Makes states final one after the other, up to the first that is refused. -/
def markFinals (A : Automaton) : List Int → Except Violation Automaton
  | [] => .ok A
  | q :: qs =>
    match A.markFinal q with
    | .error v => .error v
    | .ok B => B.markFinals qs

end Automaton

namespace Table

/-- The table as an automaton of the given name. -/
def toAutomaton (T : Table) (name : String) : Except Violation Automaton := do
  let A ← Automaton.addTransitions { name := name, states := T.states } T.transitions
  let B ← A.setStart T.start
  B.markFinals T.finals.toList

end Table

end LexAutomata
