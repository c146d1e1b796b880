/-
# Runs of an automaton

A word is read by following the set of states that the automaton may be in: the
closure of the start state, then for each symbol the closure of all targets.
Where a symbol has no target the rest of the word is not read.
-/
import LexAutomata.Automaton.Closure

namespace LexAutomata

/-- The one-character symbols that spell a word. -/
def spell (word : String) : List String := word.toList.map fun c => String.ofList [c]

namespace Automaton

/-- The states that a set leads to under one symbol, before closing. -/
def move (A : Automaton) (S : StateSet) (s : String) : StateSet :=
  .unions (S.toList.map fun q => A.targets q (.symbol s))

/-- The states that the automaton may be in after it has read symbols in a closed set. -/
def run (A : Automaton) (S : StateSet) : List String → StateSet
  | [] => S
  | s :: w => A.run (A.closure (A.move S s)) w

/-- Does reading the symbols in a closed set allow a final state?  A symbol without a target
ends the reading. -/
def simulate (A : Automaton) (S : StateSet) : List String → Bool
  | [] => S.meets A.finals
  | s :: w =>
    let moved := A.move S s
    if moved.isEmpty then false else A.simulate (A.closure moved) w

/-- Does reading the symbols from the start state `q` allow a final state? -/
def acceptsFrom (A : Automaton) (q : Int) (w : List String) : Bool :=
  A.simulate (A.closure (.singleton q)) w

/-- Is the word accepted?  Only an automaton with a start state can tell. -/
def accepts (A : Automaton) (word : String) : Except Violation Bool :=
  match A.start with
  | none => .error (.noStart A.name)
  | some q => .ok (A.acceptsFrom q (spell word))

end Automaton

end LexAutomata
