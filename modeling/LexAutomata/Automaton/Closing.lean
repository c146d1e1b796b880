/-
# Closing a set with a stack

The closure of a set is also found by a loop.  What was met, and not yet looked at, is on a
stack.  In a turn of the loop the state on top is taken off, and its epsilon targets are met
one after the other; those that are new go on top.  Sets come in no particular order,
neither the set that is closed nor the targets of a state, so the loop can go in many ways.
-/
import LexAutomata.Automaton.Closure

namespace LexAutomata.Automaton

/-- A set on the way to its closure. -/
structure Closing where
  /-- The states that were met. -/
  met : StateSet
  /-- The states whose targets are still to be met, the next one first. -/
  stack : List Int
deriving DecidableEq

namespace Closing

/-- Meets a state, which goes on top of the stack if it is new. -/
def meet (c : Closing) (q : Int) : Closing :=
  if q ∈ c.met then c else ⟨c.met.insert q, q :: c.stack⟩

/-- Meets states one after the other. -/
def meetAll (c : Closing) (qs : List Int) : Closing := qs.foldl meet c

/-- The ways in which a turn of the loop can go. -/
inductive Turn (A : Automaton) : Closing → Closing → Prop
  /-- The state on top is taken off the stack, and its epsilon targets are met in some order. -/
  | take {met : StateSet} {p : Int} {rest qs : List Int}
      (h : qs.Perm (A.targets p .epsilon).toList) :
      Turn A ⟨met, p :: rest⟩ (meetAll ⟨met, rest⟩ qs)

/-- Whichever way it goes, the loop ends after `n` turns, and has met the states of `T` then. -/
inductive Returns (A : Automaton) (T : StateSet) : Nat → Closing → Prop
  /-- With an empty stack the loop ends. -/
  | done : Returns A T 0 ⟨T, []⟩
  /-- Otherwise there is a turn, and the loop goes on after any turn that there is. -/
  | turn {n : Nat} {c : Closing} (h : ∃ d, Turn A c d)
      (hn : ∀ d, Turn A c d → Returns A T n d) : Returns A T (n + 1) c

end Closing

end LexAutomata.Automaton
