/-
# State counters

A counter hands out states one after the other.  Automata that draw their
states from one counter have no state in common.
-/

namespace LexAutomata

/-- A source of new states. -/
structure Counter where
  /-- The state to be handed out next. -/
  next : Int := 0
deriving DecidableEq, Inhabited

/-- The counter after handing out one state. -/
def Counter.advance (c : Counter) : Counter := ⟨c.next + 1⟩

end LexAutomata
