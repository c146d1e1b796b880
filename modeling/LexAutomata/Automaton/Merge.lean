/-
# Merging automata

The union of automata that share no state: everything is copied, and a new start
state leads to the start state of each by an epsilon transition.
-/
import LexAutomata.Automaton.Basic
import LexAutomata.Counter

namespace LexAutomata

/-- The largest member of a nonempty set. -/
def StateSet.largest? (S : StateSet) : Option Int := S.toList.getLast?

namespace Automaton

/-- Checks automata one after the other, and gives the states of all: each has to be valid and
to share no state with those before it, whose states are `seen`. -/
def checkApart (seen : StateSet) : List Automaton → Except Violation StateSet
  | [] => .ok seen
  | A :: rest =>
    match A.validate with
    | .error v => .error v
    | .ok () =>
      if seen.meets A.states then .error (.sharedStates A.name (seen.inter A.states))
      else checkApart (seen ∪ A.states) rest

/-- Copies an automaton into another, and joins its start state to `start` by epsilon. -/
def absorb (start : Int) (A B : Automaton) : Automaton :=
  let copied := { A with
    states := A.states ∪ B.states
    finals := A.finals ∪ B.finals
    rows := B.rows.entries.foldl
      (fun rows row => row.2.entries.foldl (fun rows e => addTargets rows row.1 e.1 e.2) rows)
      A.rows }
  match B.start with
  | none => copied
  | some q => copied.connect start q .epsilon

/-- The union of automata under a start state that is new to all of them. -/
def unionFrom (name : String) (start : Int) (parts : List Automaton) : Automaton :=
  parts.foldl (absorb start) { name := name, states := .singleton start, start := some start }

/-- Merges automata into one.  The new start state comes from the counter, or else is one above
the largest state in use.  The counter is moved whenever a state was taken from it. -/
def merge (parts : List Automaton) (counter : Option Counter) (name : String) :
    Except Violation Automaton × Option Counter :=
  match checkApart ∅ parts with
  | .error v => (.error v, counter)
  | .ok seen =>
    match counter with
    | none => (.ok (unionFrom name (seen.largest?.getD (-1) + 1) parts), none)
    | some c =>
      if c.next ∈ seen then (.error (.stateInUse c.next), some c.advance)
      else (.ok (unionFrom name c.next parts), some c.advance)

end Automaton

end LexAutomata
