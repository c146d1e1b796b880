/-
# Violations of structure

What can be wrong with an automaton or a transition table, and how each case is
put into words.
-/
import LexAutomata.StateSet
import LexAutomata.Text.Quoted

namespace LexAutomata

/-- What is offered as the label of a transition. -/
inductive LabelInput where
  /-- No input is consumed. -/
  | epsilon
  /-- A text, which has to be one character. -/
  | text (s : String)
  /-- A number, which is no label. -/
  | number (n : Int)
  /-- A truth value, which is no label. -/
  | truth (b : Bool)
deriving DecidableEq

/-- The form in which a message shows what was offered. -/
def LabelInput.shown : LabelInput → String
  | epsilon => "None"
  | text s => Text.quoted s
  | number n => toString n
  | truth true => "True"
  | truth false => "False"

/-- A broken rule of structure.  An automaton is referred to by its name, which may be empty. -/
inductive Violation where
  /-- A label is neither epsilon nor one character. -/
  | badLabel (label : LabelInput)
  /-- The state to start from is not a state of the automaton. -/
  | unknownStart (state : Int) (automaton : String)
  /-- The state to accept in is not a state of the automaton. -/
  | unknownFinal (state : Int) (automaton : String)
  /-- The automaton has no start state. -/
  | noStart (automaton : String)
  /-- The start state of a finished automaton is not one of its states. -/
  | strayStart (state : Int) (automaton : String)
  /-- Some final states of a finished automaton are not among its states. -/
  | strayFinals (states : StateSet) (automaton : String)
  /-- A transition of a finished automaton leaves its states. -/
  | strayTransition (source target : Int) (automaton : String)
  /-- Two automata that are to be merged share states. -/
  | sharedStates (automaton : String) (states : StateSet)
  /-- The next state of the counter is in use. -/
  | stateInUse (state : Int)
  /-- A transition of a table leads to a state without a row. -/
  | danglingTarget (source : Int) (symbol : String) (target : Int)
  /-- The start state of a table has no row. -/
  | startOutsideTable (state : Int)
deriving DecidableEq

/-- States in brackets, separated by commas. -/
def bracketed (states : List Int) : String :=
  "[" ++ ", ".intercalate (states.map toString) ++ "]"

namespace Violation

/-- How a message refers to an automaton. -/
def subject (automaton : String) : String :=
  if automaton = "" then "automaton" else "automaton " ++ Text.quoted automaton

/-- The violation in words. -/
def message : Violation → String
  | badLabel label =>
    s!"Transition symbol must be a single character or EPSILON, got {label.shown}"
  | unknownStart q a => s!"Start state {q} is not a state of {subject a}"
  | unknownFinal q a => s!"Final state {q} is not a state of {subject a}"
  | noStart a => s!"{subject a} has no start state"
  | strayStart q a => s!"Start state {q} of {subject a} is not a state"
  | strayFinals qs a => s!"Final states {bracketed qs.toList} of {subject a} are not states"
  | strayTransition p q a => s!"Transition {p} -> {q} of {subject a} references an unknown state"
  | sharedStates a qs =>
    s!"{subject a} reuses state ids {bracketed qs.toList} of another fragment"
  | stateInUse q => s!"Counter handed out state {q}, which is already in use"
  | danglingTarget p c q => s!"DFA transition {p} --{c}--> {q} leaves the table"
  | startOutsideTable q => s!"DFA start state {q} is not in the table"

end Violation

end LexAutomata
