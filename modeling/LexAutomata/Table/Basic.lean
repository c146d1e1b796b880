/-
# Transition tables

A deterministic automaton as a table: a row for each state, with at most one
target for each symbol.  A target need not have a row of its own; reading stops
there without accepting unless the word ends in a final state.
-/
import LexAutomata.Automaton.Run

namespace LexAutomata

/-- A deterministic finite automaton. -/
structure Table where
  /-- The target of each state and symbol that has one. -/
  rows : OrderedMap Int (OrderedMap String Int) := ∅
  /-- The states in which a word is accepted. -/
  finals : StateSet := ∅
  /-- The start state. -/
  start : Int := 0
  /-- The sets of states that the states stand for, where the table was made from such sets. -/
  subsets : OrderedMap Int StateSet := ∅
deriving Inhabited, DecidableEq

namespace Table

/-- A table with the given parts, unchecked.  A repeated state accumulates entries, and a
repeated symbol replaces its target. -/
def ofParts (rows : List (Int × List (String × Int))) (finals : List Int) (start : Int) :
    Table where
  rows := rows.foldl
    (fun m row => m.alter row.1 fun old => row.2.foldl (fun r e => r.insert e.1 e.2) (old.getD ∅))
    ∅
  finals := .ofList finals
  start := start

/-- Pairs the elements of a list with their places, counted from zero. -/
def numbered {α : Type} (l : List α) : List (Int × α) :=
  l.zipIdx.map fun e => ((e.2 : Int), e.1)

/-! ## Queries -/

/-- The states that have a row. -/
def states (T : Table) : StateSet := .ofList T.rows.keys

/-- The symbols that have an entry somewhere, in ascending order. -/
def alphabet (T : Table) : List String := sortedSymbols (T.rows.values.flatMap OrderedMap.keys)

/-- Is this a final state? -/
def isFinal (T : Table) (q : Int) : Bool := q ∈ T.finals

/-- The entries of a state, none if it has no row. -/
def row (T : Table) (q : Int) : OrderedMap String Int := (T.rows.get? q).getD ∅

/-- The target of a state under a symbol. -/
def step? (T : Table) (q : Int) (s : String) : Option Int := (T.row q).get? s

/-- All transitions, in the order of the rows and of their entries. -/
def transitions (T : Table) : List (Int × String × Int) :=
  T.rows.entries.flatMap fun row => row.2.entries.map fun e => (row.1, e.1, e.2)

/-! ## Runs -/

/-- The state in which the table is after it has read symbols from a state. -/
def run? (T : Table) (q : Int) : List String → Option Int
  | [] => some q
  | s :: w =>
    match T.step? q s with
    | none => none
    | some r => T.run? r w

/-- Is the sequence of symbols accepted from the start state? -/
def acceptsSymbols (T : Table) (w : List String) : Bool :=
  match T.run? T.start w with
  | none => false
  | some q => T.isFinal q

/-- Is the word accepted? -/
def accepts (T : Table) (word : String) : Bool := T.acceptsSymbols (spell word)

end Table

end LexAutomata
