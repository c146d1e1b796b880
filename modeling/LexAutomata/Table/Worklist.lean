/-
# The worklist of the subset construction

The table of the reachable sets as it is filled by a loop.  A set that is met for the
first time gets the next number, an empty row and a place in the queue, and its number is
final at once if the set is to be.  In a turn of the loop the first set of the queue is
taken: what its members lead to is collected symbol by symbol, and the symbols are entered
into its row in ascending order, each with the number of the closed set that it leads to.
-/
import LexAutomata.Table.Subset

namespace LexAutomata

/-- The subset construction at work. -/
structure Worklist where
  /-- The numbers of the sets that were met. -/
  numbers : OrderedMap StateSet Int := ∅
  /-- The table as far as it is filled. -/
  table : Table := {}
  /-- The sets that were met and not visited yet, in order. -/
  queue : List StateSet := []
deriving DecidableEq

namespace Worklist

/-! ## Meeting a set -/

/-- The number of a set, which is the next one if the set was not met before. -/
def number (A : Automaton) (w : Worklist) (S : StateSet) : Int × Worklist :=
  match w.numbers.get? S with
  | some n => (n, w)
  | none =>
    let n : Int := w.numbers.size
    (n, { numbers := w.numbers.insert S n
          table := { w.table with
            rows := w.table.rows.insert n ∅
            finals := if S.meets A.finals then w.table.finals.insert n else w.table.finals
            subsets := w.table.subsets.insert n S }
          queue := w.queue ++ [S] })

/-- The worklist after the closed start set was met. -/
def begin (A : Automaton) (start : Int) : Worklist :=
  let r := number A {} (A.closure (.singleton start))
  { r.2 with table := { r.2.table with start := r.1 } }

/-! ## Visiting a set -/

/-- Adds the targets of an entry to those of its symbol; epsilon is passed over. -/
def collect (moves : OrderedMap String StateSet) (e : Label × StateSet) :
    OrderedMap String StateSet :=
  match e.1 with
  | .epsilon => moves
  | .symbol s => moves.alter s fun old => old.getD ∅ ∪ e.2

/-- What the members of a set lead to, symbol by symbol. -/
def moves (A : Automaton) (S : StateSet) : OrderedMap String StateSet :=
  S.toList.foldl (fun moves q => (A.row q).entries.foldl collect moves) ∅

/-- Enters a symbol into the row of `n`, with the number of the closed set that it leads to. -/
def enter (A : Automaton) (n : Int) (targets : String → StateSet) (w : Worklist) (s : String) :
    Worklist :=
  let r := number A w (A.closure (targets s))
  let rows := r.2.table.rows.alter n fun row => (row.getD ∅).insert s r.1
  { r.2 with table := { r.2.table with rows := rows } }

/-- Fills the row of a set, whose number is `n`. -/
def visit (A : Automaton) (n : Int) (S : StateSet) (w : Worklist) : Worklist :=
  let moves := moves A S
  (sortedSymbols moves.keys).foldl (enter A n fun s => (moves.get? s).getD ∅) w

/-! ## The loop -/

/-- The loop ends, and the table is filled then. -/
inductive Fills (A : Automaton) : Worklist → Table → Prop
  /-- With an empty queue the loop ends. -/
  | done {w : Worklist} (h : w.queue = []) : Fills A w w.table
  /-- Otherwise the first set of the queue is visited.  It must have a number, and this a row. -/
  | turn {w : Worklist} {S : StateSet} {rest : List StateSet} {n : Int} {T : Table}
      (hqueue : w.queue = S :: rest) (hnumber : w.numbers.get? S = some n)
      (hrow : w.table.rows.contains n = true)
      (h : Fills A (visit A n S { w with queue := rest }) T) : Fills A w T

end Worklist

end LexAutomata
