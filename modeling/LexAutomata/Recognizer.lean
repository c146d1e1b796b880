/-
# Recognizers

A recognizer holds what is made of the standard categories: a fragment for each,
their union, its table, and the quotient of the table.  All states are drawn from
one counter, so that several recognizers can share it.
-/
import LexAutomata.Automaton.Merge
import LexAutomata.Pattern.Catalogue
import LexAutomata.Table.Minimal
import LexAutomata.Table.Subset

namespace LexAutomata

/-- The automata of the standard categories, from the single fragments to one small table. -/
structure Recognizer where
  /-- The automaton of each category. -/
  fragments : Fragments
  /-- The union of the fragments. -/
  combined : Automaton
  /-- The table of the union. -/
  table : Table
  /-- The table after the states that need not be told apart are made one. -/
  minimal : Table

namespace Recognizer

/-- The union of the fragments and its tables. -/
def assemble (criterion : Criterion) (fragments : Fragments) (c : Counter) :
    Except Violation Recognizer × Option Counter :=
  let merged := Automaton.merge fragments.values (some c) "Combined"
  let recognizer := do
    let combined ← merged.1
    let table ← combined.determinize
    let minimal ← table.minimize criterion
    return { fragments, combined, table, minimal }
  (recognizer, merged.2)

/-- Builds a recognizer with states from the counter, and gives the counter it leaves behind. -/
def build (criterion : Criterion) (c : Counter) : Except BuildError Recognizer × Counter :=
  match Catalogue.standard.buildAll Category.all c with
  | (.error e, c') => (.error e, c')
  | (.ok fragments, c') =>
    let r := assemble criterion fragments c'
    (r.1.mapError .malformed, r.2.getD c')

end Recognizer

end LexAutomata
