/-
# The quotient of a table

The states that a criterion leaves together are made one.  The group of the start
state becomes state zero; the others follow in the order of their least members.
-/
import LexAutomata.Table.Partition

namespace LexAutomata.Table

/-- The groups with that of the start state in front, the others by their least members. -/
def orderGroups (T : Table) (P : Partition) : Partition :=
  (P.filter fun G => T.start ∈ G) ++
    (P.filter fun G => ¬ T.start ∈ G).mergeSort fun G H => decide (G.least ≤ H.least)

/-- The table whose states are the places of the groups of `P`. -/
def quotient (T : Table) (P : Partition) : Table where
  rows := T.transitions.foldl
    (fun rows t =>
      rows.alter (P.groupIndex t.1) fun row =>
        (row.getD ∅).insert t.2.1 (P.groupIndex t.2.2 : Int))
    (.ofList ((numbered P).map fun e => (e.1, ∅)))
  finals := .ofList ((T.rows.keys.filter T.isFinal).map fun q => (P.groupIndex q : Int))
  start := P.groupIndex T.start

/-- Checks that every target and the start state have a row, targets first. -/
def checkClosed (T : Table) : Except Violation Unit :=
  match T.transitions.find? fun t => !T.rows.contains t.2.2 with
  | some t => .error (.danglingTarget t.1 t.2.1 t.2.2)
  | none => if T.rows.contains T.start then .ok () else .error (.startOutsideTable T.start)

/-- The quotient of a closed table by the groups of the criterion. -/
def minimize (T : Table) (criterion : Criterion) : Except Violation Table :=
  match T.checkClosed with
  | .error v => .error v
  | .ok () => .ok (T.quotient (T.orderGroups (T.groups criterion)))

end LexAutomata.Table
