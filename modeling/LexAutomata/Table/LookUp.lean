/-
# Look-ups

The passes over the groups of a table and the quotient by them, with every value looked up in
a map that may lack it: the row of a state in the table, the place of its group in a map that
is made from the groups, and the row of a place in the table that is being made.  A look-up
that fails ends the computation and names what is missing.
-/
import LexAutomata.Table.Minimal

namespace LexAutomata

/-- What a look-up does not find. -/
inductive Missing where
  /-- The state has no row in the table. -/
  | row (q : Int)
  /-- The state has no group. -/
  | group (q : Int)
  /-- The group has no member, hence no least one. -/
  | member
  /-- The place has no row in the new table. -/
  | place (k : Int)
deriving DecidableEq

/-- The value at a key, or what is missing without it. -/
def OrderedMap.lookUp {β : Type} (m : OrderedMap Int β) (missing : Int → Missing) (k : Int) :
    Except Missing β :=
  match m.get? k with
  | some v => .ok v
  | none => .error (missing k)

/-- The least member, if there is one. -/
def StateSet.lookUpLeast (G : StateSet) : Except Missing Int :=
  match G.toList with
  | [] => .error .member
  | q :: _ => .ok q

namespace Partition

/-- The place of the group of each state. -/
def places (P : Partition) : OrderedMap Int Int :=
  .ofList ((Table.numbered P).flatMap fun e => e.2.toList.map fun q => (q, e.1))

/-! ## One pass -/

/-- What a transition to `q` counts for. -/
def lookUpWeight (places : OrderedMap Int Int) : Criterion → Int → Except Missing Int
  | .targetGroup, q => places.lookUp .group q
  | .targetState, q => .ok q

/-- The symbols of a state in ascending order, each with what the transition counts for. -/
def lookUpSignature (places : OrderedMap Int Int) (criterion : Criterion) (T : Table) (q : Int) :
    Except Missing (List (String × Int)) := do
  let row ← T.rows.lookUp .row q
  let counted ← row.entries.mapM fun e => do
    let n ← lookUpWeight places criterion e.2
    return (e.1, n)
  return counted.mergeSort fun a b => decide (a.1 ≤ b.1)

/-- The parts of a group by the signatures of its members. -/
def lookUpSplit (places : OrderedMap Int Int) (criterion : Criterion) (T : Table) (G : StateSet) :
    Except Missing Partition := do
  let known ← G.toList.mapM fun q => do
    let signature ← lookUpSignature places criterion T q
    return (q, signature)
  return splitBy (fun q => OrderedMap.findEntry q known) G

/-- One pass: every group is split by the signatures of its members. -/
def lookUpRefine (P : Partition) (criterion : Criterion) (T : Table) :
    Except Missing Partition := do
  let parts ← P.mapM (lookUpSplit P.places criterion T)
  return parts.flatten

/-! ## All passes -/

/-- Splitting a group makes no more states and no more parts than the group has states. -/
theorem sizes_of_lookUpSplit {places : OrderedMap Int Int} {criterion : Criterion} {T : Table}
    {G : StateSet} {Q : Partition} (h : lookUpSplit places criterion T G = .ok Q) :
    stateCount Q ≤ G.size ∧ Q.length ≤ G.size := by
  rw [lookUpSplit] at h
  cases hknown : (G.toList.mapM fun q => do
      let signature ← lookUpSignature places criterion T q
      return (q, signature)) with
  | error m => rw [hknown] at h; cases h
  | ok known =>
    rw [hknown] at h
    cases h
    exact ⟨stateCount_splitBy_le _ G, length_splitBy_le _ G⟩

/-- A pass adds no state, and makes no more groups than there are states. -/
theorem sizes_of_lookUpRefine {P Q : Partition} {criterion : Criterion} {T : Table}
    (h : P.lookUpRefine criterion T = .ok Q) :
    Q.stateCount ≤ P.stateCount ∧ Q.length ≤ P.stateCount := by
  rw [lookUpRefine] at h
  generalize P.places = places at h
  induction P generalizing Q with
  | nil =>
    cases h
    exact ⟨Nat.le_refl _, Nat.le_refl _⟩
  | cons G P ih =>
    rw [List.mapM_cons] at h
    cases hG : lookUpSplit places criterion T G with
    | error m => rw [hG] at h; cases h
    | ok H =>
      cases hP : P.mapM (lookUpSplit places criterion T) with
      | error m => rw [hG, hP] at h; cases h
      | ok parts =>
        rw [hG, hP] at h
        cases h
        obtain ⟨hcount, hlength⟩ := sizes_of_lookUpSplit hG
        obtain ⟨hcounts, hlengths⟩ := ih (Q := parts.flatten) (by rw [hP]; rfl)
        rw [List.flatten_cons, List.length_append, stateCount, stateCount, List.flatMap_append,
          List.flatMap_cons, List.length_append, List.length_append]
        exact ⟨Nat.add_le_add hcount hcounts, Nat.add_le_add hlength hlengths⟩

/-- Repeats passes until one makes no more groups, and keeps the partition before that pass. -/
def lookUpStabilize (P : Partition) (criterion : Criterion) (T : Table) :
    Except Missing Partition :=
  match _h : P.lookUpRefine criterion T with
  | .error m => .error m
  | .ok finer =>
    if finer.length ≤ P.length then .ok P else finer.lookUpStabilize criterion T
termination_by P.stateCount - P.length
decreasing_by
  have h := sizes_of_lookUpRefine _h
  omega

end Partition

namespace Table

/-- The groups of states that the criterion leaves together. -/
def lookUpPartition (T : Table) (criterion : Criterion) : Except Missing Partition :=
  T.acceptanceGroups.lookUpStabilize criterion T

/-! ## The quotient -/

/-- Does the first key stand before the second?  The key of the group with the start state is
marked with `false`, which comes first; then the least members count. -/
def keyLE (a b : Bool × Int) : Bool :=
  if a.1 = b.1 then decide (a.2 ≤ b.2) else b.1

/-- The groups with that of the start state in front, the others by their least members. -/
def lookUpOrder (T : Table) (P : Partition) : Except Missing Partition := do
  let keyed ← P.mapM fun G => do
    let least ← G.lookUpLeast
    return ((decide (¬ T.start ∈ G), least), G)
  return (keyed.mergeSort fun a b => keyLE a.1 b.1).map Prod.snd

/-- Enters the place of a target into the row of a place. -/
def lookUpEntry (places : OrderedMap Int Int) (k : Int)
    (rows : OrderedMap Int (OrderedMap String Int)) (e : String × Int) :
    Except Missing (OrderedMap Int (OrderedMap String Int)) := do
  let target ← places.lookUp .group e.2
  let row ← rows.lookUp .place k
  return rows.insert k (row.insert e.1 target)

/-- Enters the row of a state into the row of its place, which is final if the state is. -/
def lookUpRow (T : Table) (places : OrderedMap Int Int) (M : Table)
    (e : Int × OrderedMap String Int) : Except Missing Table := do
  let k ← places.lookUp .group e.1
  let rows ← e.2.entries.foldlM (lookUpEntry places k) M.rows
  return { M with
    rows := rows
    finals := if T.isFinal e.1 then M.finals.insert k else M.finals }

/-- The table whose states are the places of the groups. -/
def lookUpQuotient (T : Table) (P : Partition) : Except Missing Table := do
  let start ← P.places.lookUp .group T.start
  T.rows.entries.foldlM (T.lookUpRow P.places)
    { rows := .ofList ((numbered P).map fun e => (e.1, ∅)), start := start }

/-- The quotient of a table by the groups of the criterion, or the violation that the table is
refused for. -/
def lookUpMinimize (T : Table) (criterion : Criterion) :
    Except Missing (Except Violation Table) :=
  match T.checkClosed with
  | .error v => .ok (.error v)
  | .ok () => do
    let P ← T.lookUpPartition criterion
    let ordered ← T.lookUpOrder P
    let M ← T.lookUpQuotient ordered
    return .ok M

end Table

end LexAutomata
