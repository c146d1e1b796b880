/-
# Automata in memory

Sets of states, rows and tables are objects that are changed in place.  An automaton holds
the places of its states, of its final states and of its table; a table holds the place of
the row of each state, and a row the place of the targets under each label.  Automata may
hold the same places, so that a change to one shows in the other.  Merging makes new
objects for the union and enters copies of the targets there.
-/
import LexAutomata.Automaton.Merge

namespace LexAutomata

/-! ## Objects of one kind -/

/-- Objects of one kind, in numbered places. -/
structure Arena (α : Type) where
  /-- The place of the object to be made next. -/
  next : Nat
  /-- The object in a place below the next one. -/
  get : Nat → α

namespace Arena

variable {α : Type}

/-- Makes an object, in the next place. -/
def alloc (a : Arena α) (x : α) : Arena α :=
  ⟨a.next + 1, fun k => if k = a.next then x else a.get k⟩

/-- Changes the object in a place. -/
def update (a : Arena α) (i : Nat) (f : α → α) : Arena α :=
  ⟨a.next, fun k => if k = i then f (a.get i) else a.get k⟩

/-- The place that was found, or else that of a new object. -/
def placeOr (a : Arena α) (found : Option Nat) (x : α) : Nat × Arena α :=
  match found with
  | some i => (i, a)
  | none => (a.next, a.alloc x)

end Arena

/-! ## Reading automata -/

/-- The objects that automata consist of. -/
structure Memory where
  /-- Sets of states. -/
  sets : Arena StateSet
  /-- For each label that has an entry the place of its targets. -/
  rows : Arena (OrderedMap Label Nat)
  /-- For each state that has a row its place. -/
  tables : Arena (OrderedMap Int Nat)

/-- An automaton by the places of its objects. -/
structure AutomatonRef where
  /-- The name, which may be empty. -/
  name : String
  /-- The place of the states. -/
  states : Nat
  /-- The start state, once there is one. -/
  start : Option Int
  /-- The place of the final states. -/
  finals : Nat
  /-- The place of the table. -/
  table : Nat

namespace Memory

/-- The targets that a row holds. -/
def rowAt (m : Memory) (i : Nat) : OrderedMap Label StateSet :=
  (m.rows.get i).mapValues fun _ j => m.sets.get j

/-- The rows that a table holds. -/
def tableAt (m : Memory) (t : Nat) : OrderedMap Int (OrderedMap Label StateSet) :=
  (m.tables.get t).mapValues fun _ i => m.rowAt i

/-- The automaton that is found in the places. -/
def automaton (m : Memory) (A : AutomatonRef) : Automaton where
  name := A.name
  states := m.sets.get A.states
  start := A.start
  finals := m.sets.get A.finals
  rows := m.tableAt A.table

/-! ## Changing automata in place -/

/-- Adds states to a set. -/
def addToSet (m : Memory) (i : Nat) (S : StateSet) : Memory :=
  { m with sets := m.sets.update i (· ∪ S) }

/-- Adds targets for a state and a label to a table, which gets a new row and the row a new set
where there is none. -/
def enter (m : Memory) (t : Nat) (p : Int) (l : Label) (S : StateSet) : Memory :=
  let (i, rows) := m.rows.placeOr ((m.tables.get t).get? p) ∅
  let (j, sets) := m.sets.placeOr ((rows.get i).get? l) ∅
  { sets := sets.update j (· ∪ S)
    rows := rows.update i fun row => row.insert l j
    tables := m.tables.update t fun table => table.insert p i }

/-- Copies the targets that a row holds into the row of a state. -/
def copyRow (t : Nat) (m : Memory) (row : Int × Nat) : Memory :=
  (m.rows.get row.2).entries.foldl (fun m e => m.enter t row.1 e.1 (m.sets.get e.2)) m

/-- Copies an automaton into another, and joins its start state to `start` by epsilon. -/
def absorb (start : Int) (A : AutomatonRef) (m : Memory) (B : AutomatonRef) : Memory :=
  let m := m.addToSet A.states (m.sets.get B.states)
  let m := m.addToSet A.finals (m.sets.get B.finals)
  let m := (m.tables.get B.table).entries.foldl (copyRow A.table) m
  match B.start with
  | none => m
  | some q =>
    let m := m.addToSet A.states ((StateSet.singleton start).insert q)
    m.enter A.table start .epsilon (.singleton q)

/-- Makes an automaton that has only a start state. -/
def newAutomaton (m : Memory) (name : String) (start : Int) : AutomatonRef × Memory :=
  ({ name := name
     states := m.sets.next
     start := some start
     finals := m.sets.next + 1
     table := m.tables.next },
   { m with
     sets := (m.sets.alloc (.singleton start)).alloc ∅
     tables := m.tables.alloc ∅ })

/-- Makes the union of automata under a start state that is new to all of them. -/
def unionFrom (m : Memory) (name : String) (start : Int) (parts : List AutomatonRef) :
    AutomatonRef × Memory :=
  let (A, m) := m.newAutomaton name start
  (A, parts.foldl (absorb start A) m)

/-- Merges automata into one, as `Automaton.merge` does. -/
def merge (m : Memory) (parts : List AutomatonRef) (counter : Option Counter) (name : String) :
    Except Violation AutomatonRef × Option Counter × Memory :=
  match Automaton.checkApart ∅ (parts.map m.automaton) with
  | .error v => (.error v, counter, m)
  | .ok seen =>
    match counter with
    | none =>
      let (A, m) := m.unionFrom name (seen.largest?.getD (-1) + 1) parts
      (.ok A, none, m)
    | some c =>
      if c.next ∈ seen then (.error (.stateInUse c.next), some c.advance, m)
      else
        let (A, m) := m.unionFrom name c.next parts
        (.ok A, some c.advance, m)

end Memory

end LexAutomata
