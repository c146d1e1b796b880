/-
# Nondeterministic automata

An automaton has integer states, at most one start state, final states, and
transitions that consume one symbol or none.  It is built by adding: a state or a
transition is never removed, and each step that names a start or final state
checks that it is a state.
-/
import LexAutomata.OrderedMap
import LexAutomata.Violation

namespace LexAutomata

/-- What a transition consumes: nothing, or one symbol. -/
inductive Label where
  /-- Nothing is consumed. -/
  | epsilon
  /-- One symbol is consumed. -/
  | symbol (s : String)
deriving DecidableEq, Inhabited

/-- The symbol of a label, if it consumes one. -/
def Label.symbol? : Label → Option String
  | epsilon => none
  | symbol s => some s

/-- Accepts epsilon and texts of one character as labels. -/
def LabelInput.toLabel : LabelInput → Except Violation Label
  | epsilon => .ok .epsilon
  | text s => if s.length = 1 then .ok (.symbol s) else .error (.badLabel (text s))
  | number n => .error (.badLabel (number n))
  | truth b => .error (.badLabel (truth b))

/-- The symbols of a list, each once, in ascending order. -/
def sortedSymbols (l : List String) : List String :=
  l.eraseDups.mergeSort fun a b => decide (a ≤ b)

/-- A nondeterministic finite automaton. -/
structure Automaton where
  /-- The name, which may be empty. -/
  name : String := ""
  /-- The states. -/
  states : StateSet := ∅
  /-- The start state, once there is one. -/
  start : Option Int := none
  /-- The states in which a word is accepted. -/
  finals : StateSet := ∅
  /-- The targets for each state and label that has an entry. -/
  rows : OrderedMap Int (OrderedMap Label StateSet) := ∅
deriving Inhabited, DecidableEq

namespace Automaton

/-! ## Construction -/

/-- Adds targets to the entry of a state and a label. -/
def addTargets (rows : OrderedMap Int (OrderedMap Label StateSet)) (p : Int) (l : Label)
    (targets : StateSet) : OrderedMap Int (OrderedMap Label StateSet) :=
  rows.alter p fun row => (row.getD ∅).alter l fun old => old.getD ∅ ∪ targets

/-- Adds a state. -/
def addState (A : Automaton) (q : Int) : Automaton := { A with states := A.states.insert q }

/-- Adds a transition and both of its ends. -/
def connect (A : Automaton) (p q : Int) (l : Label) : Automaton :=
  { A with
    states := (A.states.insert p).insert q
    rows := addTargets A.rows p l (.singleton q) }

/-- A change of an automaton in place.  It may break off with a violation; what it has changed
until then stays changed. -/
abbrev Edit := ExceptT Violation (StateM Automaton)

namespace Edit

/-- What a change answers, and the automaton that it leaves behind. -/
def on {α : Type} (edit : Edit α) (A : Automaton) : Except Violation α × Automaton :=
  edit.run.run A

/-- The automaton after a change, for those who give it up when the change breaks off. -/
def result {α : Type} (edit : Edit α) (A : Automaton) : Except Violation Automaton :=
  (edit.on A).1.map fun _ => (edit.on A).2

/-- Adds a state, and gives it back. -/
def addState (q : Int) : Edit Int := do
  modify (Automaton.addState · q)
  return q

/-- Adds a transition and both of its ends, once the label has been checked. -/
def addTransition (p q : Int) (label : LabelInput) : Edit Unit := do
  let l ← label.toLabel
  modify (Automaton.addState · p)
  modify (Automaton.addState · q)
  modify fun A => { A with rows := addTargets A.rows p l (.singleton q) }

/-- Makes a known state the start state. -/
def setStart (q : Int) : Edit Unit := do
  let A ← get
  unless q ∈ A.states do throw (.unknownStart q A.name)
  modify fun A => { A with start := some q }

/-- Makes a known state final. -/
def markFinal (q : Int) : Edit Unit := do
  let A ← get
  unless q ∈ A.states do throw (.unknownFinal q A.name)
  modify fun A => { A with finals := A.finals.insert q }

end Edit

/-- The automaton with a transition more, if its label is one. -/
def addTransition (A : Automaton) (p q : Int) (label : LabelInput) : Except Violation Automaton :=
  (Edit.addTransition p q label).result A

/-- The automaton with the given start state, if that is a state. -/
def setStart (A : Automaton) (q : Int) : Except Violation Automaton := (Edit.setStart q).result A

/-- The automaton with a final state more, if that is a state. -/
def markFinal (A : Automaton) (q : Int) : Except Violation Automaton := (Edit.markFinal q).result A

/-- An automaton with the given parts, unchecked.  Repeated sources and labels accumulate. -/
def ofParts (name : String) (states : List Int) (start : Option Int) (finals : List Int)
    (transitions : List (Int × List (Label × List Int))) : Automaton where
  name := name
  states := .ofList states
  start := start
  finals := .ofList finals
  rows := transitions.foldl
    (fun rows row =>
      row.2.foldl (fun rows e => addTargets rows row.1 e.1 (.ofList e.2))
        (rows.alter row.1 fun old => old.getD ∅))
    ∅

/-! ## Queries -/

/-- Is this the start state? -/
def isStart (A : Automaton) (q : Int) : Bool := A.start = some q

/-- Is this a final state? -/
def isFinal (A : Automaton) (q : Int) : Bool := q ∈ A.finals

/-- The entries of a state, none if it has no row. -/
def row (A : Automaton) (q : Int) : OrderedMap Label StateSet := (A.rows.get? q).getD ∅

/-- The states that a state leads to under a label. -/
def targets (A : Automaton) (q : Int) (l : Label) : StateSet := ((A.row q).get? l).getD ∅

/-- The labels that have an entry somewhere. -/
def labels (A : Automaton) : List Label := A.rows.values.flatMap OrderedMap.keys

/-- The symbols that have an entry somewhere, in ascending order. -/
def alphabet (A : Automaton) : List String := sortedSymbols (A.labels.filterMap Label.symbol?)

/-- The transitions of one row. -/
def rowTransitions (p : Int) (row : OrderedMap Label StateSet) : List (Int × Label × Int) :=
  row.entries.flatMap fun e => e.2.toList.map fun q => (p, e.1, q)

/-- All transitions, in the order of their entries and of their targets. -/
def transitions (A : Automaton) : List (Int × Label × Int) :=
  A.rows.entries.flatMap fun e => rowTransitions e.1 e.2

/-- Has some state an entry for epsilon? -/
def hasEpsilon (A : Automaton) : Bool := A.labels.any fun l => l = .epsilon

/-- Is there no entry for epsilon, and nowhere a choice of targets? -/
def isDeterministic (A : Automaton) : Bool :=
  !A.hasEpsilon && A.rows.values.all fun row => row.values.all fun targets => targets.size ≤ 1

/-- Checks that there is a start state and that start, final and connected states are states. -/
def validate (A : Automaton) : Except Violation Unit :=
  match A.start with
  | none => .error (.noStart A.name)
  | some q =>
    if ¬ q ∈ A.states then .error (.strayStart q A.name)
    else if !(A.finals.diff A.states).isEmpty then
      .error (.strayFinals (A.finals.diff A.states) A.name)
    else
      match A.transitions.find? fun t => ¬ (t.1 ∈ A.states ∧ t.2.2 ∈ A.states) with
      | some t => .error (.strayTransition t.1 t.2.2 A.name)
      | none => .ok ()

/-- Every target of a transition is the end of a listed transition. -/
theorem mem_transitions_of_mem_targets {A : Automaton} {p q : Int} {l : Label}
    (h : q ∈ A.targets p l) : (p, l, q) ∈ A.transitions := by
  unfold targets row at h
  cases hrow : A.rows.get? p with
  | none => rw [hrow] at h; simp at h
  | some row =>
    rw [hrow] at h
    cases hset : row.get? l with
    | none => rw [Option.getD_some, hset] at h; simp at h
    | some S =>
      rw [Option.getD_some, hset] at h
      simp only [Option.getD_some] at h
      unfold transitions rowTransitions
      rw [List.mem_flatMap]
      refine ⟨(p, row), OrderedMap.mem_entries_of_get? hrow, ?_⟩
      rw [List.mem_flatMap]
      exact ⟨(l, S), OrderedMap.mem_entries_of_get? hset, List.mem_map.2 ⟨q, h, rfl⟩⟩

end Automaton

end LexAutomata
