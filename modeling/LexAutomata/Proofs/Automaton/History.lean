/-
# Histories of construction

An automaton is built by calls that add states and transitions, choose the start state and
mark final states (`Call`).  A call changes the automaton in place, and is refused when its
label is neither epsilon nor one character, or when its state is unknown
(`call_eq_error_iff`); it is refused before it has changed anything (`call_of_refuses`).
Otherwise the automaton gains what the call names (`call_cases`).  So every call keeps an
automaton in order (`WellFormed.after`) and takes nothing away (`extends_after`), and what
is built from nothing is in order whatever the calls are, and valid once a start state was
accepted (`wellFormed_built`).
-/
import LexAutomata.Proofs.Automaton.Construction

namespace LexAutomata

/-- A text of length one is one character. -/
theorem length_eq_one_iff {s : String} : s.length = 1 ↔ ∃ x, s = String.ofList [x] := by
  rw [← String.length_toList, List.length_eq_one_iff]
  constructor
  · rintro ⟨x, hx⟩
    exact ⟨x, by rw [← hx, String.ofList_toList]⟩
  · rintro ⟨x, rfl⟩
    exact ⟨x, String.toList_ofList⟩

/-! ## Labels -/

/-- The label is epsilon or exactly one character. -/
def Label.Plain (l : Label) : Prop := l = .epsilon ∨ ∃ x : Char, l = .symbol (String.ofList [x])

namespace LabelInput

/-- What is offered as a label is the label: epsilon, or a text of exactly one character. -/
def Names (label : LabelInput) (l : Label) : Prop :=
  (label = .epsilon ∧ l = .epsilon) ∨
    ∃ x : Char, label = .text (String.ofList [x]) ∧ l = .symbol (String.ofList [x])

/-- What is offered as a label is neither epsilon nor exactly one character. -/
def Bad (label : LabelInput) : Prop :=
  ¬ label = .epsilon ∧ ∀ x : Char, ¬ label = .text (String.ofList [x])

variable {label : LabelInput} {l : Label}

/-- What names a label names epsilon or a single character. -/
theorem Names.plain (h : label.Names l) : l.Plain := by
  rcases h with ⟨-, rfl⟩ | ⟨x, -, rfl⟩
  · exact Or.inl rfl
  · exact Or.inr ⟨x, rfl⟩

/-- The labels that are accepted are those that are named. -/
theorem toLabel_eq_ok_iff : label.toLabel = .ok l ↔ label.Names l := by
  cases label with
  | epsilon => simp [toLabel, Names, eq_comm]
  | text s =>
    rw [toLabel]
    constructor
    · intro h
      split at h
      · rename_i hs
        obtain ⟨x, rfl⟩ := length_eq_one_iff.1 hs
        cases h
        exact Or.inr ⟨x, rfl, rfl⟩
      · cases h
    · rintro (⟨h, -⟩ | ⟨x, h, rfl⟩)
      · cases h
      · cases h
        rw [if_pos (length_eq_one_iff.2 ⟨x, rfl⟩)]
  | number n => simp [toLabel, Names]
  | truth b => simp [toLabel, Names]

/-- A text of length one names the symbol that it is. -/
theorem names_text {s : String} (h : s.length = 1) : (text s).Names (.symbol s) :=
  toLabel_eq_ok_iff.1 (if_pos h)

/-- The labels that are refused are the bad ones. -/
theorem toLabel_eq_error_iff {v : Violation} :
    label.toLabel = .error v ↔ v = .badLabel label ∧ label.Bad := by
  cases label with
  | epsilon => simp [toLabel, Bad]
  | text s =>
    have hbad : (text s).Bad ↔ ¬ s.length = 1 := by
      rw [Bad, length_eq_one_iff, not_exists]
      simp only [reduceCtorEq, not_false_eq_true, true_and, text.injEq]
    rw [toLabel, hbad]
    by_cases hs : s.length = 1
    · simp [hs]
    · simp [hs, eq_comm]
  | number n => simp [toLabel, Bad, eq_comm]
  | truth b => simp [toLabel, Bad, eq_comm]

end LabelInput

namespace Automaton

variable {A B : Automaton}

/-! ## Calls -/

/-- A call that goes on building an automaton. -/
inductive Call where
  /-- Adds a state. -/
  | addState (q : Int)
  /-- Adds a transition with both of its ends. -/
  | addTransition (p q : Int) (label : LabelInput)
  /-- Makes a state the start state. -/
  | setStart (q : Int)
  /-- Makes a state final. -/
  | markFinal (q : Int)
deriving DecidableEq

/-- The states that a call adds. -/
def Call.states : Call → List Int
  | addState q => [q]
  | addTransition p q _ => [p, q]
  | setStart _ => []
  | markFinal _ => []

/-- The start state that a call chooses. -/
def Call.start? : Call → Option Int
  | setStart q => some q
  | _ => none

/-- The call adds the transition. -/
def Call.Joins (c : Call) (p : Int) (l : Label) (q : Int) : Prop :=
  ∃ label : LabelInput, c = .addTransition p q label ∧ label.Names l

/-- The change that a call makes. -/
def Call.edit : Call → Edit Unit
  | addState q => discard (Edit.addState q)
  | addTransition p q label => Edit.addTransition p q label
  | setStart q => Edit.setStart q
  | markFinal q => Edit.markFinal q

/-- What a call answers, and the automaton that it leaves behind. -/
def call (A : Automaton) (c : Call) : Except Violation Unit × Automaton := c.edit.on A

/-- The automaton that a call leaves behind, accepted or refused. -/
def after (A : Automaton) (c : Call) : Automaton := (A.call c).2

/-- The automaton after calls one after the other. -/
def afterAll (A : Automaton) (calls : List Call) : Automaton := calls.foldl after A

/-- What calls build from an automaton that has nothing but a name. -/
def built (name : String) (calls : List Call) : Automaton :=
  ({ name := name } : Automaton).afterAll calls

/-- The calls that an automaton refuses, each with the violation that it is refused for. -/
inductive Refuses (A : Automaton) : Call → Violation → Prop
  /-- The label is neither epsilon nor one character. -/
  | label {p q : Int} {label : LabelInput} (h : label.Bad) :
      Refuses A (.addTransition p q label) (.badLabel label)
  /-- The state to start from is unknown. -/
  | start {q : Int} (h : ¬ q ∈ A.states) : Refuses A (.setStart q) (.unknownStart q A.name)
  /-- The state to accept in is unknown. -/
  | final {q : Int} (h : ¬ q ∈ A.states) : Refuses A (.markFinal q) (.unknownFinal q A.name)

/-- **A refused call leaves the automaton exactly as it was.**  The label and the state are looked
at before anything is changed. -/
theorem call_of_refuses {c : Call} {v : Violation} (h : A.Refuses c v) :
    A.call c = (.error v, A) := by
  cases h with
  | label hbad =>
    have hlabel := LabelInput.toLabel_eq_error_iff.2 ⟨rfl, hbad⟩
    exact Edit.on_addTransition_of_error hlabel _ _ A
  | start hq => exact Edit.on_setStart_of_not_mem hq
  | final hq => exact Edit.on_markFinal_of_not_mem hq

/-- An automaton gains by a call what the call names, and nothing else. -/
structure Gains (A : Automaton) (c : Call) (B : Automaton) : Prop where
  /-- The states of the call become states. -/
  mem_states : ∀ q, q ∈ B.states ↔ q ∈ A.states ∨ q ∈ c.states
  /-- The call may choose another start state. -/
  start_eq : B.start = c.start?.or A.start
  /-- The call may make a state final. -/
  mem_finals : ∀ q, q ∈ B.finals ↔ q ∈ A.finals ∨ c = .markFinal q
  /-- The call may add a transition. -/
  mem_transitions : ∀ p l q, (p, l, q) ∈ B.transitions ↔ (p, l, q) ∈ A.transitions ∨ c.Joins p l q
  /-- What is stored anew are targets under a plain label. -/
  entries : ∀ p l T, entryOf B.rows p l = some T →
    entryOf A.rows p l = some T ∨ l.Plain ∧ ∃ q, q ∈ T
  /-- Chosen and final states are states already. -/
  known : ∀ q, c = .setStart q ∨ c = .markFinal q → q ∈ A.states

/-- Adding a state is what the call for it does. -/
theorem gains_addState (A : Automaton) (q : Int) : A.Gains (.addState q) (A.addState q) where
  mem_states r := by simp [addState, Call.states, or_comm]
  start_eq := rfl
  mem_finals r := by simp [addState]
  mem_transitions p l r := by simp [addState, Call.Joins, transitions]
  entries p l T := Or.inl
  known r h := by simp at h

/-- Connecting two states by a label is what the call for a transition does. -/
theorem gains_connect (A : Automaton) (p q : Int) {label : LabelInput} {l : Label}
    (hl : label.Names l) : A.Gains (.addTransition p q label) (A.connect p q l) where
  mem_states r := by
    simp only [mem_states_connect, Call.states, List.mem_cons, List.not_mem_nil, or_false]
    grind
  start_eq := rfl
  mem_finals r := by simp
  mem_transitions p' l' r := by
    rw [mem_transitions_iff, mem_transitions_iff, mem_targets_connect]
    refine or_congr_right ⟨?_, ?_⟩
    · rintro ⟨rfl, rfl, rfl⟩
      exact ⟨label, rfl, hl⟩
    · rintro ⟨label', heq, hl'⟩
      cases heq
      rw [← LabelInput.toLabel_eq_ok_iff] at hl hl'
      rw [hl, Except.ok.injEq] at hl'
      exact ⟨rfl, hl'.symm, rfl⟩
  entries p' l' T hT := by
    rw [entryOf_connect] at hT
    split at hT
    · rename_i h
      cases hT
      exact Or.inr ⟨h.2 ▸ hl.plain, q, by simp⟩
    · exact Or.inl hT
  known r h := by simp at h

/-- Setting the start state is what the call for it does. -/
theorem gains_setStart {q : Int} (hq : q ∈ A.states) :
    A.Gains (.setStart q) { A with start := some q } where
  mem_states r := by simp [Call.states]
  start_eq := rfl
  mem_finals r := by simp
  mem_transitions p l r := by simp [Call.Joins, transitions]
  entries p l T := Or.inl
  known r h := by
    obtain rfl : q = r := by simpa using h
    exact hq

/-- Adding a final state is what the call for it does. -/
theorem gains_markFinal {q : Int} (hq : q ∈ A.states) :
    A.Gains (.markFinal q) { A with finals := A.finals.insert q } where
  mem_states r := by simp [Call.states]
  start_eq := rfl
  mem_finals r := by simp [or_comm, eq_comm]
  mem_transitions p l r := by simp [Call.Joins, transitions]
  entries p l T := Or.inl
  known r h := by
    obtain rfl : q = r := by simpa using h
    exact hq

/-- **A call is refused, or is carried out and has its effect.** -/
theorem call_cases (A : Automaton) (c : Call) :
    (∃ v, A.Refuses c v) ∨ ∃ B, A.call c = (.ok (), B) ∧ A.Gains c B := by
  cases c with
  | addState q => exact Or.inr ⟨_, rfl, A.gains_addState q⟩
  | addTransition p q label =>
    cases hlabel : label.toLabel with
    | ok l =>
      exact Or.inr ⟨_, Edit.on_addTransition_of_ok hlabel p q A,
        A.gains_connect p q (LabelInput.toLabel_eq_ok_iff.1 hlabel)⟩
    | error v => exact Or.inl ⟨_, .label (LabelInput.toLabel_eq_error_iff.1 hlabel).2⟩
  | setStart q =>
    by_cases hq : q ∈ A.states
    · exact Or.inr ⟨_, Edit.on_setStart_of_mem hq, gains_setStart hq⟩
    · exact Or.inl ⟨_, .start hq⟩
  | markFinal q =>
    by_cases hq : q ∈ A.states
    · exact Or.inr ⟨_, Edit.on_markFinal_of_mem hq, gains_markFinal hq⟩
    · exact Or.inl ⟨_, .final hq⟩

/-- **A call raises a violation exactly when it is to be refused for it.** -/
theorem call_eq_error_iff {c : Call} {v : Violation} :
    (A.call c).1 = .error v ↔ A.Refuses c v := by
  constructor
  · intro h
    rcases A.call_cases c with ⟨v', hv⟩ | ⟨B, hB, -⟩
    · rw [call_of_refuses hv] at h
      cases h
      exact hv
    · rw [hB] at h
      cases h
  · intro h
    rw [call_of_refuses h]

theorem after_of_refuses {c : Call} {v : Violation} (h : A.Refuses c v) : A.after c = A := by
  rw [after, call_of_refuses h]

/-- A call that is not to be refused is carried out, and has its effect. -/
theorem call_of_not_refuses {c : Call} (h : ∀ v, ¬ A.Refuses c v) :
    A.call c = (.ok (), A.after c) ∧ A.Gains c (A.after c) := by
  rcases A.call_cases c with ⟨v, hv⟩ | ⟨B, hB, hgains⟩
  · exact absurd hv (h v)
  · have hafter : A.after c = B := by rw [after, hB]
    rw [hafter]
    exact ⟨hB, hgains⟩

/-- What a call leaves behind is the automaton as it was, or has gained what the call names. -/
theorem after_cases (A : Automaton) (c : Call) : A.after c = A ∨ A.Gains c (A.after c) := by
  by_cases h : ∃ v, A.Refuses c v
  · exact Or.inl (after_of_refuses h.choose_spec)
  · exact Or.inr (call_of_not_refuses (not_exists.1 h)).2

/-! ## What every call keeps -/

/-- Start state, final states and connected states are states, and what is stored are targets
under plain labels. -/
structure WellFormed (A : Automaton) : Prop where
  /-- The start state, once there is one, is a state. -/
  start : ∀ q, A.start = some q → q ∈ A.states
  /-- The final states are states. -/
  finals : ∀ q ∈ A.finals, q ∈ A.states
  /-- Transitions lead from states to states. -/
  ends : ∀ p l q, (p, l, q) ∈ A.transitions → p ∈ A.states ∧ q ∈ A.states
  /-- Every label is epsilon or exactly one character. -/
  labels : ∀ l ∈ A.labels, l.Plain
  /-- No stored set of targets is empty. -/
  stored : ∀ row ∈ A.rows.values, ∀ T ∈ row.values, ∃ q, q ∈ T

/-- The other automaton has all states, final states and transitions of this one. -/
structure Extends (A B : Automaton) : Prop where
  /-- No state is lost. -/
  states : ∀ q ∈ A.states, q ∈ B.states
  /-- No final state is lost. -/
  finals : ∀ q ∈ A.finals, q ∈ B.finals
  /-- No transition is lost. -/
  transitions : ∀ t ∈ A.transitions, t ∈ B.transitions

theorem Extends.refl (A : Automaton) : A.Extends A := ⟨fun _ => id, fun _ => id, fun _ => id⟩

theorem Extends.trans {C : Automaton} (h : A.Extends B) (h' : B.Extends C) : A.Extends C where
  states q hq := h'.states q (h.states q hq)
  finals q hq := h'.finals q (h.finals q hq)
  transitions t ht := h'.transitions t (h.transitions t ht)

/-- A call that is accepted takes nothing away. -/
theorem Gains.extends {c : Call} (h : A.Gains c B) : A.Extends B where
  states q hq := (h.mem_states q).2 (Or.inl hq)
  finals q hq := (h.mem_finals q).2 (Or.inl hq)
  transitions t ht := (h.mem_transitions t.1 t.2.1 t.2.2).2 (Or.inl ht)

/-- **A call takes nothing away.** -/
theorem extends_after (A : Automaton) (c : Call) : A.Extends (A.after c) := by
  rcases A.after_cases c with h | h
  · rw [h]
    exact .refl A
  · exact h.extends

/-- No sequence of calls takes anything away. -/
theorem extends_afterAll (A : Automaton) (calls : List Call) : A.Extends (A.afterAll calls) := by
  induction calls generalizing A with
  | nil => exact .refl A
  | cons c calls ih => exact (A.extends_after c).trans (ih (A.after c))

/-- The stored sets are the entries of the states and labels. -/
theorem exists_stored_iff {T : StateSet} :
    (∃ row ∈ A.rows.values, T ∈ row.values) ↔ ∃ p l, entryOf A.rows p l = some T := by
  constructor
  · rintro ⟨row, hrow, hT⟩
    obtain ⟨p, hp⟩ := OrderedMap.mem_values_iff.1 hrow
    obtain ⟨l, hl⟩ := OrderedMap.mem_values_iff.1 hT
    exact ⟨p, l, by rw [entryOf, hp]; exact hl⟩
  · rintro ⟨p, l, h⟩
    rw [entryOf] at h
    cases hrow : A.rows.get? p with
    | none => rw [hrow] at h; cases h
    | some row =>
      rw [hrow] at h
      exact ⟨row, OrderedMap.mem_values_iff.2 ⟨p, hrow⟩, OrderedMap.mem_values_iff.2 ⟨l, h⟩⟩

namespace WellFormed

/-- States alone are in order. -/
theorem ofStates (name : String) (S : StateSet) :
    ({ name := name, states := S } : Automaton).WellFormed where
  start q hq := by cases hq
  finals q hq := absurd hq (StateSet.not_mem_empty q)
  ends p l q ht := by cases ht
  labels l hl := by cases hl
  stored row hrow := by cases hrow

theorem empty (name : String) : ({ name := name } : Automaton).WellFormed := ofStates name ∅

/-- **An accepted call keeps an automaton in order.** -/
theorem gains (h : A.WellFormed) {c : Call} (hB : A.Gains c B) : B.WellFormed where
  start q hq := by
    rw [hB.start_eq, Option.or_eq_some_iff] at hq
    refine hB.extends.states q ?_
    rcases hq with hq | ⟨-, hq⟩
    · cases c with
      | setStart q' => exact hB.known q (Or.inl (by rw [Option.some.inj hq]))
      | _ => cases hq
    · exact h.start q hq
  finals q hq := by
    refine hB.extends.states q ?_
    rcases (hB.mem_finals q).1 hq with hq | hq
    · exact h.finals q hq
    · exact hB.known q (Or.inr hq)
  ends p l q ht := by
    rcases (hB.mem_transitions p l q).1 ht with ht | ⟨label, rfl, -⟩
    · exact (h.ends p l q ht).imp (hB.extends.states p) (hB.extends.states q)
    · rw [hB.mem_states, hB.mem_states, Call.states]
      simp
  labels l hl := by
    obtain ⟨p, hp⟩ := mem_labels_iff.1 hl
    obtain ⟨T, hT⟩ := Option.isSome_iff_exists.1 hp
    rcases hB.entries p l T hT with hT | ⟨hplain, -⟩
    · exact h.labels l (mem_labels_iff.2 ⟨p, Option.isSome_iff_exists.2 ⟨T, hT⟩⟩)
    · exact hplain
  stored row hrow T hT := by
    obtain ⟨p, l, hT⟩ := exists_stored_iff.1 ⟨row, hrow, hT⟩
    rcases hB.entries p l T hT with hT | ⟨-, hne⟩
    · obtain ⟨row', hrow', hT'⟩ := exists_stored_iff.2 ⟨p, l, hT⟩
      exact h.stored row' hrow' T hT'
    · exact hne

/-- An automaton stays well formed under a call, whether it is accepted or refused. -/
theorem after (h : A.WellFormed) (c : Call) : (A.after c).WellFormed := by
  rcases A.after_cases c with hA | hgains
  · rw [hA]
    exact h
  · exact h.gains hgains

theorem afterAll (h : A.WellFormed) (calls : List Call) : (A.afterAll calls).WellFormed := by
  induction calls generalizing A with
  | nil => exact h
  | cons c calls ih => exact ih (h.after c)

/-- An automaton in order is valid as soon as it has a start state. -/
theorem validate_eq_ok_iff (h : A.WellFormed) :
    A.validate = .ok () ↔ ∃ q, A.start = some q := by
  rw [Automaton.validate_eq_ok_iff]
  constructor
  · rintro ⟨⟨q, -, hq⟩, -, -⟩
    exact ⟨q, hq⟩
  · rintro ⟨q, hq⟩
    exact ⟨⟨q, h.start q hq, hq⟩, h.finals, fun p l r hr =>
      h.ends p l r (mem_transitions_iff.2 hr)⟩

end WellFormed

/-! ## The start state -/

/-- Some call of the list makes a state the start state, and is accepted when its turn comes. -/
def StartAccepted (A : Automaton) (calls : List Call) : Prop :=
  ∃ before q rest, calls = before ++ .setStart q :: rest ∧
    ((A.afterAll before).call (.setStart q)).1 = .ok ()

/-- A call leaves a start state behind exactly when there was one or it sets one. -/
theorem exists_start_after_iff {c : Call} :
    (∃ q, (A.after c).start = some q) ↔
      (∃ q, A.start = some q) ∨ ∃ q, c = .setStart q ∧ (A.call c).1 = .ok () := by
  by_cases h : ∃ v, A.Refuses c v
  · obtain ⟨v, hv⟩ := h
    rw [after_of_refuses hv, call_of_refuses hv]
    simp
  · obtain ⟨hcall, hgains⟩ := call_of_not_refuses (not_exists.1 h)
    rw [hcall, hgains.start_eq]
    cases c <;> simp [Call.start?]

/-- There is a start state exactly when there was one before or the setting of one was accepted. -/
theorem exists_start_afterAll_iff {calls : List Call} :
    (∃ q, (A.afterAll calls).start = some q) ↔
      (∃ q, A.start = some q) ∨ A.StartAccepted calls := by
  induction calls generalizing A with
  | nil => simp [afterAll, StartAccepted]
  | cons c calls ih =>
    rw [afterAll, List.foldl_cons, ← afterAll, ih, exists_start_after_iff, or_assoc]
    refine or_congr_right ?_
    constructor
    · rintro (⟨q, rfl, hq⟩ | ⟨before, q, rest, rfl, hq⟩)
      · exact ⟨[], q, calls, rfl, hq⟩
      · exact ⟨c :: before, q, rest, rfl, hq⟩
    · rintro ⟨before, q, rest, heq, hq⟩
      cases before with
      | nil =>
        cases heq
        exact Or.inl ⟨q, rfl, hq⟩
      | cons c' before =>
        cases heq
        exact Or.inr ⟨before, q, rest, rfl, hq⟩

/-- **Whatever the calls are, what they build is in order.**  Nothing is ever taken away.  The next
call raises a violation exactly when it has to be refused, and what it leaves behind then is exactly
what was there; otherwise it has its effect.  The automaton is valid exactly when some start state
was accepted. -/
theorem wellFormed_built (name : String) (calls : List Call) :
    (built name calls).WellFormed ∧
      (∀ more, (built name calls).Extends (built name (calls ++ more))) ∧
      (∀ c v, ((built name calls).call c).1 = .error v ↔ (built name calls).Refuses c v) ∧
      (∀ c v, (built name calls).Refuses c v →
        (built name calls).call c = (.error v, built name calls) ∧
          built name (calls ++ [c]) = built name calls) ∧
      (∀ c, (∀ v, ¬ (built name calls).Refuses c v) →
        (built name calls).call c = (.ok (), built name (calls ++ [c])) ∧
          (built name calls).Gains c (built name (calls ++ [c]))) ∧
      ((built name calls).validate = .ok () ↔
        ({ name := name } : Automaton).StartAccepted calls) := by
  have hwell : (built name calls).WellFormed := (WellFormed.empty name).afterAll calls
  have hmore : ∀ more, built name (calls ++ more) = (built name calls).afterAll more := fun more =>
    List.foldl_append
  have hnext : ∀ c, built name (calls ++ [c]) = (built name calls).after c := fun c => hmore [c]
  refine ⟨hwell, fun more => ?_, fun c v => call_eq_error_iff, fun c v hv => ?_, fun c hc => ?_, ?_⟩
  · rw [hmore]
    exact extends_afterAll _ more
  · exact ⟨call_of_refuses hv, (hnext c).trans (after_of_refuses hv)⟩
  · rw [hnext]
    exact call_of_not_refuses hc
  · rw [hwell.validate_eq_ok_iff, built, exists_start_afterAll_iff]
    simp

end Automaton

end LexAutomata
