/-
# What construction steps change

A table of entries is changed by adding targets to the entry of one state and one label
(`entryOf_addTargets`), so that what an automaton leads to after a step is what it led to
before, or the transition that was added (`mem_targets_connect`).  An automaton is valid
when its start state, its final states and the ends of its transitions are states
(`validate_eq_ok_iff`).
-/
import LexAutomata.Proofs.Automaton.Path

namespace LexAutomata

@[simp] theorem StateSet.mem_diff {S T : StateSet} {q : Int} :
    q ∈ S.diff T ↔ q ∈ S ∧ ¬ q ∈ T := by
  rw [diff, mem_filter, decide_eq_true_eq]

namespace Automaton

variable {A : Automaton}

/-! ## Entries -/

/-- The entry of a state and a label. -/
def entryOf (rows : OrderedMap Int (OrderedMap Label StateSet)) (p : Int) (l : Label) :
    Option StateSet :=
  ((rows.get? p).getD ∅).get? l

/-- Has the state an entry for the label? -/
def HasEntry (A : Automaton) (p : Int) (l : Label) : Prop := (entryOf A.rows p l).isSome

theorem targets_eq (p : Int) (l : Label) : A.targets p l = (entryOf A.rows p l).getD ∅ := rfl

/-- A state has an entry for the labels of its row. -/
theorem hasEntry_iff_mem_keys {p : Int} {l : Label} : A.HasEntry p l ↔ l ∈ (A.row p).keys := by
  rw [HasEntry, OrderedMap.mem_keys_iff, Option.isSome_iff_exists]
  rfl

/-- A label occurs exactly when some state has an entry for it. -/
theorem mem_labels_iff {l : Label} : l ∈ A.labels ↔ ∃ p, A.HasEntry p l := by
  rw [labels, List.mem_flatMap]
  constructor
  · rintro ⟨row, hrow, hl⟩
    obtain ⟨⟨p, row⟩, he, rfl⟩ := List.mem_map.1 hrow
    refine ⟨p, hasEntry_iff_mem_keys.2 ?_⟩
    rw [Automaton.row, OrderedMap.mem_entries_iff.1 he]
    exact hl
  · rintro ⟨p, hl⟩
    rw [hasEntry_iff_mem_keys, row] at hl
    cases hrow : A.rows.get? p with
    | none => rw [hrow] at hl; exact absurd hl List.not_mem_nil
    | some row =>
      rw [hrow] at hl
      exact ⟨row, List.mem_map.2 ⟨(p, row), OrderedMap.mem_entries_iff.2 hrow, rfl⟩, hl⟩

/-- The transitions are what the states lead to. -/
theorem mem_transitions_iff {p q : Int} {l : Label} :
    (p, l, q) ∈ A.transitions ↔ q ∈ A.targets p l := by
  constructor
  · intro h
    rw [transitions, List.mem_flatMap] at h
    obtain ⟨⟨p', row⟩, hrow, h⟩ := h
    rw [rowTransitions, List.mem_flatMap] at h
    obtain ⟨⟨l', T⟩, he, h⟩ := h
    obtain ⟨q', hq', h⟩ := List.mem_map.1 h
    cases h
    rw [targets, Automaton.row, OrderedMap.mem_entries_iff.1 hrow, Option.getD_some,
      OrderedMap.mem_entries_iff.1 he]
    exact hq'
  · exact mem_transitions_of_mem_targets

/-- Adding targets changes one entry. -/
theorem entryOf_addTargets (rows : OrderedMap Int (OrderedMap Label StateSet)) (p : Int)
    (l : Label) (T : StateSet) (p' : Int) (l' : Label) :
    entryOf (addTargets rows p l T) p' l'
      = if p' = p ∧ l' = l then some ((entryOf rows p l).getD ∅ ∪ T) else entryOf rows p' l' := by
  rw [entryOf, addTargets, OrderedMap.get?_alter]
  by_cases hp : p' = p
  · subst hp
    rw [if_pos rfl, Option.getD_some, OrderedMap.get?_alter]
    simp only [true_and]
    rfl
  · rw [if_neg hp, if_neg fun h => hp h.1]
    rfl

/-! ## Adding a transition -/

@[simp] theorem finals_connect (p q : Int) (l : Label) : (A.connect p q l).finals = A.finals := rfl

/-- A connection adds the states that it joins. -/
@[simp] theorem mem_states_connect {p q r : Int} {l : Label} :
    r ∈ (A.connect p q l).states ↔ r = q ∨ r = p ∨ r ∈ A.states := by
  rw [connect, StateSet.mem_insert, StateSet.mem_insert]

/-- A connection adds a target to one entry, and leaves the others. -/
theorem entryOf_connect (p q : Int) (l : Label) (p' : Int) (l' : Label) :
    entryOf (A.connect p q l).rows p' l'
      = if p' = p ∧ l' = l then some (A.targets p l ∪ .singleton q)
        else entryOf A.rows p' l' :=
  entryOf_addTargets A.rows p l (.singleton q) p' l'

/-- A connection adds one target. -/
theorem mem_targets_connect {p q p' r : Int} {l l' : Label} :
    r ∈ (A.connect p q l).targets p' l'
      ↔ r ∈ A.targets p' l' ∨ (p' = p ∧ l' = l ∧ r = q) := by
  rw [targets_eq, entryOf_connect]
  split
  · rename_i h
    obtain ⟨rfl, rfl⟩ := h
    simp
  · rename_i h
    rw [targets_eq]
    simp only [← and_assoc, h, false_and, or_false]

/-- A connection makes at most one entry. -/
theorem hasEntry_connect {p q p' : Int} {l l' : Label} :
    (A.connect p q l).HasEntry p' l' ↔ A.HasEntry p' l' ∨ (p' = p ∧ l' = l) := by
  rw [HasEntry, entryOf_connect]
  split
  · rename_i h
    simp [h]
  · rename_i h
    simp [h, HasEntry]

/-! ## Changes in place -/

namespace Edit

variable {label : LabelInput} {q : Int}

/-- What is read first is the automaton as it stands. -/
theorem on_get_bind {α : Type} (f : Automaton → Edit α) (A : Automaton) :
    on (get >>= f) A = (f A).on A := rfl

/-- A label that is one lets the transition in. -/
theorem on_addTransition_of_ok {l : Label} (h : label.toLabel = .ok l) (p q : Int)
    (A : Automaton) : (addTransition p q label).on A = (.ok (), A.connect p q l) := by
  rw [addTransition, h]
  rfl

/-- A label that is none breaks off before anything is added. -/
theorem on_addTransition_of_error {v : Violation} (h : label.toLabel = .error v) (p q : Int)
    (A : Automaton) : (addTransition p q label).on A = (.error v, A) := by
  rw [addTransition, h]
  rfl

/-- A state becomes the start state. -/
theorem on_setStart_of_mem (h : q ∈ A.states) :
    (setStart q).on A = (.ok (), { A with start := some q }) := by
  rw [setStart, on_get_bind, if_pos h]
  rfl

/-- An unknown start state breaks off before the start state is changed. -/
theorem on_setStart_of_not_mem (h : ¬ q ∈ A.states) :
    (setStart q).on A = (.error (.unknownStart q A.name), A) := by
  rw [setStart, on_get_bind, if_neg h]
  rfl

/-- A state becomes final. -/
theorem on_markFinal_of_mem (h : q ∈ A.states) :
    (markFinal q).on A = (.ok (), { A with finals := A.finals.insert q }) := by
  rw [markFinal, on_get_bind, if_pos h]
  rfl

/-- An unknown final state breaks off before the final states are changed. -/
theorem on_markFinal_of_not_mem (h : ¬ q ∈ A.states) :
    (markFinal q).on A = (.error (.unknownFinal q A.name), A) := by
  rw [markFinal, on_get_bind, if_neg h]
  rfl

/-- A change that is carried out gives the automaton that it leaves behind. -/
theorem result_eq_ok {α : Type} {edit : Edit α} {a : α} {B : Automaton}
    (h : edit.on A = (.ok a, B)) : edit.result A = .ok B := by
  rw [result, h]
  rfl

/-- A change that breaks off gives its violation. -/
theorem result_eq_error {α : Type} {edit : Edit α} {v : Violation} {B : Automaton}
    (h : edit.on A = (.error v, B)) : edit.result A = .error v := by
  rw [result, h]
  rfl

end Edit

/-- A transition comes in when its label is one. -/
theorem addTransition_eq (A : Automaton) (p q : Int) (label : LabelInput) :
    A.addTransition p q label = label.toLabel.map (A.connect p q) := by
  rw [addTransition]
  cases h : label.toLabel with
  | ok l => exact Edit.result_eq_ok (Edit.on_addTransition_of_ok h p q A)
  | error v => exact Edit.result_eq_error (Edit.on_addTransition_of_error h p q A)

/-- A transition by a text is accepted when the text is one character. -/
theorem addTransition_text_eq_ok_iff {B : Automaton} {p q : Int} {s : String} :
    A.addTransition p q (.text s) = .ok B ↔ s.length = 1 ∧ A.connect p q (.symbol s) = B := by
  rw [addTransition_eq, LabelInput.toLabel]
  split
  · rename_i hs
    simp [hs, Except.map]
  · rename_i hs
    simp [hs, Except.map]

section

variable {B : Automaton} {q : Int} {v : Violation}

/-- A state becomes the start state, and what is no state is refused. -/
theorem setStart_cases (A : Automaton) (q : Int) :
    (q ∈ A.states ∧ A.setStart q = .ok { A with start := some q }) ∨
      (¬ q ∈ A.states ∧ A.setStart q = .error (.unknownStart q A.name)) := by
  by_cases hq : q ∈ A.states
  · exact Or.inl ⟨hq, Edit.result_eq_ok (Edit.on_setStart_of_mem hq)⟩
  · exact Or.inr ⟨hq, Edit.result_eq_error (Edit.on_setStart_of_not_mem hq)⟩

/-- A start state is accepted when it is a state. -/
theorem setStart_eq_ok_iff :
    A.setStart q = .ok B ↔ q ∈ A.states ∧ { A with start := some q } = B := by
  rcases A.setStart_cases q with ⟨hq, h⟩ | ⟨hq, h⟩ <;> simp [h, hq]

/-- A start state is refused when it is unknown. -/
theorem setStart_eq_error_iff :
    A.setStart q = .error v ↔ ¬ q ∈ A.states ∧ v = .unknownStart q A.name := by
  rcases A.setStart_cases q with ⟨hq, h⟩ | ⟨hq, h⟩ <;> simp [h, hq, eq_comm]

/-- A state becomes final, and what is no state is refused. -/
theorem markFinal_cases (A : Automaton) (q : Int) :
    (q ∈ A.states ∧ A.markFinal q = .ok { A with finals := A.finals.insert q }) ∨
      (¬ q ∈ A.states ∧ A.markFinal q = .error (.unknownFinal q A.name)) := by
  by_cases hq : q ∈ A.states
  · exact Or.inl ⟨hq, Edit.result_eq_ok (Edit.on_markFinal_of_mem hq)⟩
  · exact Or.inr ⟨hq, Edit.result_eq_error (Edit.on_markFinal_of_not_mem hq)⟩

/-- A final state is accepted when it is a state. -/
theorem markFinal_eq_ok_iff :
    A.markFinal q = .ok B ↔ q ∈ A.states ∧ { A with finals := A.finals.insert q } = B := by
  rcases A.markFinal_cases q with ⟨hq, h⟩ | ⟨hq, h⟩ <;> simp [h, hq]

/-- A final state is refused when it is unknown. -/
theorem markFinal_eq_error_iff :
    A.markFinal q = .error v ↔ ¬ q ∈ A.states ∧ v = .unknownFinal q A.name := by
  rcases A.markFinal_cases q with ⟨hq, h⟩ | ⟨hq, h⟩ <;> simp [h, hq, eq_comm]

end

/-! ## Valid automata -/

/-- Start state, final states and connected states are states. -/
structure Valid (A : Automaton) : Prop where
  /-- There is a start state, which is a state. -/
  start : ∃ q ∈ A.states, A.start = some q
  /-- The final states are states. -/
  finals : ∀ q ∈ A.finals, q ∈ A.states
  /-- Transitions lead from states to states. -/
  ends : ∀ p l q, q ∈ A.targets p l → p ∈ A.states ∧ q ∈ A.states

theorem Valid.mem_start (hA : A.Valid) {q : Int} (hq : A.start = some q) : q ∈ A.states := by
  obtain ⟨q', hmem, hq'⟩ := hA.start
  rw [hq, Option.some.injEq] at hq'
  exact hq' ▸ hmem

/-- Paths stay among the states. -/
theorem Valid.mem_of_leads (hA : A.Valid) {p r : Int} {w : List String} (hp : p ∈ A.states)
    (h : A.Leads p w r) : r ∈ A.states := by
  induction h with
  | nil => exact hp
  | epsilon h _ ih => exact ih (hA.ends _ _ _ h).2
  | symbol h _ ih => exact ih (hA.ends _ _ _ h).2

/-- The final states are states exactly when none is left over without the states. -/
theorem isEmpty_diff_finals_iff :
    (A.finals.diff A.states).isEmpty = true ↔ ∀ q ∈ A.finals, q ∈ A.states := by
  rw [StateSet.isEmpty_eq_true_iff]
  simp only [StateSet.mem_diff, not_and, Decidable.not_not]

/-- No transition is found that leaves the states exactly when all lead from states to states. -/
theorem find?_transitions_eq_none_iff :
    (A.transitions.find? fun t => ¬ (t.1 ∈ A.states ∧ t.2.2 ∈ A.states)) = none
      ↔ ∀ p l q, q ∈ A.targets p l → p ∈ A.states ∧ q ∈ A.states := by
  rw [List.find?_eq_none]
  simp only [decide_eq_true_eq, Decidable.not_not]
  constructor
  · intro h p l q hq
    exact h (p, l, q) (mem_transitions_iff.2 hq)
  · rintro h ⟨p, l, q⟩ ht
    exact h p l q (mem_transitions_iff.1 ht)

/-- The check accepts the valid automata. -/
theorem validate_eq_ok_iff : A.validate = .ok () ↔ A.Valid := by
  rw [validate]
  constructor
  · intro h
    split at h
    · cases h
    · rename_i q hstart
      split at h
      · cases h
      · rename_i hq
        split at h
        · cases h
        · rename_i hfin
          split at h
          · cases h
          · rename_i hfind
            rw [Bool.not_eq_true, Bool.not_eq_false', isEmpty_diff_finals_iff] at hfin
            exact ⟨⟨q, Decidable.not_not.1 hq, hstart⟩, hfin,
              find?_transitions_eq_none_iff.1 hfind⟩
  · rintro ⟨⟨q, hq, hstart⟩, hfin, hends⟩
    rw [hstart]
    simp only [hq, not_true_eq_false, if_false, isEmpty_diff_finals_iff.2 hfin, Bool.not_true,
      Bool.false_eq_true, find?_transitions_eq_none_iff.2 hends]

end Automaton

end LexAutomata
