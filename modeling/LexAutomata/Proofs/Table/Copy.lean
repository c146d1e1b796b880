/-
# Copies of tables

Copying a table adds its transitions one after the other to an automaton that has its
states, and then chooses the start state and marks the final states.  What comes out is in
order and leads from state to state as the table does (`copies_of_toAutomaton`), whether or
not the targets have rows, so the paths of the copy are the runs of the table
(`Copies.leads_iff`).
-/
import LexAutomata.Proofs.Automaton.History
import LexAutomata.Proofs.Table.Intact

namespace LexAutomata

namespace Automaton

variable {A B : Automaton}

/-! ## Adding transitions -/

/-- The first transition is connected, and the others are added after it. -/
theorem of_addTransitions_cons {p q : Int} {s : String} {ts : List (Int × String × Int)}
    (h : A.addTransitions ((p, s, q) :: ts) = .ok B) :
    s.length = 1 ∧ (A.connect p q (.symbol s)).addTransitions ts = .ok B := by
  rw [addTransitions] at h
  cases hA : A.addTransition p q (.text s) with
  | error v => rw [hA] at h; cases h
  | ok A' =>
    rw [hA] at h
    obtain ⟨hs, rfl⟩ := addTransition_text_eq_ok_iff.1 hA
    exact ⟨hs, h⟩

section

variable {ts : List (Int × String × Int)}

theorem finals_addTransitions (h : A.addTransitions ts = .ok B) : B.finals = A.finals := by
  induction ts generalizing A with
  | nil => cases h; rfl
  | cons t ts ih => exact (ih (of_addTransitions_cons h).2).trans (finals_connect _ _ _)

/-- The ends of the transitions become states. -/
theorem mem_states_addTransitions (h : A.addTransitions ts = .ok B) {q : Int} :
    q ∈ B.states ↔ q ∈ A.states ∨ ∃ t ∈ ts, q = t.1 ∨ q = t.2.2 := by
  induction ts generalizing A with
  | nil => cases h; simp
  | cons t ts ih =>
    rw [ih (of_addTransitions_cons h).2, mem_states_connect]
    simp only [List.mem_cons, exists_eq_or_imp]
    grind

/-- The transitions are added to those that there are. -/
theorem mem_targets_addTransitions (h : A.addTransitions ts = .ok B) {p r : Int} {l : Label} :
    r ∈ B.targets p l ↔ r ∈ A.targets p l ∨ ∃ s, l = .symbol s ∧ (p, s, r) ∈ ts := by
  induction ts generalizing A with
  | nil => cases h; simp
  | cons t ts ih =>
    rw [ih (of_addTransitions_cons h).2, mem_targets_connect, or_assoc]
    refine or_congr_right ?_
    constructor
    · rintro (⟨rfl, rfl, rfl⟩ | ⟨s, rfl, hs⟩)
      · exact ⟨_, rfl, List.mem_cons_self⟩
      · exact ⟨s, rfl, List.mem_cons_of_mem t hs⟩
    · rintro ⟨s, rfl, hs⟩
      rcases List.mem_cons.1 hs with rfl | hs
      · exact Or.inl ⟨rfl, rfl, rfl⟩
      · exact Or.inr ⟨s, rfl, hs⟩

theorem WellFormed.addTransitions (hA : A.WellFormed) (h : A.addTransitions ts = .ok B) :
    B.WellFormed := by
  induction ts generalizing A with
  | nil => cases h; exact hA
  | cons t ts ih =>
    obtain ⟨hs, h⟩ := of_addTransitions_cons h
    exact ih (hA.gains (A.gains_connect t.1 t.2.2 (LabelInput.names_text hs))) h

end

/-! ## Marking final states -/

/-- The first state is made final, and the others after it. -/
theorem of_markFinals_cons {q : Int} {qs : List Int} (h : A.markFinals (q :: qs) = .ok B) :
    q ∈ A.states ∧ ({ A with finals := A.finals.insert q } : Automaton).markFinals qs = .ok B := by
  rw [markFinals] at h
  cases hA : A.markFinal q with
  | error v => rw [hA] at h; cases h
  | ok A' =>
    rw [hA] at h
    obtain ⟨hq, rfl⟩ := markFinal_eq_ok_iff.1 hA
    exact ⟨hq, h⟩

/-- Marking final states changes nothing else. -/
theorem markFinals_eq {qs : List Int} (h : A.markFinals qs = .ok B) :
    B = { A with finals := qs.foldl (fun S q => S.insert q) A.finals } := by
  induction qs generalizing A with
  | nil => cases h; rfl
  | cons q qs ih => exact ih (of_markFinals_cons h).2

theorem WellFormed.markFinals {qs : List Int} (hA : A.WellFormed) (h : A.markFinals qs = .ok B) :
    B.WellFormed := by
  induction qs generalizing A with
  | nil => cases h; exact hA
  | cons q qs ih =>
    obtain ⟨hq, h⟩ := of_markFinals_cons h
    exact ih (hA.gains (gains_markFinal hq)) h

end Automaton

namespace Table

variable {D : Table} {A : Automaton}

/-! ## Copies -/

/-- The automaton leads from state to state as the table does. -/
structure Copies (D : Table) (A : Automaton) : Prop where
  /-- The start states are the same. -/
  start_eq : A.start = some D.start
  /-- The states are those that have a row and those that some row leads to. -/
  mem_states : ∀ q, q ∈ A.states ↔ q ∈ D.states ∨ ∃ p s, D.step? p s = some q
  /-- The final states are the same. -/
  mem_finals : ∀ q, q ∈ A.finals ↔ q ∈ D.finals
  /-- The transitions are the same, and none consumes nothing. -/
  mem_targets : ∀ p l r, r ∈ A.targets p l ↔ ∃ s, l = .symbol s ∧ D.step? p s = some r
  /-- The automaton is in order. -/
  wellFormed : A.WellFormed

/-- Copying a table goes in three steps. -/
theorem of_toAutomaton {name : String} (h : D.toAutomaton name = .ok A) :
    ∃ B, ({ name := name, states := D.states } : Automaton).addTransitions D.transitions = .ok B ∧
      D.start ∈ B.states ∧
      ({ B with start := some D.start } : Automaton).markFinals D.finals.toList = .ok A := by
  rw [toAutomaton] at h
  cases hB : ({ name := name, states := D.states } : Automaton).addTransitions D.transitions with
  | error v => rw [hB] at h; cases h
  | ok B =>
    rw [hB] at h
    simp only [bind, Except.bind] at h
    cases hC : B.setStart D.start with
    | error v => rw [hC] at h; cases h
    | ok C =>
      rw [hC] at h
      obtain ⟨hstart, rfl⟩ := Automaton.setStart_eq_ok_iff.1 hC
      exact ⟨B, rfl, hstart, h⟩

/-- The states that have a row, and those that some row leads to, become states. -/
theorem mem_states_addTransitions_transitions {name : String}
    (h : ({ name := name, states := D.states } : Automaton).addTransitions D.transitions = .ok A)
    {q : Int} : q ∈ A.states ↔ q ∈ D.states ∨ ∃ p s, D.step? p s = some q := by
  rw [Automaton.mem_states_addTransitions h]
  constructor
  · rintro (hq | ⟨⟨p, s, r⟩, ht, rfl | rfl⟩)
    · exact Or.inl hq
    · exact Or.inl (mem_states_of_step? (mem_transitions_iff.1 ht))
    · exact Or.inr ⟨p, s, mem_transitions_iff.1 ht⟩
  · rintro (hq | ⟨p, s, hs⟩)
    · exact Or.inl hq
    · exact Or.inr ⟨_, mem_transitions_iff.2 hs, Or.inr rfl⟩

/-- **What a table is copied into is a copy.** -/
theorem copies_of_toAutomaton {name : String} (h : D.toAutomaton name = .ok A) : D.Copies A := by
  obtain ⟨B, hB, hstart, hA⟩ := of_toAutomaton h
  have hA' := Automaton.markFinals_eq hA
  exact {
    start_eq := by rw [hA']
    mem_states := fun q => by
      rw [hA']
      exact mem_states_addTransitions_transitions hB
    mem_finals := fun q => by
      rw [hA', StateSet.mem_foldl_insert, Automaton.finals_addTransitions hB, StateSet.mem_toList]
      exact or_iff_right (StateSet.not_mem_empty q)
    mem_targets := fun p l r => by
      rw [hA']
      show r ∈ B.targets p l ↔ _
      rw [Automaton.mem_targets_addTransitions hB]
      simp only [mem_transitions_iff]
      exact or_iff_right (StateSet.not_mem_empty r)
    wellFormed := by
      have hfirst := Automaton.WellFormed.ofStates name D.states
      exact ((hfirst.addTransitions hB).gains (Automaton.gains_setStart hstart)).markFinals hA }

/-- **The paths of a copy are the runs of the table.** -/
theorem Copies.leads_iff (h : D.Copies A) {p r : Int} {w : List String} :
    A.Leads p w r ↔ D.run? p w = some r := by
  constructor
  · intro hw
    induction hw with
    | nil => rfl
    | epsilon hq _ _ =>
      obtain ⟨s, hs, -⟩ := (h.mem_targets _ _ _).1 hq
      cases hs
    | symbol hq _ ih =>
      obtain ⟨s, hs, hstep⟩ := (h.mem_targets _ _ _).1 hq
      cases hs
      rw [run?_cons, hstep]
      exact ih
  · intro hw
    induction w generalizing p with
    | nil =>
      cases hw
      exact .nil _
    | cons s w ih =>
      rw [run?_cons, Option.bind_eq_some_iff] at hw
      obtain ⟨q, hstep, hw⟩ := hw
      exact .symbol ((h.mem_targets _ _ _).2 ⟨s, rfl, hstep⟩) (ih hw)

/-- A copy passes the check. -/
theorem Copies.validate_eq (h : D.Copies A) : A.validate = .ok () :=
  h.wellFormed.validate_eq_ok_iff.2 ⟨_, h.start_eq⟩

end Table

end LexAutomata
