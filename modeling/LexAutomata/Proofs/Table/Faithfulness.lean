/-
# Which tables can be copied, and what their copies accept

A state occurs in a table when it has a row or some row leads to it (`Occurs`).  A table over
characters can be copied into an automaton exactly when its start state and its final states
occur, and otherwise one that does not is named (`strays_of_toAutomaton`,
`exists_toAutomaton_eq_iff`).  The copy is deterministic and valid, has the states that
occur, and accepts what the table accepts, although it follows sets of states where the table
goes from state to state and stops where a row is missing (`toAutomaton_faithful`).
-/
import LexAutomata.Proofs.Table.Deterministic

namespace LexAutomata

namespace Automaton

variable {A B : Automaton}

theorem name_addTransitions {ts : List (Int × String × Int)} (h : A.addTransitions ts = .ok B) :
    B.name = A.name := by
  induction ts generalizing A with
  | nil => cases h; rfl
  | cons t ts ih => exact (ih (of_addTransitions_cons h).2).trans rfl

/-- Final states are marked up to the first that is unknown. -/
theorem exists_of_markFinals_eq_error {qs : List Int} {v : Violation}
    (h : A.markFinals qs = .error v) :
    ∃ q ∈ qs, ¬ q ∈ A.states ∧ v = .unknownFinal q A.name := by
  induction qs generalizing A with
  | nil => cases h
  | cons q qs ih =>
    rw [markFinals] at h
    cases hA : A.markFinal q with
    | error v' =>
      rw [hA] at h
      cases h
      exact ⟨q, List.mem_cons_self, markFinal_eq_error_iff.1 hA⟩
    | ok B =>
      rw [hA] at h
      obtain ⟨-, rfl⟩ := markFinal_eq_ok_iff.1 hA
      obtain ⟨r, hr, hstray, rfl⟩ := ih h
      exact ⟨r, List.mem_cons_of_mem q hr, hstray, rfl⟩

/-- An automaton whose entries have one target is deterministic. -/
theorem Functional.isDeterministic (hA : A.Functional) : A.isDeterministic = true := by
  refine isDeterministic_iff.2 ⟨hA.epsilon, fun row hrow S hS => ?_⟩
  obtain ⟨p, l, hentry⟩ := exists_stored_iff.1 ⟨row, hrow, hS⟩
  obtain ⟨q, rfl⟩ := hA.entries p l S hentry
  exact Nat.le_refl 1

end Automaton

namespace Table

variable {D : Table} {A : Automaton} {name : String} {v : Violation}

/-! ## Which tables can be copied -/

/-- The state has a row, or is the target of some entry. -/
def Occurs (D : Table) (q : Int) : Prop := q ∈ D.states ∨ ∃ p s, D.step? p s = some q

/-- The violations for which a table may be refused when it is copied: its start state does not
occur, or else some final state does not. -/
inductive Strays (D : Table) (name : String) : Violation → Prop
  /-- The start state does not occur. -/
  | start (h : ¬ D.Occurs D.start) : Strays D name (.unknownStart D.start name)
  /-- The start state occurs, and a final state does not. -/
  | final {q : Int} (hstart : D.Occurs D.start) (hq : q ∈ D.finals) (h : ¬ D.Occurs q) :
      Strays D name (.unknownFinal q name)

/-- The entries of a table over characters can be copied, and make its states known. -/
theorem exists_addTransitions_transitions_eq (hD : D.OneCharacter) (name : String) :
    ∃ B, ({ name := name, states := D.states } : Automaton).addTransitions D.transitions = .ok B ∧
      B.name = name ∧ ∀ q, q ∈ B.states ↔ D.Occurs q := by
  obtain ⟨B, hB, -⟩ := exists_addTransitions_eq hD { name := name, states := D.states }
  exact ⟨B, hB, Automaton.name_addTransitions hB, fun _ => mem_states_addTransitions_transitions hB⟩

/-- **A table is refused for a state that does not occur.** -/
theorem strays_of_toAutomaton (hD : D.OneCharacter) (h : D.toAutomaton name = .error v) :
    D.Strays name v := by
  obtain ⟨B, hB, rfl, hmem⟩ := exists_addTransitions_transitions_eq hD name
  rw [toAutomaton, hB] at h
  simp only [bind, Except.bind] at h
  cases hC : B.setStart D.start with
  | error v' =>
    rw [hC] at h
    cases h
    obtain ⟨hstart, rfl⟩ := Automaton.setStart_eq_error_iff.1 hC
    exact .start (mt (hmem _).2 hstart)
  | ok C =>
    rw [hC] at h
    obtain ⟨hstart, rfl⟩ := Automaton.setStart_eq_ok_iff.1 hC
    obtain ⟨q, hq, hstray, rfl⟩ := Automaton.exists_of_markFinals_eq_error h
    exact .final ((hmem _).1 hstart) hq (mt (hmem q).2 hstray)

/-- **A table can be copied exactly when its start state and its final states occur.** -/
theorem exists_toAutomaton_eq_iff (hD : D.OneCharacter) :
    (∃ A, D.toAutomaton name = .ok A) ↔ D.Occurs D.start ∧ ∀ q ∈ D.finals, D.Occurs q := by
  constructor
  · rintro ⟨A, hA⟩
    have hcopy := copies_of_toAutomaton hA
    have hwell := hcopy.wellFormed
    refine ⟨(hcopy.mem_states _).1 (hwell.start _ hcopy.start_eq), fun q hq => ?_⟩
    exact (hcopy.mem_states q).1 (hwell.finals q ((hcopy.mem_finals q).2 hq))
  · rintro ⟨hstart, hfinals⟩
    cases h : D.toAutomaton name with
    | ok A => exact ⟨A, rfl⟩
    | error v =>
      cases strays_of_toAutomaton hD h with
      | start hstray => exact absurd hstart hstray
      | final _ hq hstray => exact absurd (hfinals _ hq) hstray

/-! ## What copies accept -/

/-- A copy reads from a state what the table accepts from it. -/
theorem Copies.reads_iff (h : D.Copies A) {q : Int} {w : List String} :
    A.Reads q w ↔ D.acceptsFrom q w = true := by
  rw [acceptsFrom_eq_true_iff, Automaton.Reads]
  simp only [h.mem_finals, h.leads_iff, isFinal, decide_eq_true_eq]
  exact exists_congr fun r => And.comm

/-- **A copy accepts the words of the table.** -/
theorem Copies.accepts_eq (h : D.Copies A) (word : String) :
    A.accepts word = .ok (D.accepts word) := by
  rw [Automaton.accepts, h.start_eq, Except.ok.injEq, Bool.eq_iff_iff,
    Automaton.acceptsFrom_eq_true_iff, h.reads_iff, accepts, acceptsSymbols_eq_acceptsFrom]

/-- **Copying a table is faithful.**  A table over characters can be copied exactly when its start
state and its final states have a row or are targets, and is refused otherwise for one that is
neither; the copy is deterministic and valid, its states are those that have a row or are targets,
and it accepts the words that the table accepts. -/
theorem toAutomaton_faithful (hD : D.OneCharacter) (name : String) :
    ((∃ A, D.toAutomaton name = .ok A) ↔ D.Occurs D.start ∧ ∀ q ∈ D.finals, D.Occurs q) ∧
      (∀ v, D.toAutomaton name = .error v → D.Strays name v) ∧
      ∀ A, D.toAutomaton name = .ok A →
        A.isDeterministic = true ∧ A.validate = .ok () ∧ (∀ q, q ∈ A.states ↔ D.Occurs q) ∧
          ∀ word, A.accepts word = .ok (D.accepts word) := by
  refine ⟨exists_toAutomaton_eq_iff hD, fun v => strays_of_toAutomaton hD, fun A hA => ?_⟩
  have hcopy := copies_of_toAutomaton hA
  exact ⟨hcopy.functional.isDeterministic, hcopy.validate_eq, hcopy.mem_states, hcopy.accepts_eq⟩

/-- A table whose start state has no row, and whose final states are a target without a row and a
state out of reach. -/
def rowless : Table :=
  .ofParts [(2, [("x", -1), ("y", 6)]), (6, [("x", 6), ("z", 2)]), (9, [])] [-1, 9] (-1)

theorem toAutomaton_faithful_rowless :
    rowless.OneCharacter ∧
      ((∃ A, rowless.toAutomaton "copy" = .ok A) ↔
        rowless.Occurs rowless.start ∧ ∀ q ∈ rowless.finals, rowless.Occurs q) ∧
      (∀ v, rowless.toAutomaton "copy" = .error v → rowless.Strays "copy" v) ∧
      ∀ A, rowless.toAutomaton "copy" = .ok A →
        A.isDeterministic = true ∧ A.validate = .ok () ∧ (∀ q, q ∈ A.states ↔ rowless.Occurs q) ∧
          ∀ word, A.accepts word = .ok (rowless.accepts word) := by
  have hchars : rowless.OneCharacter := by unfold OneCharacter; decide
  exact ⟨hchars, toAutomaton_faithful hchars "copy"⟩

end Table

end LexAutomata
