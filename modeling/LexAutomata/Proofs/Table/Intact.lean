/-
# Intact tables

A table is intact when its start state, its targets and its final states have rows.  The
subset construction makes intact tables (`intact_subsetTable`), minimizing makes intact
tables of closed ones and keeps their language and their characters
(`exists_minimize_eq`), and an intact table over characters can be copied into an
automaton (`exists_toAutomaton_eq`).
-/
import LexAutomata.Proofs.Table.CanonicalForm
import LexAutomata.Proofs.Automaton.Construction
import LexAutomata.Table.ToAutomaton

namespace LexAutomata

namespace Table

variable {T : Table} {P : Partition}

/-- The start state, every target and every final state have a row. -/
structure Intact (T : Table) : Prop extends T.Closed where
  /-- Every final state has a row. -/
  finals : ∀ q ∈ T.finals, q ∈ T.states

/-! ## The subset construction -/

/-- The table of the reachable sets is intact. -/
theorem intact_subsetTable (A : Automaton) (start : Int) : (A.subsetTable start).Intact where
  toClosed := Automaton.closed_subsetTable start
  finals q hq := by
    rw [Automaton.subsetTable, StateSet.mem_ofList, List.mem_map] at hq
    obtain ⟨⟨q, S⟩, he, rfl⟩ := hq
    obtain ⟨n, rfl, hn⟩ := mem_numbered.1 (List.mem_filter.1 he).1
    exact Automaton.mem_states_subsetTable.2 ⟨n, S, rfl, hn⟩

/-! ## Quotients -/

/-- The states of a quotient are the places of the groups of states. -/
theorem mem_states_quotient_iff (hP : P.Divides T.states) {k : Int} :
    k ∈ (T.quotient P).states ↔ ∃ q ∈ T.states, k = P.groupIndex q := by
  rw [mem_states_iff, keys_quotient hP, map_fst_numbered, List.mem_map]
  constructor
  · rintro ⟨n, hn, rfl⟩
    have hn : n < P.length := by
      rw [List.mem_range'_1] at hn
      omega
    obtain ⟨q, hq, rfl⟩ := hP.exists_groupIndex_eq hn
    exact ⟨q, hq, rfl⟩
  · rintro ⟨q, hq, rfl⟩
    have := hP.groupIndex_lt hq
    exact ⟨_, List.mem_range'_1.2 (by omega), rfl⟩

/-- A step of a quotient is a step of a state. -/
theorem exists_of_step?_quotient (hP : P.IsCongruence T) {k m : Int} {s : String}
    (h : (T.quotient P).step? k s = some m) :
    ∃ q r, T.step? q s = some r ∧ m = P.groupIndex r := by
  obtain ⟨q, hq, rfl⟩ := (mem_states_quotient_iff hP.divides).1 (mem_states_of_step? h)
  rw [step?_quotient hP hq, Option.map_eq_some_iff] at h
  obtain ⟨r, hr, rfl⟩ := h
  exact ⟨q, r, hr, rfl⟩

/-- The quotient by a congruence is intact. -/
theorem intact_quotient (hP : P.IsCongruence T) (hT : T.Closed) : (T.quotient P).Intact where
  start := (mem_states_quotient_iff hP.divides).2 ⟨_, hT.start, rfl⟩
  targets k s m h := by
    obtain ⟨q, r, hr, rfl⟩ := exists_of_step?_quotient hP h
    exact (mem_states_quotient_iff hP.divides).2 ⟨r, hT.targets q s r hr, rfl⟩
  finals k hk := by
    rw [quotient, StateSet.mem_ofList, List.mem_map] at hk
    obtain ⟨q, hq, rfl⟩ := hk
    exact (mem_states_quotient_iff hP.divides).2
      ⟨q, mem_states_iff.2 (List.mem_filter.1 hq).1, rfl⟩

/-- The symbols of a quotient are single characters when those of the table are. -/
theorem oneCharacter_quotient (hP : P.IsCongruence T) (hT : T.OneCharacter) :
    (T.quotient P).OneCharacter := by
  rintro ⟨k, s, m⟩ h
  obtain ⟨q, r, hr, -⟩ := exists_of_step?_quotient hP (mem_transitions_iff.1 h)
  exact hT (q, s, r) (mem_transitions_iff.2 hr)

theorem accepts_quotient (hP : P.IsCongruence T) (hT : T.Closed) (word : String) :
    (T.quotient P).accepts word = T.accepts word := by
  have h := outcome?_quotient hP hT.targets hT.start
  rw [accepts, accepts, acceptsSymbols_eq_acceptsFrom, acceptsSymbols_eq_acceptsFrom,
    acceptsFrom, acceptsFrom, ← h]
  rfl

/-- **A closed table can be minimized**, which makes an intact table for the same words. -/
theorem exists_minimize_eq (hT : T.Closed) (criterion : Criterion) :
    ∃ M, T.minimize criterion = .ok M ∧ M.Intact ∧ (T.OneCharacter → M.OneCharacter) ∧
      ∀ word, M.accepts word = T.accepts word := by
  have hP := isCongruence_orderGroups hT.targets criterion
  exact ⟨_, minimize_eq hT criterion, intact_quotient hP hT, oneCharacter_quotient hP,
    accepts_quotient hP hT⟩

/-! ## Copying into an automaton -/

/-- Transitions by characters can be added, and no state is lost. -/
theorem exists_addTransitions_eq {ts : List (Int × String × Int)}
    (hts : ∀ t ∈ ts, t.2.1.length = 1) (A : Automaton) :
    ∃ B, A.addTransitions ts = .ok B ∧ ∀ q ∈ A.states, q ∈ B.states := by
  induction ts generalizing A with
  | nil => exact ⟨A, rfl, fun _ => id⟩
  | cons t ts ih =>
    obtain ⟨p, s, q⟩ := t
    rw [List.forall_mem_cons] at hts
    obtain ⟨B, hB, hmem⟩ := ih hts.2 (A.connect p q (.symbol s))
    refine ⟨B, ?_, fun r hr => hmem r ?_⟩
    · rw [Automaton.addTransitions, Automaton.addTransition_text_eq_ok_iff.2 ⟨hts.1, rfl⟩]
      exact hB
    · exact Automaton.mem_states_connect.2 (Or.inr (Or.inr hr))

/-- States can be made final. -/
theorem exists_markFinals_eq {qs : List Int} (A : Automaton) (hqs : ∀ q ∈ qs, q ∈ A.states) :
    ∃ B, A.markFinals qs = .ok B := by
  induction qs generalizing A with
  | nil => exact ⟨A, rfl⟩
  | cons q qs ih =>
    rw [List.forall_mem_cons] at hqs
    obtain ⟨B, hB⟩ := ih { A with finals := A.finals.insert q } hqs.2
    refine ⟨B, ?_⟩
    rw [Automaton.markFinals, Automaton.markFinal_eq_ok_iff.2 ⟨hqs.1, rfl⟩]
    exact hB

/-- **An intact table over characters can be copied into an automaton.** -/
theorem exists_toAutomaton_eq (hT : T.Intact) (hchars : T.OneCharacter) (name : String) :
    ∃ A, T.toAutomaton name = .ok A := by
  obtain ⟨A, hA, hmem⟩ := exists_addTransitions_eq hchars { name := name, states := T.states }
  have hstart : A.setStart T.start = .ok { A with start := some T.start } :=
    Automaton.setStart_eq_ok_iff.2 ⟨hmem _ hT.start, rfl⟩
  have hfinals : ∀ q ∈ T.finals.toList, q ∈ A.states := fun q hq => hmem q (hT.finals q hq)
  obtain ⟨B, hB⟩ := exists_markFinals_eq { A with start := some T.start } hfinals
  refine ⟨B, ?_⟩
  rw [toAutomaton, hA]
  simp only [bind, Except.bind, hstart]
  exact hB

end Table

end LexAutomata
