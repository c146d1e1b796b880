/-
# What the criteria leave together

Where groups of targets are compared, there is a partition exactly if no target lacks a row
(`missingTarget?_eq_none_iff`), and its groups are the classes of the states that no sequence
of symbols tells apart (`partition_targetGroup`).  Where the targets themselves are compared,
there always is one, and its groups are those of equal rows.  Such rows cannot be told
apart, so that the second partition refines the first (`refines_groups`).  A partition that
refines another has at least as many groups (`Divides.length_le_of_refines`), hence the
criteria make small tables of sizes in this order (`criteria_ordered`).
-/
import LexAutomata.Proofs.Table.Minimality

namespace LexAutomata

namespace Partition

variable {P R : Partition} {S : StateSet}

/-! ## Finer and coarser partitions -/

/-- Every group lies within a group of the other partition. -/
def Refines (R P : Partition) : Prop := ∀ G ∈ R, ∃ H ∈ P, ∀ q ∈ G, q ∈ H

namespace Divides

/-- A partition refines another if the states that it leaves together are together there. -/
theorem refines_of_together (hR : R.Divides S) (hP : P.Divides S)
    (h : ∀ p q, R.Together p q → P.Together p q) : R.Refines P := by
  intro G hG
  obtain ⟨p, hp⟩ := hR.nonempty G hG
  obtain ⟨H, hH, hpH, -⟩ := h p p ⟨G, hG, hp, hp⟩
  refine ⟨H, hH, fun q hq => ?_⟩
  obtain ⟨K, hK, hpK, hqK⟩ := h p q ⟨G, hG, hp, hq⟩
  rw [hP.group_eq hH hK hpH hpK]
  exact hqK

/-- **A partition that refines another has at least as many groups.** -/
theorem length_le_of_refines (hP : P.Divides S) (hR : R.Divides S) (h : R.Refines P) :
    P.length ≤ R.length := by
  -- each group holds a finer one, and different groups hold different ones
  apply length_le_of_separated (R := fun H G => G ∈ R ∧ ∀ q ∈ G, q ∈ H)
  · intro H hH
    obtain ⟨q, hqH⟩ := hP.nonempty H hH
    obtain ⟨G, hG, hqG⟩ := (hR.cover q).1 ((hP.cover q).2 ⟨H, hH, hqH⟩)
    obtain ⟨K, hK, hGK⟩ := h G hG
    rw [hP.group_eq hK hH (hGK q hqG) hqH] at hGK
    exact ⟨G, hG, hG, hGK⟩
  · refine hP.disjoint.imp ?_
    rintro H H' hdisj G ⟨hG, hGH⟩ ⟨-, hGH'⟩
    obtain ⟨q, hq⟩ := hR.nonempty G hG
    exact hdisj q (hGH q hq) (hGH' q hq)

/-- There are no more groups than states. -/
theorem length_le_size (hP : P.Divides S) : P.length ≤ S.size := by
  apply length_le_of_separated (R := fun H q => q ∈ H) (m := S.toList)
  · intro H hH
    obtain ⟨q, hq⟩ := hP.nonempty H hH
    exact ⟨q, (hP.cover q).2 ⟨H, hH, hq⟩, hq⟩
  · exact hP.disjoint

end Divides

end Partition

namespace Table

variable {T : Table}

/-! ## Whether there is a partition -/

/-- **The first pass finds no target without a row exactly if there is none.** -/
theorem missingTarget?_eq_none_iff : T.missingTarget? = none ↔ T.TargetsHaveRows := by
  have hrow : ∀ r, ¬ (!T.rows.contains r) = true ↔ r ∈ T.states := by
    intro r
    rw [Bool.not_eq_true', Bool.not_eq_false, OrderedMap.contains_iff, mem_states_iff]
  rw [missingTarget?, List.find?_eq_none]
  simp only [hrow, List.mem_flatMap]
  constructor
  · intro h q s r hstep
    obtain ⟨G, hG, hq⟩ := exists_mem_acceptanceGroups (mem_states_of_step? hstep)
    exact h r ⟨G, hG, q, hq, OrderedMap.mem_values_iff.2 ⟨s, hstep⟩⟩
  · rintro h r ⟨G, -, q, -, hr⟩
    obtain ⟨s, hs⟩ := OrderedMap.mem_values_iff.1 hr
    exact h q s r hs

theorem partition_targetGroup_eq (hT : T.TargetsHaveRows) :
    T.partition .targetGroup = .ok (T.groups .targetGroup) := by
  rw [partition, missingTarget?_eq_none_iff.2 hT]

/-- **Comparing groups of targets finds the indistinguishable states.**  If every target has a row,
there is a partition; its groups have members, have none in common and cover the states, and two
states are in one group exactly when every sequence of symbols has the same outcome from both:
no run, a run to a final state, or a run to another one. -/
theorem partition_targetGroup (hT : T.TargetsHaveRows) :
    ∃ P, T.partition .targetGroup = .ok P ∧ P.Divides T.states ∧
      ∀ p q, p ∈ T.states → q ∈ T.states →
        (P.Together p q ↔ ∀ w, T.outcome? p w = T.outcome? q w) := by
  refine ⟨_, partition_targetGroup_eq hT, divides_groups .targetGroup, fun p q hp hq => ?_⟩
  rw [together_groups_iff_outcome?_eq hT hp hq, funext_iff]

theorem partition_targetGroup_ragged :
    ragged.TargetsHaveRows ∧
      ∃ P, ragged.partition .targetGroup = .ok P ∧ P.Divides ragged.states ∧
        ∀ p q, p ∈ ragged.states → q ∈ ragged.states →
          (P.Together p q ↔ ∀ w, ragged.outcome? p w = ragged.outcome? q w) :=
  have hT : ragged.TargetsHaveRows := (checkClosed_eq_ok_iff.1 rfl).targets
  ⟨hT, partition_targetGroup hT⟩

/-! ## The order of the criteria -/

/-- **Equal rows cannot be told apart**, so comparing targets never leaves more states together
than comparing their groups. -/
theorem refines_groups (hT : T.TargetsHaveRows) :
    (T.groups .targetState).Refines (T.groups .targetGroup) := by
  apply (divides_groups .targetState).refines_of_together (divides_groups .targetGroup)
  intro p q hpq
  have hP := isCongruence_groups (T := T) .targetState
  exact (together_groups_iff hT).2 ⟨hP.divides.mem_of_together hpq,
    hP.divides.mem_of_together hpq.symm, outcome?_eq_of_together hP hT hpq⟩

/-- A closed table is minimized to as many states as there are groups. -/
theorem exists_minimize_size_eq (hT : T.Closed) (criterion : Criterion) :
    ∃ M, T.minimize criterion = .ok M ∧ M.states.size = (T.groups criterion).length := by
  refine ⟨_, minimize_eq hT criterion, ?_⟩
  rw [size_states_quotient (isCongruence_orderGroups hT.targets criterion).divides]
  exact (orderGroups_perm _).length_eq

/-- **The criteria are ordered.**  Comparing targets leaves two states together exactly when both or
neither are final and their rows are equal; each of its groups lies within one of those that
comparing groups of targets makes; and so comparing groups minimizes to no more states, and
comparing targets to no more than the table has. -/
theorem criteria_ordered (hT : T.Closed) :
    ∃ P R M N, T.partition .targetGroup = .ok P ∧ T.partition .targetState = .ok R ∧
      T.minimize .targetGroup = .ok M ∧ T.minimize .targetState = .ok N ∧
      (∀ p q, R.Together p q ↔ p ∈ T.states ∧ q ∈ T.states ∧ T.isFinal p = T.isFinal q ∧
        ∀ s, T.step? p s = T.step? q s) ∧
      R.Refines P ∧ M.states.size ≤ N.states.size ∧ N.states.size ≤ T.states.size := by
  obtain ⟨M, hM, hMsize⟩ := exists_minimize_size_eq hT .targetGroup
  obtain ⟨N, hN, hNsize⟩ := exists_minimize_size_eq hT .targetState
  have hP : (T.groups .targetGroup).Divides T.states := divides_groups .targetGroup
  have hR : (T.groups .targetState).Divides T.states := divides_groups .targetState
  have href := refines_groups hT.targets
  refine ⟨_, _, M, N, partition_targetGroup_eq hT.targets, rfl, hM, hN,
    fun p q => together_groups_targetState_iff, href, ?_, ?_⟩
  · rw [hMsize, hNsize]
    exact hP.length_le_of_refines hR href
  · rw [hNsize]
    exact hR.length_le_size

/-- Three states that accept the same, two of them with equal rows. -/
def echoed : Table :=
  ofParts [(4, [("a", 1), ("b", 4)]), (1, [("b", 4), ("a", 4)]), (-6, [("a", 4), ("b", 4)])]
    [4, 1, -6] 4

theorem criteria_ordered_echoed :
    echoed.Closed ∧
      ∃ P R M N, echoed.partition .targetGroup = .ok P ∧ echoed.partition .targetState = .ok R ∧
        echoed.minimize .targetGroup = .ok M ∧ echoed.minimize .targetState = .ok N ∧
        (∀ p q, R.Together p q ↔ p ∈ echoed.states ∧ q ∈ echoed.states ∧
          echoed.isFinal p = echoed.isFinal q ∧ ∀ s, echoed.step? p s = echoed.step? q s) ∧
        R.Refines P ∧ M.states.size ≤ N.states.size ∧ N.states.size ≤ echoed.states.size :=
  have hT : echoed.Closed := checkClosed_eq_ok_iff.1 rfl
  ⟨hT, criteria_ordered hT⟩

end Table

end LexAutomata
