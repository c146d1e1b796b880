/-
# The groups that refinement ends with

A signature tells under each symbol what a transition counts for
(`signature_eq_signature_iff`).  A pass leaves two states together exactly when they
were together and have the same signature (`together_refine_iff`).  It never makes fewer
groups, and one that makes no more of them splits none, so that the passes stop at a
partition that respects the transitions (`isCongruence_groups`).

States that every pass has to leave together are together at the end
(`together_stabilize`).  When the targets themselves are compared, these are the states of
equal rows (`together_groups_targetState_iff`).  When groups of targets are compared, this
makes the final partition the coarsest one: two states stay together exactly when no
sequence of symbols tells them apart (`together_groups_iff`).
-/
import LexAutomata.Proofs.Table.Partition
import LexAutomata.Proofs.Table.Run

namespace LexAutomata

namespace Partition

variable {P Q : Partition} {S : StateSet} {T : Table} {criterion : Criterion}

/-! ## Signatures -/

theorem signature_eq_sortedEntries (q : Int) :
    P.signature criterion T q
      = ((T.row q).mapValues fun _ r => P.weight criterion r).sortedEntries := rfl

/-- **States have the same signature when their transitions count for the same.** -/
theorem signature_eq_signature_iff {p q : Int} :
    P.signature criterion T p = P.signature criterion T q ↔
      ∀ s, (T.step? p s).map (P.weight criterion) = (T.step? q s).map (P.weight criterion) := by
  rw [signature_eq_sortedEntries, signature_eq_sortedEntries, OrderedMap.sortedEntries_eq_iff]
  simp only [OrderedMap.get?_mapValues]
  rfl

/-! ## One pass -/

/-- A pass splits each group by the signatures of its members. -/
theorem refine_eq_flatMap :
    P.refine criterion T = P.flatMap (splitBy fun q => some (P.signature criterion T q)) := by
  rw [refine]
  congr 1
  funext G
  apply splitBy_congr
  intro q hq
  generalize P.signature criterion T = f
  have h : ∀ l : List Int, q ∈ l →
      OrderedMap.findEntry q (l.map fun q => (q, f q)) = some (f q) := by
    intro l hl
    induction l with
    | nil => simp at hl
    | cons p l ih =>
      rw [List.map_cons, OrderedMap.findEntry]
      by_cases hpq : p = q
      · rw [if_pos hpq, hpq]
      · rw [if_neg hpq]
        exact ih ((List.mem_cons.1 hl).resolve_left fun h => hpq h.symm)
  exact h G.toList hq

theorem divides_refine (hP : P.Divides S) : (P.refine criterion T).Divides S := by
  rw [refine_eq_flatMap]
  generalize (fun q => some (P.signature criterion T q)) = f
  have hpart : ∀ {G H : StateSet}, H ∈ splitBy f G → ∀ q, q ∈ H → q ∈ G := fun hH q hq =>
    (divides_splitBy.cover q).2 ⟨_, hH, hq⟩
  constructor
  · intro H hH
    obtain ⟨G, -, hH⟩ := List.mem_flatMap.1 hH
    exact divides_splitBy.nonempty H hH
  · rw [List.pairwise_flatMap]
    refine ⟨fun G _ => divides_splitBy.disjoint, hP.disjoint.imp ?_⟩
    intro G H hGH G' hG' H' hH' q hqG hqH
    exact hGH q (hpart hG' q hqG) (hpart hH' q hqH)
  · intro q
    rw [hP.cover q]
    constructor
    · rintro ⟨G, hG, hq⟩
      obtain ⟨H, hH, hqH⟩ := ((divides_splitBy (f := f)).cover q).1 hq
      exact ⟨H, List.mem_flatMap.2 ⟨G, hG, hH⟩, hqH⟩
    · rintro ⟨H, hH, hqH⟩
      obtain ⟨G, hG, hH⟩ := List.mem_flatMap.1 hH
      exact ⟨G, hG, hpart hH q hqH⟩

/-- **A pass separates states of different signatures.** -/
theorem together_refine_iff {p q : Int} :
    (P.refine criterion T).Together p q ↔
      P.Together p q ∧ P.signature criterion T p = P.signature criterion T q := by
  rw [refine_eq_flatMap]
  constructor
  · rintro ⟨H, hH, hpq⟩
    obtain ⟨G, hG, hH⟩ := List.mem_flatMap.1 hH
    obtain ⟨hpq, hsig⟩ := together_splitBy_iff.1 ⟨H, hH, hpq⟩
    exact ⟨⟨G, hG, hpq⟩, Option.some.inj hsig⟩
  · rintro ⟨⟨G, hG, hpq⟩, hsig⟩
    obtain ⟨H, hH, hpq⟩ := (together_splitBy_iff
      (f := fun q => some (P.signature criterion T q))).2 ⟨hpq, congrArg some hsig⟩
    exact ⟨H, List.mem_flatMap.2 ⟨G, hG, hH⟩, hpq⟩

/-- Where every element of a list makes at least one, making no more than there are means that
each makes at most one. -/
theorem length_flatMap_le {α β : Type} {f : α → List β} {l : List α}
    (hf : ∀ a ∈ l, 1 ≤ (f a).length) :
    l.length ≤ (l.flatMap f).length ∧
      ((l.flatMap f).length ≤ l.length → ∀ a ∈ l, (f a).length ≤ 1) := by
  induction l with
  | nil => simp
  | cons a l ih =>
    obtain ⟨hle, hone⟩ := ih fun b hb => hf b (List.mem_cons_of_mem _ hb)
    have ha := hf a List.mem_cons_self
    rw [List.flatMap_cons, List.length_append, List.length_cons]
    refine ⟨by omega, ?_⟩
    intro h b hb
    rcases List.mem_cons.1 hb with rfl | hb
    · omega
    · exact hone (by omega) b hb

/-- **A pass that makes no more groups separates no states.** -/
theorem signature_eq_of_length_refine_le (hP : P.Divides S)
    (h : (P.refine criterion T).length ≤ P.length) {p q : Int} (hpq : P.Together p q) :
    P.signature criterion T p = P.signature criterion T q := by
  rw [refine_eq_flatMap] at h
  obtain ⟨G, hG, hp, hq⟩ := hpq
  have hone := (length_flatMap_le fun G hG => one_le_length_splitBy (hP.nonempty G hG)).2 h G hG
  exact Option.some.inj (eq_of_length_splitBy_le_one hone hp hq)

/-! ## All passes -/

/-- What a pass keeps holds of the final partition. -/
theorem stabilize_induction {motive : Partition → Prop}
    (step : ∀ Q, motive Q → motive (Q.refine criterion T)) (h : motive P) :
    motive (P.stabilize criterion T) := by
  fun_induction stabilize P criterion T with
  | case1 P finer hle => exact h
  | case2 P finer hlt ih => exact ih (step P h)

/-- A pass over the final partition makes no more groups. -/
theorem length_refine_stabilize_le :
    ((P.stabilize criterion T).refine criterion T).length
      ≤ (P.stabilize criterion T).length := by
  fun_induction stabilize P criterion T with
  | case1 P finer hle => exact hle
  | case2 P finer hlt ih => exact ih

theorem divides_stabilize (hP : P.Divides S) : (P.stabilize criterion T).Divides S :=
  stabilize_induction (motive := fun Q => Q.Divides S) (fun _ => divides_refine) hP

theorem together_of_together_stabilize {p q : Int}
    (h : (P.stabilize criterion T).Together p q) : P.Together p q := by
  have hsub : ∀ p q, (P.stabilize criterion T).Together p q → P.Together p q := by
    apply stabilize_induction (motive := fun Q => ∀ p q, Q.Together p q → P.Together p q)
    · intro Q hQ p q hpq
      exact hQ p q (together_refine_iff.1 hpq).1
    · exact fun _ _ => id
  exact hsub p q h

/-- The final partition is stable. -/
theorem signature_stabilize_eq (hP : P.Divides S) {p q : Int}
    (hpq : (P.stabilize criterion T).Together p q) :
    (P.stabilize criterion T).signature criterion T p
      = (P.stabilize criterion T).signature criterion T q :=
  signature_eq_of_length_refine_le (divides_stabilize hP) length_refine_stabilize_le hpq

/-- **Nothing is separated without need.**  States related by `R` stay together if they are
together at first and every partition that keeps all related states together gives them the
same signature. -/
theorem together_stabilize (hP : P.Divides S) {R : Int → Int → Prop}
    (h : ∀ p q, R p q → P.Together p q)
    (hR : ∀ Q : Partition, Q.Divides S → (∀ p q, R p q → Q.Together p q) →
      ∀ p q, R p q → Q.signature criterion T p = Q.signature criterion T q) {p q : Int}
    (hpq : R p q) : (P.stabilize criterion T).Together p q := by
  have hall : (P.stabilize criterion T).Divides S ∧
      ∀ p q, R p q → (P.stabilize criterion T).Together p q := by
    apply stabilize_induction
      (motive := fun Q => Q.Divides S ∧ ∀ p q, R p q → Q.Together p q)
    · rintro Q ⟨hQ, hQR⟩
      refine ⟨divides_refine hQ, ?_⟩
      intro p q hpq
      exact together_refine_iff.2 ⟨hQR p q hpq, hR Q hQ hQR p q hpq⟩
    · exact ⟨hP, h⟩
  exact hall.2 p q hpq

/-! ## Congruences -/

/-- The groups divide the states of a table, and their members agree on being final and on the
groups that their transitions lead to. -/
structure IsCongruence (P : Partition) (T : Table) : Prop where
  /-- The groups divide the states. -/
  divides : P.Divides T.states
  /-- The members of a group are final together. -/
  final : ∀ {p q : Int}, P.Together p q → T.isFinal p = T.isFinal q
  /-- The members of a group step into one group. -/
  step : ∀ {p q : Int}, P.Together p q →
    ∀ s, (T.step? p s).map P.groupIndex = (T.step? q s).map P.groupIndex

/-- The order of the groups does not matter for a congruence whose targets have rows. -/
theorem IsCongruence.perm (h : P.IsCongruence T) (hT : T.TargetsHaveRows) (hPQ : P.Perm Q) :
    Q.IsCongruence T where
  divides := h.divides.perm hPQ
  final hpq := h.final ((together_perm hPQ).2 hpq)
  step {p q} hpq s := by
    have hs := h.step ((together_perm hPQ).2 hpq) s
    cases hp : T.step? p s with
    | none =>
      rw [hp, Option.map_none, eq_comm, Option.map_eq_none_iff] at hs
      rw [hs]
    | some p' =>
      rw [hp, Option.map_some, eq_comm, Option.map_eq_some_iff] at hs
      obtain ⟨q', hq, hidx⟩ := hs
      have hp' := hT _ _ _ hp
      have hq' := hT _ _ _ hq
      have htog := (together_perm hPQ).1 ((h.divides.groupIndex_eq_iff hq' hp').1 hidx)
      rw [hq, Option.map_some, Option.map_some,
        ((h.divides.perm hPQ).groupIndex_eq_iff hq' hp').2 htog]

end Partition

namespace Table

variable {T : Table}

/-! ## The groups of a table -/

theorem mem_acceptanceGroups_iff {G : StateSet} :
    G ∈ T.acceptanceGroups ↔
      (∃ b, G = T.states.filter fun q => T.isFinal q == b) ∧ ∃ q, q ∈ G := by
  rw [acceptanceGroups, List.mem_filter, Bool.not_eq_true', StateSet.isEmpty_eq_false_iff]
  simp only [Bool.exists_bool, beq_true, beq_false, List.mem_cons, List.not_mem_nil, or_false]
  rw [or_comm]

/-- The states that are final, or not final, together. -/
theorem mem_acceptanceGroup_iff {G : StateSet} (hG : G ∈ T.acceptanceGroups) {q : Int}
    (hq : q ∈ G) (p : Int) : p ∈ G ↔ p ∈ T.states ∧ T.isFinal p = T.isFinal q := by
  obtain ⟨⟨b, rfl⟩, -⟩ := mem_acceptanceGroups_iff.1 hG
  rw [StateSet.mem_filter, beq_iff_eq] at hq ⊢
  rw [hq.2]

/-- Every state stands in the group of those that are final like it. -/
theorem exists_mem_acceptanceGroups {q : Int} (hq : q ∈ T.states) :
    ∃ G ∈ T.acceptanceGroups, q ∈ G := by
  have hmem : q ∈ T.states.filter fun p => T.isFinal p == T.isFinal q :=
    StateSet.mem_filter.2 ⟨hq, beq_self_eq_true _⟩
  exact ⟨_, mem_acceptanceGroups_iff.2 ⟨⟨_, rfl⟩, q, hmem⟩, hmem⟩

/-- At first two states are together when both are final or neither is. -/
theorem together_acceptanceGroups_iff {p q : Int} :
    T.acceptanceGroups.Together p q ↔
      p ∈ T.states ∧ q ∈ T.states ∧ T.isFinal p = T.isFinal q := by
  constructor
  · rintro ⟨G, hG, hp, hq⟩
    obtain ⟨hp', hfin⟩ := (mem_acceptanceGroup_iff hG hq p).1 hp
    exact ⟨hp', ((mem_acceptanceGroup_iff hG hq q).1 hq).1, hfin⟩
  · rintro ⟨hp, hq, hfin⟩
    obtain ⟨G, hG, hqG⟩ := exists_mem_acceptanceGroups hq
    exact ⟨G, hG, (mem_acceptanceGroup_iff hG hqG p).2 ⟨hp, hfin⟩, hqG⟩

theorem divides_acceptanceGroups : T.acceptanceGroups.Divides T.states where
  nonempty G hG := (mem_acceptanceGroups_iff.1 hG).2
  disjoint := by
    apply List.Pairwise.filter
    rw [List.pairwise_cons]
    refine ⟨?_, List.pairwise_singleton _ _⟩
    intro H hH q hq hqH
    rw [List.mem_singleton.1 hH, StateSet.mem_filter] at hqH
    rw [StateSet.mem_filter] at hq
    simp [hq.2] at hqH
  cover q := by
    constructor
    · exact exists_mem_acceptanceGroups
    · rintro ⟨G, hG, hq⟩
      exact ((mem_acceptanceGroup_iff hG hq q).1 hq).1

theorem divides_groups (criterion : Criterion) : (T.groups criterion).Divides T.states :=
  Partition.divides_stabilize divides_acceptanceGroups

/-- Where the targets themselves are compared, members of one group have the same ones. -/
theorem step?_eq_of_together {p q : Int} (hpq : (T.groups .targetState).Together p q)
    (s : String) : T.step? p s = T.step? q s := by
  have hsig := Partition.signature_eq_signature_iff.1
    (Partition.signature_stabilize_eq divides_acceptanceGroups hpq) s
  have hid : Partition.weight (T.acceptanceGroups.stabilize .targetState T) .targetState
      = id := rfl
  rwa [hid, Option.map_id_fun, id_eq, id_eq] at hsig

/-- **The final groups respect the transitions**, whichever criterion made them. -/
theorem isCongruence_groups (criterion : Criterion) :
    (T.groups criterion).IsCongruence T where
  divides := divides_groups criterion
  final hpq := (together_acceptanceGroups_iff.1
    (Partition.together_of_together_stabilize hpq)).2.2
  step {p q} hpq s := by
    cases criterion with
    | targetGroup =>
      have hsig := Partition.signature_eq_signature_iff.1
        (Partition.signature_stabilize_eq divides_acceptanceGroups hpq) s
      -- places of groups are compared as integers
      have hcast := congrArg (Option.map Int.toNat) hsig
      rw [Option.map_map, Option.map_map] at hcast
      exact hcast
    | targetState =>
      -- the same target has the same group
      rw [step?_eq_of_together hpq s]

/-- **The targets themselves tell unequal rows apart.**  Two states are together at the end exactly
when both or neither are final and each symbol leads both to the same target. -/
theorem together_groups_targetState_iff {p q : Int} :
    (T.groups .targetState).Together p q ↔
      p ∈ T.states ∧ q ∈ T.states ∧ T.isFinal p = T.isFinal q ∧
        ∀ s, T.step? p s = T.step? q s := by
  constructor
  · intro hpq
    have hP := isCongruence_groups (T := T) .targetState
    exact ⟨hP.divides.mem_of_together hpq, hP.divides.mem_of_together hpq.symm, hP.final hpq,
      step?_eq_of_together hpq⟩
  · intro hpq
    apply Partition.together_stabilize divides_acceptanceGroups
      (R := fun p q => p ∈ T.states ∧ q ∈ T.states ∧ T.isFinal p = T.isFinal q ∧
        ∀ s, T.step? p s = T.step? q s) ?_ ?_ hpq
    · rintro p q ⟨hp, hq, hfinal, -⟩
      exact together_acceptanceGroups_iff.2 ⟨hp, hq, hfinal⟩
    · -- the same targets count for the same in every partition
      rintro Q - - p q ⟨-, -, -, hstep⟩
      rw [Partition.signature_eq_signature_iff]
      intro s
      rw [hstep s]

/-! ## Telling states apart -/

/-- Members of one group of a congruence have the same outcomes. -/
theorem outcome?_eq_of_together {P : Partition} (hP : P.IsCongruence T)
    (hT : T.TargetsHaveRows) {p q : Int} (hpq : P.Together p q) : T.outcome? p = T.outcome? q := by
  funext w
  induction w generalizing p q with
  | nil =>
    show some (T.isFinal p) = some (T.isFinal q)
    rw [hP.final hpq]
  | cons s w ih =>
    have hs := hP.step hpq s
    rw [outcome?_cons, outcome?_cons]
    cases hp : T.step? p s with
    | none =>
      rw [hp, Option.map_none, eq_comm, Option.map_eq_none_iff] at hs
      rw [hs]
    | some p' =>
      rw [hp, Option.map_some, eq_comm, Option.map_eq_some_iff] at hs
      obtain ⟨q', hq, hidx⟩ := hs
      rw [hq, Option.bind_some, Option.bind_some]
      exact ih ((hP.divides.groupIndex_eq_iff (hT _ _ _ hp) (hT _ _ _ hq)).1 hidx.symm)

/-- States of the same outcomes step, under each symbol, to states of the same outcomes. -/
theorem outcome?_step {p q p' : Int} {s : String} (h : T.outcome? p = T.outcome? q)
    (hp : T.step? p s = some p') :
    ∃ q', T.step? q s = some q' ∧ T.outcome? p' = T.outcome? q' := by
  cases hq : T.step? q s with
  | none =>
    have hs := congrFun h [s]
    rw [outcome?_cons, outcome?_cons, hp, hq] at hs
    simp [outcome?, run?] at hs
  | some q' =>
    refine ⟨q', rfl, ?_⟩
    funext w
    have hs := congrFun h (s :: w)
    rwa [outcome?_cons, outcome?_cons, hp, hq] at hs

/-- **The groups of targets are the coarsest congruence.**  Two states are together at the end
exactly when no sequence of symbols tells them apart. -/
theorem together_groups_iff (hT : T.TargetsHaveRows) {p q : Int} :
    (T.groups .targetGroup).Together p q ↔
      p ∈ T.states ∧ q ∈ T.states ∧ T.outcome? p = T.outcome? q := by
  constructor
  · intro hpq
    have hdiv := divides_groups (T := T) .targetGroup
    exact ⟨hdiv.mem_of_together hpq, hdiv.mem_of_together hpq.symm,
      outcome?_eq_of_together (isCongruence_groups .targetGroup) hT hpq⟩
  · intro hpq
    apply Partition.together_stabilize divides_acceptanceGroups
      (R := fun p q => p ∈ T.states ∧ q ∈ T.states ∧ T.outcome? p = T.outcome? q) ?_ ?_ hpq
    · rintro p q ⟨hp, hq, h⟩
      exact together_acceptanceGroups_iff.2 ⟨hp, hq, Option.some.inj (congrFun h [])⟩
    · -- the targets of states of the same outcomes have the same outcomes, hence one group
      rintro Q hQ hR p q ⟨hp, hq, h⟩
      rw [Partition.signature_eq_signature_iff]
      intro s
      cases hps : T.step? p s with
      | none =>
        cases hqs : T.step? q s with
        | none => rfl
        | some q' =>
          obtain ⟨p', hp', -⟩ := outcome?_step h.symm hqs
          rw [hps] at hp'
          cases hp'
      | some p' =>
        obtain ⟨q', hqs, h'⟩ := outcome?_step h hps
        have hp' := hT _ _ _ hps
        have hq' := hT _ _ _ hqs
        have hidx := (hQ.groupIndex_eq_iff hp' hq').2 (hR p' q' ⟨hp', hq', h'⟩)
        rw [hqs, Option.map_some, Option.map_some, Partition.weight, Partition.weight, hidx]

theorem together_groups_iff_outcome?_eq (hT : T.TargetsHaveRows) {p q : Int} (hp : p ∈ T.states)
    (hq : q ∈ T.states) :
    (T.groups .targetGroup).Together p q ↔ T.outcome? p = T.outcome? q := by
  rw [together_groups_iff hT]
  exact ⟨fun h => h.2.2, fun h => ⟨hp, hq, h⟩⟩

end Table

end LexAutomata
