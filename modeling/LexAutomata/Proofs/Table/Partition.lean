/-
# Dividing a set of states into groups

A partition divides a set of states when its groups have members, have none in common,
and hold the states of the set (`Divides`).  Two states are then in one group exactly
when their groups have one place (`Divides.groupIndex_eq_iff`).  Splitting a group by a
function divides the group, and leaves together the members on which the function
agrees (`together_splitBy_iff`).
-/
import LexAutomata.Table.Partition

namespace LexAutomata

namespace Partition

variable {P Q : Partition} {S : StateSet}

/-! ## Dividing a set of states -/

/-- Are two states members of one group? -/
def Together (P : Partition) (p q : Int) : Prop := ∃ G ∈ P, p ∈ G ∧ q ∈ G

/-- The groups have members, none of them in common, and these are the states of the set. -/
structure Divides (P : Partition) (S : StateSet) : Prop where
  /-- Every group has a member. -/
  nonempty : ∀ G ∈ P, ∃ q, q ∈ G
  /-- Groups at different places have no member in common. -/
  disjoint : P.Pairwise fun G H => ∀ q ∈ G, ¬ q ∈ H
  /-- The members of the groups are the states of the set. -/
  cover : ∀ q, q ∈ S ↔ ∃ G ∈ P, q ∈ G

theorem Together.symm {p q : Int} (h : P.Together p q) : P.Together q p := by
  obtain ⟨G, hG, hp, hq⟩ := h
  exact ⟨G, hG, hq, hp⟩

/-- The group at the place of a state holds it. -/
theorem mem_getElem_groupIndex {q : Int} (h : P.groupIndex q < P.length) :
    q ∈ P[P.groupIndex q] :=
  of_decide_eq_true (List.findIdx_getElem (p := fun G => decide (q ∈ G)) (w := h))

namespace Divides

/-- Two groups with a common member stand at one place. -/
theorem index_eq (h : P.Divides S) {i j : Nat} (hi : i < P.length) (hj : j < P.length) {q : Int}
    (hqi : q ∈ P[i]) (hqj : q ∈ P[j]) : i = j := by
  rcases Nat.lt_trichotomy i j with hij | hij | hij
  · exact absurd hqj (List.pairwise_iff_getElem.1 h.disjoint i j hi hj hij q hqi)
  · exact hij
  · exact absurd hqi (List.pairwise_iff_getElem.1 h.disjoint j i hj hi hij q hqj)

/-- Two groups with a common member are the same. -/
theorem group_eq (h : P.Divides S) {G H : StateSet} (hG : G ∈ P) (hH : H ∈ P) {q : Int}
    (hqG : q ∈ G) (hqH : q ∈ H) : G = H := by
  obtain ⟨i, hi, rfl⟩ := List.mem_iff_getElem.1 hG
  obtain ⟨j, hj, rfl⟩ := List.mem_iff_getElem.1 hH
  have hij := h.index_eq hi hj hqG hqH
  subst hij
  rfl

/-- Only what is divided is together with anything. -/
theorem mem_of_together (h : P.Divides S) {p q : Int} (hpq : P.Together p q) : p ∈ S := by
  obtain ⟨G, hG, hp, -⟩ := hpq
  exact (h.cover p).2 ⟨G, hG, hp⟩

/-! ## Places of groups -/

/-- The group of a state has a place in the partition. -/
theorem groupIndex_lt (h : P.Divides S) {q : Int} (hq : q ∈ S) :
    P.groupIndex q < P.length := by
  obtain ⟨G, hG, hqG⟩ := (h.cover q).1 hq
  exact List.findIdx_lt_length_of_exists ⟨G, hG, decide_eq_true hqG⟩

/-- A member of the group at a place has this place. -/
theorem groupIndex_eq (h : P.Divides S) {i : Nat} (hi : i < P.length) {q : Int}
    (hq : q ∈ P[i]) : P.groupIndex q = i := by
  have hS : q ∈ S := (h.cover q).2 ⟨P[i], List.getElem_mem hi, hq⟩
  have hlt := h.groupIndex_lt hS
  exact h.index_eq hlt hi (mem_getElem_groupIndex hlt) hq

/-- At every place there is the group of some state. -/
theorem exists_groupIndex_eq (h : P.Divides S) {i : Nat} (hi : i < P.length) :
    ∃ q ∈ S, P.groupIndex q = i := by
  obtain ⟨q, hq⟩ := h.nonempty P[i] (List.getElem_mem hi)
  exact ⟨q, (h.cover q).2 ⟨P[i], List.getElem_mem hi, hq⟩, h.groupIndex_eq hi hq⟩

/-- **States are together when their groups have the same place.** -/
theorem groupIndex_eq_iff (h : P.Divides S) {p q : Int} (hp : p ∈ S) (hq : q ∈ S) :
    P.groupIndex p = P.groupIndex q ↔ P.Together p q := by
  constructor
  · intro heq
    have hp' := mem_getElem_groupIndex (h.groupIndex_lt hp)
    have hq' := mem_getElem_groupIndex (h.groupIndex_lt hq)
    simp only [← heq] at hq'
    exact ⟨_, List.getElem_mem _, hp', hq'⟩
  · rintro ⟨G, hG, hpG, hqG⟩
    obtain ⟨i, hi, rfl⟩ := List.mem_iff_getElem.1 hG
    rw [h.groupIndex_eq hi hpG, h.groupIndex_eq hi hqG]

/-- The order of the groups does not matter for dividing. -/
theorem perm (h : P.Divides S) (hPQ : P.Perm Q) : Q.Divides S where
  nonempty G hG := h.nonempty G (hPQ.mem_iff.2 hG)
  disjoint := by
    refine hPQ.pairwise h.disjoint ?_
    intro G H hGH q hqH hqG
    exact hGH q hqG hqH
  cover q := by
    rw [h.cover q]
    constructor
    · rintro ⟨G, hG, hq⟩
      exact ⟨G, hPQ.mem_iff.1 hG, hq⟩
    · rintro ⟨G, hG, hq⟩
      exact ⟨G, hPQ.mem_iff.2 hG, hq⟩

end Divides

/-- Being together does not depend on the order of the groups. -/
theorem together_perm (h : P.Perm Q) {p q : Int} : P.Together p q ↔ Q.Together p q := by
  constructor
  · rintro ⟨G, hG, hpq⟩
    exact ⟨G, h.mem_iff.1 hG, hpq⟩
  · rintro ⟨G, hG, hpq⟩
    exact ⟨G, h.mem_iff.2 hG, hpq⟩

/-! ## Splitting a group -/

section SplitBy

variable {κ : Type} [DecidableEq κ] {f : Int → κ} {G H : StateSet}

/-- The parts of a group are the members that one of them agrees with. -/
theorem mem_splitBy : H ∈ splitBy f G ↔ ∃ q ∈ G, H = G.filter fun r => f r = f q := by
  rw [splitBy, List.mem_map]
  constructor
  · rintro ⟨k, hk, rfl⟩
    rw [List.mem_eraseDups, List.mem_map] at hk
    obtain ⟨q, hq, rfl⟩ := hk
    exact ⟨q, hq, rfl⟩
  · rintro ⟨q, hq, rfl⟩
    exact ⟨f q, List.mem_eraseDups.2 (List.mem_map.2 ⟨q, hq, rfl⟩), rfl⟩

/-- The parts divide the group. -/
theorem divides_splitBy : Divides (splitBy f G) G where
  nonempty H hH := by
    obtain ⟨q, hq, rfl⟩ := mem_splitBy.1 hH
    exact ⟨q, StateSet.mem_filter.2 ⟨hq, decide_eq_true rfl⟩⟩
  disjoint := by
    rw [splitBy, List.pairwise_map]
    refine (nodup_eraseDups (G.toList.map f)).imp ?_
    intro k k' hkk' q hq hq'
    have hk := of_decide_eq_true (StateSet.mem_filter.1 hq).2
    have hk' := of_decide_eq_true (StateSet.mem_filter.1 hq').2
    exact hkk' (hk.symm.trans hk')
  cover q := by
    constructor
    · intro hq
      exact ⟨_, mem_splitBy.2 ⟨q, hq, rfl⟩, StateSet.mem_filter.2 ⟨hq, decide_eq_true rfl⟩⟩
    · rintro ⟨H, hH, hq⟩
      obtain ⟨p, -, rfl⟩ := mem_splitBy.1 hH
      exact (StateSet.mem_filter.1 hq).1

/-- Members of a group stay together when they agree. -/
theorem together_splitBy_iff {p q : Int} :
    Together (splitBy f G) p q ↔ (p ∈ G ∧ q ∈ G) ∧ f p = f q := by
  constructor
  · rintro ⟨H, hH, hp, hq⟩
    obtain ⟨r, -, rfl⟩ := mem_splitBy.1 hH
    rw [StateSet.mem_filter, decide_eq_true_eq] at hp hq
    exact ⟨⟨hp.1, hq.1⟩, hp.2.trans hq.2.symm⟩
  · rintro ⟨⟨hp, hq⟩, hpq⟩
    exact ⟨_, mem_splitBy.2 ⟨q, hq, rfl⟩, StateSet.mem_filter.2 ⟨hp, decide_eq_true hpq⟩,
      StateSet.mem_filter.2 ⟨hq, decide_eq_true rfl⟩⟩

/-- Only the values on the members matter for splitting. -/
theorem splitBy_congr {f' : Int → κ} (h : ∀ q ∈ G, f q = f' q) : splitBy f G = splitBy f' G := by
  have hmap : G.toList.map f = G.toList.map f' := List.map_congr_left h
  rw [splitBy, splitBy, hmap]
  apply List.map_congr_left
  intro k _
  apply StateSet.ext
  intro q
  rw [StateSet.mem_filter, StateSet.mem_filter]
  constructor
  · rintro ⟨hq, hk⟩
    exact ⟨hq, by rw [← h q hq]; exact hk⟩
  · rintro ⟨hq, hk⟩
    exact ⟨hq, by rw [h q hq]; exact hk⟩

/-- A group with a member has a part. -/
theorem one_le_length_splitBy (hG : ∃ q, q ∈ G) : 1 ≤ (splitBy f G).length := by
  obtain ⟨q, hq⟩ := hG
  exact List.length_pos_of_mem (mem_splitBy.2 ⟨q, hq, rfl⟩)

/-- The members of a group that has one part have one value. -/
theorem eq_of_length_splitBy_le_one (h : (splitBy f G).length ≤ 1) {p q : Int} (hp : p ∈ G)
    (hq : q ∈ G) : f p = f q := by
  have hdiv : Divides (splitBy f G) G := divides_splitBy
  have hp' := hdiv.groupIndex_lt hp
  have hq' := hdiv.groupIndex_lt hq
  -- there is only one place for the part of either
  have hpq : groupIndex (splitBy f G) p = groupIndex (splitBy f G) q := by omega
  exact (together_splitBy_iff.1 ((hdiv.groupIndex_eq_iff hp hq).1 hpq)).2

end SplitBy

end Partition

end LexAutomata
