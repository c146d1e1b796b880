/-
# The map onto the classes

Minimizing takes every state to the number of its group.  A number stands for the states
that have it (`Divides.mem_iff_exists_filter`), the start state has the number zero, and
the numbers of the other groups are in the order of their least members
(`groupIndex_orderGroups_lt_iff`).  Seen through this map, the minimal table steps and
accepts as the table does, although the row of a number was written by every state that
has it.  So the table that minimizing returns is the quotient by the groups of the
partition and nothing more (`exists_isClassMap_minimize`).
-/
import LexAutomata.Proofs.Table.Criteria
import LexAutomata.Proofs.Table.Repetition

namespace LexAutomata

namespace Partition

variable {P : Partition} {S G : StateSet}

/-- The group at a place holds the states of this place. -/
theorem Divides.getElem_eq_filter (h : P.Divides S) {n : Nat} (hn : n < P.length) :
    P[n] = S.filter fun q => P.groupIndex q = n := by
  apply StateSet.ext
  intro q
  rw [StateSet.mem_filter, decide_eq_true_eq]
  constructor
  · intro hq
    exact ⟨(h.cover q).2 ⟨P[n], List.getElem_mem hn, hq⟩, h.groupIndex_eq hn hq⟩
  · rintro ⟨-, rfl⟩
    exact mem_getElem_groupIndex hn

/-- The groups are the sets of states of one place. -/
theorem Divides.mem_iff_exists_filter (h : P.Divides S) :
    G ∈ P ↔ ∃ n < P.length, G = S.filter fun q => P.groupIndex q = n := by
  constructor
  · intro hG
    obtain ⟨n, hn, rfl⟩ := List.mem_iff_getElem.1 hG
    exact ⟨n, hn, h.getElem_eq_filter hn⟩
  · rintro ⟨n, hn, rfl⟩
    rw [← h.getElem_eq_filter hn]
    exact List.getElem_mem hn

/-- The places of groups are the numbers below their count. -/
theorem Divides.lt_length_iff (h : P.Divides S) {n : Nat} :
    n < P.length ↔ ∃ q ∈ S, P.groupIndex q = n := by
  constructor
  · exact h.exists_groupIndex_eq
  · rintro ⟨q, hq, rfl⟩
    exact h.groupIndex_lt hq

end Partition

namespace Table

variable {T M : Table} {P : Partition} {G H : StateSet}

/-- The table `M` has the groups of `P` as its states, and `number` takes a state of `T` to the
number of its group. -/
structure IsClassMap (number : Int → Nat) (P : Partition) (T M : Table) : Prop where
  /-- The groups are the sets of states of one number. -/
  mem_iff : ∀ G, G ∈ P ↔ ∃ n < P.length, G = T.states.filter fun q => number q = n
  /-- The numbers that are given are those below the count of the groups. -/
  lt_iff : ∀ n, n < P.length ↔ ∃ q ∈ T.states, number q = n
  /-- The states of the minimal table are these numbers. -/
  states : ∀ k, k ∈ M.states ↔ ∃ n < P.length, k = n
  /-- The group of the start state is the first. -/
  number_start : number T.start = 0
  /-- The other groups are numbered in the order of their least members. -/
  number_lt_iff : ∀ G ∈ P, ∀ H ∈ P, ¬ T.start ∈ G → ¬ T.start ∈ H →
    ∀ p ∈ G, ∀ q ∈ H, number p < number q ↔ G.least < H.least
  /-- The first state is the start state. -/
  start : M.start = 0
  /-- A number is final when the states that have it are. -/
  final : ∀ q ∈ T.states, M.isFinal (number q) = T.isFinal q
  /-- No state is final beside the numbers. -/
  finals : ∀ k ∈ M.finals, k ∈ M.states
  /-- A number steps to the number of the target. -/
  step : ∀ q ∈ T.states, ∀ s, M.step? (number q) s = (T.step? q s).map fun r => (number r : Int)

/-! ## The numbers of the groups -/

/-- The start state has the number zero. -/
theorem groupIndex_orderGroups_start (hP : P.Divides T.states) (hstart : T.start ∈ T.states) :
    (T.orderGroups P).groupIndex T.start = 0 :=
  Int.ofNat_inj.1 (start_quotient hP hstart)

/-- **The groups without the start state are numbered in the order of their least members.** -/
theorem groupIndex_orderGroups_lt_iff (hP : P.Divides T.states) (hstart : T.start ∈ T.states)
    (hG : G ∈ P) (hH : H ∈ P) (hstartG : ¬ T.start ∈ G) (hstartH : ¬ T.start ∈ H) {p q : Int}
    (hp : p ∈ G) (hq : q ∈ H) :
    (T.orderGroups P).groupIndex p < (T.orderGroups P).groupIndex q ↔ G.least < H.least := by
  have hO := hP.perm (orderGroups_perm (T := T) P).symm
  rw [← (orderGroups_perm (T := T) P).mem_iff] at hG hH
  obtain ⟨F, rest, heq, hF, hrest⟩ := exists_orderGroups_eq hP hstart
  rw [heq] at hO hG hH ⊢
  -- neither group is the first, so both have their places in the ascending rest
  have hmem : ∀ K ∈ F :: rest, ¬ T.start ∈ K → K ∈ rest := fun K hK hstartK =>
    (List.mem_cons.1 hK).resolve_left fun h => hstartK (h ▸ hF)
  obtain ⟨i, hi, rfl⟩ := List.mem_iff_getElem.1 (hmem G hG hstartG)
  obtain ⟨j, hj, rfl⟩ := List.mem_iff_getElem.1 (hmem H hH hstartH)
  have hplace : ∀ {n : Nat} (hn : n < rest.length) {r : Int}, r ∈ rest[n] →
      Partition.groupIndex (F :: rest) r = n + 1 := fun hn _ hr =>
    hO.groupIndex_eq (Nat.succ_lt_succ hn) hr
  have hsorted : (rest.map StateSet.least).SortedLT :=
    List.sortedLT_iff_pairwise.2 (List.pairwise_map.2 hrest)
  have hi' : i < (rest.map StateSet.least).length := by rwa [List.length_map]
  have hj' : j < (rest.map StateSet.least).length := by rwa [List.length_map]
  have hleast : (rest.map StateSet.least)[i] < (rest.map StateSet.least)[j] ↔ i < j :=
    hsorted.getElem_lt_getElem_iff
  rw [List.getElem_map, List.getElem_map] at hleast
  rw [hplace hi hp, hplace hj hq, Nat.add_lt_add_iff_right, hleast]

/-! ## Minimizing -/

/-- Where all targets have rows there is a partition by either criterion. -/
theorem partition_eq (hT : T.TargetsHaveRows) (criterion : Criterion) :
    T.partition criterion = .ok (T.groups criterion) := by
  cases criterion with
  | targetGroup => exact partition_targetGroup_eq hT
  | targetState => rfl

/-- **Minimizing returns the exact quotient.**  Every closed table has a partition by either
criterion and a minimal table, whose states are the numbers of the groups; the start state has the
number zero, the other groups are numbered in the order of their least members, and the number of a
state is final and steps to numbers as the state is final and steps to states. -/
theorem exists_isClassMap_minimize (hT : T.Closed) (criterion : Criterion) :
    ∃ P M number, T.partition criterion = .ok P ∧ T.minimize criterion = .ok M ∧
      IsClassMap number P T M := by
  have hG : (T.groups criterion).Divides T.states := divides_groups criterion
  have hP := isCongruence_orderGroups hT.targets criterion
  have hperm := orderGroups_perm (T := T) (T.groups criterion)
  refine ⟨_, _, (T.orderGroups (T.groups criterion)).groupIndex, partition_eq hT.targets criterion,
    minimize_eq hT criterion, ?_⟩
  exact {
    mem_iff := fun K => by
      rw [← hperm.mem_iff, ← hperm.length_eq]
      exact hP.divides.mem_iff_exists_filter
    lt_iff := fun n => by
      rw [← hperm.length_eq]
      exact hP.divides.lt_length_iff
    states := fun k => by
      rw [mem_states_quotient_iff hP.divides, ← hperm.length_eq]
      constructor
      · rintro ⟨q, hq, rfl⟩
        exact ⟨_, hP.divides.groupIndex_lt hq, rfl⟩
      · rintro ⟨n, hn, rfl⟩
        obtain ⟨q, hq, rfl⟩ := hP.divides.exists_groupIndex_eq hn
        exact ⟨q, hq, rfl⟩
    number_start := groupIndex_orderGroups_start hG hT.start
    number_lt_iff := fun K hK L hL hstartK hstartL p hp q hq =>
      groupIndex_orderGroups_lt_iff hG hT.start hK hL hstartK hstartL hp hq
    start := start_quotient hG hT.start
    final := fun q hq => isFinal_quotient hP hq
    finals := (intact_quotient hP hT).finals
    step := fun q hq s => step?_quotient hP hq s }

/-- A table with two states that are made one, whose start state is neither its least one nor
entered first. -/
def folded : Table :=
  ofParts [(8, [("a", 2)]), (5, [("b", 3), ("a", 2)]), (-1, []), (2, [("a", 8)]), (3, [("a", -1)])]
    [8, 2, 70] 5

theorem exists_isClassMap_minimize_folded :
    folded.Closed ∧
      ∃ P M number, folded.partition .targetGroup = .ok P ∧ folded.minimize .targetGroup = .ok M ∧
        IsClassMap number P folded M :=
  have hT : folded.Closed := checkClosed_eq_ok_iff.1 rfl
  ⟨hT, exists_isClassMap_minimize hT .targetGroup⟩

/-- The start state 5 comes first, then -1, the pair of 2 and 8, and 3. -/
example : ((folded.minimize .targetGroup).map fun M =>
    (M.finals.toList, M.step? 0 "a", M.step? 0 "b", M.step? 2 "a", M.step? 3 "a"))
      = .ok ([2], some 2, some 3, some 2, some 1) := by
  cbv

end Table

end LexAutomata
