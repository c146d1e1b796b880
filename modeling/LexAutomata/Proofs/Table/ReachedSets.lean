/-
# The sets that are reached

Following the symbols stored at the members of a set leads from the closed start set to
further sets (`Obtained`).  These are the sets that the search lists
(`mem_reachableSets_iff_obtained`), no more of them than the states have subsets
(`length_reachableSets_le`), and the table notes each of them beside its number
(`get?_subsets_subsetTable`).  So determinizing builds the automaton of the reached sets,
with one state for each of them and no other (`isSubsetTable_determinize`).
-/
import Mathlib.Data.List.Perm.Subperm
import Mathlib.Data.List.Sublists
import LexAutomata.Proofs.Table.Intact

namespace LexAutomata

/-! ## Counting sets of states -/

namespace StateSet

/-- Different subsets of a set are no more than two to the power of its size. -/
theorem length_le_two_pow {l : List StateSet} {S : StateSet} (hl : l.Nodup)
    (h : ∀ T ∈ l, ∀ q ∈ T, q ∈ S) : l.length ≤ 2 ^ S.size := by
  have hnodup : (l.map toList).Nodup := hl.map fun T U hTU => ext fun q => by
    rw [← mem_toList, hTU, mem_toList]
  have hsub : l.map toList ⊆ S.toList.sublists' := by
    intro m hm
    obtain ⟨T, hT, rfl⟩ := List.mem_map.1 hm
    exact List.mem_sublists'.2 (sublist_toList (h T hT))
  have hle := (hnodup.subperm hsub).length_le
  rwa [List.length_map, List.length_sublists'] at hle

end StateSet

namespace Automaton

variable {A : Automaton} {start : Int} {S : StateSet}

/-! ## The sets -/

/-- The sets that are obtained from the closed start set by following stored symbols. -/
inductive Obtained (A : Automaton) (start : Int) : StateSet → Prop
  /-- The closure of the start state is the first set. -/
  | start : Obtained A start (A.closure (.singleton start))
  /-- A symbol that some member has an entry for leads to the closure of all its targets. -/
  | step {S : StateSet} {q : Int} {s : String} (h : Obtained A start S) (hq : q ∈ S)
      (hs : A.HasEntry q (.symbol s)) : Obtained A start (A.closure (A.move S s))

theorem mem_symbolsOf_iff_hasEntry {s : String} :
    s ∈ A.symbolsOf S ↔ ∃ q ∈ S, A.HasEntry q (.symbol s) := by
  rw [mem_symbolsOf]
  simp only [hasEntry_iff_mem_keys]

/-- **The search lists the sets that are obtained.** -/
theorem mem_reachableSets_iff_obtained : S ∈ A.reachableSets start ↔ A.Obtained start S := by
  rw [mem_reachableSets_iff]
  constructor
  · intro h
    induction h with
    | start h =>
      rw [List.mem_singleton.1 h]
      exact .start
    | step _ hT ih =>
      obtain ⟨s, hs, rfl⟩ := List.mem_map.1 hT
      obtain ⟨q, hq, hs⟩ := mem_symbolsOf_iff_hasEntry.1 hs
      exact ih.step hq hs
  · intro h
    induction h with
    | start => exact .start (List.mem_singleton.2 rfl)
    | step _ hq hs ih =>
      exact ih.step (mem_successors_subsetGraph (mem_symbolsOf_iff_hasEntry.2 ⟨_, hq, hs⟩))

/-- The members of obtained sets are states. -/
theorem Obtained.mem_states (hA : A.Valid) (hstart : start ∈ A.states) (h : A.Obtained start S) :
    ∀ q ∈ S, q ∈ A.states := by
  have hends : ∀ p l q, q ∈ A.targets p l → q ∈ A.states := fun p l q hq => (hA.ends p l q hq).2
  induction h with
  | start =>
    refine of_mem_closure hends fun q hq => ?_
    rwa [StateSet.mem_singleton.1 hq]
  | step _ _ _ _ =>
    refine of_mem_closure hends fun q hq => ?_
    obtain ⟨p, -, hpq⟩ := mem_move.1 hq
    exact hends p _ q hpq

/-- **There are no more reached sets than subsets of the states.** -/
theorem length_reachableSets_le (hA : A.Valid) (hstart : start ∈ A.states) :
    (A.reachableSets start).length ≤ 2 ^ A.states.size :=
  StateSet.length_le_two_pow (nodup_reachableSets start) fun _ hS =>
    (mem_reachableSets_iff_obtained.1 hS).mem_states hA hstart

theorem length_reachableSets_pos (start : Int) : 0 < (A.reachableSets start).length :=
  (List.getElem?_eq_some_iff.1 (getElem?_reachableSets_zero start)).1

/-! ## The sets beside the table -/

/-- **The table notes each set beside its number.** -/
theorem get?_subsets_subsetTable {k : Int} :
    (A.subsetTable start).subsets.get? k = some S
      ↔ ∃ n : Nat, k = n ∧ (A.reachableSets start)[n]? = some S := by
  rw [subsetTable, OrderedMap.get?_ofList_eq_some_iff (Table.nodup_map_fst_numbered _),
    Table.mem_numbered]

theorem mem_keys_subsets_subsetTable {k : Int} :
    k ∈ (A.subsetTable start).subsets.keys ↔ k ∈ (A.subsetTable start).states := by
  rw [OrderedMap.mem_keys_iff, mem_states_subsetTable]
  simp only [get?_subsets_subsetTable]
  exact exists_comm

/-- The states are the numbers of the sets. -/
theorem mem_states_subsetTable_iff_lt {k : Int} :
    k ∈ (A.subsetTable start).states ↔ 0 ≤ k ∧ k < (A.reachableSets start).length := by
  rw [mem_states_subsetTable]
  constructor
  · rintro ⟨n, S, rfl, hn⟩
    have := (List.getElem?_eq_some_iff.1 hn).1
    omega
  · rintro ⟨hk, hlt⟩
    obtain ⟨n, rfl⟩ := Int.eq_ofNat_of_zero_le hk
    have hn : n < (A.reachableSets start).length := by omega
    exact ⟨n, _, rfl, List.getElem?_eq_getElem hn⟩

/-! ## The automaton of the sets -/

/-- The states of the table stand for the sets that are obtained, each for one. -/
structure IsSubsetTable (A : Automaton) (start : Int) (T : Table) : Prop where
  /-- The states are counted from zero, and are no more than the subsets of the states. -/
  states : ∃ n : Nat, 1 ≤ n ∧ n ≤ 2 ^ A.states.size ∧ ∀ k : Int, k ∈ T.states ↔ 0 ≤ k ∧ k < n
  /-- A set is noted beside each state, and beside nothing else. -/
  keys : ∀ k, k ∈ T.subsets.keys ↔ k ∈ T.states
  /-- The first state is the start state. -/
  start_eq : T.start = 0
  /-- The start state stands for the closure of the start state. -/
  get?_zero : T.subsets.get? 0 = some (A.closure (.singleton start))
  /-- Different states stand for different sets. -/
  injective : ∀ j k S, T.subsets.get? j = some S → T.subsets.get? k = some S → j = k
  /-- The sets are those that are obtained. -/
  obtained : ∀ S, (∃ k, T.subsets.get? k = some S) ↔ A.Obtained start S
  /-- A row has the symbols that some member of the set has an entry for. -/
  row : ∀ k S, T.subsets.get? k = some S →
    ∀ s, s ∈ (T.row k).keys ↔ ∃ q ∈ S, A.HasEntry q (.symbol s)
  /-- An entry leads to the closure of all targets of the members. -/
  step : ∀ k S, T.subsets.get? k = some S →
    ∀ s m, T.step? k s = some m → T.subsets.get? m = some (A.closure (A.move S s))
  /-- Every target has a row. -/
  targets : T.TargetsHaveRows
  /-- A state is final when its set has a final member. -/
  final : ∀ k S, T.subsets.get? k = some S → (T.isFinal k = true ↔ ∃ q ∈ S, q ∈ A.finals)
  /-- No state is final that stands for no set. -/
  finals : ∀ k ∈ T.finals, k ∈ T.states

/-- The states are what a set is noted beside. -/
theorem IsSubsetTable.mem_states_iff {T : Table} (h : A.IsSubsetTable start T) {k : Int} :
    k ∈ T.states ↔ ∃ S, T.subsets.get? k = some S := by
  rw [← h.keys, OrderedMap.mem_keys_iff]

/-- A number belongs to one set. -/
theorem eq_of_get?_subsets_subsetTable {j k : Int}
    (hj : (A.subsetTable start).subsets.get? j = some S)
    (hk : (A.subsetTable start).subsets.get? k = some S) : j = k := by
  obtain ⟨i, rfl, hi⟩ := get?_subsets_subsetTable.1 hj
  obtain ⟨n, rfl, hn⟩ := get?_subsets_subsetTable.1 hk
  have hlt := (List.getElem?_eq_some_iff.1 hi).1
  rw [(List.getElem?_inj hlt (nodup_reachableSets start)).1 (hi.trans hn.symm)]

/-- An entry leads to the number of the successor. -/
theorem get?_subsets_step {k m : Int} {s : String}
    (hk : (A.subsetTable start).subsets.get? k = some S)
    (hm : (A.subsetTable start).step? k s = some m) :
    (A.subsetTable start).subsets.get? m = some (A.successor S s) := by
  obtain ⟨n, i, S', rfl, hn, -, rfl, hi⟩ := exists_of_step?_subsetTable hm
  obtain ⟨n', hn', hS⟩ := get?_subsets_subsetTable.1 hk
  obtain rfl := Int.ofNat_inj.1 hn'
  rw [hn, Option.some.injEq] at hS
  rw [← hS]
  exact get?_subsets_subsetTable.2 ⟨i, rfl, hi⟩

theorem isSubsetTable_subsetTable (hA : A.Valid) (hstart : start ∈ A.states) :
    A.IsSubsetTable start (A.subsetTable start) where
  states := ⟨_, length_reachableSets_pos start, length_reachableSets_le hA hstart,
    fun _ => mem_states_subsetTable_iff_lt⟩
  keys _ := mem_keys_subsets_subsetTable
  start_eq := rfl
  get?_zero := get?_subsets_subsetTable.2 ⟨0, rfl, getElem?_reachableSets_zero start⟩
  injective _ _ _ := eq_of_get?_subsets_subsetTable
  obtained S := by
    rw [← mem_reachableSets_iff_obtained, List.mem_iff_getElem?]
    simp only [get?_subsets_subsetTable]
    constructor
    · rintro ⟨_, n, -, hn⟩
      exact ⟨n, hn⟩
    · rintro ⟨n, hn⟩
      exact ⟨n, n, rfl, hn⟩
  row k S hk s := by
    obtain ⟨n, rfl, hn⟩ := get?_subsets_subsetTable.1 hk
    rw [keys_row_subsetTable hn, mem_symbolsOf_iff_hasEntry]
  step k S hk s m hm := get?_subsets_step hk hm
  targets := (closed_subsetTable start).targets
  final k S hk := by
    obtain ⟨n, rfl, hn⟩ := get?_subsets_subsetTable.1 hk
    rw [isFinal_subsetTable hn, StateSet.meets_eq_true_iff]
  finals := (Table.intact_subsetTable A start).finals

/-- **Determinizing builds the automaton of the reached sets.**  Every valid automaton has a table,
whose states stand for the sets that are obtained from the closed start set by following stored
symbols, each of them for one set and each set noted beside one state. -/
theorem isSubsetTable_determinize (hA : A.validate = .ok ()) :
    ∃ q T, A.start = some q ∧ A.determinize = .ok T ∧ A.IsSubsetTable q T := by
  have hvalid := validate_eq_ok_iff.1 hA
  obtain ⟨q, hq, hstart⟩ := hvalid.start
  exact ⟨q, _, hstart, determinize_eq hA hstart, isSubsetTable_subsetTable hvalid hq⟩

theorem isSubsetTable_determinize_epsilonCycle :
    epsilonCycle.validate = .ok () ∧
      ∃ q T, epsilonCycle.start = some q ∧ epsilonCycle.determinize = .ok T ∧
        epsilonCycle.IsSubsetTable q T :=
  ⟨rfl, isSubsetTable_determinize rfl⟩

end Automaton

end LexAutomata
