/-
# The language of the subset construction

The table of an automaton has the reachable sets as its states, numbered in the order
in which a search finds them.  The state of a set steps to the state of its successor
under the symbols of its members, and is final when the set meets the final states
(`step?_subsetTable`, `isFinal_subsetTable`).  Under any other symbol the table stops
where the automaton goes on with the empty set, which nothing leads out of, or breaks off
there to the same effect (`simulate_eq_acceptsFromSet`).  So the table accepts from the
state of a set what the automaton accepts from the set (`acceptsFrom_subsetTable`), and
from the start state the language of the automaton (`accepts_determinize`).
-/
import Mathlib.Data.List.Sort
import LexAutomata.Table.Subset
import LexAutomata.Proofs.Table.Run

namespace LexAutomata

/-! ## Sorted symbols -/

/-- Sorting drops repetitions and no symbol. -/
@[simp] theorem mem_sortedSymbols {s : String} {l : List String} :
    s ∈ sortedSymbols l ↔ s ∈ l := by
  rw [sortedSymbols, List.mem_mergeSort, List.mem_eraseDups]

theorem nodup_sortedSymbols (l : List String) : (sortedSymbols l).Nodup :=
  (List.mergeSort_perm _ _).nodup_iff.2 (Partition.nodup_eraseDups l)

/-- Sorted symbols ascend, each of them standing once. -/
theorem pairwise_sortedSymbols (l : List String) : (sortedSymbols l).Pairwise (· < ·) := by
  have hsorted : (sortedSymbols l).Pairwise (· ≤ ·) := pairwise_mergeSort_key id _
  refine (hsorted.and (nodup_sortedSymbols l)).imp ?_
  rintro s t ⟨hst, hne⟩
  rw [← String.not_le]
  exact fun hts => hne (String.le_antisymm hst hts)

/-- Sorted symbols depend on what occurs in the list alone. -/
theorem sortedSymbols_congr {l m : List String} (h : ∀ s, s ∈ l ↔ s ∈ m) :
    sortedSymbols l = sortedSymbols m := by
  refine (pairwise_sortedSymbols l).eq_of_mem_iff (pairwise_sortedSymbols m) ?_
  simpa only [mem_sortedSymbols] using h

/-- What stands at a place of a list without repetitions has this place. -/
theorem idxOf_eq_of_getElem? {α : Type} [DecidableEq α] {l : List α} (hl : l.Nodup) {n : Nat}
    {a : α} (h : l[n]? = some a) : l.idxOf a = n := by
  obtain ⟨hn, rfl⟩ := List.getElem?_eq_some_iff.1 h
  exact hl.idxOf_getElem n hn

namespace Automaton

variable {A : Automaton}

/-! ## Sets of states and symbols -/

/-- Does reading the symbols from a closed set allow a final state? -/
def acceptsFromSet (A : Automaton) (S : StateSet) (w : List String) : Bool :=
  (A.run S w).meets A.finals

/-- A set leads where its members have targets. -/
theorem mem_move {S : StateSet} {s : String} {r : Int} :
    r ∈ A.move S s ↔ ∃ q ∈ S, r ∈ A.targets q (.symbol s) := by
  rw [move, StateSet.mem_unions]
  constructor
  · rintro ⟨T, hT, hr⟩
    rw [List.mem_map] at hT
    obtain ⟨q, hq, rfl⟩ := hT
    exact ⟨q, hq, hr⟩
  · rintro ⟨q, hq, hr⟩
    exact ⟨_, List.mem_map.2 ⟨q, hq, rfl⟩, hr⟩

/-- The symbols of a set are those that its members have entries for. -/
theorem mem_symbolsOf {S : StateSet} {s : String} :
    s ∈ A.symbolsOf S ↔ ∃ q ∈ S, Label.symbol s ∈ (A.row q).keys := by
  rw [symbolsOf, mem_sortedSymbols, List.mem_flatMap]
  constructor
  · rintro ⟨q, hq, hs⟩
    rw [List.mem_filterMap] at hs
    obtain ⟨l, hl, hls⟩ := hs
    cases l with
    | epsilon => simp [Label.symbol?] at hls
    | symbol t =>
      rw [Label.symbol?, Option.some.injEq] at hls
      exact ⟨q, hq, hls ▸ hl⟩
  · rintro ⟨q, hq, hs⟩
    exact ⟨q, hq, List.mem_filterMap.2 ⟨_, hs, rfl⟩⟩

/-- Nothing is reached from no state. -/
@[simp] theorem closure_empty : A.closure ∅ = ∅ := by
  rw [closure, Graph.search, show (∅ : StateSet).toList = [] from rfl, Graph.searchFrom]
  rfl

/-- A symbol that no member has an entry for leads to the empty set. -/
theorem successor_eq_empty {S : StateSet} {s : String} (h : ¬ s ∈ A.symbolsOf S) :
    A.successor S s = ∅ := by
  have hmove : A.move S s = ∅ := by
    apply StateSet.ext
    intro r
    rw [mem_move]
    simp only [StateSet.not_mem_empty, iff_false]
    rintro ⟨q, hq, hr⟩
    apply h
    rw [mem_symbolsOf]
    refine ⟨q, hq, ?_⟩
    rw [OrderedMap.mem_keys_iff]
    cases hentry : (A.row q).get? (.symbol s) with
    | none => rw [targets, hentry] at hr; simp at hr
    | some T => exact ⟨T, rfl⟩
  rw [successor, hmove, closure_empty]

/-- A run takes the first symbol to the successor and goes on there. -/
theorem run_cons (S : StateSet) (s : String) (w : List String) :
    A.run S (s :: w) = A.run (A.successor S s) w := rfl

/-- Nothing leads out of the empty set. -/
theorem run_empty (w : List String) : A.run ∅ w = ∅ := by
  induction w with
  | nil => rfl
  | cons s w ih =>
    have hs : ¬ s ∈ A.symbolsOf ∅ := by simp [mem_symbolsOf]
    rw [run_cons, successor_eq_empty hs, ih]

/-- The empty set accepts no word. -/
theorem acceptsFromSet_empty (w : List String) : A.acceptsFromSet ∅ w = false := by
  rw [acceptsFromSet, run_empty]
  rfl

/-- **Breaking off is justified**: a simulation that ends where a symbol has no target answers as
the run over all symbols does. -/
theorem simulate_eq_acceptsFromSet (S : StateSet) (w : List String) :
    A.simulate S w = A.acceptsFromSet S w := by
  induction w generalizing S with
  | nil => rfl
  | cons s w ih =>
    have hrun : A.acceptsFromSet S (s :: w) = A.acceptsFromSet (A.closure (A.move S s)) w := rfl
    rw [simulate, hrun]
    by_cases hmove : (A.move S s).isEmpty = true
    · have hempty : A.move S s = ∅ := StateSet.ext fun q =>
        iff_of_false (StateSet.isEmpty_eq_true_iff.1 hmove q) (StateSet.not_mem_empty q)
      rw [if_pos hmove, hempty, closure_empty, acceptsFromSet_empty]
    · rw [if_neg hmove, ih]

/-! ## The reachable sets -/

/-- The reachable sets are those that the closed start set leads to. -/
theorem mem_reachableSets_iff {start : Int} {S : StateSet} :
    S ∈ A.reachableSets start ↔ A.subsetGraph.Reaches [A.closure (.singleton start)] S :=
  Graph.mem_search_iff

/-- Every reachable set has one number. -/
theorem nodup_reachableSets (start : Int) : (A.reachableSets start).Nodup :=
  Graph.nodup_search (by simp)

/-- The closed start set has the number zero. -/
theorem getElem?_reachableSets_zero (start : Int) :
    (A.reachableSets start)[0]? = some (A.closure (.singleton start)) := by
  obtain ⟨rest, hrest⟩ : [A.closure (.singleton start)] <+: A.reachableSets start :=
    Graph.isPrefix_search
  rw [← hrest]
  rfl

theorem mem_successors_subsetGraph {S : StateSet} {s : String} (hs : s ∈ A.symbolsOf S) :
    A.successor S s ∈ A.subsetGraph.successors S :=
  List.mem_map.2 ⟨s, hs, rfl⟩

/-- The successors of a reachable set are reachable. -/
theorem successor_mem_reachableSets {start : Int} {S : StateSet} {s : String}
    (hS : S ∈ A.reachableSets start) (hs : s ∈ A.symbolsOf S) :
    A.successor S s ∈ A.reachableSets start := by
  rw [mem_reachableSets_iff] at hS ⊢
  exact hS.step (mem_successors_subsetGraph hs)

/-! ## The table of the reachable sets -/

/-- The states of the table are the places of the reachable sets. -/
theorem mem_states_subsetTable {start q : Int} :
    q ∈ (A.subsetTable start).states ↔
      ∃ (n : Nat) (S : StateSet), q = n ∧ (A.reachableSets start)[n]? = some S := by
  rw [Table.mem_states_iff, subsetTable, Table.keys_ofList_numbered, List.mem_map]
  constructor
  · rintro ⟨⟨q', S⟩, h, rfl⟩
    obtain ⟨n, rfl, hn⟩ := Table.mem_numbered.1 h
    exact ⟨n, S, rfl, hn⟩
  · rintro ⟨n, S, rfl, hn⟩
    exact ⟨((n : Int), S), Table.mem_numbered.2 ⟨n, rfl, hn⟩, rfl⟩

/-- The row of a set leads to the numbers of its successors. -/
theorem row_subsetTable {start : Int} {n : Nat} {S : StateSet}
    (h : (A.reachableSets start)[n]? = some S) :
    (A.subsetTable start).row n = A.subsetRow (A.reachableSets start) S := by
  have hrow : (A.subsetTable start).rows.get? n
      = some (A.subsetRow (A.reachableSets start) S) :=
    Table.get?_ofList_numbered (A.subsetRow (A.reachableSets start)) h
  rw [Table.row, hrow, Option.getD_some]

/-- A place leads to the place of the successor, for each symbol of its set. -/
theorem step?_subsetTable {start : Int} {n : Nat} {S : StateSet}
    (h : (A.reachableSets start)[n]? = some S) (s : String) :
    (A.subsetTable start).step? n s
      = if s ∈ A.symbolsOf S then some ((A.reachableSets start).idxOf (A.successor S s) : Int)
        else none := by
  rw [Table.step?, row_subsetTable h, subsetRow]
  split
  · rename_i hs
    apply OrderedMap.get?_ofList_of_forall
    · rw [List.map_map]
      exact List.mem_map.2 ⟨s, hs, rfl⟩
    · rintro e he rfl
      rw [List.mem_map] at he
      obtain ⟨t, -, rfl⟩ := he
      rfl
  · rename_i hs
    apply OrderedMap.get?_ofList_eq_none
    rw [List.map_map]
    intro hmem
    obtain ⟨t, ht, rfl⟩ := List.mem_map.1 hmem
    exact hs ht

/-- A place is final when its set has a final member. -/
theorem isFinal_subsetTable {start : Int} {n : Nat} {S : StateSet}
    (h : (A.reachableSets start)[n]? = some S) :
    (A.subsetTable start).isFinal n = S.meets A.finals := by
  rw [Table.isFinal, Bool.eq_iff_iff, decide_eq_true_eq, subsetTable, StateSet.mem_ofList,
    List.mem_map]
  constructor
  · rintro ⟨⟨q, S'⟩, hmem, hq⟩
    rw [List.mem_filter] at hmem
    obtain ⟨m, rfl, hm⟩ := Table.mem_numbered.1 hmem.1
    obtain rfl : m = n := Int.ofNat_inj.1 hq
    rw [h, Option.some.injEq] at hm
    rw [hm]
    exact hmem.2
  · intro hfin
    exact ⟨((n : Int), S), List.mem_filter.2 ⟨Table.mem_numbered.2 ⟨n, rfl, h⟩, hfin⟩, rfl⟩

/-- The row at a place has the symbols of its set. -/
theorem keys_row_subsetTable {start : Int} {n : Nat} {S : StateSet}
    (h : (A.reachableSets start)[n]? = some S) :
    ((A.subsetTable start).row n).keys = A.symbolsOf S := by
  have hfst : ((A.symbolsOf S).map fun s =>
      (s, ((A.reachableSets start).idxOf (A.successor S s) : Int))).map Prod.fst
        = A.symbolsOf S := by
    rw [List.map_map]
    exact List.map_id _
  rw [row_subsetTable h, subsetRow, OrderedMap.keys_ofList_of_nodup, hfst]
  rw [hfst]
  exact nodup_sortedSymbols _

/-- A step leads from the number of a set to the number of its successor. -/
theorem exists_of_step?_subsetTable {start q r : Int} {s : String}
    (h : (A.subsetTable start).step? q s = some r) :
    ∃ (n m : Nat) (S : StateSet), q = n ∧ (A.reachableSets start)[n]? = some S ∧
      s ∈ A.symbolsOf S ∧ r = m ∧ (A.reachableSets start)[m]? = some (A.successor S s) := by
  obtain ⟨n, S, rfl, hS⟩ := mem_states_subsetTable.1 (Table.mem_states_of_step? h)
  rw [step?_subsetTable hS] at h
  split at h
  · rename_i hs
    rw [Option.some.injEq] at h
    have hmem := successor_mem_reachableSets (List.mem_of_getElem? hS) hs
    exact ⟨n, _, S, rfl, hS, hs, h.symm, List.getElem?_idxOf hmem⟩
  · simp at h

/-- The table has a row for every state that it leads to. -/
theorem closed_subsetTable (start : Int) : (A.subsetTable start).Closed where
  start := mem_states_subsetTable.2 ⟨0, _, rfl, getElem?_reachableSets_zero start⟩
  targets q s r h := by
    obtain ⟨_, m, S, -, -, -, rfl, hm⟩ := exists_of_step?_subsetTable h
    exact mem_states_subsetTable.2 ⟨m, _, rfl, hm⟩

/-- **The table follows the sets.**  From the number of a set it accepts what the automaton
accepts from the set. -/
theorem acceptsFrom_subsetTable {start : Int} {n : Nat} {S : StateSet}
    (h : (A.reachableSets start)[n]? = some S) (w : List String) :
    (A.subsetTable start).acceptsFrom n w = A.acceptsFromSet S w := by
  induction w generalizing n S with
  | nil =>
    show (A.subsetTable start).isFinal n = S.meets A.finals
    exact isFinal_subsetTable h
  | cons s w ih =>
    rw [Table.acceptsFrom, Table.outcome?_cons, step?_subsetTable h]
    by_cases hs : s ∈ A.symbolsOf S
    · rw [if_pos hs, Option.bind_some]
      have hmem := successor_mem_reachableSets (List.mem_of_getElem? h) hs
      exact ih (List.getElem?_idxOf hmem)
    · -- the table stops here, and the automaton goes on with the empty set
      rw [if_neg hs, acceptsFromSet, run_cons, successor_eq_empty hs]
      exact (acceptsFromSet_empty w).symm

/-! ## The language -/

/-- A valid automaton has a start state. -/
theorem exists_start_of_validate (hA : A.validate = .ok ()) : ∃ q, A.start = some q := by
  rw [validate] at hA
  cases hstart : A.start with
  | none => rw [hstart] at hA; simp at hA
  | some q => exact ⟨q, rfl⟩

/-- A valid automaton has the table of its start state. -/
theorem determinize_eq (hA : A.validate = .ok ()) {q : Int} (hq : A.start = some q) :
    A.determinize = .ok (A.subsetTable q) := by
  rw [determinize, hA, hq]

/-- An automaton accepts what the closed set of its start state does. -/
theorem accepts_eq {q : Int} (hq : A.start = some q) (word : String) :
    A.accepts word = .ok (A.acceptsFromSet (A.closure (.singleton q)) (spell word)) := by
  rw [accepts, hq]
  simp only [acceptsFrom, simulate_eq_acceptsFromSet]

/-- The table from the start state accepts the words of the automaton. -/
theorem accepts_subsetTable {q : Int} (hq : A.start = some q) (word : String) :
    A.accepts word = .ok ((A.subsetTable q).accepts word) := by
  have h := acceptsFrom_subsetTable (getElem?_reachableSets_zero (A := A) q) (spell word)
  rw [accepts_eq hq, Table.accepts, Table.acceptsSymbols_eq_acceptsFrom, ← h]
  rfl

/-- What is determinized is the table from the start state. -/
theorem exists_of_determinize {T : Table} (hT : A.determinize = .ok T) :
    ∃ q, A.start = some q ∧ A.subsetTable q = T := by
  rw [determinize] at hT
  cases hA : A.validate with
  | error v => rw [hA] at hT; cases hT
  | ok =>
    obtain ⟨q, hq⟩ := exists_start_of_validate hA
    rw [hA, hq] at hT
    exact ⟨q, hq, Except.ok.inj hT⟩

/-- **Determinization preserves the language.**  Every valid automaton has a table, which accepts
the words that the automaton accepts. -/
theorem accepts_determinize (hA : A.validate = .ok ()) :
    ∃ T, A.determinize = .ok T ∧ ∀ word, A.accepts word = .ok (T.accepts word) := by
  obtain ⟨q, hq⟩ := exists_start_of_validate hA
  exact ⟨A.subsetTable q, determinize_eq hA hq, accepts_subsetTable hq⟩

/-- An automaton with a cycle of epsilon transitions, a choice of targets, an entry without a
target and a state out of reach. -/
def epsilonCycle : Automaton :=
  ofParts "cycle" [-1, 0, 5, 9] (some 5) [0]
    [(5, [(.epsilon, [-1]), (.symbol "a", [5, 0]), (.symbol "c", [])]),
      (-1, [(.epsilon, [5]), (.symbol "b", [0])])]

theorem accepts_determinize_epsilonCycle :
    epsilonCycle.validate = .ok () ∧
      ∃ T, epsilonCycle.determinize = .ok T ∧
        ∀ word, epsilonCycle.accepts word = .ok (T.accepts word) :=
  ⟨rfl, accepts_determinize rfl⟩

end Automaton

end LexAutomata
