/-
# What the worklist fills in

The loop that fills a table while it meets sets ends with the table of the reachable sets
(`fills_iff`), which is what determinizing gives (`determinize_eq_ok_iff`).  At any time the sets
that were met are those of the search, in its order (`Worklist.filled`): numbers, final states
and noted sets are those of their places, the rows of visited sets are complete, and all other
rows are empty.  Meeting a set keeps this form (`number_filled`), and so does the filling of a
row (`visit_filled`); a row that is complete does not change when further sets are met, since the
places of the sets met before stay (`subsetRow_append`).
-/
import Mathlib.Logic.Function.Basic
import LexAutomata.Table.Worklist
import LexAutomata.Proofs.Table.Determinization

namespace LexAutomata

namespace Worklist

variable {A : Automaton}

/-! ## What the members of a set lead to -/

theorem get?_collect (moves : OrderedMap String StateSet) (e : Label × StateSet) (s : String) :
    (collect moves e).get? s
      = if e.1 = .symbol s then some ((moves.get? s).getD ∅ ∪ e.2) else moves.get? s := by
  obtain ⟨l, T⟩ := e
  cases l with
  | epsilon => simp [collect]
  | symbol t =>
    rw [collect, OrderedMap.get?_alter]
    by_cases h : s = t
    · simp [h]
    · simp [h, Ne.symm h]

/-- A symbol is collected when there is an entry for it. -/
theorem mem_keys_foldl_collect {moves : OrderedMap String StateSet} {es : List (Label × StateSet)}
    {s : String} : s ∈ (es.foldl collect moves).keys ↔
      s ∈ moves.keys ∨ ∃ T, (Label.symbol s, T) ∈ es := by
  induction es generalizing moves with
  | nil => simp
  | cons e es ih =>
    obtain ⟨l, T⟩ := e
    rw [List.foldl_cons, ih, OrderedMap.mem_keys_iff, OrderedMap.mem_keys_iff, get?_collect]
    by_cases h : l = .symbol s
    · simp [h]
    · simp [h, Ne.symm h]

/-- The targets that are collected for a symbol are those of its entries. -/
theorem mem_foldl_collect {moves : OrderedMap String StateSet} {es : List (Label × StateSet)}
    {s : String} {r : Int} : r ∈ ((es.foldl collect moves).get? s).getD ∅ ↔
      r ∈ (moves.get? s).getD ∅ ∨ ∃ T, (Label.symbol s, T) ∈ es ∧ r ∈ T := by
  induction es generalizing moves with
  | nil => simp
  | cons e es ih =>
    obtain ⟨l, T⟩ := e
    rw [List.foldl_cons, ih, get?_collect]
    by_cases h : l = .symbol s
    · simp [h, or_and_right, exists_or, or_assoc]
    · simp [h, Ne.symm h]

theorem moves_eq (A : Automaton) (S : StateSet) :
    moves A S = (S.toList.flatMap fun q => (A.row q).entries).foldl collect ∅ := by
  rw [moves, List.foldl_flatMap]

/-- **The symbols that are collected are those of the set.** -/
theorem sortedSymbols_keys_moves (A : Automaton) (S : StateSet) :
    sortedSymbols (moves A S).keys = A.symbolsOf S := by
  refine sortedSymbols_congr fun s => ?_
  rw [← mem_sortedSymbols (l := S.toList.flatMap _), ← Automaton.symbolsOf,
    Automaton.mem_symbolsOf, moves_eq, mem_keys_foldl_collect]
  simp only [List.mem_flatMap, OrderedMap.mem_keys_iff, OrderedMap.mem_entries_iff,
    OrderedMap.get?_empty, reduceCtorEq, exists_false, false_or]
  constructor
  · rintro ⟨T, q, hq, hT⟩
    exact ⟨q, hq, T, hT⟩
  · rintro ⟨q, hq, T, hT⟩
    exact ⟨T, q, hq, hT⟩

/-- **The targets that are collected for a symbol are what the set leads to.** -/
theorem getD_moves (A : Automaton) (S : StateSet) (s : String) :
    ((moves A S).get? s).getD ∅ = A.move S s := by
  refine StateSet.ext fun r => ?_
  rw [moves_eq, mem_foldl_collect, Automaton.mem_move]
  simp only [List.mem_flatMap, OrderedMap.mem_entries_iff, OrderedMap.get?_empty, Option.getD_none,
    StateSet.not_mem_empty, false_or]
  constructor
  · rintro ⟨T, ⟨q, hq, hT⟩, hr⟩
    refine ⟨q, hq, ?_⟩
    rw [Automaton.targets, hT]
    exact hr
  · rintro ⟨q, hq, hr⟩
    rw [Automaton.targets] at hr
    cases hT : (A.row q).get? (.symbol s) with
    | none =>
      rw [hT] at hr
      exact absurd hr (StateSet.not_mem_empty r)
    | some T =>
      rw [hT] at hr
      exact ⟨T, ⟨q, hq, hT⟩, hr⟩

/-! ## Filled worklists -/

/-- The worklist when the sets of a list were met, the rows are as given, and the sets of the queue
are still to be visited. -/
def filled (A : Automaton) (met : List StateSet) (row : StateSet → OrderedMap String Int)
    (queue : List StateSet) : Worklist where
  numbers := .ofList ((Table.numbered met).map fun e => (e.2, e.1))
  table :=
    { rows := .ofList ((Table.numbered met).map fun e => (e.1, row e.2))
      finals := .ofList (((Table.numbered met).filter fun e => e.2.meets A.finals).map Prod.fst)
      start := 0
      subsets := .ofList (Table.numbered met) }
  queue := queue

variable {met queue new : List StateSet} {row : StateSet → OrderedMap String Int} {S : StateSet}

theorem filled_congr {row' : StateSet → OrderedMap String Int} (h : ∀ S ∈ met, row S = row' S) :
    filled A met row queue = filled A met row' queue := by
  have hrows : (Table.numbered met).map (fun e => (e.1, row e.2))
      = (Table.numbered met).map fun e => (e.1, row' e.2) := by
    refine List.map_congr_left fun e he => ?_
    obtain ⟨n, -, hn⟩ := Table.mem_numbered.1 he
    rw [h e.2 (List.mem_of_getElem? hn)]
  rw [filled, filled, hrows]

theorem map_fst_swap_numbered (met : List StateSet) :
    ((Table.numbered met).map fun e => (e.2, e.1)).map Prod.fst = met := by
  rw [List.map_map]
  exact Table.map_snd_numbered met

/-- The sets that were met are those that have a number. -/
theorem keys_numbers_filled (hmet : met.Nodup) : (filled A met row queue).numbers.keys = met := by
  have hnodup := (map_fst_swap_numbered met).symm ▸ hmet
  rw [filled, OrderedMap.keys_ofList_of_nodup hnodup, map_fst_swap_numbered]

/-- The number of a set is its place. -/
theorem get?_numbers_filled_of_mem (hmet : met.Nodup) (hS : S ∈ met) :
    (filled A met row queue).numbers.get? S = some (met.idxOf S : Int) := by
  have hnodup := (map_fst_swap_numbered met).symm ▸ hmet
  refine (OrderedMap.get?_ofList_eq_some_iff hnodup).2 (List.mem_map.2 ⟨(_, S), ?_, rfl⟩)
  exact Table.mem_numbered.2 ⟨_, rfl, List.getElem?_idxOf hS⟩

/-- A set that is met for the first time comes last. -/
theorem filled_concat (hrow : row S = ∅) :
    filled A (met ++ [S]) row (queue ++ [S])
      = { numbers := (filled A met row queue).numbers.insert S met.length
          table := { (filled A met row queue).table with
            rows := (filled A met row queue).table.rows.insert met.length ∅
            finals := if S.meets A.finals
              then (filled A met row queue).table.finals.insert met.length
              else (filled A met row queue).table.finals
            subsets := (filled A met row queue).table.subsets.insert met.length S }
          queue := queue ++ [S] } := by
  simp only [filled, Table.numbered_concat, List.map_append, List.map_cons, List.map_nil,
    OrderedMap.ofList_concat, List.filter_append, hrow]
  by_cases hS : S.meets A.finals = true
  · simp [hS, StateSet.ofList, List.foldl_append]
  · simp [hS]

/-- **A set that is met is numbered**, and the sets that were met stay in the order of the
search. -/
theorem number_filled (hmet : met.Nodup) (hrow : ∀ U, ¬ U ∈ met → row U = ∅)
    (hnew : Graph.newcomers met [S] = new) :
    number A (filled A met row queue) S
      = (((met ++ new).idxOf S : Int), filled A (met ++ new) row (queue ++ new)) := by
  rw [number]
  by_cases hS : S ∈ met
  · obtain rfl : [] = new := by rw [← hnew, Graph.newcomers, if_pos hS, Graph.newcomers]
    rw [get?_numbers_filled_of_mem hmet hS, List.append_nil, List.append_nil]
  · obtain rfl : [S] = new := by rw [← hnew, Graph.newcomers, if_neg hS, Graph.newcomers]
    have hnone : (filled A met row queue).numbers.get? S = none := by
      rw [OrderedMap.get?_eq_none_iff, keys_numbers_filled hmet]
      exact hS
    have hsize : (filled A met row queue).numbers.size = met.length := by
      rw [OrderedMap.size, ← List.length_map, ← OrderedMap.keys, keys_numbers_filled hmet]
    have hidx : (met ++ [S]).idxOf S = met.length := by
      simp [List.idxOf_append, hS]
    rw [hnone, hidx]
    simp only [hsize]
    rw [filled_concat (hrow S hS)]
    rfl

/-! ## Filling a row -/

/-- The row at the place of a set is that of the set. -/
theorem get?_rows_filled_of_mem (hS : S ∈ met) :
    (filled A met row queue).table.rows.get? (met.idxOf S) = some (row S) :=
  Table.get?_ofList_numbered row (List.getElem?_idxOf hS)

theorem keys_rows_filled (A : Automaton) (met : List StateSet)
    (row : StateSet → OrderedMap String Int) (queue : List StateSet) :
    (filled A met row queue).table.rows.keys = (Table.numbered met).map Prod.fst :=
  Table.keys_ofList_numbered met row

/-- The rows have the places of the sets that were met. -/
theorem mem_keys_rows_filled (hmet : met.Nodup) {k : Int} :
    k ∈ (filled A met row queue).table.rows.keys ↔ ∃ S ∈ met, k = met.idxOf S := by
  rw [keys_rows_filled, List.mem_map]
  constructor
  · rintro ⟨⟨k, S⟩, hk, rfl⟩
    obtain ⟨n, rfl, hn⟩ := Table.mem_numbered.1 hk
    exact ⟨S, List.mem_of_getElem? hn, by rw [idxOf_eq_of_getElem? hmet hn]⟩
  · rintro ⟨S, hS, rfl⟩
    exact ⟨(_, S), Table.mem_numbered.2 ⟨_, rfl, List.getElem?_idxOf hS⟩, rfl⟩

/-- Altering the row at the place of a set alters the row of that set. -/
theorem alter_rows_filled (hmet : met.Nodup) (hS : S ∈ met)
    (f : Option (OrderedMap String Int) → OrderedMap String Int) :
    (filled A met row queue).table.rows.alter (met.idxOf S) f
      = (filled A met (Function.update row S (f (some (row S)))) queue).table.rows := by
  refine OrderedMap.ext_get? ?_ fun k => ?_
  · rw [OrderedMap.keys_alter, if_pos ((mem_keys_rows_filled hmet).2 ⟨S, hS, rfl⟩),
      keys_rows_filled, keys_rows_filled]
  · rw [OrderedMap.get?_alter, get?_rows_filled_of_mem hS]
    by_cases hk : ∃ U ∈ met, k = met.idxOf U
    · obtain ⟨U, hU, rfl⟩ := hk
      rw [get?_rows_filled_of_mem hU, get?_rows_filled_of_mem hU]
      by_cases hUS : U = S
      · rw [hUS, if_pos rfl, Function.update_self]
      · -- different sets have different places
        have hplace : ¬ (met.idxOf U : Int) = met.idxOf S := by
          rw [Int.ofNat_inj, List.idxOf_inj hU]
          exact hUS
        rw [if_neg hplace, Function.update_of_ne hUS]
    · have hnone : ∀ row', (filled A met row' queue).table.rows.get? k = none := fun row' =>
        OrderedMap.get?_eq_none_iff.2 (mt (mem_keys_rows_filled hmet).1 hk)
      rw [if_neg fun h => hk ⟨S, hS, h⟩, hnone, hnone]

/-- A symbol is entered into a row with the number of the set that it leads to. -/
theorem enter_filled {targets : String → StateSet} (hmet : met.Nodup) (hS : S ∈ met)
    (hrow : ∀ U, ¬ U ∈ met → row U = ∅) (s : String)
    (hnew : Graph.newcomers met [A.closure (targets s)] = new) :
    enter A (met.idxOf S) targets (filled A met row queue) s
      = filled A (met ++ new)
          (Function.update row S ((row S).insert s ((met ++ new).idxOf (A.closure (targets s)))))
          (queue ++ new) := by
  have hnodup : (met ++ new).Nodup := hnew ▸ Graph.nodup_append_newcomers hmet _
  have hplace : (met ++ new).idxOf S = met.idxOf S := by rw [List.idxOf_append, if_pos hS]
  rw [enter, number_filled hmet hrow hnew]
  simp only
  rw [← hplace, alter_rows_filled hnodup (List.mem_append_left new hS)]
  rfl

/-- **The symbols are entered into a row one after the other**, and the sets that they lead to are
met in this order. -/
theorem foldl_enter_filled {targets : String → StateSet} {ss : List String} (hmet : met.Nodup)
    (hS : S ∈ met) (hrow : ∀ U, ¬ U ∈ met → row U = ∅)
    (hnew : Graph.newcomers met (ss.map fun s => A.closure (targets s)) = new) :
    ss.foldl (enter A (met.idxOf S) targets) (filled A met row queue)
      = filled A (met ++ new)
          (Function.update row S (ss.foldl
            (fun r s => r.insert s ((met ++ new).idxOf (A.closure (targets s)))) (row S)))
          (queue ++ new) := by
  induction ss generalizing met row queue new with
  | nil =>
    obtain rfl : [] = new := hnew
    rw [List.foldl_nil, List.foldl_nil, Function.update_eq_self, List.append_nil, List.append_nil]
  | cons s ss ih =>
    -- the first symbol may lead to a set that is new, and the others to further ones
    generalize hfirst : Graph.newcomers met [A.closure (targets s)] = first
    generalize hmore : Graph.newcomers (met ++ first) (ss.map fun s => A.closure (targets s)) = more
    have hparts : new = first ++ more := by
      rw [← hnew, List.map_cons, ← List.singleton_append, Graph.newcomers_append,
        ← Graph.newcomers_append_newcomers, hfirst, hmore]
    have hnodup : (met ++ first).Nodup := hfirst ▸ Graph.nodup_append_newcomers hmet _
    have hplace : (met ++ first).idxOf S = met.idxOf S := by rw [List.idxOf_append, if_pos hS]
    have hin : A.closure (targets s) ∈ met ++ first :=
      hfirst ▸ Graph.mem_append_newcomers List.mem_cons_self
    have hset : (met ++ first ++ more).idxOf (A.closure (targets s))
        = (met ++ first).idxOf (A.closure (targets s)) := by rw [List.idxOf_append, if_pos hin]
    have hrow' : ∀ U, ¬ U ∈ met ++ first → Function.update row S
        ((row S).insert s ((met ++ first).idxOf (A.closure (targets s)))) U = ∅ := by
      intro U hU
      rw [List.mem_append, not_or] at hU
      have hUS : ¬ U = S := by
        rintro rfl
        exact hU.1 hS
      rw [Function.update_of_ne hUS]
      exact hrow U hU.1
    rw [List.foldl_cons, enter_filled hmet hS hrow s hfirst, ← hplace,
      ih hnodup (List.mem_append_left first hS) hrow' hmore, Function.update_idem,
      Function.update_self, ← hset, hparts, List.foldl_cons, ← List.append_assoc,
      ← List.append_assoc]

/-- A row that is complete is not changed by further sets. -/
theorem subsetRow_append (h : ∀ T ∈ A.subsetGraph.successors S, T ∈ met) (new : List StateSet) :
    A.subsetRow (met ++ new) S = A.subsetRow met S := by
  rw [Automaton.subsetRow, Automaton.subsetRow]
  congr 1
  refine List.map_congr_left fun s hs => ?_
  rw [List.idxOf_append, if_pos (h _ (Automaton.mem_successors_subsetGraph hs))]

/-- **Visiting a set completes its row**, and queues the sets that are met for the first time. -/
theorem visit_filled (hmet : met.Nodup) (hS : S ∈ met) (hrow : ∀ U, ¬ U ∈ met → row U = ∅)
    (hempty : row S = ∅) (hnew : Graph.newcomers met (A.subsetGraph.successors S) = new) :
    visit A (met.idxOf S) S (filled A met row queue)
      = filled A (met ++ new) (Function.update row S (A.subsetRow (met ++ new) S))
          (queue ++ new) := by
  have hsuccessor : ∀ s, A.closure (((moves A S).get? s).getD ∅) = A.successor S s := fun s => by
    rw [getD_moves, Automaton.successor]
  have hnew' : Graph.newcomers met
      ((A.symbolsOf S).map fun s => A.closure (((moves A S).get? s).getD ∅)) = new := by
    simp only [hsuccessor]
    exact hnew
  rw [visit, sortedSymbols_keys_moves, foldl_enter_filled hmet hS hrow hnew', hempty,
    Automaton.subsetRow, OrderedMap.ofList, List.foldl_map]
  simp only [hsuccessor]

/-! ## The loop -/

/-- The loop ends with one table. -/
theorem Fills.unique {w : Worklist} {T T' : Table} (h : Fills A w T) (h' : Fills A w T') :
    T = T' := by
  induction h with
  | done hqueue =>
    cases h' with
    | done => rfl
    | turn hqueue' => cases hqueue.symm.trans hqueue'
  | turn hqueue hnumber _ _ ih =>
    cases h' with
    | done hqueue' => cases hqueue'.symm.trans hqueue
    | turn hqueue' hnumber' _ h' =>
      cases hqueue.symm.trans hqueue'
      cases hnumber.symm.trans hnumber'
      exact ih h'

/-- When the rows of the visited sets are complete, the loop goes on to the table of all that the
search finds. -/
theorem fills_searchFrom (visited : List StateSet) (hlist : met = visited ++ queue)
    (hmet : met.Nodup) (hexplored : A.subsetGraph.Explored visited met)
    (hvisited : ∀ U ∈ visited, row U = A.subsetRow met U)
    (hothers : ∀ U, ¬ U ∈ visited → row U = ∅) :
    Fills A (filled A met row queue)
      (filled A (A.subsetGraph.searchFrom met queue)
        (A.subsetRow (A.subsetGraph.searchFrom met queue)) []).table := by
  fun_induction Graph.searchFrom A.subsetGraph met queue generalizing visited row with
  | case1 met =>
    rw [List.append_nil] at hlist
    subst hlist
    rw [← filled_congr hvisited]
    exact .done rfl
  | case2 met S rest new =>
    rename_i ih
    have hS : S ∈ met := by simp [hlist]
    have hunvisited : ¬ S ∈ visited := by
      rw [hlist, List.nodup_append] at hmet
      exact fun h => hmet.2.2 S h S List.mem_cons_self rfl
    have hunmet : ∀ U, ¬ U ∈ met → row U = ∅ := fun U hU =>
      hothers U fun h => hU (hlist ▸ List.mem_append_left _ h)
    refine .turn rfl (get?_numbers_filled_of_mem hmet hS) ?_ ?_
    · rw [OrderedMap.contains, get?_rows_filled_of_mem hS]
      rfl
    · have hqueue : { filled A met row (S :: rest) with queue := rest } = filled A met row rest :=
        rfl
      rw [hqueue, visit_filled hmet hS hunmet (hothers S hunvisited) rfl]
      refine ih (visited ++ [S]) (by simp [hlist]) (Graph.nodup_append_newcomers hmet _) ?_ ?_ ?_
      · subst hlist
        exact hexplored.visit
      · intro U hU
        by_cases hUS : U = S
        · rw [hUS, Function.update_self]
        · -- the rows of the sets visited before are complete, and stay so
          have hU : U ∈ visited := by simpa [hUS] using hU
          rw [Function.update_of_ne hUS, hvisited U hU, subsetRow_append (hexplored U hU)]
      · intro U hU
        rw [List.mem_append, not_or, List.mem_singleton] at hU
        rw [Function.update_of_ne hU.2]
        exact hothers U hU.1

/-- **The loop ends with the table of the reachable sets**, and every number and every row that it
looks up is there. -/
theorem fills_iff {start : Int} {T : Table} :
    Fills A (begin A start) T ↔ T = A.subsetTable start := by
  have hbegin : begin A start = filled A [A.closure (.singleton start)] (fun _ => ∅)
      [A.closure (.singleton start)] := by
    have hnumber : number A (filled A [] (fun _ => ∅) []) (A.closure (.singleton start))
        = (0, filled A [A.closure (.singleton start)] (fun _ => ∅)
          [A.closure (.singleton start)]) := by
      rw [number_filled List.nodup_nil (fun _ _ => rfl) rfl]
      simp [Graph.newcomers]
    rw [begin, show ({} : Worklist) = filled A [] (fun _ => ∅) [] from rfl, hnumber]
    rfl
  have hfills : Fills A (begin A start) (A.subsetTable start) := by
    rw [hbegin]
    exact fills_searchFrom [] rfl (by simp) (by simp [Graph.Explored]) (by simp)
      fun _ _ => rfl
  exact ⟨fun h => h.unique hfills, fun h => h ▸ hfills⟩

end Worklist

/-- **The table of a valid automaton is what the loop fills in**, from the start state on. -/
theorem Automaton.determinize_eq_ok_iff {A : Automaton} {T : Table} :
    A.determinize = .ok T ↔
      A.validate = .ok () ∧ ∃ q, A.start = some q ∧ Worklist.Fills A (Worklist.begin A q) T := by
  simp only [Worklist.fills_iff, determinize]
  cases A.validate with
  | error v => simp
  | ok u =>
    cases A.start with
    | none => simp
    | some q => simp [eq_comm]

end LexAutomata
