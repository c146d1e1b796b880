/-
# The canonical form of an automaton

The subset construction searches the reachable sets in ascending order of the symbols.
If final states are within reach of all sets, the symbols of a set are those of its
residual, so that the residuals are found in an order that they determine themselves
(`finds_residuals`).  Together with the order of the groups this leaves no trace of the
automaton: automata that accept the same words have equal residuals in the same order,
and equal minimal tables (`minimize_determinize_eq`).
-/
import Mathlib
import LexAutomata.Proofs.Table.Determinization
import LexAutomata.Proofs.Table.Minimality
import LexAutomata.Proofs.Table.Residual

namespace LexAutomata

namespace Automaton

variable {A B : Automaton}

/-! ## Automata of characters -/

/-- Every symbol of the alphabet is one character. -/
def OneCharacter (A : Automaton) : Prop := ∀ s ∈ A.alphabet, s.length = 1

/-- The symbols of a row belong to the alphabet. -/
theorem mem_alphabet_of_mem_keys {q : Int} {s : String}
    (h : Label.symbol s ∈ (A.row q).keys) : s ∈ A.alphabet := by
  rw [alphabet, mem_sortedSymbols, List.mem_filterMap]
  rw [row] at h
  cases hrow : A.rows.get? q with
  | none =>
    rw [hrow] at h
    exact absurd h List.not_mem_nil
  | some row =>
    rw [hrow] at h
    have hvalues : row ∈ A.rows.values :=
      List.mem_map.2 ⟨(q, row), OrderedMap.mem_entries_iff.2 hrow, rfl⟩
    exact ⟨.symbol s, List.mem_flatMap.2 ⟨row, hvalues, h⟩, rfl⟩

/-- The symbols of the table are single characters when those of the automaton are. -/
theorem oneCharacter_subsetTable (hA : A.OneCharacter) (start : Int) :
    (A.subsetTable start).OneCharacter := by
  rintro ⟨q, s, r⟩ ht
  obtain ⟨n, m, S, -, -, hs, -⟩ := exists_of_step?_subsetTable (Table.mem_transitions_iff.1 ht)
  obtain ⟨p, -, hp⟩ := mem_symbolsOf.1 hs
  exact hA s (mem_alphabet_of_mem_keys hp)

/-! ## The residuals of the reachable sets -/

/-- The table has its states and symbols in ascending order. -/
theorem ascending_subsetTable (start : Int) : (A.subsetTable start).Ascending where
  start_le q hq := by
    obtain ⟨n, S, rfl, -⟩ := mem_states_subsetTable.1 hq
    exact Int.natCast_nonneg n
  symbols q hq := by
    obtain ⟨n, S, rfl, hn⟩ := mem_states_subsetTable.1 hq
    rw [keys_row_subsetTable hn]
    exact pairwise_sortedSymbols _

/-- The states are the places of the reachable sets. -/
theorem toList_states_subsetTable (start : Int) :
    (A.subsetTable start).states.toList
      = (Table.numbered (A.reachableSets start)).map Prod.fst :=
  Table.toList_states_eq (Table.keys_ofList_numbered _ _)

/-- The residuals of the table are those of the reachable sets. -/
theorem residuals_subsetTable (start : Int) :
    (A.subsetTable start).residuals
      = Graph.newcomers [] ((A.reachableSets start).map A.acceptsFromSet) := by
  have hmap : (Table.numbered (A.reachableSets start)).map
        (fun e => (A.subsetTable start).acceptsFrom e.1)
      = (Table.numbered (A.reachableSets start)).map fun e => A.acceptsFromSet e.2 := by
    apply List.map_congr_left
    rintro ⟨q, S⟩ he
    obtain ⟨n, rfl, hn⟩ := Table.mem_numbered.1 he
    funext w
    exact acceptsFrom_subsetTable hn w
  have hsets := congrArg (List.map A.acceptsFromSet)
    (Table.map_snd_numbered (A.reachableSets start))
  rw [List.map_map] at hsets
  rw [Table.residuals, toList_states_subsetTable, List.map_map, ← hsets]
  exact congrArg _ hmap

/-- Where final states are within reach, the residuals that a set leads to are determined by its
own. -/
theorem map_successors_subsetGraph {start : Int} (hco : (A.subsetTable start).Coaccessible)
    {S : StateSet} (hS : S ∈ A.reachableSets start) :
    (A.subsetGraph.successors S).map A.acceptsFromSet = Residual.next (A.acceptsFromSet S) := by
  obtain ⟨n, hn⟩ := List.getElem?_of_mem hS
  have hres : (A.subsetTable start).acceptsFrom n = A.acceptsFromSet S :=
    funext (acceptsFrom_subsetTable hn)
  have hsymbols := Table.keys_row_eq_symbols (closed_subsetTable start).targets hco
    (ascending_subsetTable start) (mem_states_subsetTable.2 ⟨n, S, rfl, hn⟩)
  rw [hres, keys_row_subsetTable hn] at hsymbols
  calc (A.subsetGraph.successors S).map A.acceptsFromSet
      = (A.symbolsOf S).map (Residual.after (A.acceptsFromSet S)) := List.map_map
    _ = Residual.next (A.acceptsFromSet S) := by rw [Residual.next, hsymbols]

/-- **The residuals are found by a search of their own**, which begins with the residual of the
start state. -/
theorem finds_residuals {start : Int} (hco : (A.subsetTable start).Coaccessible) :
    Graph.Finds Residual.next [(A.subsetTable start).acceptsFrom (A.subsetTable start).start]
      [(A.subsetTable start).acceptsFrom (A.subsetTable start).start]
      (A.subsetTable start).residuals := by
  have hnext : ∀ S, A.subsetGraph.Reaches [A.closure (.singleton start)] S →
      (A.subsetGraph.successors S).map A.acceptsFromSet = Residual.next (A.acceptsFromSet S) :=
    fun S hS => map_successors_subsetGraph hco (mem_reachableSets_iff.2 hS)
  have hfinds := Graph.finds_map_search hnext
  have hstart : (A.subsetTable start).acceptsFrom (A.subsetTable start).start
      = A.acceptsFromSet (A.closure (.singleton start)) :=
    funext (acceptsFrom_subsetTable (getElem?_reachableSets_zero start))
  have hone : Graph.newcomers [] ([A.closure (.singleton start)].map A.acceptsFromSet)
      = [A.acceptsFromSet (A.closure (.singleton start))] :=
    Graph.newcomers_eq_self (List.pairwise_singleton _ _) fun _ _ => List.not_mem_nil
  -- the one starting point has one image
  rw [hone] at hfinds
  rw [hstart, residuals_subsetTable]
  exact hfinds

/-! ## The canonical form -/

/-- Minimizing gives the table of the residuals when every state leads to a final one. -/
theorem minimize_subsetTable {start : Int} (hco : (A.subsetTable start).Coaccessible) :
    (A.subsetTable start).minimize .targetGroup
      = .ok (.ofResiduals (A.subsetTable start).residuals
          ((A.subsetTable start).acceptsFrom (A.subsetTable start).start)) := by
  rw [Table.minimize_eq (closed_subsetTable start),
    Table.quotient_eq_ofResiduals (closed_subsetTable start) hco (ascending_subsetTable start)]

/-- **The minimal table is a canonical form.**  Valid automata of characters that accept the same
words, and whose tables can reach a final state from everywhere, have equal minimal tables. -/
theorem minimize_determinize_eq (hA : A.validate = .ok ()) (hB : B.validate = .ok ())
    (hAchars : A.OneCharacter) (hBchars : B.OneCharacter)
    (hAB : ∀ word, A.accepts word = B.accepts word)
    (hAco : ∀ S, A.determinize = .ok S → S.Coaccessible)
    (hBco : ∀ T, B.determinize = .ok T → T.Coaccessible) :
    ∃ S T M, A.determinize = .ok S ∧ B.determinize = .ok T ∧
      S.minimize .targetGroup = .ok M ∧ T.minimize .targetGroup = .ok M := by
  obtain ⟨p, hp⟩ := exists_start_of_validate hA
  obtain ⟨q, hq⟩ := exists_start_of_validate hB
  have hAdet := determinize_eq hA hp
  have hBdet := determinize_eq hB hq
  have hwords : ∀ word, (A.subsetTable p).accepts word = (B.subsetTable q).accepts word := by
    intro word
    have h := hAB word
    rw [accepts_subsetTable hp, accepts_subsetTable hq, Except.ok.injEq] at h
    exact h
  -- the searches begin with the same residual, so they find the same ones in the same order
  have hstart : (A.subsetTable p).acceptsFrom (A.subsetTable p).start
      = (B.subsetTable q).acceptsFrom (B.subsetTable q).start :=
    (oneCharacter_subsetTable hAchars p).acceptsFrom_eq (oneCharacter_subsetTable hBchars q)
      fun _ => Table.acceptsFrom_start_eq hwords
  have hAfinds := finds_residuals (hAco _ hAdet)
  rw [hstart] at hAfinds
  have hresiduals := hAfinds.unique (finds_residuals (hBco _ hBdet))
  refine ⟨_, _, _, hAdet, hBdet, minimize_subsetTable (hAco _ hAdet), ?_⟩
  rw [minimize_subsetTable (hBco _ hBdet), hstart, hresiduals]

/-- Reads the letter a in one state. -/
def steady : Automaton := ofParts "steady" [5] (some 5) [5] [(5, [(.symbol "a", [5])])]

/-- Reads the letter a in two sets of states by turns. -/
def turning : Automaton :=
  ofParts "turning" [-1, 0, 8] (some 8) [0, 8]
    [(8, [(.symbol "a", [-1])]), (-1, [(.epsilon, [0])]), (0, [(.symbol "a", [8])])]

/-- The table of the first automaton has one state. -/
theorem determinize_steady : steady.determinize = .ok
    { Table.ofParts [(0, [("a", 0)])] [0] 0 with
      subsets := .ofList [(0, .ofList [5])] } := by
  cbv

/-- The table of the second automaton has two states. -/
theorem determinize_turning : turning.determinize = .ok
    { Table.ofParts [(0, [("a", 1)]), (1, [("a", 0)])] [0, 1] 0 with
      subsets := .ofList [(0, .ofList [8]), (1, .ofList [-1, 0])] } := by
  cbv

/-- Where all states are final and lead to each other under one symbol alone, what is accepted are
the repetitions of this symbol. -/
theorem acceptsFrom_eq_all {T : Table} {s : String} (hfinal : ∀ q ∈ T.states, T.isFinal q = true)
    (hstep : ∀ q ∈ T.states, ∃ r ∈ T.states,
      ∀ t, T.step? q t = if s = t then some r else none) {q : Int} (hq : q ∈ T.states)
    (w : List String) : T.acceptsFrom q w = w.all fun t => decide (s = t) := by
  induction w generalizing q with
  | nil => exact hfinal q hq
  | cons t w ih =>
    obtain ⟨r, hr, hqr⟩ := hstep q hq
    rw [Table.acceptsFrom, Table.outcome?_cons, hqr, List.all_cons]
    by_cases hst : s = t
    · rw [if_pos hst, Option.bind_some, decide_eq_true hst, Bool.true_and]
      exact ih hr
    · rw [if_neg hst, Option.bind_none, decide_eq_false hst, Bool.false_and]
      rfl

/-- An automaton whose table knows one symbol and final states only accepts the repetitions of this
symbol. -/
theorem accepts_eq_all {T : Table} {s : String} (hT : A.determinize = .ok T)
    (hfinal : ∀ q ∈ T.states, T.isFinal q = true)
    (hstep : ∀ q ∈ T.states, ∃ r ∈ T.states,
      ∀ t, T.step? q t = if s = t then some r else none) (word : String) :
    A.accepts word = .ok ((spell word).all fun t => decide (s = t)) := by
  obtain ⟨q, hq, rfl⟩ := exists_of_determinize hT
  rw [accepts_subsetTable hq, Table.accepts, Table.acceptsSymbols_eq_acceptsFrom,
    acceptsFrom_eq_all hfinal hstep (closed_subsetTable q).start]

theorem accepts_steady_eq_accepts_turning (word : String) :
    steady.accepts word = turning.accepts word := by
  rw [accepts_eq_all (s := "a") determinize_steady (by decide),
    accepts_eq_all (s := "a") determinize_turning (by decide)]
  · show ∀ q ∈ [0, 1], _
    simp only [List.mem_cons, List.not_mem_nil, or_false, forall_eq_or_imp, forall_eq]
    exact ⟨⟨1, by decide, fun _ => rfl⟩, ⟨0, by decide, fun _ => rfl⟩⟩
  · show ∀ q ∈ [0], _
    simp only [List.mem_singleton, forall_eq]
    exact ⟨0, by decide, fun _ => rfl⟩

theorem oneCharacter_steady_turning : steady.OneCharacter ∧ turning.OneCharacter := by
  have halphabet : steady.alphabet = ["a"] ∧ turning.alphabet = ["a"] := by cbv
  rw [OneCharacter, OneCharacter, halphabet.1, halphabet.2]
  decide

/-- All states of either table are final. -/
theorem coaccessible_steady_turning :
    (∀ S, steady.determinize = .ok S → S.Coaccessible) ∧
      ∀ T, turning.determinize = .ok T → T.Coaccessible := by
  have hfinal : ∀ T : Table, (∀ q ∈ T.states, T.isFinal q = true) → T.Coaccessible :=
    fun T h q hq => ⟨[], h q hq⟩
  constructor
  · intro S hS
    obtain rfl := Except.ok.inj (determinize_steady.symm.trans hS)
    exact hfinal _ (by decide)
  · intro T hT
    obtain rfl := Except.ok.inj (determinize_turning.symm.trans hT)
    exact hfinal _ (by decide)

theorem minimize_determinize_steady_turning :
    (steady.validate = .ok () ∧ turning.validate = .ok ()) ∧
      (steady.OneCharacter ∧ turning.OneCharacter) ∧
      (∀ word, steady.accepts word = turning.accepts word) ∧
      ((∀ S, steady.determinize = .ok S → S.Coaccessible) ∧
        ∀ T, turning.determinize = .ok T → T.Coaccessible) ∧
      ∃ S T M, steady.determinize = .ok S ∧ turning.determinize = .ok T ∧
        S.minimize .targetGroup = .ok M ∧ T.minimize .targetGroup = .ok M := by
  have hchars := oneCharacter_steady_turning
  have hwords := accepts_steady_eq_accepts_turning
  have hco := coaccessible_steady_turning
  exact ⟨⟨rfl, rfl⟩, hchars, hwords, hco,
    minimize_determinize_eq rfl rfl hchars.1 hchars.2 hwords hco.1 hco.2⟩

end Automaton

end LexAutomata
