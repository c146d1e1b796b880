/-
# Tables of renamed automata

The table of an automaton does not depend on the names of the automaton's states.  The sets
that are reached are the renamed sets, in the same order (`reachableSets_rename`), so they
have the same numbers and the same rows, and the table of the renamed automaton differs in
nothing but the sets that are noted beside it (`subsetTable_rename`).  Minimizing does not
look at these (`minimize_withSubsets`).
-/
import LexAutomata.Proofs.Automaton.Renaming

namespace LexAutomata

/-- Different elements that keep different images have images at the same places. -/
theorem idxOf_map_of_forall {α β : Type} [DecidableEq α] [DecidableEq β] {g : α → β} {l : List α}
    {a : α} (h : ∀ b ∈ l, g b = g a → b = a) : (l.map g).idxOf (g a) = l.idxOf a := by
  induction l with
  | nil => rfl
  | cons b l ih =>
    rw [List.forall_mem_cons] at h
    rw [List.map_cons]
    by_cases hb : b = a
    · rw [hb, List.idxOf_cons_self, List.idxOf_cons_self]
    · rw [List.idxOf_cons_ne _ hb, List.idxOf_cons_ne _ fun hg => hb (h.1 hg), ih h.2]

/-- Values may be changed before or after they are entered, if no key is repeated. -/
theorem OrderedMap.ofList_map_values {α β γ : Type} [DecidableEq α] {es : List (α × β)}
    (hes : (es.map Prod.fst).Nodup) (g : β → γ) :
    ofList (es.map fun e => (e.1, g e.2)) = (ofList es).mapValues fun _ => g := by
  have hfst : (es.map fun e => (e.1, g e.2)).map Prod.fst = es.map Prod.fst := by
    rw [List.map_map]
    rfl
  apply ext_entries
  rw [entries_ofList (hfst ▸ hes)]
  exact congrArg (List.map fun e => (e.1, g e.2)) (entries_ofList hes).symm

theorem Table.numbered_map {α β : Type} (g : α → β) (l : List α) :
    numbered (l.map g) = (numbered l).map fun e => (e.1, g e.2) := by
  rw [numbered, List.zipIdx_map, List.map_map, numbered, List.map_map]
  rfl

namespace Automaton

variable {A : Automaton} {f : Int → Int} {start : Int} {S : StateSet}

/-- The sets that are reached hold mentioned states. -/
theorem mem_mentioned_of_mem_reachableSets (hA : A.Valid) (hstart : start ∈ A.mentioned)
    (hS : S ∈ A.reachableSets start) : ∀ q ∈ S, q ∈ A.mentioned := by
  rw [mem_reachableSets_iff] at hS
  induction hS with
  | start h =>
    obtain rfl := List.mem_singleton.1 h
    refine mem_mentioned_of_mem_closure hA fun q hq => ?_
    rwa [StateSet.mem_singleton.1 hq]
  | step _ h =>
    obtain ⟨s, -, rfl⟩ := List.mem_map.1 h
    exact mem_mentioned_of_mem_closure hA (mem_mentioned_of_mem_move hA)

section

variable (hA : A.Valid) (hf : Set.InjOn f A.mentioned) (hstart : start ∈ A.mentioned)
include hA hf hstart

/-- **The reached sets of a renamed automaton are the renamed sets**, in the same order. -/
theorem reachableSets_rename :
    (A.rename f).reachableSets (f start) = (A.reachableSets start).map (StateSet.image f) := by
  have hmem : ∀ {S}, A.subsetGraph.Reaches [A.closure (.singleton start)] S →
      ∀ q ∈ S, q ∈ A.mentioned := fun hS =>
    mem_mentioned_of_mem_reachableSets hA hstart (mem_reachableSets_iff.2 hS)
  have hclosure : (A.rename f).closure (.singleton (f start))
      = (A.closure (.singleton start)).image f := by
    rw [← StateSet.image_singleton]
    refine closure_rename hA hf fun q hq => ?_
    rwa [StateSet.mem_singleton.1 hq]
  rw [reachableSets, hclosure, ← List.map_singleton]
  refine Graph.search_map (List.nodup_singleton _) (fun S hS => ?_)
    fun S T hS hT => StateSet.image_inj hf (hmem hS) (hmem hT)
  have hsuccessor : (A.rename f).successor (S.image f) = fun s => (A.successor S s).image f :=
    funext (successor_rename hA hf (hmem hS))
  change ((A.rename f).symbolsOf (S.image f)).map ((A.rename f).successor (S.image f))
    = ((A.symbolsOf S).map (A.successor S)).map (StateSet.image f)
  rw [symbolsOf_rename hf (hmem hS), hsuccessor, List.map_map]
  rfl

/-- The row of a renamed set leads to the same numbers. -/
theorem subsetRow_rename (hS : S ∈ A.reachableSets start) :
    (A.rename f).subsetRow ((A.reachableSets start).map (StateSet.image f)) (S.image f)
      = A.subsetRow (A.reachableSets start) S := by
  have hmem : ∀ {T}, T ∈ A.reachableSets start → ∀ q ∈ T, q ∈ A.mentioned := fun hT =>
    mem_mentioned_of_mem_reachableSets hA hstart hT
  rw [subsetRow, subsetRow, symbolsOf_rename hf (hmem hS)]
  refine congrArg OrderedMap.ofList (List.map_congr_left fun s hs => ?_)
  have hT := successor_mem_reachableSets hS hs
  rw [successor_rename hA hf (hmem hS), idxOf_map_of_forall fun U hU =>
    StateSet.image_inj hf (hmem hU) (hmem hT)]

/-- **The table of a renamed automaton** is the table of the automaton, with renamed sets noted
beside it. -/
theorem subsetTable_rename (hfinals : ∀ q ∈ A.finals, q ∈ A.mentioned) :
    (A.rename f).subsetTable (f start)
      = { A.subsetTable start with
          subsets := (A.subsetTable start).subsets.mapValues fun _ S => S.image f } := by
  have hset : ∀ {e}, e ∈ Table.numbered (A.reachableSets start) → e.2 ∈ A.reachableSets start := by
    intro e he
    rw [← Table.map_snd_numbered (A.reachableSets start)]
    exact List.mem_map_of_mem he
  rw [subsetTable, reachableSets_rename hA hf hstart, Table.numbered_map, subsetTable]
  congr 1
  · -- the rows
    rw [List.map_map]
    refine congrArg OrderedMap.ofList (List.map_congr_left fun e he => ?_)
    exact congrArg (Prod.mk e.1) (subsetRow_rename hA hf hstart (hset he))
  · -- the final states
    have hmeets : ∀ e ∈ Table.numbered (A.reachableSets start),
        (e.2.image f).meets (A.finals.image f) = e.2.meets A.finals := fun e he =>
      StateSet.meets_image hf (mem_mentioned_of_mem_reachableSets hA hstart (hset he)) hfinals
    rw [List.filter_map, List.map_map]
    refine congrArg (fun l => StateSet.ofList (List.map Prod.fst l)) (List.filter_congr hmeets)
  · -- the sets that are noted
    exact OrderedMap.ofList_map_values (Table.nodup_map_fst_numbered _) (StateSet.image f)

end

/-- **Determinization does not depend on the names of the states**, except for the sets of states
that are noted beside the table. -/
theorem determinize_rename (hA : A.validate = .ok ()) (hf : Set.InjOn f A.mentioned) :
    ∃ T, A.determinize = .ok T ∧ (A.rename f).determinize
      = .ok { T with subsets := T.subsets.mapValues fun _ S => S.image f } := by
  have hvalid := validate_eq_ok_iff.1 hA
  obtain ⟨q, hq, hstart⟩ := hvalid.start
  refine ⟨A.subsetTable q, determinize_eq hA hstart, ?_⟩
  rw [determinize_eq (validate_eq_ok_iff.2 (valid_rename hvalid hf))
    (congrArg (Option.map f) hstart), subsetTable_rename hvalid hf (Or.inl hq)
    fun p hp => Or.inl (hvalid.finals p hp)]

end Automaton

namespace Table

variable (T : Table) (subsets : OrderedMap Int StateSet)

theorem stabilize_withSubsets (P : Partition) (criterion : Criterion) :
    P.stabilize criterion { T with subsets } = P.stabilize criterion T := by
  fun_induction Partition.stabilize P criterion T with
  | case1 P finer h =>
    rw [Partition.stabilize]
    exact if_pos h
  | case2 P finer h ih =>
    rw [Partition.stabilize]
    exact (if_neg h).trans ih

/-- **Minimizing does not look at the sets that are noted beside a table.** -/
theorem minimize_withSubsets (criterion : Criterion) :
    Table.minimize { T with subsets } criterion = T.minimize criterion := by
  have hgroups : Table.groups { T with subsets } criterion = T.groups criterion :=
    stabilize_withSubsets T subsets T.acceptanceGroups criterion
  rw [minimize, minimize, hgroups]
  rfl

end Table

end LexAutomata
