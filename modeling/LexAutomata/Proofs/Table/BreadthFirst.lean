/-
# Tables that are numbered breadth first

The subset construction lists the start state and then the targets of the transitions,
each at its first place, where the transitions are listed by their sources and their
symbols (`breadthFirst_subsetTable`).  In a table that is numbered in this way, a state
has an earlier transition to it than any greater one has (`BreadthFirst.exists_earlier`),
so that with a sequence of symbols to a state goes an earlier sequence to each smaller
state (`BreadthFirst.exists_shortlex`), shorter sequences being earlier than longer ones.

Hence every state has an earliest sequence (`BreadthFirst.exists_isEarliest`), and the
states are numbered in the order of these (`determinize_shortlex`).
-/
import Mathlib.Data.List.Induction
import Mathlib.Data.List.Shortlex
import LexAutomata.Proofs.Table.Determinization

namespace LexAutomata

/-! ## The order of sequences -/

/-- Whatever follows two sequences of equal length does not change their order. -/
theorem lex_append {α : Type} {r : α → α → Prop} {v w : List α} (h : List.Lex r v w)
    (hlen : v.length = w.length) (x y : List α) : List.Lex r (v ++ x) (w ++ y) := by
  induction h with
  | nil => cases hlen
  | cons _ ih => exact .cons (ih (Nat.succ.inj hlen))
  | rel hab => exact .rel hab

/-- A sequence stays earlier when both go on by one symbol. -/
theorem shortlex_concat {v w : List String} (h : List.Shortlex (· < ·) v w) (s t : String) :
    List.Shortlex (· < ·) (v ++ [s]) (w ++ [t]) := by
  rcases List.shortlex_def.1 h with hlt | ⟨hlen, hlex⟩
  · apply List.Shortlex.of_length_lt
    rw [List.length_append, List.length_append]
    exact Nat.add_lt_add_right hlt 1
  · apply List.Shortlex.of_lex
    · rw [List.length_append, List.length_append, hlen]
      rfl
    · exact lex_append hlex hlen [s] [t]

theorem shortlex_trans {u v w : List String} (huv : List.Shortlex (· < ·) u v)
    (hvw : List.Shortlex (· < ·) v w) : List.Shortlex (· < ·) u w := by
  rw [List.shortlex_def] at huv hvw ⊢
  rcases huv with huv | ⟨huv, hlex⟩
  · refine Or.inl ?_
    rcases hvw with hvw | ⟨hvw, -⟩ <;> omega
  · rcases hvw with hvw | ⟨hvw, hlex'⟩
    · exact Or.inl (by omega)
    · exact Or.inr ⟨huv.trans hvw, List.lt_trans hlex hlex'⟩

/-- A greater last symbol makes a sequence later. -/
theorem shortlex_append_lt (w : List String) {s t : String} (h : s < t) :
    List.Shortlex (· < ·) (w ++ [s]) (w ++ [t]) :=
  .append_left ((List.shortlex_singleton_iff s t).2 h) w

theorem length_le_of_shortlex {v w : List String} (h : List.Shortlex (· < ·) v w) :
    v.length ≤ w.length := by
  rcases List.shortlex_def.1 h with h | ⟨h, -⟩ <;> omega

/-- In a list whose elements are all related to those after them, some element with a property comes
before all others that have it. -/
theorem exists_first_of_pairwise {α : Type} {R : α → α → Prop} {p : α → Prop} {l : List α}
    (hl : l.Pairwise R) (h : ∃ a ∈ l, p a) : ∃ a ∈ l, p a ∧ ∀ b ∈ l, p b → b = a ∨ R a b := by
  induction l with
  | nil =>
    obtain ⟨a, ha, -⟩ := h
    cases ha
  | cons a l ih =>
    rw [List.pairwise_cons] at hl
    by_cases ha : p a
    · refine ⟨a, List.mem_cons_self, ha, fun b hb _ => ?_⟩
      exact (List.mem_cons.1 hb).imp_right (hl.1 b)
    · have hother : ∀ b ∈ a :: l, p b → b ∈ l := fun b hb hpb =>
        (List.mem_cons.1 hb).resolve_left fun hab => ha (hab ▸ hpb)
      obtain ⟨b, hb, hpb⟩ := h
      obtain ⟨c, hc, hpc, hfirst⟩ := ih hl.2 ⟨b, hother b hb hpb, hpb⟩
      exact ⟨c, List.mem_cons_of_mem a hc, hpc, fun d hd hpd => hfirst d (hother d hd hpd) hpd⟩

namespace Table

variable {T : Table}

/-! ## Numbering breadth first -/

/-- A transition has a smaller source than another, or the same source and a smaller symbol. -/
def Earlier (t u : Int × String × Int) : Prop := t.1 < u.1 ∨ t.1 = u.1 ∧ t.2.1 < u.2.1

/-- The states are the start state and the targets of the transitions, in the order in which the
transitions lead to them. -/
structure BreadthFirst (T : Table) : Prop where
  /-- Earlier transitions are listed before later ones. -/
  sorted : T.transitions.Pairwise Earlier
  /-- Each target has its first place among the targets. -/
  toList_states : T.states.toList
    = T.start :: Graph.newcomers [T.start] (T.transitions.map fun t => t.2.2)
  /-- Every state is reached from the start state. -/
  accessible : T.Accessible

/-- The sequence leads from the start state to a state, and no earlier one does. -/
structure IsEarliest (T : Table) (w : List String) (q : Int) : Prop where
  /-- The sequence leads to the state. -/
  leads : T.run? T.start w = some q
  /-- Other sequences that lead there are later. -/
  le : ∀ v, T.run? T.start v = some q → v = w ∨ List.Shortlex (· < ·) w v

theorem run?_concat (q : Int) (w : List String) (s : String) :
    T.run? q (w ++ [s]) = (T.run? q w).bind fun r => T.step? r s := by
  rw [run?_append]
  congr 1
  funext r
  rw [run?_cons]
  cases T.step? r s <;> rfl

/-- A sequence that leads to another state ends with a transition to it. -/
theorem exists_concat_of_run? {p q : Int} {w : List String} (hw : T.run? p w = some q)
    (hne : ¬ q = p) :
    ∃ v s k, w = v ++ [s] ∧ T.run? p v = some k ∧ T.step? k s = some q := by
  rcases List.eq_nil_or_concat w with rfl | ⟨v, s, rfl⟩
  · exact absurd (Option.some.inj hw).symm hne
  · rw [List.concat_eq_append, run?_concat, Option.bind_eq_some_iff] at hw
    obtain ⟨k, hk, hs⟩ := hw
    exact ⟨v, s, k, List.concat_eq_append, hk, hs⟩

namespace BreadthFirst

variable (h : T.BreadthFirst)
include h

/-- The start state is the least one. -/
theorem start_le {q : Int} (hq : q ∈ T.states) : T.start ≤ q := by
  have hasc := T.states.ascending
  rw [h.toList_states, List.pairwise_cons] at hasc
  rw [← StateSet.mem_toList, h.toList_states] at hq
  rcases List.mem_cons.1 hq with rfl | hq
  · exact Int.le_refl _
  · exact Int.le_of_lt (hasc.1 q hq)

theorem mem_states_of_target {k m : Int} {s : String} (hm : T.step? k s = some m) :
    m ∈ T.states := by
  have hmem : m ∈ T.transitions.map fun t => t.2.2 :=
    List.mem_map.2 ⟨(k, s, m), mem_transitions_iff.2 hm, rfl⟩
  have hlisted : m ∈ [T.start] ++ Graph.newcomers [T.start] (T.transitions.map fun t => t.2.2) :=
    Graph.mem_append_newcomers hmem
  rwa [← StateSet.mem_toList, h.toList_states]

/-- A state other than the start state is a new target. -/
theorem mem_newcomers {q : Int} (hq : q ∈ T.states) (hstart : ¬ q = T.start) :
    q ∈ Graph.newcomers [T.start] (T.transitions.map fun t => t.2.2) := by
  rw [← StateSet.mem_toList, h.toList_states] at hq
  exact (List.mem_cons.1 hq).resolve_left hstart

/-- **To a smaller state there is an earlier transition.** -/
theorem exists_earlier {l k m : Int} {s : String} (hl : l ∈ T.states) (hstart : ¬ l = T.start)
    (hlm : l < m) (hm : T.step? k s = some m) :
    ∃ j t, T.step? j t = some l ∧ (j < k ∨ j = k ∧ t < s) := by
  have hlower := h.start_le hl
  have hmstart : ¬ m = T.start := by omega
  have hm' := h.mem_newcomers (h.mem_states_of_target hm) hmstart
  -- both states are new targets, and these stand in ascending order
  have hasc := T.states.ascending
  rw [h.toList_states, List.pairwise_cons] at hasc
  have hpairs := hasc.2.and (Graph.pairwise_newcomers_map (fun t => t.2.2) h.sorted)
  rw [List.pairwise_iff_getElem] at hpairs
  obtain ⟨i, hi, rfl⟩ := List.mem_iff_getElem.1 (h.mem_newcomers hl hstart)
  obtain ⟨n, hn, rfl⟩ := List.mem_iff_getElem.1 hm'
  rcases Nat.lt_trichotomy i n with hin | rfl | hni
  · obtain ⟨⟨j, t, _⟩, ht, rfl, hearlier⟩ :=
      (hpairs i n hi hn hin).2 (k, s, _) (mem_transitions_iff.2 hm) rfl
    exact ⟨j, t, mem_transitions_iff.1 ht, hearlier⟩
  · omega
  · have := (hpairs n i hn hi hni).1
    omega

/-- Some transition to a state comes before all others. -/
theorem exists_first {q : Int} (hq : q ∈ T.states) (hstart : ¬ q = T.start) :
    ∃ j t, T.step? j t = some q ∧
      ∀ k s, T.step? k s = some q → (j = k ∧ t = s) ∨ j < k ∨ (j = k ∧ t < s) := by
  obtain ⟨u, hu, huq⟩ := List.mem_map.1 (Graph.mem_newcomers (h.mem_newcomers hq hstart)).1
  obtain ⟨⟨j, t, _⟩, ht, rfl, hfirst⟩ :=
    exists_first_of_pairwise (p := fun u => u.2.2 = q) h.sorted ⟨u, hu, huq⟩
  refine ⟨j, t, mem_transitions_iff.1 ht, fun k s hs => ?_⟩
  rcases hfirst (k, s, _) (mem_transitions_iff.2 hs) rfl with heq | hearlier
  · cases heq
    exact Or.inl ⟨rfl, rfl⟩
  · exact Or.inr hearlier

/-- **To a smaller state there is an earlier sequence.** -/
theorem exists_shortlex {w : List String} {l m : Int} (hm : T.run? T.start w = some m)
    (hl : l ∈ T.states) (hlm : l < m) :
    ∃ v, T.run? T.start v = some l ∧ List.Shortlex (· < ·) v w := by
  -- the induction follows the sequence from its end
  induction w using List.reverseRecOn generalizing l m with
  | nil =>
    cases hm
    have := h.start_le hl
    omega
  | append_singleton w s ih =>
    by_cases hstart : l = T.start
    · exact ⟨[], congrArg some hstart.symm, .of_length_lt (by simp)⟩
    · rw [run?_concat, Option.bind_eq_some_iff] at hm
      obtain ⟨k, hk, hs⟩ := hm
      obtain ⟨j, t, ht, hjk | ⟨rfl, hts⟩⟩ := h.exists_earlier hl hstart hlm hs
      · obtain ⟨v, hv, hvw⟩ := ih hk (mem_states_of_step? ht) hjk
        exact ⟨v ++ [t], by rw [run?_concat, hv]; exact ht, shortlex_concat hvw t s⟩
      · exact ⟨w ++ [t], by rw [run?_concat, hk]; exact ht, shortlex_append_lt w hts⟩

/-! ## Earliest sequences -/

/-- An earliest sequence is earlier than all that lead to greater states. -/
theorem shortlex_of_lt {v w : List String} {l m : Int} (hv : T.IsEarliest v l)
    (hm : T.run? T.start w = some m) (hl : l ∈ T.states) (hlm : l < m) :
    List.Shortlex (· < ·) v w := by
  obtain ⟨u, hu, huw⟩ := h.exists_shortlex hm hl hlm
  rcases hv.le u hu with rfl | hvu
  · exact huw
  · exact shortlex_trans hvu huw

/-- **The first transition goes on with an earliest sequence.** -/
theorem isEarliest_concat {v : List String} {j q : Int} {t : String} (hv : T.IsEarliest v j)
    (ht : T.step? j t = some q) (hstart : ¬ q = T.start)
    (hfirst : ∀ k s, T.step? k s = some q → (j = k ∧ t = s) ∨ j < k ∨ (j = k ∧ t < s)) :
    T.IsEarliest (v ++ [t]) q := by
  refine ⟨by rw [run?_concat, hv.leads]; exact ht, fun y hy => ?_⟩
  obtain ⟨w, s, k, rfl, hk, hs⟩ := exists_concat_of_run? hy hstart
  rcases hfirst k s hs with ⟨rfl, rfl⟩ | hjk | ⟨rfl, hts⟩
  · exact (hv.le w hk).imp (congrArg (· ++ [t])) fun hvw => shortlex_concat hvw t t
  · exact Or.inr (shortlex_concat (h.shortlex_of_lt hv hk (mem_states_of_step? ht) hjk) t s)
  · rcases hv.le w hk with rfl | hvw
    · exact Or.inr (shortlex_append_lt w hts)
    · exact Or.inr (shortlex_concat hvw t s)

/-- **Every state has an earliest sequence.** -/
theorem exists_isEarliest {q : Int} (hq : q ∈ T.states) : ∃ w, T.IsEarliest w q := by
  obtain ⟨w, hw⟩ := h.accessible q hq
  -- the induction is on the length of some sequence that leads to the state
  induction hn : w.length using Nat.strong_induction_on generalizing q w with
  | _ n ih =>
    by_cases hstart : q = T.start
    · exact ⟨[], congrArg some hstart.symm, fun v _ => (List.shortlex_nil_or_eq_nil v).symm⟩
    · obtain ⟨v, s, k, rfl, hk, hs⟩ := exists_concat_of_run? hw hstart
      obtain ⟨j, t, ht, hfirst⟩ := h.exists_first hq hstart
      have hj := mem_states_of_step? ht
      -- the source of the first transition is reached by a shorter sequence
      obtain ⟨u, hu, hlen⟩ : ∃ u, T.run? T.start u = some j ∧ u.length ≤ v.length := by
        rcases hfirst k s hs with ⟨rfl, -⟩ | hjk | ⟨rfl, -⟩
        · exact ⟨v, hk, Nat.le_refl _⟩
        · obtain ⟨u, hu, huv⟩ := h.exists_shortlex hk hj hjk
          exact ⟨u, hu, length_le_of_shortlex huv⟩
        · exact ⟨v, hk, Nat.le_refl _⟩
      have hlt : u.length < n := by
        rw [← hn, List.length_append]
        exact Nat.lt_succ_of_le hlen
      obtain ⟨x, hx⟩ := ih u.length hlt hj u hu rfl
      exact ⟨x ++ [t], h.isEarliest_concat hx ht hstart hfirst⟩

/-- **States are numbered in the order of their earliest sequences.** -/
theorem lt_iff_shortlex {v w : List String} {p q : Int} (hp : p ∈ T.states) (hq : q ∈ T.states)
    (hv : T.IsEarliest v p) (hw : T.IsEarliest w q) :
    p < q ↔ List.Shortlex (· < ·) v w := by
  constructor
  · exact h.shortlex_of_lt hv hw.leads hp
  · intro hvw
    rcases Int.lt_trichotomy p q with hpq | rfl | hqp
    · exact hpq
    · -- one state has only one earliest sequence
      rcases hw.le v hv.leads with rfl | hwv
      · exact absurd hvw (Std.Asymm.asymm _ _ hvw)
      · exact absurd hwv (Std.Asymm.asymm _ _ hvw)
    · exact absurd (h.shortlex_of_lt hw hv.leads hq hqp) (Std.Asymm.asymm _ _ hvw)

end BreadthFirst

/-- Numbers that are counted from zero are the places of a list without repetitions. -/
theorem map_idxOf {α : Type} [DecidableEq α] {l : List α} (hl : l.Nodup) :
    (l.map fun a => (l.idxOf a : Int)) = (numbered l).map Prod.fst := by
  rw [map_fst_numbered]
  apply List.ext_getElem
  · rw [List.length_map, List.length_map, List.length_range']
  · intro n hn _
    rw [List.length_map] at hn
    simp [hl.idxOf_getElem n hn]

/-- Where the elements of a list are first places in another, so are their numbers. -/
theorem map_fst_numbered_eq {α : Type} [DecidableEq α] {a : α} {l m : List α} (hl : l.Nodup)
    (h : l = a :: Graph.newcomers [a] m) :
    (numbered l).map Prod.fst = 0 :: Graph.newcomers [0] (m.map fun b => (l.idxOf b : Int)) := by
  have hzero : l.idxOf a = 0 := idxOf_eq_of_getElem? hl (by rw [h]; rfl)
  have hnumbers := map_idxOf hl
  have hnodup := nodup_map_fst_numbered l
  rw [← hnumbers] at hnodup ⊢
  have hplaces : (l.map fun b => (l.idxOf b : Int))
      = (a :: Graph.newcomers [a] m).map fun b => (l.idxOf b : Int) := congrArg _ h
  rw [hplaces] at hnodup ⊢
  have hnew : Graph.newcomers ([a].map fun b => (l.idxOf b : Int))
      (m.map fun b => (l.idxOf b : Int))
        = (Graph.newcomers [a] m).map fun b => (l.idxOf b : Int) := Graph.newcomers_map hnodup
  rw [List.map_cons, ← hnew, List.map_singleton, hzero]
  rfl

theorem flatMap_numbered {α β : Type} (l : List α) (g : α → List β) :
    ((numbered l).flatMap fun e => g e.2) = l.flatMap g := by
  have h := List.flatMap_map (l := numbered l) Prod.snd g
  rw [map_snd_numbered] at h
  exact h.symm

end Table

namespace Automaton

variable {A : Automaton}

/-! ## The subset construction -/

/-- The transitions of a set lead under each of its symbols to the number of the successor. -/
theorem transitions_subsetTable (start : Int) :
    (A.subsetTable start).transitions
      = (Table.numbered (A.reachableSets start)).flatMap fun e => (A.symbolsOf e.2).map fun s =>
          (e.1, s, ((A.reachableSets start).idxOf (A.successor e.2 s) : Int)) := by
  have hrows : (A.subsetTable start).rows.entries = (Table.numbered (A.reachableSets start)).map
      fun e => (e.1, A.subsetRow (A.reachableSets start) e.2) := by
    apply OrderedMap.entries_ofList
    rw [List.map_map]
    exact Table.nodup_map_fst_numbered _
  have hrow : ∀ S, (A.subsetRow (A.reachableSets start) S).entries = (A.symbolsOf S).map fun s =>
      (s, ((A.reachableSets start).idxOf (A.successor S s) : Int)) := by
    intro S
    apply OrderedMap.entries_ofList
    rw [List.map_map]
    exact (List.map_id _).symm ▸ nodup_sortedSymbols _
  rw [Table.transitions, hrows, List.flatMap_map]
  simp only [hrow, List.map_map]
  rfl

theorem sorted_subsetTable (start : Int) :
    (A.subsetTable start).transitions.Pairwise Table.Earlier := by
  rw [transitions_subsetTable, List.pairwise_flatMap]
  constructor
  · rintro ⟨k, S⟩ -
    rw [List.pairwise_map]
    exact (pairwise_sortedSymbols _).imp fun hst => Or.inr ⟨rfl, hst⟩
  · refine (List.pairwise_map.1 (Table.pairwise_map_fst_numbered _)).imp ?_
    intro e e' hlt t ht u hu
    obtain ⟨s, -, rfl⟩ := List.mem_map.1 ht
    obtain ⟨s', -, rfl⟩ := List.mem_map.1 hu
    exact Or.inl hlt

/-- The targets of the transitions are the numbers of what the sets lead to. -/
theorem map_target_transitions_subsetTable (start : Int) :
    (A.subsetTable start).transitions.map (fun t => t.2.2)
      = ((A.reachableSets start).flatMap A.subsetGraph.successors).map fun S =>
          ((A.reachableSets start).idxOf S : Int) := by
  rw [transitions_subsetTable, List.map_flatMap, List.map_flatMap]
  refine Eq.trans ?_ (Table.flatMap_numbered _ _)
  simp only [subsetGraph, List.map_map]
  rfl

/-- Every state is reached as its set is. -/
theorem accessible_subsetTable (start : Int) : (A.subsetTable start).Accessible := by
  have hreached : ∀ {S}, A.subsetGraph.Reaches [A.closure (.singleton start)] S →
      ∀ {n : Nat}, (A.reachableSets start)[n]? = some S →
        ∃ w, (A.subsetTable start).run? 0 w = some (n : Int) := by
    intro S hS
    induction hS with
    | start h =>
      intro n hn
      rw [List.mem_singleton.1 h] at hn
      rw [← idxOf_eq_of_getElem? (nodup_reachableSets start) hn,
        idxOf_eq_of_getElem? (nodup_reachableSets start) (getElem?_reachableSets_zero start)]
      exact ⟨[], rfl⟩
    | step hS hT ih =>
      intro n hn
      obtain ⟨m, hm⟩ := List.getElem?_of_mem (mem_reachableSets_iff.2 hS)
      obtain ⟨w, hw⟩ := ih hm
      obtain ⟨s, hs, rfl⟩ := List.mem_map.1 hT
      refine ⟨w ++ [s], ?_⟩
      rw [Table.run?_concat, hw, Option.bind_some, step?_subsetTable hm, if_pos hs,
        idxOf_eq_of_getElem? (nodup_reachableSets start) hn]
  intro q hq
  obtain ⟨n, S, rfl, hn⟩ := mem_states_subsetTable.1 hq
  exact hreached (mem_reachableSets_iff.1 (List.mem_of_getElem? hn)) hn

/-- **The subset construction numbers breadth first.** -/
theorem breadthFirst_subsetTable (start : Int) : (A.subsetTable start).BreadthFirst where
  sorted := sorted_subsetTable start
  toList_states := by
    rw [Table.toList_states_eq (Table.keys_ofList_numbered _ _), map_target_transitions_subsetTable]
    exact Table.map_fst_numbered_eq (nodup_reachableSets start)
      (A.subsetGraph.search_eq [A.closure (.singleton start)])
  accessible := accessible_subsetTable start

/-- **Determinizing numbers the states in the order of their earliest sequences.**  Every valid
automaton has a table that starts in state zero; each of its states is reached, an earliest sequence
of symbols leads there (the shorter one is earlier, and of two that are equally long the one with
the smaller symbol where they differ first), and the smaller state is the one with the earlier
one. -/
theorem determinize_shortlex (hA : A.validate = .ok ()) :
    ∃ T, A.determinize = .ok T ∧ T.start = 0 ∧
      (∀ q ∈ T.states, ∃ w, T.IsEarliest w q) ∧
      ∀ p ∈ T.states, ∀ q ∈ T.states, ∀ v w, T.IsEarliest v p → T.IsEarliest w q →
        (p < q ↔ List.Shortlex (· < ·) v w) := by
  obtain ⟨start, hstart⟩ := exists_start_of_validate hA
  have h := breadthFirst_subsetTable (A := A) start
  exact ⟨_, determinize_eq hA hstart, rfl, fun q => h.exists_isEarliest,
    fun p hp q hq v w => h.lt_iff_shortlex hp hq⟩

theorem determinize_shortlex_epsilonCycle :
    epsilonCycle.validate = .ok () ∧
      ∃ T, epsilonCycle.determinize = .ok T ∧ T.start = 0 ∧
        (∀ q ∈ T.states, ∃ w, T.IsEarliest w q) ∧
        ∀ p ∈ T.states, ∀ q ∈ T.states, ∀ v w, T.IsEarliest v p → T.IsEarliest w q →
          (p < q ↔ List.Shortlex (· < ·) v w) :=
  ⟨rfl, determinize_shortlex rfl⟩

end Automaton

end LexAutomata
