/-
# What a drawing shows

Besides the node that the arrow to the start state comes from, a drawing has a node for every
state, the states in ascending order, with a double circle for the final ones, and different
states have different names (`nodeName_inj`).  It has one arrow for each pair of states that a
transition joins, the pairs in ascending order, and the arrow shows every label that leads from
the first to the second once, in ascending order (`isArrows_arrows`).  All arrows lead from node
to node, so that the nodes and edges are a graph for the automaton (`depicts_digraph`).  The
arrows account for every transition once (`IsArrows.perm_transitions`), and the transitions
determine them (`IsArrows.eq_of_mem_iff`).

Since the title tells no more than the transitions and the name do, automata with the same
parts have the same drawing and the same report, whatever calls have built them
(`shown_completely`).
-/
import LexAutomata.Drawing.Digraph
import LexAutomata.Proofs.Report
import LexAutomata.Proofs.Table.Deterministic

namespace LexAutomata

namespace Automaton

variable {A B : Automaton} {p q : Int}

/-! ## Arrows -/

/-- The transitions from one state to another. -/
def between (A : Automaton) (p q : Int) : List (Int × Label × Int) :=
  (A.transitions.filter fun t => t.1 = p).filter fun t => t.2.2 = q

/-- The transitions between two states are those that lead from the first to the second. -/
theorem mem_between {t : Int × Label × Int} :
    t ∈ A.between p q ↔ t ∈ A.transitions ∧ t.1 = p ∧ t.2.2 = q := by
  rw [between, List.mem_filter, List.mem_filter, decide_eq_true_eq, decide_eq_true_eq, and_assoc]

theorem nodup_between (A : Automaton) (p q : Int) : (A.between p q).Nodup :=
  (A.nodup_transitions.filter _).filter _

/-- The labels that lead from one state to another, each once. -/
def labelsBetween (A : Automaton) (p q : Int) : List Label := (A.between p q).map fun t => t.2.1

/-- The labels between two states are those of the transitions between them. -/
theorem mem_labelsBetween {l : Label} : l ∈ A.labelsBetween p q ↔ (p, l, q) ∈ A.transitions := by
  rw [labelsBetween, List.mem_map]
  constructor
  · rintro ⟨⟨p', l', q'⟩, ht, rfl⟩
    obtain ⟨ht', rfl, rfl⟩ := mem_between.1 ht
    exact ht'
  · exact fun ht => ⟨(p, l, q), mem_between.2 ⟨ht, rfl, rfl⟩, rfl⟩

/-- No label stands between two states twice. -/
theorem nodup_labelsBetween (A : Automaton) (p q : Int) : (A.labelsBetween p q).Nodup := by
  refine (A.nodup_between p q).map_on ?_
  rintro ⟨p₁, l₁, q₁⟩ h₁ ⟨p₂, l₂, q₂⟩ h₂ (rfl : l₁ = l₂)
  obtain ⟨-, rfl, rfl⟩ := mem_between.1 h₁
  obtain ⟨-, rfl, rfl⟩ := mem_between.1 h₂
  rfl

/-- The arrows of an automaton: every pair of states that a transition joins once, in order, with
a sign for every label that leads from the first to the second. -/
structure IsArrows (A : Automaton) (arrows : List ((Int × Int) × List String)) : Prop where
  /-- There is an arrow between two states exactly when there is a transition. -/
  exists_iff : ∀ p q, (∃ signs, ((p, q), signs) ∈ arrows) ↔ ∃ l, (p, l, q) ∈ A.transitions
  /-- An arrow shows every label that leads from the first state to the second, and each once. -/
  perm_labels : ∀ p q signs, ((p, q), signs) ∈ arrows → ∃ labels : List Label, labels.Nodup ∧
    (∀ l, l ∈ labels ↔ (p, l, q) ∈ A.transitions) ∧ signs.Perm (labels.map Report.showLabel)
  /-- The signs of an arrow ascend. -/
  sorted : ∀ p q signs, ((p, q), signs) ∈ arrows → signs.Pairwise (· ≤ ·)
  /-- The pairs ascend, so that no two arrows join the same states. -/
  ordered : arrows.Pairwise (ByState (fun a => a.1.1) fun a b => a.1.2 < b.1.2)

namespace IsArrows

variable {as bs : List ((Int × Int) × List String)}

/-- Automata with the same transitions have the same arrows. -/
theorem mem_of_mem (has : A.IsArrows as) (hbs : B.IsArrows bs)
    (h : ∀ t, t ∈ A.transitions ↔ t ∈ B.transitions) {a : (Int × Int) × List String} (ha : a ∈ as) :
    a ∈ bs := by
  obtain ⟨⟨p, q⟩, signs⟩ := a
  obtain ⟨l, hl⟩ := (has.exists_iff p q).1 ⟨signs, ha⟩
  obtain ⟨signs', hb⟩ := (hbs.exists_iff p q).2 ⟨l, (h _).1 hl⟩
  obtain ⟨labels, hnodup, hmem, hperm⟩ := has.perm_labels p q signs ha
  obtain ⟨labels', hnodup', hmem', hperm'⟩ := hbs.perm_labels p q signs' hb
  have hlabels : labels.Perm labels' := (List.perm_ext_iff_of_nodup hnodup hnodup').2 fun l =>
    (hmem l).trans ((h _).trans (hmem' l).symm)
  have hsigns : signs = signs' :=
    (hperm.trans ((hlabels.map _).trans hperm'.symm)).eq_of_pairwise
      (fun _ _ _ _ => String.le_antisymm) (has.sorted p q signs ha) (hbs.sorted p q signs' hb)
  exact hsigns ▸ hb

/-- **The transitions determine the arrows.** -/
theorem eq_of_mem_iff (has : A.IsArrows as) (hbs : B.IsArrows bs)
    (h : ∀ t, t ∈ A.transitions ↔ t ∈ B.transitions) : as = bs :=
  has.ordered.eq_of_mem_iff hbs.ordered fun _ =>
    ⟨has.mem_of_mem hbs h, hbs.mem_of_mem has fun t => (h t).symm⟩

/-- **The arrows account for every transition once.** -/
theorem perm_transitions (h : A.IsArrows as) :
    (as.flatMap fun a => a.2.map fun s => (a.1.1, s, a.1.2)).Perm
      (A.transitions.map fun t => (t.1, Report.showLabel t.2.1, t.2.2)) := by
  have hall : (as.flatMap fun a => A.between a.1.1 a.1.2).Perm A.transitions := by
    refine (List.perm_ext_iff_of_nodup ?_ A.nodup_transitions).2 ?_
    · refine List.nodup_flatMap.2 ⟨fun a _ => A.nodup_between _ _, h.ordered.imp ?_⟩
      rintro ⟨⟨p, q⟩, signs⟩ ⟨⟨p', q'⟩, signs'⟩ hab t ha hb
      -- a transition joins one pair of states
      obtain ⟨-, rfl, rfl⟩ := mem_between.1 ha
      obtain ⟨-, rfl, rfl⟩ := mem_between.1 hb
      exact hab.elim (Int.lt_irrefl _) fun h => Int.lt_irrefl _ h.2
    · rintro ⟨p, l, q⟩
      rw [List.mem_flatMap]
      constructor
      · rintro ⟨a, -, ht⟩
        exact (mem_between.1 ht).1
      · intro ht
        obtain ⟨signs, ha⟩ := (h.exists_iff p q).2 ⟨l, ht⟩
        exact ⟨_, ha, mem_between.2 ⟨ht, rfl, rfl⟩⟩
  have hsigns : ∀ a ∈ as, (a.2.map fun s => (a.1.1, s, a.1.2)).Perm
      ((A.between a.1.1 a.1.2).map fun t => (t.1, Report.showLabel t.2.1, t.2.2)) := by
    rintro ⟨⟨p, q⟩, signs⟩ ha
    obtain ⟨labels, hnodup, hmem, hperm⟩ := h.perm_labels p q signs ha
    have hlabels : labels.Perm (A.labelsBetween p q) :=
      (List.perm_ext_iff_of_nodup hnodup (A.nodup_labelsBetween p q)).2 fun l =>
        (hmem l).trans mem_labelsBetween.symm
    refine ((hperm.trans (hlabels.map _)).map _).trans (.of_eq ?_)
    rw [labelsBetween, List.map_map, List.map_map]
    refine List.map_congr_left fun t ht => ?_
    obtain ⟨-, rfl, rfl⟩ := mem_between.1 ht
    rfl
  refine (List.Perm.flatMap_left as hsigns).trans ?_
  rw [← List.map_flatMap]
  exact hall.map _

end IsArrows

end Automaton

namespace Drawing

variable {A : Automaton} {p q : Int}

/-- An arrow joins states with a transition, and shows the labels of all these in order. -/
theorem mem_arrows {signs : List String} : ((p, q), signs) ∈ arrows A ↔
    (∃ l, (p, l, q) ∈ A.transitions) ∧
      signs = ((A.between p q).map fun t => Report.showLabel t.2.1).mergeSort fun a b =>
        decide (a ≤ b) := by
  rw [arrows, List.mem_flatMap]
  constructor
  · rintro ⟨p', -, ha⟩
    obtain ⟨q', hq', heq⟩ := List.mem_map.1 ha
    cases heq
    rw [StateSet.mem_toList, StateSet.mem_ofList, List.mem_map] at hq'
    obtain ⟨⟨p₁, l, q₁⟩, hout, rfl⟩ := hq'
    obtain ⟨ht, heq⟩ := List.mem_filter.1 hout
    obtain rfl := of_decide_eq_true heq
    exact ⟨⟨l, ht⟩, rfl⟩
  · rintro ⟨⟨l, ht⟩, rfl⟩
    refine ⟨p, ?_, List.mem_map.2 ⟨q, ?_, rfl⟩⟩
    · exact StateSet.mem_ofList.2 (List.mem_map.2 ⟨_, ht, rfl⟩)
    · exact StateSet.mem_ofList.2 (List.mem_map.2 ⟨_, List.mem_filter.2 ⟨ht, by simp⟩, rfl⟩)

/-- **The drawing has the arrows of the automaton.** -/
theorem isArrows_arrows (A : Automaton) : A.IsArrows (arrows A) where
  exists_iff p q := by simp only [mem_arrows, exists_and_left, exists_eq, and_true]
  perm_labels p q signs ha := by
    obtain ⟨-, rfl⟩ := mem_arrows.1 ha
    refine ⟨A.labelsBetween p q, A.nodup_labelsBetween p q, fun l =>
      Automaton.mem_labelsBetween, ?_⟩
    rw [Automaton.labelsBetween, List.map_map]
    exact List.mergeSort_perm _ _
  sorted p q signs ha := by
    obtain ⟨-, rfl⟩ := mem_arrows.1 ha
    exact pairwise_mergeSort_key (fun s => s) _
  ordered := by
    rw [arrows]
    refine pairwise_flatMap_byState ?_ fun p _ => ?_
    · intro p _ a ha
      obtain ⟨q, -, rfl⟩ := List.mem_map.1 ha
      rfl
    · exact List.pairwise_map.2 (StateSet.ascending _)

/-! ## Nodes and edges -/

theorem toList_nodeName (q : Int) : (nodeName q).toList = 'q' :: (toString q).toList :=
  String.toList_append

/-- **Different states have nodes of different names.** -/
theorem nodeName_inj : nodeName p = nodeName q ↔ p = q := by
  rw [← String.toList_inj, toList_nodeName, toList_nodeName, List.cons_inj_right,
    String.toList_inj, Int.toString_eq_repr, Int.toString_eq_repr, Int.repr_inj]

/-- No state has the node that the arrow to the start state comes from. -/
theorem nodeName_ne_originName (q : Int) : ¬ nodeName q = originName := by
  rw [← String.toList_inj, toList_nodeName]
  intro h
  cases h

/-- The value of an attribute that is in force for a node: its own, or else the one for all. -/
def Digraph.attribute? (D : Digraph) (n : Node) (key : String) : Option String :=
  (n.attributes.lookup key).or (D.nodeAttributes.lookup key)

/-- The node stands for a state: it has the name and the number of the state, and a double circle
exactly when the state is final. -/
structure Digraph.ShowsState (D : Digraph) (A : Automaton) (q : Int) (n : Node) : Prop where
  /-- The node has the name of the state. -/
  name : n.name = nodeName q
  /-- The node is labelled with the state. -/
  label : D.attribute? n "label" = some (toString q)
  /-- The double circle is for final states. -/
  shape : D.attribute? n "shape" = some "doublecircle" ↔ q ∈ A.finals

/-- The edge is the arrow between two states, and is labelled with its signs. -/
structure Edge.ShowsArrow (a : (Int × Int) × List String) (e : Edge) : Prop where
  /-- The edge leaves the first state. -/
  tail : e.tail = nodeName a.1.1
  /-- The edge enters the second state. -/
  head : e.head = nodeName a.1.2
  /-- The edge is labelled with the signs. -/
  label : e.attributes.lookup "label" = some (", ".intercalate a.2)

/-- The graph shows an automaton with the given arrows. -/
structure Digraph.Depicts (D : Digraph) (A : Automaton)
    (arrows : List ((Int × Int) × List String)) : Prop where
  /-- There is one node of each name. -/
  distinct : (D.nodes.map Node.name).Nodup
  /-- All edges lead from node to node. -/
  ends : ∀ e ∈ D.edges, e.tail ∈ D.nodes.map Node.name ∧ e.head ∈ D.nodes.map Node.name
  /-- The nodes besides the origin are those of the states, which ascend. -/
  states : ∃ states : List Int, states.Pairwise (· < ·) ∧ (∀ q, q ∈ states ↔ q ∈ A.states) ∧
    states.Forall₂ (D.ShowsState A) (D.nodes.filter fun n => n.name ≠ originName)
  /-- The origin has an edge to the start state, once there is one, and no other. -/
  start : (D.edges.filter fun e => e.tail = originName).map Edge.head = A.start.toList.map nodeName
  /-- The other edges are the arrows. -/
  arrows : arrows.Forall₂ Edge.ShowsArrow (D.edges.filter fun e => e.tail ≠ originName)

/-- The nodes are the one without a label and then those of the states, in ascending order. -/
theorem nodes_digraph (A : Automaton) :
    (digraph A).nodes = origin :: A.states.toList.map (stateNode A) := by
  simp [Digraph.nodes, digraph, List.filterMap_append, List.filterMap_map, Function.comp_def,
    Item.node?]

/-- The edges are that to the start state and then the arrows. -/
theorem edges_digraph (A : Automaton) :
    (digraph A).edges = startEdges A ++ (arrows A).map arrowEdge := by
  simp [Digraph.edges, digraph, List.filterMap_cons, List.filterMap_append, List.filterMap_map,
    Function.comp_def, Item.edge?]

/-- The node of a state shows it. -/
theorem showsState_stateNode (A : Automaton) (q : Int) :
    (digraph A).ShowsState A q (stateNode A q) where
  name := rfl
  label := by simp [Digraph.attribute?, stateNode]
  shape := by
    by_cases hq : q ∈ A.finals
    · simp [Digraph.attribute?, stateNode, Automaton.isFinal, hq, List.lookup_cons]
    · simp [Digraph.attribute?, stateNode, Automaton.isFinal, hq, digraph, List.lookup_cons]

/-- The edge of an arrow shows it. -/
theorem showsArrow_arrowEdge (a : (Int × Int) × List String) : (arrowEdge a).ShowsArrow a where
  tail := rfl
  head := rfl
  label := by simp [arrowEdge]

theorem startEdges_eq (A : Automaton) :
    startEdges A = A.start.toList.map fun q => ⟨originName, nodeName q, [("penwidth", "2")]⟩ := by
  rw [startEdges]
  cases A.start <;> rfl

/-- The edges that leave the origin are those to the start state. -/
theorem filter_edges_eq_origin (A : Automaton) :
    ((digraph A).edges.filter fun e => e.tail = originName) = startEdges A := by
  have hstart : (startEdges A).filter (fun e => e.tail = originName) = startEdges A := by
    refine List.filter_eq_self.2 fun e he => decide_eq_true ?_
    rw [startEdges_eq] at he
    obtain ⟨q, -, rfl⟩ := List.mem_map.1 he
    rfl
  have harrows : ((arrows A).map arrowEdge).filter (fun e => e.tail = originName) = [] := by
    refine List.filter_eq_nil_iff.2 fun e he => ?_
    obtain ⟨a, -, rfl⟩ := List.mem_map.1 he
    exact mt of_decide_eq_true (nodeName_ne_originName a.1.1)
  rw [edges_digraph, List.filter_append, hstart, harrows, List.append_nil]

/-- The edges that leave other nodes are the arrows. -/
theorem filter_edges_ne_origin (A : Automaton) :
    ((digraph A).edges.filter fun e => e.tail ≠ originName) = (arrows A).map arrowEdge := by
  have hstart : (startEdges A).filter (fun e => e.tail ≠ originName) = [] := by
    refine List.filter_eq_nil_iff.2 fun e he => ?_
    rw [startEdges_eq] at he
    obtain ⟨q, -, rfl⟩ := List.mem_map.1 he
    simp
  have harrows : ((arrows A).map arrowEdge).filter (fun e => e.tail ≠ originName)
      = (arrows A).map arrowEdge := by
    refine List.filter_eq_self.2 fun e he => decide_eq_true ?_
    obtain ⟨a, -, rfl⟩ := List.mem_map.1 he
    exact nodeName_ne_originName a.1.1
  rw [edges_digraph, List.filter_append, hstart, harrows, List.nil_append]

/-- The names of the nodes of an automaton. -/
theorem mem_names_iff {name : String} : name ∈ (digraph A).nodes.map Node.name ↔
    name = originName ∨ ∃ q ∈ A.states, name = nodeName q := by
  rw [nodes_digraph, List.map_cons, List.mem_cons, List.map_map, List.mem_map]
  simp only [StateSet.mem_toList, Function.comp_apply, eq_comm]
  rfl

/-- **The drawing is a graph for the automaton.** -/
theorem depicts_digraph (h : A.WellFormed) : (digraph A).Depicts A (arrows A) where
  distinct := by
    rw [nodes_digraph, List.map_cons, List.map_map, List.nodup_cons]
    constructor
    · intro hmem
      obtain ⟨q, -, hq⟩ := List.mem_map.1 hmem
      exact nodeName_ne_originName q hq
    · exact A.states.nodup_toList.map fun p q hpq => nodeName_inj.1 hpq
  ends := by
    intro e he
    rw [mem_names_iff, mem_names_iff]
    rw [edges_digraph, List.mem_append] at he
    rcases he with he | he
    · rw [startEdges_eq] at he
      obtain ⟨q, hq, rfl⟩ := List.mem_map.1 he
      exact ⟨Or.inl rfl, Or.inr ⟨q, h.start q (Option.mem_toList.1 hq), rfl⟩⟩
    · obtain ⟨⟨⟨p, q⟩, signs⟩, ha, rfl⟩ := List.mem_map.1 he
      obtain ⟨⟨l, hl⟩, -⟩ := mem_arrows.1 ha
      obtain ⟨hp, hq⟩ := h.ends p l q hl
      exact ⟨Or.inr ⟨p, hp, rfl⟩, Or.inr ⟨q, hq, rfl⟩⟩
  states := by
    refine ⟨A.states.toList, A.states.ascending, fun _ => Iff.rfl, ?_⟩
    have hothers : (digraph A).nodes.filter (fun n => n.name ≠ originName)
        = A.states.toList.map (stateNode A) := by
      rw [nodes_digraph, List.filter_cons_of_neg (by simp [origin]), List.filter_eq_self]
      intro n hn
      obtain ⟨q, -, rfl⟩ := List.mem_map.1 hn
      exact decide_eq_true (nodeName_ne_originName q)
    rw [hothers, List.forall₂_map_right_iff, List.forall₂_same]
    exact fun q _ => showsState_stateNode A q
  start := by
    rw [filter_edges_eq_origin, startEdges_eq, List.map_map]
    rfl
  arrows := by
    rw [filter_edges_ne_origin, List.forall₂_map_right_iff, List.forall₂_same]
    exact fun a _ => showsArrow_arrowEdge a

end Drawing

namespace Automaton

variable {A B : Automaton}

/-! ## Automata with the same parts -/

/-- The automata have the same name, start state, states, final states and transitions, in whatever
order the transitions are. -/
structure SameParts (A B : Automaton) : Prop where
  /-- The names are the same. -/
  name : A.name = B.name
  /-- The start states are the same. -/
  start : A.start = B.start
  /-- The states are the same. -/
  states : A.states = B.states
  /-- The final states are the same. -/
  finals : A.finals = B.finals
  /-- The transitions are the same. -/
  mem_transitions : ∀ t, t ∈ A.transitions ↔ t ∈ B.transitions

/-- An automaton without empty entries is deterministic when no transition is for free and no two
transitions leave a choice. -/
theorem WellFormed.isDeterministic_iff (h : A.WellFormed) :
    A.isDeterministic = true ↔ (∀ p q, ¬ (p, .epsilon, q) ∈ A.transitions) ∧
      ∀ p l q r, (p, l, q) ∈ A.transitions → (p, l, r) ∈ A.transitions → q = r := by
  rw [Automaton.isDeterministic_iff]
  simp only [h.hasEntry_iff, not_exists]
  refine and_congr_right fun _ => ?_
  constructor
  · intro hsize p l q r hq hr
    obtain ⟨T, hT⟩ := Option.isSome_iff_exists.1 (h.hasEntry_iff.2 ⟨q, hq⟩)
    obtain ⟨row, hrow, hmem⟩ := exists_stored_iff.2 ⟨p, l, hT⟩
    rw [mem_transitions_iff, targets_eq, hT] at hq hr
    exact StateSet.eq_of_size_le_one (hsize row hrow T hmem) hq hr
  · intro hone row hrow T hmem
    obtain ⟨q, hq⟩ := h.stored row hrow T hmem
    obtain ⟨p, l, hT⟩ := exists_stored_iff.1 ⟨row, hrow, hmem⟩
    have htransition : ∀ r ∈ T, (p, l, r) ∈ A.transitions := by
      intro r hr
      rw [mem_transitions_iff, targets_eq, hT]
      exact hr
    have hT : T = .singleton q := StateSet.eq_singleton hq fun r hr =>
      hone p l r q (htransition r hr) (htransition q hq)
    rw [hT]
    exact Nat.le_refl 1

namespace SameParts

/-- Automata with the same parts are deterministic together. -/
theorem isDeterministic_eq (h : A.SameParts B) (hA : A.WellFormed) (hB : B.WellFormed) :
    A.isDeterministic = B.isDeterministic := by
  rw [Bool.eq_iff_iff, hA.isDeterministic_iff, hB.isDeterministic_iff]
  simp only [h.mem_transitions]

/-- **The parts determine the drawing.** -/
theorem digraph_eq (h : A.SameParts B) (hA : A.WellFormed) (hB : B.WellFormed) :
    Drawing.digraph A = Drawing.digraph B := by
  have htitle : Drawing.title A = Drawing.title B := by
    rw [Drawing.title, Drawing.title, h.name, h.isDeterministic_eq hA hB]
  have hnodes : Drawing.stateNode A = Drawing.stateNode B := by
    funext q
    rw [Drawing.stateNode, Drawing.stateNode, isFinal, isFinal, h.finals]
  have harrows : Drawing.arrows A = Drawing.arrows B :=
    (Drawing.isArrows_arrows A).eq_of_mem_iff (Drawing.isArrows_arrows B) h.mem_transitions
  have hstart : Drawing.startEdges A = Drawing.startEdges B := by
    rw [Drawing.startEdges, Drawing.startEdges, h.start]
  rw [Drawing.digraph, Drawing.digraph, htitle, h.states, hnodes, hstart, harrows]

/-- **The parts determine the report.** -/
theorem report_eq (h : A.SameParts B) (hA : A.WellFormed) (hB : B.WellFormed)
    (title : Option String) : Report.automaton A title = Report.automaton B title := by
  have hheading : Report.heading A title = Report.heading B title := by
    cases title with
    | none => exact h.name
    | some t => simp only [Report.heading, h.name]
  have hlines : Report.transitionLines A = Report.transitionLines B := by
    have hlistings := (Report.isListing_listing hA).eq_of_mem_iff (Report.isListing_listing hB)
      h.mem_transitions
    rw [Report.transitionLines_eq, Report.transitionLines_eq, hlistings]
  simp only [Report.automaton, hheading, h.states, h.start, h.finals, hlines]

end SameParts

/-- **Drawing and report show what calls have built completely, and nothing of how it was built.**
The drawing is a graph for the automaton: a node for every state, the states in ascending order, and
an edge for every pair of states with a transition, the pairs in ascending order.  The lines of the
report for transitions are the listing of the automaton.  Both account for every transition once.
Whatever calls lead to the same parts, drawing and report are the same. -/
theorem shown_completely {A : Automaton} {name : String} {calls : List Call}
    (hA : A = built name calls) :
    (∃ arrows : List ((Int × Int) × List String), A.IsArrows arrows ∧
      (Drawing.digraph A).Depicts A arrows ∧
      (arrows.flatMap fun a => a.2.map fun s => (a.1.1, s, a.1.2)).Perm
        (A.transitions.map fun t => (t.1, Report.showLabel t.2.1, t.2.2))) ∧
    (∃ entries : List (Int × Label × StateSet), A.IsListing entries ∧
      (∀ title, (Report.automaton A title).filter Report.beginsEntry
        = entries.map Report.entryLine) ∧
      (entries.flatMap fun e => e.2.2.toList.map fun q => (e.1, e.2.1, q)).Perm A.transitions) ∧
    A.transitions.Nodup ∧
    ∀ name' calls', A.SameParts (built name' calls') →
      Drawing.digraph A = Drawing.digraph (built name' calls') ∧
      ∀ title, Report.automaton A title = Report.automaton (built name' calls') title := by
  have hwell : ∀ name calls, (built name calls).WellFormed := fun name calls =>
    (WellFormed.empty name).afterAll calls
  have hwellA : A.WellFormed := hA ▸ hwell name calls
  have harrows := Drawing.isArrows_arrows A
  have hlisting := Report.isListing_listing hwellA
  refine ⟨⟨_, harrows, Drawing.depicts_digraph hwellA, harrows.perm_transitions⟩,
    ⟨_, hlisting, Report.filter_beginsEntry_automaton A, hlisting.perm_transitions⟩,
    A.nodup_transitions, fun name' calls' h => ?_⟩
  have hwellB := hwell name' calls'
  exact ⟨h.digraph_eq hwellA hwellB, h.report_eq hwellA hwellB⟩

/-- Calls, one of them refused, that build an automaton with a loop, transitions side by side and
transitions for free. -/
def outward : List Call :=
  [.addTransition 2 10 (.text "b"), .setStart 7, .addTransition 2 10 .epsilon,
    .addTransition 10 10 (.text "a"), .addTransition 2 2 .epsilon, .addTransition 2 10 (.text "a"),
    .addState (-1), .setStart 2, .markFinal 10]

/-- Other calls that lead to the same parts. -/
def backward : List Call :=
  [.addState 10, .markFinal 10, .addTransition 10 10 (.text "a"), .addState (-1),
    .addTransition 2 10 (.text "a"), .setStart 10, .addTransition 2 2 .epsilon,
    .addTransition 2 10 .epsilon, .addTransition 2 10 .epsilon, .setStart 2,
    .addTransition 2 10 (.text "b")]

theorem shown_completely_outward_backward :
    ¬ built "" outward = built "" backward ∧ (built "" outward).SameParts (built "" backward) ∧
    (∃ arrows, (Drawing.digraph (built "" outward)).Depicts (built "" outward) arrows) ∧
    Drawing.digraph (built "" outward) = Drawing.digraph (built "" backward) ∧
    Report.automaton (built "" outward) none = Report.automaton (built "" backward) none := by
  have hparts : (built "" outward).SameParts (built "" backward) := by
    refine ⟨by decide, by decide, by decide, by decide, fun t => List.Perm.mem_iff ?_⟩
    decide
  obtain ⟨⟨arrows, -, hdepicts, -⟩, -, -, hsame⟩ := shown_completely (A := built "" outward) rfl
  obtain ⟨hdrawing, hreport⟩ := hsame "" backward hparts
  exact ⟨by decide, hparts, ⟨arrows, hdepicts⟩, hdrawing, hreport none⟩

end Automaton

end LexAutomata
