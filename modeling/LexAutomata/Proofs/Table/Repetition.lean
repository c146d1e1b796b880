/-
# Minimizing again

Comparing groups of targets makes a table of the outcomes of the states, in the order in
which the states are visited.  A quotient of the table has the same outcomes in the same
order (`isImage_quotient`), so it leads to the same numbers (`IsImage.groupIndex_eq`) and
to the same table (`same_quotient_classes`).  That table is `Reduced`: its states are
numbered like its rows, beginning with the start state, and are all told apart.  Minimizing
a reduced table by either criterion changes nothing (`Reduced.minimize_eq`).

Hence it does not matter how often a table is minimized, and by which criteria, as long as
groups of targets are compared once (`minimizeAll_same`).
-/
import LexAutomata.Proofs.Table.Intact

namespace LexAutomata

/-! ## Places in numbered lists -/

theorem Table.idxOf_map_fst_numbered {α : Type} {l : List α} {n : Nat} (h : n < l.length) :
    ((numbered l).map Prod.fst).idxOf (n : Int) = n := by
  have hlt : n < ((numbered l).map Prod.fst).length := by
    rw [map_fst_numbered, List.length_map, List.length_range']
    exact h
  have hn : ((numbered l).map Prod.fst)[n] = (n : Int) := by
    simp [map_fst_numbered]
  have hidx := (nodup_map_fst_numbered l).idxOf_getElem n hlt
  rwa [hn] at hidx

/-- The least members stand in the groups at their places. -/
theorem Partition.Divides.map_groupIndex_least {P : Partition} {S : StateSet} (hP : P.Divides S) :
    (P.map fun G => (P.groupIndex G.least : Int)) = (Table.numbered P).map Prod.fst := by
  rw [Table.map_fst_numbered]
  apply List.ext_getElem
  · rw [List.length_map, List.length_map, List.length_range']
  · intro n hn _
    rw [List.length_map] at hn
    have hleast := StateSet.least_mem (hP.nonempty P[n] (List.getElem_mem hn))
    simp [hP.groupIndex_eq hn hleast]

namespace Table

variable {T U V : Table} {P : Partition} {f : Int → Int} {criterion : Criterion}

/-! ## Equal tables -/

/-- The tables are equal, except that their rows may list the same entries in different orders. -/
structure Same (T U : Table) : Prop where
  /-- The same states have rows. -/
  keys : T.rows.keys = U.rows.keys
  /-- Equal rows have the same entries. -/
  step : ∀ q s, T.step? q s = U.step? q s
  /-- The final states are the same. -/
  finals : T.finals = U.finals
  /-- The start state is the same. -/
  start : T.start = U.start
  /-- The same sets are noted. -/
  subsets : T.subsets = U.subsets

theorem Same.refl (T : Table) : T.Same T := ⟨rfl, fun _ _ => rfl, rfl, rfl, rfl⟩

theorem Same.trans (h : T.Same U) (h' : U.Same V) : T.Same V where
  keys := h.keys.trans h'.keys
  step q s := (h.step q s).trans (h'.step q s)
  finals := h.finals.trans h'.finals
  start := h.start.trans h'.start
  subsets := h.subsets.trans h'.subsets

/-- Intact tables are compared at their states. -/
theorem Intact.same (hT : T.Intact) (hU : U.Intact) (hkeys : T.rows.keys = U.rows.keys)
    (hfinal : ∀ q ∈ T.states, T.isFinal q = U.isFinal q)
    (hstep : ∀ q ∈ T.states, ∀ s, T.step? q s = U.step? q s) (hstart : T.start = U.start)
    (hsubsets : T.subsets = U.subsets) : T.Same U where
  keys := hkeys
  start := hstart
  subsets := hsubsets
  step q s := by
    by_cases hq : q ∈ T.states
    · exact hstep q hq s
    · have hq' : ¬ q ∈ U.states := by
        rwa [mem_states_iff, ← hkeys, ← mem_states_iff]
      have hnone : ∀ {R : Table}, ¬ q ∈ R.states → R.step? q s = none := fun hR =>
        Option.eq_none_iff_forall_ne_some.2 fun r hr => hR (mem_states_of_step? hr)
      rw [hnone hq, hnone hq']
  finals := by
    have hstates : T.states = U.states := by
      rw [states, states, hkeys]
    apply StateSet.ext
    intro q
    have hiff : ∀ hq : q ∈ T.states, q ∈ T.finals ↔ q ∈ U.finals := fun hq => by
      have h := hfinal q hq
      rwa [isFinal, isFinal, decide_eq_decide] at h
    exact ⟨fun hq => (hiff (hT.finals q hq)).1 hq,
      fun hq => (hiff (hstates ▸ hU.finals q hq)).2 hq⟩

theorem subsets_quotient (T : Table) (P : Partition) : (T.quotient P).subsets = ∅ := rfl

/-! ## Images of tables -/

/-- Every state of the second table stands for states of the first, which have its outcomes, and
the states are visited in the same order. -/
structure IsImage (f : Int → Int) (T U : Table) : Prop where
  /-- The states are the images. -/
  mem_states : ∀ k, k ∈ U.states ↔ ∃ q ∈ T.states, k = f q
  /-- The start state is the image of the start state. -/
  start : U.start = f T.start
  /-- An image steps to the image of a target. -/
  step : ∀ q ∈ T.states, ∀ s, U.step? (f q) s = (T.step? q s).map f
  /-- An image has the outcomes of what it stands for. -/
  outcome : ∀ q ∈ T.states, U.outcome? (f q) = T.outcome? q
  /-- The states are visited in the order of their images. -/
  roll : Graph.newcomers [] U.roll = Graph.newcomers [] (T.roll.map f)

namespace IsImage

variable (h : IsImage f T U)
include h

theorem mem {q : Int} (hq : q ∈ T.states) : f q ∈ U.states := (h.mem_states _).2 ⟨q, hq, rfl⟩

/-- The numbers of the classes are met in the same order. -/
theorem newcomers_map_groupIndex :
    Graph.newcomers [] (T.roll.map fun q => U.classes.groupIndex (f q))
      = Graph.newcomers [] (U.roll.map U.classes.groupIndex) := by
  have hU := Graph.newcomers_map_newcomers U.classes.groupIndex [] U.roll
  have hT := Graph.newcomers_map_newcomers U.classes.groupIndex [] (T.roll.map f)
  rw [List.map_map] at hT
  rw [← h.roll] at hT
  exact hT.symm.trans hU

variable (hT : T.Closed) (hU : U.Closed)
include hT hU

/-- States are together when their images have the same number. -/
theorem together_groups_iff_groupIndex_eq {p q : Int} (hp : p ∈ T.states) (hq : q ∈ T.states) :
    (T.groups .targetGroup).Together p q
      ↔ U.classes.groupIndex (f p) = U.classes.groupIndex (f q) := by
  rw [groupIndex_orderGroups_eq_iff (divides_groups .targetGroup) (h.mem hp) (h.mem hq),
    together_groups_iff_outcome?_eq hU.targets (h.mem hp) (h.mem hq), h.outcome p hp,
    h.outcome q hq, together_groups_iff_outcome?_eq hT.targets hp hq]

/-- **A class and its image have the same number.** -/
theorem groupIndex_eq {q : Int} (hq : q ∈ T.states) :
    U.classes.groupIndex (f q) = T.classes.groupIndex q := by
  calc U.classes.groupIndex (f q)
      = (Graph.newcomers [] (U.roll.map U.classes.groupIndex)).idxOf
          (U.classes.groupIndex (f q)) :=
        (idxOf_eq_groupIndex (divides_groups .targetGroup) hU.start (fun _ _ hp hq =>
          (groupIndex_orderGroups_eq_iff (divides_groups .targetGroup) hp hq).symm) (h.mem hq)).symm
    _ = (Graph.newcomers [] (T.roll.map fun q => U.classes.groupIndex (f q))).idxOf
          (U.classes.groupIndex (f q)) := by rw [h.newcomers_map_groupIndex]
    _ = T.classes.groupIndex q :=
        idxOf_eq_groupIndex (divides_groups .targetGroup) hT.start
          (fun _ _ => h.together_groups_iff_groupIndex_eq hT hU) hq

/-- The same numbers are given. -/
theorem keys_quotient_classes_eq :
    (U.quotient U.classes).rows.keys = (T.quotient T.classes).rows.keys := by
  have hP := (isCongruence_orderGroups hT.targets .targetGroup).divides
  have hQ := (isCongruence_orderGroups hU.targets .targetGroup).divides
  have hstates : (U.quotient U.classes).states = (T.quotient T.classes).states := by
    apply StateSet.ext
    intro k
    rw [mem_states_quotient_iff hP, mem_states_quotient_iff hQ]
    constructor
    · rintro ⟨m, hm, rfl⟩
      obtain ⟨q, hq, rfl⟩ := (h.mem_states m).1 hm
      exact ⟨q, hq, congrArg Int.ofNat (h.groupIndex_eq hT hU hq)⟩
    · rintro ⟨q, hq, rfl⟩
      exact ⟨f q, h.mem hq, congrArg Int.ofNat (h.groupIndex_eq hT hU hq).symm⟩
  rw [keys_quotient hP, keys_quotient hQ, ← toList_states_eq (keys_quotient hP),
    ← toList_states_eq (keys_quotient hQ), hstates]

/-- **An image leads to the same minimal table.** -/
theorem same_quotient_classes : (U.quotient U.classes).Same (T.quotient T.classes) := by
  have hP := isCongruence_orderGroups hT.targets .targetGroup
  have hQ := isCongruence_orderGroups hU.targets .targetGroup
  have hnumber : ∀ {q}, q ∈ T.states →
      (U.classes.groupIndex (f q) : Int) = T.classes.groupIndex q := fun hq =>
    congrArg Int.ofNat (h.groupIndex_eq hT hU hq)
  -- a state of either quotient is the number of the class of a state
  have hmem : ∀ k ∈ (U.quotient U.classes).states,
      ∃ q ∈ T.states, k = T.classes.groupIndex q := fun k hk => by
    rw [mem_states_iff, h.keys_quotient_classes_eq hT hU, ← mem_states_iff] at hk
    exact (mem_states_quotient_iff hP.divides).1 hk
  apply (intact_quotient hQ hU).same (intact_quotient hP hT) (h.keys_quotient_classes_eq hT hU)
  · intro k hk
    obtain ⟨q, hq, rfl⟩ := hmem k hk
    have hfinal := congrFun (h.outcome q hq) []
    rw [isFinal_quotient hP hq, ← hnumber hq, isFinal_quotient hQ (h.mem hq)]
    exact Option.some.inj hfinal
  · intro k hk s
    obtain ⟨q, hq, rfl⟩ := hmem k hk
    rw [step?_quotient hP hq, ← hnumber hq, step?_quotient hQ (h.mem hq), h.step q hq,
      Option.map_map]
    cases hs : T.step? q s with
    | none => rw [Option.map_none, Option.map_none]
    | some r => exact congrArg some (hnumber (hT.targets q s r hs))
  · show (U.classes.groupIndex U.start : Int) = T.classes.groupIndex T.start
    rw [h.start, hnumber hT.start]
  · rw [subsets_quotient, subsets_quotient]

end IsImage

/-! ## Quotients as images -/

/-- The start state of a quotient is the first. -/
theorem start_quotient (hP : P.Divides T.states) (hstart : T.start ∈ T.states) :
    (T.quotient (T.orderGroups P)).start = 0 := by
  obtain ⟨G, rest, heq, hG, -⟩ := exists_orderGroups_eq hP hstart
  have hO := hP.perm (orderGroups_perm (T := T) P).symm
  have hlt : 0 < (T.orderGroups P).length := by
    rw [heq]
    exact Nat.succ_pos _
  have hzero : (T.orderGroups P).groupIndex T.start = 0 := by
    apply hO.groupIndex_eq hlt
    simp only [heq]
    exact hG
  exact congrArg Int.ofNat hzero

/-- **A quotient is an image of the table**, in which the classes are visited in their order. -/
theorem isImage_quotient (hT : T.Closed) (criterion : Criterion) :
    IsImage (fun q => (T.orderGroups (T.groups criterion)).groupIndex q) T
      (T.quotient (T.orderGroups (T.groups criterion))) := by
  have hG : (T.groups criterion).Divides T.states := divides_groups criterion
  have hP := isCongruence_orderGroups hT.targets criterion
  have hkeys := keys_quotient hP.divides
  have hstates := toList_states_eq hkeys
  refine ⟨fun k => mem_states_quotient_iff hP.divides, rfl, fun q hq s => step?_quotient hP hq s,
    fun q hq => outcome?_quotient hP hT.targets hq, ?_⟩
  have hle : ∀ k ∈ (T.quotient (T.orderGroups (T.groups criterion))).states,
      (T.quotient (T.orderGroups (T.groups criterion))).start ≤ k := by
    intro k hk
    obtain ⟨q, -, rfl⟩ := (mem_states_quotient_iff hP.divides).1 hk
    rw [start_quotient hG hT.start]
    exact Int.natCast_nonneg _
  rw [newcomers_roll (intact_quotient hP hT).start hle, hstates,
    map_least_orderGroups hG hT.start, hP.divides.map_groupIndex_least]
  intro p q hp hq
  rw [Int.ofNat_inj, groupIndex_orderGroups_eq_iff hG hp hq]

/-! ## Tables that are minimal already -/

/-- The states are numbered like their rows, beginning with the start state, and their outcomes
tell them all apart. -/
structure Reduced (T : Table) : Prop extends T.Intact where
  /-- The states are the places of the rows. -/
  keys : T.rows.keys = (numbered T.rows.keys).map Prod.fst
  /-- The start state is the first. -/
  start_eq : T.start = 0
  /-- No sets are noted. -/
  subsets : T.subsets = ∅
  /-- States of the same outcomes are the same. -/
  distinct : ∀ p q, p ∈ T.states → q ∈ T.states → T.outcome? p = T.outcome? q → p = q

/-- **Comparing groups of targets makes reduced tables.** -/
theorem reduced_quotient_classes (hT : T.Closed) : (T.quotient T.classes).Reduced := by
  have hP := isCongruence_orderGroups hT.targets .targetGroup
  refine ⟨intact_quotient hP hT, ?_, start_quotient (divides_groups .targetGroup) hT.start,
    subsets_quotient T T.classes, ?_⟩
  · rw [keys_quotient hP.divides, map_fst_numbered, map_fst_numbered, List.length_map,
      List.length_range']
  · intro k m hk hm hkm
    obtain ⟨p, hp, rfl⟩ := (mem_states_quotient_iff hP.divides).1 hk
    obtain ⟨q, hq, rfl⟩ := (mem_states_quotient_iff hP.divides).1 hm
    rw [outcome?_quotient hP hT.targets hp, outcome?_quotient hP hT.targets hq,
      ← together_groups_iff_outcome?_eq hT.targets hp hq,
      ← groupIndex_orderGroups_eq_iff (divides_groups .targetGroup) hp hq] at hkm
    exact congrArg Int.ofNat hkm

section Identity

variable (hT : T.Intact) (hP : P.Divides T.states)
  (hidx : ∀ q ∈ T.states, (P.groupIndex q : Int) = q)

include hT hidx in
/-- If each state has its own number, the row of a number is the row of the state. -/
theorem row_quotient_eq_row {q : Int} (hq : q ∈ T.states) : (T.quotient P).row q = T.row q := by
  have hsource : (T.transitions.filter fun t => (P.groupIndex t.1 : Int) = q)
      = T.transitions.filter fun t => t.1 = q := by
    apply List.filter_congr
    rintro ⟨p, s, r⟩ ht
    rw [hidx p (mem_states_of_step? (mem_transitions_iff.1 ht))]
  have htarget : ((T.transitions.filter fun t => t.1 = q).map fun t =>
      (t.2.1, (P.groupIndex t.2.2 : Int)))
        = (T.transitions.filter fun t => t.1 = q).map Prod.snd := by
    apply List.map_congr_left
    rintro ⟨p, s, r⟩ ht
    have hr := hT.targets p s r (mem_transitions_iff.1 (List.mem_filter.1 ht).1)
    rw [hidx r hr]
  rw [row_quotient, hsource, htarget, map_snd_filter_transitions hq, OrderedMap.ofList_entries]

include hP hidx in
theorem states_quotient_eq_states : (T.quotient P).states = T.states := by
  apply StateSet.ext
  intro k
  rw [mem_states_quotient_iff hP]
  constructor
  · rintro ⟨q, hq, rfl⟩
    rwa [hidx q hq]
  · exact fun hk => ⟨k, hk, (hidx k hk).symm⟩

include hT hidx in
theorem finals_quotient_eq_finals : (T.quotient P).finals = T.finals := by
  apply StateSet.ext
  intro k
  rw [quotient, StateSet.mem_ofList, List.mem_map]
  constructor
  · rintro ⟨q, hq, rfl⟩
    obtain ⟨hq, hfin⟩ := List.mem_filter.1 hq
    rw [hidx q (mem_states_iff.2 hq)]
    exact of_decide_eq_true hfin
  · intro hk
    have hmem := hT.finals k hk
    exact ⟨k, List.mem_filter.2 ⟨mem_states_iff.1 hmem, decide_eq_true hk⟩, hidx k hmem⟩

include hT hP hidx in
/-- A quotient that gives each state its own number changes nothing, if the rows ascend. -/
theorem quotient_eq_self (hkeys : T.rows.keys = T.states.toList) (hsubsets : T.subsets = ∅) :
    T.quotient P = T := by
  have hstates := states_quotient_eq_states hP hidx
  have hsame : (T.quotient P).rows.keys = T.rows.keys := by
    rw [keys_quotient hP, ← toList_states_eq (keys_quotient hP), hstates, hkeys]
  have hrows : (T.quotient P).rows = T.rows := by
    apply OrderedMap.ext_get? hsame
    intro k
    by_cases hk : k ∈ T.rows.keys
    · rw [← mem_states_iff] at hk
      rw [get?_rows hk, get?_rows (hstates ▸ hk), row_quotient_eq_row hT hidx hk]
    · rw [OrderedMap.get?_eq_none_iff.2 hk, OrderedMap.get?_eq_none_iff.2 (hsame ▸ hk)]
  calc T.quotient P
      = ⟨(T.quotient P).rows, (T.quotient P).finals, P.groupIndex T.start, ∅⟩ := rfl
    _ = ⟨T.rows, T.finals, T.start, T.subsets⟩ := by
      rw [hrows, finals_quotient_eq_finals hT hidx, hidx T.start hT.start, hsubsets]

end Identity

/-- The states of a reduced table are together only with themselves. -/
theorem Reduced.together_groups_iff_eq (h : T.Reduced) (criterion : Criterion) {p q : Int}
    (hp : p ∈ T.states) (hq : q ∈ T.states) : (T.groups criterion).Together p q ↔ p = q := by
  constructor
  · intro hpq
    exact h.distinct p q hp hq
      (outcome?_eq_of_together (isCongruence_groups criterion) h.targets hpq)
  · rintro rfl
    obtain ⟨G, hG, hpG⟩ := ((divides_groups criterion).cover p).1 hp
    exact ⟨G, hG, hpG, hpG⟩

/-- A state of a reduced table is alone in the class of its own number. -/
theorem Reduced.groupIndex_eq (h : T.Reduced) (criterion : Criterion) {q : Int}
    (hq : q ∈ T.states) : ((T.orderGroups (T.groups criterion)).groupIndex q : Int) = q := by
  have hstates := toList_states_eq h.keys
  have hle : ∀ q ∈ T.states, T.start ≤ q := by
    intro q hq
    rw [← StateSet.mem_toList, hstates, List.mem_map] at hq
    obtain ⟨⟨k, p⟩, he, rfl⟩ := hq
    obtain ⟨n, rfl, -⟩ := mem_numbered.1 he
    rw [h.start_eq]
    exact Int.natCast_nonneg n
  have hplace := idxOf_eq_groupIndex (f := id) (divides_groups criterion) h.start
    (fun _ _ => h.together_groups_iff_eq criterion) hq
  rw [List.map_id, newcomers_roll h.start hle, hstates, id] at hplace
  -- the state itself is its place among the states
  rw [← StateSet.mem_toList, hstates, List.mem_map] at hq
  obtain ⟨⟨k, p⟩, he, rfl⟩ := hq
  obtain ⟨n, rfl, hn⟩ := mem_numbered.1 he
  rw [← hplace, idxOf_map_fst_numbered (List.getElem?_eq_some_iff.1 hn).1]

/-- **A reduced table is minimal already**, by either criterion. -/
theorem Reduced.minimize_eq (h : T.Reduced) (criterion : Criterion) :
    T.minimize criterion = .ok T := by
  have hP := (isCongruence_orderGroups h.targets criterion).divides
  have hkeys : T.rows.keys = T.states.toList := by
    rw [toList_states_eq h.keys, ← h.keys]
  rw [Table.minimize_eq h.toClosed, quotient_eq_self h.toIntact hP
    (fun q hq => h.groupIndex_eq criterion hq) hkeys h.subsets]

/-! ## Minimizing again and again -/

/-- Minimizes by one criterion after the other, up to the first table that is refused. -/
def minimizeAll (T : Table) : List Criterion → Except Violation Table
  | [] => .ok T
  | criterion :: criteria =>
    match T.minimize criterion with
    | .error v => .error v
    | .ok M => M.minimizeAll criteria

/-- A reduced table stays as it is. -/
theorem Reduced.minimizeAll_eq (h : T.Reduced) (criteria : List Criterion) :
    T.minimizeAll criteria = .ok T := by
  induction criteria with
  | nil => rfl
  | cons criterion criteria ih =>
    rw [minimizeAll, h.minimize_eq criterion]
    exact ih

/-- **Minimizing again changes nothing.**  A closed table can be minimized again and again, and if
groups of targets are compared at least once, the result is the same table that comparing them
once leads to: with the same numbers of the states, equal rows, and the same final states. -/
theorem minimizeAll_same (hT : T.Closed) {criteria : List Criterion}
    (hcriteria : .targetGroup ∈ criteria) :
    ∃ M N, T.minimize .targetGroup = .ok M ∧ T.minimizeAll criteria = .ok N ∧ N.Same M := by
  induction criteria generalizing T with
  | nil => simp at hcriteria
  | cons criterion criteria ih =>
    have hP := isCongruence_orderGroups hT.targets criterion
    have hclosed := (intact_quotient hP hT).toClosed
    refine ⟨T.quotient T.classes, ?_⟩
    rw [minimizeAll, minimize_eq hT criterion]
    by_cases hrest : .targetGroup ∈ criteria
    · -- the quotient is an image of the table, so it leads to the same minimal table
      obtain ⟨M, N, hM, hN, hsame⟩ := ih hclosed hrest
      rw [minimize_eq hclosed] at hM
      cases hM
      exact ⟨N, minimize_eq hT .targetGroup, hN,
        hsame.trans ((isImage_quotient hT criterion).same_quotient_classes hT hclosed)⟩
    · -- the quotient by groups of targets is reduced
      obtain rfl : .targetGroup = criterion := (List.mem_cons.1 hcriteria).resolve_right hrest
      exact ⟨_, minimize_eq hT .targetGroup,
        (reduced_quotient_classes hT).minimizeAll_eq criteria, Same.refl _⟩

/-- Two states of equal outcomes, whose rows list their symbols in different orders once they are
seen through the classes of equal rows. -/
def shuffled : Table :=
  ofParts [(0, [("c", 5)]), (5, [("a", 5), ("b", 5)]), (3, [("b", 5), ("a", 3)])] [5, 3] 0

theorem minimizeAll_same_shuffled :
    (shuffled.Closed ∧ Criterion.targetGroup ∈ [Criterion.targetState, .targetGroup]) ∧
      ∃ M N, shuffled.minimize .targetGroup = .ok M ∧
        shuffled.minimizeAll [.targetState, .targetGroup] = .ok N ∧ N.Same M :=
  have hT : shuffled.Closed := checkClosed_eq_ok_iff.1 rfl
  have hmem : Criterion.targetGroup ∈ [Criterion.targetState, .targetGroup] := by decide
  ⟨⟨hT, hmem⟩, minimizeAll_same hT hmem⟩

/-- The rows of the two tables need not list their symbols in the same order. -/
example :
    ((shuffled.minimize .targetGroup).map fun M => (M.row 1).keys) = .ok ["a", "b"] ∧
      (do let M ← shuffled.minimize .targetState
          let N ← M.minimize .targetGroup
          return (N.row 1).keys) = .ok ["b", "a"] := by
  constructor <;> cbv

end Table

end LexAutomata
