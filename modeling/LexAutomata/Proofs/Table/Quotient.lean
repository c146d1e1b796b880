/-
# The quotient of a table and its language

The row of a group takes over the entries of all its members, where a later entry
replaces an earlier one of the same symbol (`row_quotient`).  If the groups are a
congruence, the members agree on their symbols and on the groups that these lead to, so
nothing is lost: the quotient steps from the group of a state to the group of its target
(`step?_quotient`), and a group is final when its members are (`isFinal_quotient`).
Runs of the quotient are then runs of the table seen through the places of the groups
(`outcome?_quotient`), and minimizing preserves the language (`accepts_minimize`).
-/
import LexAutomata.Proofs.Table.Refinement

namespace LexAutomata

/-- A list without repetitions has as many members as elements. -/
theorem StateSet.size_ofList {l : List Int} (hl : l.Nodup) : (ofList l).size = l.length := by
  have hnodup : (ofList l).toList.Nodup := by
    refine (ofList l).ascending.imp ?_
    intro a b hab heq
    omega
  have hperm : (ofList l).toList.Perm l :=
    (List.perm_ext_iff_of_nodup hnodup hl).2 fun _ => mem_ofList
  exact hperm.length_eq

namespace Table

variable {T : Table} {P : Partition} {criterion : Criterion}

/-! ## Collecting rows -/

/-- Enters a transition into the row of the place of its source. -/
def enter (place : Int → Int) (rows : OrderedMap Int (OrderedMap String Int))
    (t : Int × String × Int) : OrderedMap Int (OrderedMap String Int) :=
  rows.alter (place t.1) fun row => (row.getD ∅).insert t.2.1 (place t.2.2)

/-- An empty row for every group. -/
def emptyRows (P : Partition) : OrderedMap Int (OrderedMap String Int) :=
  .ofList ((numbered P).map fun e => (e.1, ∅))

/-- The rows of the quotient are filled transition by transition. -/
theorem rows_quotient (P : Partition) :
    (T.quotient P).rows = T.transitions.foldl (enter fun q => P.groupIndex q) (emptyRows P) :=
  rfl

theorem keys_emptyRows (P : Partition) : (emptyRows P).keys = (numbered P).map Prod.fst :=
  keys_ofList_numbered P fun _ => ∅

/-- There is nothing in the rows before they are filled. -/
theorem getD_get?_emptyRows (P : Partition) (k : Int) : ((emptyRows P).get? k).getD ∅ = ∅ := by
  cases h : (emptyRows P).get? k with
  | none => rfl
  | some row =>
    have hk : k ∈ (emptyRows P).keys := OrderedMap.mem_keys_iff.2 ⟨row, h⟩
    rw [emptyRows, OrderedMap.get?_ofList_of_forall (v := ∅) (OrderedMap.mem_keys_ofList.1 hk)]
      at h
    · exact (Option.some.inj h).symm
    · intro e he _
      obtain ⟨e', -, rfl⟩ := List.mem_map.1 he
      rfl

/-- The row of a place receives the transitions that start there, one after the other. -/
theorem getD_get?_foldl_enter (place : Int → Int) (ts : List (Int × String × Int))
    (rows : OrderedMap Int (OrderedMap String Int)) (k : Int) :
    ((ts.foldl (enter place) rows).get? k).getD ∅
      = ((ts.filter fun t => place t.1 = k).map fun t => (t.2.1, place t.2.2)).foldl
          (fun m e => m.insert e.1 e.2) ((rows.get? k).getD ∅) := by
  induction ts generalizing rows with
  | nil => rfl
  | cons t ts ih =>
    -- the transition goes into this row if its source has this place, and else into another
    rw [List.foldl_cons, ih, enter, OrderedMap.get?_alter, List.filter_cons]
    by_cases h : place t.1 = k
    · simp [h]
    · rw [if_neg (fun hk => h hk.symm)]
      simp [h]

/-- Filling rows adds no row. -/
theorem keys_foldl_enter (place : Int → Int) {ts : List (Int × String × Int)}
    {rows : OrderedMap Int (OrderedMap String Int)} (h : ∀ t ∈ ts, place t.1 ∈ rows.keys) :
    (ts.foldl (enter place) rows).keys = rows.keys := by
  induction ts generalizing rows with
  | nil => rfl
  | cons t ts ih =>
    -- a row that is there is rewritten in its place
    have hkeys : (enter place rows t).keys = rows.keys := by
      rw [enter, OrderedMap.keys_alter, if_pos (h t List.mem_cons_self)]
    rw [List.foldl_cons, ih, hkeys]
    intro t' ht'
    rw [hkeys]
    exact h t' (List.mem_cons_of_mem _ ht')

/-- **The row of a group is entered from the transitions of its members.** -/
theorem row_quotient (P : Partition) (k : Int) :
    (T.quotient P).row k = OrderedMap.ofList
      ((T.transitions.filter fun t => (P.groupIndex t.1 : Int) = k).map fun t =>
        (t.2.1, (P.groupIndex t.2.2 : Int))) := by
  rw [row, rows_quotient, getD_get?_foldl_enter, getD_get?_emptyRows]
  rfl

/-! ## The states of the quotient -/

/-- The states of the quotient are the places of the groups, in their order. -/
theorem keys_quotient (hP : P.Divides T.states) :
    (T.quotient P).rows.keys = (numbered P).map Prod.fst := by
  rw [rows_quotient, keys_foldl_enter, keys_emptyRows]
  rintro ⟨q, s, r⟩ ht
  have hq := mem_states_of_step? (mem_transitions_iff.1 ht)
  have hlt := hP.groupIndex_lt hq
  rw [keys_emptyRows]
  exact List.mem_map.2 ⟨_, mem_numbered.2 ⟨_, rfl, List.getElem?_eq_getElem hlt⟩, rfl⟩

/-- There are as many states as groups. -/
theorem size_states_quotient (hP : P.Divides T.states) :
    (T.quotient P).states.size = P.length := by
  rw [states, keys_quotient hP, StateSet.size_ofList (nodup_map_fst_numbered P)]
  simp [numbered]

/-! ## Steps and runs of the quotient -/

/-- **The quotient steps from the group of a state to the group of its target.** -/
theorem step?_quotient (hP : P.IsCongruence T) {q : Int} (hq : q ∈ T.states) (s : String) :
    (T.quotient P).step? (P.groupIndex q) s
      = (T.step? q s).map fun r => (P.groupIndex r : Int) := by
  -- all members of the group of `q` agree with `q` on what they lead to
  have hmember : ∀ p r, T.step? p s = some r → P.groupIndex p = P.groupIndex q →
      (T.step? q s).map P.groupIndex = some (P.groupIndex r) := by
    intro p r hr hpq
    rw [hP.divides.groupIndex_eq_iff (mem_states_of_step? hr) hq] at hpq
    rw [← hP.step hpq s, hr, Option.map_some]
  rw [step?, row_quotient]
  cases hs : T.step? q s with
  | some r =>
    apply OrderedMap.get?_ofList_of_forall
    · rw [List.map_map, List.mem_map]
      exact ⟨(q, s, r), List.mem_filter.2 ⟨mem_transitions_iff.2 hs, by simp⟩, rfl⟩
    · intro e he hes
      obtain ⟨⟨p, t, r'⟩, ht, rfl⟩ := List.mem_map.1 he
      obtain ⟨ht, hpq⟩ := List.mem_filter.1 ht
      obtain rfl : t = s := hes
      have h := hmember p r' (mem_transitions_iff.1 ht) (Int.ofNat_inj.1 (of_decide_eq_true hpq))
      rw [hs, Option.map_some, Option.some.injEq] at h
      exact congrArg Int.ofNat h.symm
  | none =>
    apply OrderedMap.get?_ofList_eq_none
    intro he
    rw [List.map_map, List.mem_map] at he
    obtain ⟨⟨p, t, r'⟩, ht, hts⟩ := he
    obtain ⟨ht, hpq⟩ := List.mem_filter.1 ht
    obtain rfl : t = s := hts
    have h := hmember p r' (mem_transitions_iff.1 ht) (Int.ofNat_inj.1 (of_decide_eq_true hpq))
    rw [hs] at h
    cases h

/-- **A group is final when its members are.** -/
theorem isFinal_quotient (hP : P.IsCongruence T) {q : Int} (hq : q ∈ T.states) :
    (T.quotient P).isFinal (P.groupIndex q) = T.isFinal q := by
  rw [isFinal, Bool.eq_iff_iff, decide_eq_true_eq, quotient, StateSet.mem_ofList, List.mem_map]
  constructor
  · rintro ⟨p, hp, hpq⟩
    obtain ⟨hp, hfin⟩ := List.mem_filter.1 hp
    have htog := (hP.divides.groupIndex_eq_iff (mem_states_iff.2 hp) hq).1 (Int.ofNat_inj.1 hpq)
    rw [← hP.final htog]
    exact hfin
  · intro hfin
    exact ⟨q, List.mem_filter.2 ⟨mem_states_iff.1 hq, hfin⟩, rfl⟩

/-- **Runs of the quotient end in groups as the runs of the table end in members.** -/
theorem outcome?_quotient (hP : P.IsCongruence T) (hT : T.TargetsHaveRows) {q : Int}
    (hq : q ∈ T.states) : (T.quotient P).outcome? (P.groupIndex q) = T.outcome? q := by
  funext w
  induction w generalizing q with
  | nil =>
    show some ((T.quotient P).isFinal (P.groupIndex q)) = some (T.isFinal q)
    rw [isFinal_quotient hP hq]
  | cons s w ih =>
    rw [outcome?_cons, outcome?_cons, step?_quotient hP hq]
    cases hs : T.step? q s with
    | none => rfl
    | some r => exact ih (hT q s r hs)

/-! ## Minimizing -/

/-- The order in which the groups become states puts none aside. -/
theorem orderGroups_perm (P : Partition) : (T.orderGroups P).Perm P := by
  have hsort := List.mergeSort_perm (P.filter fun G => ¬ T.start ∈ G) fun G H =>
    decide (G.least ≤ H.least)
  have hsplit := List.filter_append_perm (fun G : StateSet => decide (T.start ∈ G)) P
  simp only [← decide_not] at hsplit
  exact (hsort.append_left _).trans hsplit

/-- States have the same number when they are together. -/
theorem groupIndex_orderGroups_eq_iff (hP : P.Divides T.states) {p q : Int} (hp : p ∈ T.states)
    (hq : q ∈ T.states) :
    (T.orderGroups P).groupIndex p = (T.orderGroups P).groupIndex q ↔ P.Together p q := by
  rw [(hP.perm (orderGroups_perm P).symm).groupIndex_eq_iff hp hq,
    Partition.together_perm (orderGroups_perm P)]

/-- The groups in order are a congruence. -/
theorem isCongruence_orderGroups (hT : T.TargetsHaveRows) (criterion : Criterion) :
    (T.orderGroups (T.groups criterion)).IsCongruence T :=
  (isCongruence_groups criterion).perm hT (orderGroups_perm _).symm

/-- Minimizing a closed table gives the quotient by its groups in order. -/
theorem minimize_eq (hT : T.Closed) (criterion : Criterion) :
    T.minimize criterion = .ok (T.quotient (T.orderGroups (T.groups criterion))) := by
  rw [minimize, checkClosed_eq_ok_iff.2 hT]

/-- **Minimization preserves the language.**  Every closed table has a quotient by either
criterion, which accepts the words that the table accepts. -/
theorem accepts_minimize (hT : T.Closed) (criterion : Criterion) :
    ∃ M, T.minimize criterion = .ok M ∧ ∀ word, M.accepts word = T.accepts word := by
  refine ⟨_, minimize_eq hT criterion, ?_⟩
  intro word
  have h := outcome?_quotient (isCongruence_orderGroups hT.targets criterion) hT.targets hT.start
  rw [accepts, accepts, acceptsSymbols_eq_acceptsFrom, acceptsSymbols_eq_acceptsFrom,
    acceptsFrom, acceptsFrom, ← h]
  rfl

/-- A table with partial rows, a state out of reach, a state that leads nowhere and a final state
without a row. -/
def ragged : Table :=
  ofParts [(7, [("b", 2), ("a", 7)]), (2, [("a", -4)]), (-4, []), (9, [("a", 2), ("bc", -4)])]
    [2, 9, 100] 7

theorem accepts_minimize_ragged :
    ragged.Closed ∧
      ∃ M, ragged.minimize .targetGroup = .ok M ∧ ∀ word, M.accepts word = ragged.accepts word :=
  have hT : ragged.Closed := checkClosed_eq_ok_iff.1 rfl
  ⟨hT, accepts_minimize hT .targetGroup⟩

end Table

end LexAutomata
