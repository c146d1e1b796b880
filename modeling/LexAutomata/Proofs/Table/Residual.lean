/-
# Tables of residuals

The residual of a state is the set of sequences that are accepted from it.  If final
states are within reach of all states, the groups of targets are the states of equal
residuals, and a row has an entry for exactly the symbols that its residual continues
with (`keys_row_eq_symbols`).  If moreover the start state is the least one and the rows
list their symbols in ascending order, as the subset construction leaves them, the
quotient numbers the residuals in the order of their first states
(`map_least_orderGroups`).  Nothing but the list of the residuals is then left in it: the
quotient is the table of that list (`quotient_eq_ofResiduals`).
-/
import Mathlib.Data.List.Sort
import LexAutomata.Proofs.Table.Numbering

namespace LexAutomata

/-! ## Residuals -/

/-- A set of sequences of symbols, as accepted from a state or a set of states. -/
abbrev Residual := List String → Bool

noncomputable instance : DecidableEq Residual := fun _ _ => Classical.propDecidable _

namespace Residual

/-- What is accepted after a symbol. -/
def after (R : Residual) (s : String) : Residual := fun w => R (s :: w)

open Classical in
/-- The symbols that the accepted sequences begin with, in ascending order; none are listed if
there are infinitely many. -/
noncomputable def symbols (R : Residual) : List String :=
  if h : ∃ l : List String, l.Pairwise (· < ·) ∧ ∀ s, s ∈ l ↔ ∃ w, R.after s w = true then
    h.choose
  else []

theorem symbols_eq {R : Residual} {l : List String} (hl : l.Pairwise (· < ·))
    (h : ∀ s, s ∈ l ↔ ∃ w, R.after s w = true) : R.symbols = l := by
  have hex : ∃ l : List String, l.Pairwise (· < ·) ∧ ∀ s, s ∈ l ↔ ∃ w, R.after s w = true :=
    ⟨l, hl, h⟩
  rw [symbols, dif_pos hex]
  obtain ⟨hchosen, hmem⟩ := hex.choose_spec
  refine hchosen.eq_of_mem_iff hl fun s => ?_
  rw [hmem, h]

/-- The residuals that a residual leads to, in the order of the symbols. -/
noncomputable def next (R : Residual) : List Residual := R.symbols.map R.after

end Residual

/-- Where all parts are one list, the newcomers of all parts are that list. -/
theorem newcomers_flatMap {α β : Type} [DecidableEq β] {f : α → List β} {l : List α}
    {m : List β} (hm : m.Nodup) (hf : ∀ a ∈ l, f a = m) (hl : ¬ l = []) :
    Graph.newcomers [] (l.flatMap f) = m := by
  cases l with
  | nil => exact absurd rfl hl
  | cons a l =>
    rw [List.forall_mem_cons] at hf
    have hrest : ∀ b ∈ l.flatMap f, b ∈ m := by
      intro b hb
      obtain ⟨a', ha', hb⟩ := List.mem_flatMap.1 hb
      exact hf.2 a' ha' ▸ hb
    rw [List.flatMap_cons, Graph.newcomers_append, hf.1,
      Graph.newcomers_eq_self hm fun _ _ => List.not_mem_nil, List.nil_append,
      Graph.newcomers_eq_nil hrest, List.append_nil]

namespace Table

variable {T : Table}

/-! ## The table of a list of residuals -/

/-- The row of a residual, which leads to the places of the residuals after each symbol. -/
noncomputable def residualRow (L : List Residual) (R : Residual) : OrderedMap String Int :=
  .ofList (R.symbols.map fun s => (s, (L.idxOf (R.after s) : Int)))

/-- The table whose states are the places of the residuals in a list. -/
noncomputable def ofResiduals (L : List Residual) (start : Residual) : Table where
  rows := .ofList ((numbered L).map fun e => (e.1, residualRow L e.2))
  finals := .ofList (((numbered L).filter fun e => e.2 []).map Prod.fst)
  start := L.idxOf start

/-- The residuals of the states, each at its first place. -/
noncomputable def residuals (T : Table) : List Residual :=
  Graph.newcomers [] (T.states.toList.map T.acceptsFrom)

/-- The start state is the least one, and the rows list their symbols in ascending order. -/
structure Ascending (T : Table) : Prop where
  /-- The start state is the least one. -/
  start_le : ∀ q ∈ T.states, T.start ≤ q
  /-- The symbols of a row ascend. -/
  symbols : ∀ q ∈ T.states, (T.row q).keys.Pairwise (· < ·)

/-! ## Residuals of states -/

theorem after_acceptsFrom {q r : Int} {s : String} (h : T.step? q s = some r) :
    Residual.after (T.acceptsFrom q) s = T.acceptsFrom r := by
  funext w
  show T.acceptsFrom q (s :: w) = T.acceptsFrom r w
  rw [acceptsFrom, outcome?_cons, h]
  rfl

/-- **A row has entries for the symbols of its residual.** -/
theorem keys_row_eq_symbols (hT : T.TargetsHaveRows) (hco : T.Coaccessible) (hasc : T.Ascending)
    {q : Int} (hq : q ∈ T.states) : Residual.symbols (T.acceptsFrom q) = (T.row q).keys := by
  apply Residual.symbols_eq (hasc.symbols q hq)
  intro s
  rw [OrderedMap.mem_keys_iff]
  constructor
  · rintro ⟨r, hr⟩
    obtain ⟨w, hw⟩ := hco r (hT q s r hr)
    exact ⟨w, by rw [after_acceptsFrom hr]; exact hw⟩
  · rintro ⟨w, hw⟩
    obtain ⟨p, hp, -⟩ := acceptsFrom_eq_true_iff.1 hw
    rw [run?_cons, Option.bind_eq_some_iff] at hp
    obtain ⟨r, hr, -⟩ := hp
    exact ⟨r, hr⟩

/-- Where final states are within reach of all states, the groups of targets are the states of
equal residuals. -/
theorem together_groups_iff_acceptsFrom_eq (hT : T.TargetsHaveRows) (hco : T.Coaccessible)
    {p q : Int} (hp : p ∈ T.states) (hq : q ∈ T.states) :
    (T.groups .targetGroup).Together p q ↔ T.acceptsFrom p = T.acceptsFrom q := by
  rw [together_groups_iff_outcome?_eq hT hp hq]
  constructor
  · intro h
    funext w
    rw [acceptsFrom, acceptsFrom, h]
  · exact outcome?_eq_of_acceptsFrom_eq hT hco hp hq

/-! ## The quotient as a table of residuals -/

/-- The groups of targets in the order in which they become states. -/
abbrev classes (T : Table) : Partition := T.orderGroups (T.groups .targetGroup)

section Quotient

variable (hT : T.Closed) (hco : T.Coaccessible) (hasc : T.Ascending)

include hT hasc in
/-- As the start state is the least one, the residuals are met in the order in which the classes
are numbered. -/
theorem newcomers_map_acceptsFrom :
    Graph.newcomers [] (T.roll.map T.acceptsFrom) = T.residuals :=
  newcomers_map_roll hT.start hasc.start_le T.acceptsFrom

include hT hco hasc

/-- The place of the residual of a state is the number of its class. -/
theorem idxOf_acceptsFrom {q : Int} (hq : q ∈ T.states) :
    T.residuals.idxOf (T.acceptsFrom q) = T.classes.groupIndex q := by
  rw [← newcomers_map_acceptsFrom hT hasc]
  exact idxOf_eq_groupIndex (divides_groups .targetGroup) hT.start
    (fun _ _ => together_groups_iff_acceptsFrom_eq hT.targets hco) hq

/-- At the number of its class stands the residual of a state. -/
theorem getElem?_residuals {q : Int} (hq : q ∈ T.states) :
    T.residuals[T.classes.groupIndex q]? = some (T.acceptsFrom q) := by
  rw [← newcomers_map_acceptsFrom hT hasc]
  exact getElem?_groupIndex (divides_groups .targetGroup) hT.start
    (fun _ _ => together_groups_iff_acceptsFrom_eq hT.targets hco) hq

/-- There is one residual for every class. -/
theorem length_residuals : T.residuals.length = T.classes.length := by
  rw [← newcomers_map_acceptsFrom hT hasc, map_least_orderGroups (divides_groups .targetGroup)
    hT.start (fun _ _ => together_groups_iff_acceptsFrom_eq hT.targets hco), List.length_map]

/-- The symbols of a class are those of the residual of its members. -/
theorem keys_row_classes {q : Int} (hq : q ∈ T.states) :
    ((T.quotient T.classes).row (T.classes.groupIndex q)).keys
      = Residual.symbols (T.acceptsFrom q) := by
  have hsymbols := keys_row_eq_symbols hT.targets hco hasc hq
  rw [row_quotient, OrderedMap.keys_ofList,
    T.filter_transitions fun p => (T.classes.groupIndex p : Int) = T.classes.groupIndex q,
    List.map_flatMap, List.map_flatMap]
  -- each member of the class contributes its symbols
  apply newcomers_flatMap
  · rw [hsymbols]
    exact OrderedMap.nodup_keys _
  · rintro ⟨p, row⟩ he
    obtain ⟨he, hpq⟩ := List.mem_filter.1 he
    obtain ⟨hp, rfl⟩ := mem_entries_rows_iff.1 he
    have htog := (groupIndex_orderGroups_eq_iff (divides_groups .targetGroup) hp hq).1
      (Int.ofNat_inj.1 (of_decide_eq_true hpq))
    rw [← (together_groups_iff_acceptsFrom_eq hT.targets hco hp hq).1 htog,
      keys_row_eq_symbols hT.targets hco hasc hp, List.map_map, List.map_map]
    rfl
  · exact List.ne_nil_of_mem
      (List.mem_filter.2 ⟨mem_entries_rows_iff.2 ⟨hq, rfl⟩, decide_eq_true rfl⟩)

/-- **The row of a class is the row of the residual of its members.** -/
theorem row_classes {q : Int} (hq : q ∈ T.states) :
    (T.quotient T.classes).row (T.classes.groupIndex q)
      = residualRow T.residuals (T.acceptsFrom q) := by
  have hP := isCongruence_orderGroups hT.targets .targetGroup
  have hsymbols := keys_row_eq_symbols hT.targets hco hasc hq
  have hfst : ((Residual.symbols (T.acceptsFrom q)).map fun s =>
      (s, (T.residuals.idxOf (Residual.after (T.acceptsFrom q) s) : Int))).map Prod.fst
        = (T.row q).keys := by
    rw [List.map_map, hsymbols]
    exact List.map_id _
  -- the symbols stand in the same order, and each leads to the same place
  apply OrderedMap.ext_get?
  · rw [keys_row_classes hT hco hasc hq, residualRow, OrderedMap.keys_ofList_of_nodup, hfst,
      hsymbols]
    rw [hfst]
    exact OrderedMap.nodup_keys _
  · intro s
    have hstep := step?_quotient hP hq s
    rw [step?] at hstep
    rw [hstep, residualRow]
    cases hs : T.step? q s with
    | none =>
      rw [Option.map_none, OrderedMap.get?_ofList_eq_none]
      rw [hfst, ← OrderedMap.get?_eq_none_iff]
      exact hs
    | some r =>
      rw [Option.map_some, OrderedMap.get?_ofList_of_forall (v := (T.classes.groupIndex r : Int))]
      · rw [hfst, OrderedMap.mem_keys_iff]
        exact ⟨r, hs⟩
      · rintro e he rfl
        obtain ⟨t, -, rfl⟩ := List.mem_map.1 he
        rw [after_acceptsFrom hs, idxOf_acceptsFrom hT hco hasc (hT.targets q t r hs)]

/-- The rows are entered at the same places. -/
theorem rows_classes :
    (T.quotient T.classes).rows = (ofResiduals T.residuals (T.acceptsFrom T.start)).rows := by
  have hP := isCongruence_orderGroups hT.targets .targetGroup
  have hkeys : (T.quotient T.classes).rows.keys = (numbered T.classes).map Prod.fst :=
    keys_quotient hP.divides
  have hkeys' : (ofResiduals T.residuals (T.acceptsFrom T.start)).rows.keys
      = (numbered T.classes).map Prod.fst := by
    rw [ofResiduals, keys_ofList_numbered, map_fst_numbered, map_fst_numbered,
      length_residuals hT hco hasc]
  apply OrderedMap.ext_get? (hkeys.trans hkeys'.symm)
  intro k
  by_cases hk : k ∈ (numbered T.classes).map Prod.fst
  · -- the place is that of the class of some state
    obtain ⟨⟨k, G⟩, hG, rfl⟩ := List.mem_map.1 hk
    obtain ⟨n, rfl, hn⟩ := mem_numbered.1 hG
    obtain ⟨hlt, -⟩ := List.getElem?_eq_some_iff.1 hn
    obtain ⟨q, hq, rfl⟩ := hP.divides.exists_groupIndex_eq hlt
    rw [← hkeys, OrderedMap.mem_keys_iff] at hk
    obtain ⟨row, hrow⟩ := hk
    have h := row_classes hT hco hasc hq
    rw [Table.row, hrow, Option.getD_some] at h
    rw [hrow, h, ofResiduals]
    exact (get?_ofList_numbered _ (getElem?_residuals hT hco hasc hq)).symm
  · rw [OrderedMap.get?_eq_none_iff.2 (hkeys ▸ hk), OrderedMap.get?_eq_none_iff.2 (hkeys' ▸ hk)]

/-- A class is final when its residual accepts the empty sequence. -/
theorem finals_classes :
    (T.quotient T.classes).finals = (ofResiduals T.residuals (T.acceptsFrom T.start)).finals := by
  have hP := isCongruence_orderGroups hT.targets .targetGroup
  have hnil : ∀ q, T.acceptsFrom q [] = T.isFinal q := fun _ => rfl
  apply StateSet.ext
  intro k
  rw [quotient, ofResiduals, StateSet.mem_ofList, StateSet.mem_ofList, List.mem_map, List.mem_map]
  constructor
  · rintro ⟨q, hq, rfl⟩
    obtain ⟨hq, hfin⟩ := List.mem_filter.1 hq
    have hplace := getElem?_residuals hT hco hasc (mem_states_iff.2 hq)
    exact ⟨(_, T.acceptsFrom q),
      List.mem_filter.2 ⟨mem_numbered.2 ⟨_, rfl, hplace⟩, hfin⟩, rfl⟩
  · rintro ⟨⟨k, R⟩, he, rfl⟩
    obtain ⟨he, hfin⟩ := List.mem_filter.1 he
    obtain ⟨n, rfl, hn⟩ := mem_numbered.1 he
    have hlt : n < T.classes.length :=
      length_residuals hT hco hasc ▸ (List.getElem?_eq_some_iff.1 hn).1
    obtain ⟨q, hq, rfl⟩ := hP.divides.exists_groupIndex_eq hlt
    rw [getElem?_residuals hT hco hasc hq, Option.some.injEq] at hn
    rw [← hn] at hfin
    exact ⟨q, List.mem_filter.2 ⟨mem_states_iff.1 hq, hfin⟩, rfl⟩

/-- **Nothing but the residuals is left in the quotient.** -/
theorem quotient_eq_ofResiduals :
    T.quotient T.classes = ofResiduals T.residuals (T.acceptsFrom T.start) := by
  have hstart : ((T.classes.groupIndex T.start : Nat) : Int)
      = T.residuals.idxOf (T.acceptsFrom T.start) := by
    rw [idxOf_acceptsFrom hT hco hasc hT.start]
  calc T.quotient T.classes
      = ⟨(T.quotient T.classes).rows, (T.quotient T.classes).finals,
          T.classes.groupIndex T.start, ∅⟩ := rfl
    _ = ofResiduals T.residuals (T.acceptsFrom T.start) := by
      rw [rows_classes hT hco hasc, finals_classes hT hco hasc, hstart]
      rfl

end Quotient

end Table

end LexAutomata
