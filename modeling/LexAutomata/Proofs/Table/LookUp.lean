/-
# No look-up fails

The map of places that each pass is made with has the states of the groups as its keys
(`get?_places`), and the groups of every pass divide the states of the table.  So the rows
of the members are always found, and their targets exactly when these have rows: a pass ends
with the first target that has none, in the order in which it comes to them, and otherwise
splits the groups (`lookUpRefine_eq`).  If the first pass finds all targets, then all passes
do, since they come to the same states (`lookUpStabilize_eq`).  In the quotient of a closed
table every state has a place, every group a least member, and every place a row
(`lookUpQuotient_eq`).

Hence minimizing fails for the violations that it checks for and for nothing else, and
computing the groups fails only where groups are compared and a target has no row
(`minimize_fails_iff`).
-/
import LexAutomata.Proofs.Table.Criteria
import LexAutomata.Proofs.Table.Numbering
import LexAutomata.Table.LookUp

namespace LexAutomata

/-! ## Computations that do not fail -/

section Except

variable {ε α β : Type} {l : List α}

/-- A list is computed element by element if no element fails. -/
theorem mapM_eq_ok {f : α → Except ε β} {g : α → β} (h : ∀ a ∈ l, f a = .ok (g a)) :
    l.mapM f = .ok (l.map g) := by
  induction l with
  | nil => rfl
  | cons a l ih =>
    obtain ⟨ha, hl⟩ := List.forall_mem_cons.1 h
    rw [List.mapM_cons, ha, ih hl]
    rfl

/-- A fold does not fail if no step fails as long as an invariant holds, which every step keeps. -/
theorem foldlM_eq_ok {σ : Type} (I : σ → Prop) {f : σ → α → Except ε σ} {g : σ → α → σ}
    (step : ∀ s, I s → ∀ a ∈ l, f s a = .ok (g s a) ∧ I (g s a)) {s : σ} (hs : I s) :
    l.foldlM f s = .ok (l.foldl g s) ∧ I (l.foldl g s) := by
  induction l generalizing s with
  | nil => exact ⟨rfl, hs⟩
  | cons a l ih =>
    obtain ⟨ha, hkept⟩ := step s hs a List.mem_cons_self
    rw [List.foldlM_cons, ha, List.foldl_cons]
    exact ih (fun s hs b hb => step s hs b (List.mem_cons_of_mem a hb)) hkept

end Except

namespace OrderedMap

variable {β : Type}

/-- Looking up a key gives its value. -/
theorem lookUp_eq_ok {m : OrderedMap Int β} {k : Int} {v : β} (h : m.get? k = some v)
    (missing : Int → Missing) : m.lookUp missing k = .ok v := by
  rw [lookUp, h]

/-- Altering the value at a key is entering the altered value. -/
theorem alter_eq_insert {α : Type} [DecidableEq α] (m : OrderedMap α β) (k : α)
    (f : Option β → β) : m.alter k f = m.insert k (f (m.get? k)) := by
  refine ext_get? ?_ fun k' => ?_
  · rw [insert, keys_alter, keys_alter]
  · rw [get?_alter, get?_insert]

end OrderedMap

namespace Table

variable {T : Table} {α β : Type}

/-! ## The first missing target -/

/-- What comes of looking up the groups of states one after the other: the first that has no row,
and so no group, is missing. -/
def orMissing (T : Table) (qs : List Int) (a : α) : Except Missing α :=
  match qs.find? fun q => !T.rows.contains q with
  | some q => .error (.group q)
  | none => .ok a

/-- Nothing is missing when all states have rows. -/
theorem orMissing_of_find?_eq_none {qs : List Int}
    (h : (qs.find? fun q => !T.rows.contains q) = none) (a : α) : T.orMissing qs a = .ok a := by
  rw [orMissing, h]

/-- What is missing does not depend on what is made of the rest. -/
theorem orMissing_bind (qs : List Int) (a : α) (f : α → β) :
    (T.orMissing qs a >>= fun x => pure (f x)) = T.orMissing qs (f a) := by
  rw [orMissing, orMissing]
  cases qs.find? fun q => !T.rows.contains q <;> rfl

/-- What is missing in a list of computations is the first of all that they look up. -/
theorem mapM_eq_orMissing {l : List α} {f : α → Except Missing β} {qs : α → List Int} {g : α → β}
    (h : ∀ a ∈ l, f a = T.orMissing (qs a) (g a)) :
    l.mapM f = T.orMissing (l.flatMap qs) (l.map g) := by
  induction l with
  | nil => rfl
  | cons a l ih =>
    obtain ⟨ha, hl⟩ := List.forall_mem_cons.1 h
    rw [List.mapM_cons, ha, ih hl, List.flatMap_cons, List.map_cons]
    simp only [orMissing, List.find?_append]
    cases (qs a).find? fun q => !T.rows.contains q with
    | some q => rfl
    | none => cases (l.flatMap qs).find? fun q => !T.rows.contains q <;> rfl

/-- The states are what there are rows for. -/
theorem contains_rows_iff {q : Int} : T.rows.contains q = true ↔ q ∈ T.states := by
  rw [OrderedMap.contains_iff, mem_states_iff]

theorem not_contains_rows_iff {q : Int} : (!T.rows.contains q) = true ↔ ¬ q ∈ T.states := by
  rw [Bool.not_eq_true', ← Bool.not_eq_true, contains_rows_iff]

/-- Nothing is missing when all have rows. -/
theorem find?_missing_eq_none_iff {qs : List Int} :
    (qs.find? fun q => !T.rows.contains q) = none ↔ ∀ q ∈ qs, q ∈ T.states := by
  rw [List.find?_eq_none]
  simp only [not_contains_rows_iff, Decidable.not_not]

/-- The row of a state is found. -/
theorem lookUp_rows {q : Int} (hq : q ∈ T.states) (missing : Int → Missing) :
    T.rows.lookUp missing q = .ok (T.row q) :=
  OrderedMap.lookUp_eq_ok (get?_rows hq) missing

end Table

namespace Partition

variable {P : Partition} {S : StateSet} {T : Table} {criterion : Criterion}

/-! ## Places -/

/-- **The places are those of the groups of the states**, and other states have none. -/
theorem get?_places (hP : P.Divides S) (q : Int) :
    P.places.get? q = if q ∈ S then some (P.groupIndex q : Int) else none := by
  -- a state is entered with the place of a group that holds it
  have hentry : ∀ q n : Int, (q, n) ∈ ((Table.numbered P).flatMap fun e =>
      e.2.toList.map fun q => (q, e.1)) → q ∈ S ∧ n = P.groupIndex q := by
    intro q n h
    obtain ⟨⟨k, G⟩, hk, h⟩ := List.mem_flatMap.1 h
    obtain ⟨q', hq', heq⟩ := List.mem_map.1 h
    cases heq
    obtain ⟨i, rfl, hi⟩ := Table.mem_numbered.1 hk
    obtain ⟨hlt, rfl⟩ := List.getElem?_eq_some_iff.1 hi
    exact ⟨(hP.cover q).2 ⟨_, List.getElem_mem hlt, hq'⟩,
      congrArg Int.ofNat (hP.groupIndex_eq hlt hq').symm⟩
  rw [places]
  split
  · rename_i hq
    have hlt := hP.groupIndex_lt hq
    apply OrderedMap.get?_ofList_of_forall
    · rw [List.mem_map]
      refine ⟨(q, (P.groupIndex q : Int)), List.mem_flatMap.2 ?_, rfl⟩
      exact ⟨((P.groupIndex q : Int), P[P.groupIndex q]),
        Table.mem_numbered.2 ⟨_, rfl, List.getElem?_eq_getElem hlt⟩,
        List.mem_map.2 ⟨q, mem_getElem_groupIndex hlt, rfl⟩⟩
    · rintro ⟨q', n⟩ he rfl
      exact (hentry q' n he).2
  · rename_i hq
    apply OrderedMap.get?_ofList_eq_none
    intro he
    obtain ⟨⟨q', n⟩, hmem, rfl⟩ := List.mem_map.1 he
    exact hq (hentry q' n hmem).1

/-- The place of the group of a state is found. -/
theorem lookUp_places (hP : P.Divides S) {q : Int} (hq : q ∈ S) :
    P.places.lookUp .group q = .ok (P.groupIndex q : Int) :=
  OrderedMap.lookUp_eq_ok (by rw [get?_places hP, if_pos hq]) .group

/-! ## Passes -/

/-- The states whose groups are looked up for the row of a state. -/
def grouped : Criterion → OrderedMap String Int → List Int
  | .targetGroup, row => row.values
  | .targetState, _ => []

/-- The states whose groups a pass looks up, in its order. -/
def groupedBy (P : Partition) (criterion : Criterion) (T : Table) : List Int :=
  P.flatMap fun G => G.toList.flatMap fun q => grouped criterion (T.row q)

/-- The signature of a state is found unless a target has no group. -/
theorem lookUpSignature_eq (hP : P.Divides T.states) {q : Int} (hq : q ∈ T.states) :
    lookUpSignature P.places criterion T q
      = T.orMissing (grouped criterion (T.row q)) (P.signature criterion T q) := by
  have hweights : ((T.row q).entries.mapM fun e => do
        let n ← lookUpWeight P.places criterion e.2
        return (e.1, n))
      = T.orMissing (grouped criterion (T.row q))
          ((T.row q).entries.map fun e => (e.1, P.weight criterion e.2)) := by
    cases criterion with
    | targetState => exact mapM_eq_ok fun e _ => rfl
    | targetGroup =>
      rw [grouped, OrderedMap.values, List.map_eq_flatMap]
      refine Table.mapM_eq_orMissing fun e _ => ?_
      rw [lookUpWeight, OrderedMap.lookUp, get?_places hP, Table.orMissing, List.find?_singleton]
      by_cases he : e.2 ∈ T.states
      · simp only [if_pos he, Table.contains_rows_iff.2 he]
        rfl
      · simp only [if_neg he, Bool.eq_false_iff.2 fun h => he (Table.contains_rows_iff.1 h)]
        rfl
  rw [lookUpSignature, Table.lookUp_rows hq]
  simp only [bind, Except.bind] at hweights ⊢
  rw [hweights]
  exact Table.orMissing_bind _ _ _

/-- A group is split by signatures unless a target of a member has no group. -/
theorem lookUpSplit_eq (hP : P.Divides T.states) {G : StateSet} (hG : G ∈ P) :
    lookUpSplit P.places criterion T G
      = T.orMissing (G.toList.flatMap fun q => grouped criterion (T.row q))
          (splitBy (fun q => OrderedMap.findEntry q
            (G.toList.map fun q => (q, P.signature criterion T q))) G) := by
  rw [lookUpSplit, Table.mapM_eq_orMissing fun q hq => ?_]
  · exact Table.orMissing_bind _ _ _
  · rw [lookUpSignature_eq hP ((hP.cover q).2 ⟨G, hG, hq⟩)]
    exact Table.orMissing_bind _ _ _

/-- **A pass ends with the first target that has no row**, and otherwise splits the groups. -/
theorem lookUpRefine_eq (hP : P.Divides T.states) :
    P.lookUpRefine criterion T
      = T.orMissing (P.groupedBy criterion T) (P.refine criterion T) := by
  rw [lookUpRefine, Table.mapM_eq_orMissing fun G => lookUpSplit_eq hP, refine, List.flatMap_def]
  exact Table.orMissing_bind _ _ _

/-- Whether a pass misses a target does not depend on the groups. -/
theorem find?_groupedBy_eq_none_iff (hP : P.Divides T.states) :
    ((P.groupedBy criterion T).find? fun q => !T.rows.contains q) = none ↔
      ∀ q ∈ T.states, ∀ r ∈ grouped criterion (T.row q), r ∈ T.states := by
  rw [Table.find?_missing_eq_none_iff]
  constructor
  · intro h q hq r hr
    obtain ⟨G, hG, hqG⟩ := (hP.cover q).1 hq
    exact h r (List.mem_flatMap.2 ⟨G, hG, List.mem_flatMap.2 ⟨q, hqG, hr⟩⟩)
  · intro h r hr
    obtain ⟨G, hG, hr⟩ := List.mem_flatMap.1 hr
    obtain ⟨q, hq, hr⟩ := List.mem_flatMap.1 hr
    exact h q ((hP.cover q).2 ⟨G, hG, hq⟩) r hr

/-- **The first pass decides**: if it finds all targets, no later pass misses one. -/
theorem lookUpStabilize_eq (hP : P.Divides T.states) :
    P.lookUpStabilize criterion T
      = T.orMissing (P.groupedBy criterion T) (P.stabilize criterion T) := by
  fun_induction stabilize P criterion T with
  | case1 P finer hle =>
    rw [lookUpStabilize, lookUpRefine_eq hP, Table.orMissing, Table.orMissing]
    cases (P.groupedBy criterion T).find? fun q => !T.rows.contains q with
    | some q => rfl
    | none => exact if_pos hle
  | case2 P finer hlt ih =>
    have hfiner : finer.Divides T.states := divides_refine hP
    rw [lookUpStabilize, lookUpRefine_eq hP, Table.orMissing, Table.orMissing]
    cases hfind : (P.groupedBy criterion T).find? fun q => !T.rows.contains q with
    | some q => rfl
    | none =>
      -- the finer groups have the same members, and so no target of theirs is missing
      have hnone := (find?_groupedBy_eq_none_iff hfiner).2
        ((find?_groupedBy_eq_none_iff hP).1 hfind)
      refine (if_neg hlt).trans ?_
      rw [ih hfiner, Table.orMissing_of_find?_eq_none hnone]

end Partition

namespace Table

variable {T : Table} {P : Partition} {criterion : Criterion}

/-- **The groups are computed as with look-ups**, and what is missing is the target that is
reported. -/
theorem lookUpPartition_eq :
    T.lookUpPartition criterion = (T.partition criterion).mapError fun e => .group e.state := by
  rw [lookUpPartition, Partition.lookUpStabilize_eq divides_acceptanceGroups, orMissing]
  cases criterion with
  | targetState =>
    have hnone : T.acceptanceGroups.groupedBy .targetState T = [] := by
      simp [Partition.groupedBy, Partition.grouped]
    rw [hnone]
    rfl
  | targetGroup =>
    rw [partition, missingTarget?]
    simp only [Partition.groupedBy, Partition.grouped]
    cases (T.acceptanceGroups.flatMap fun G => G.toList.flatMap fun q =>
      (T.row q).values).find? fun q => !T.rows.contains q <;> rfl

/-! ## The order of the groups -/

/-- A set with a member has a least one. -/
theorem lookUpLeast_eq {G : StateSet} (hG : ∃ q, q ∈ G) : G.lookUpLeast = .ok G.least := by
  rw [StateSet.lookUpLeast, StateSet.least]
  cases h : G.toList with
  | nil =>
    obtain ⟨q, hq⟩ := hG
    rw [← StateSet.mem_toList, h] at hq
    exact absurd hq List.not_mem_nil
  | cons q l => rfl

/-- The key by which a group is put in order. -/
def orderKey (T : Table) (G : StateSet) : Bool × Int := (decide (¬ T.start ∈ G), G.least)

/-- Keys are compared by their first parts and then by their second. -/
theorem keyLE_iff {a b : Bool × Int} :
    keyLE a b = true ↔ (a.1 = false ∧ b.1 = true) ∨ (a.1 = b.1 ∧ a.2 ≤ b.2) := by
  obtain ⟨x, k⟩ := a
  obtain ⟨y, m⟩ := b
  cases x <;> cases y <;> simp [keyLE]

/-- Keys that stand before each other are equal. -/
theorem keyLE_antisymm {a b : Bool × Int} (hab : keyLE a b = true) (hba : keyLE b a = true) :
    a = b := by
  rw [keyLE_iff] at hab hba
  grind

theorem pairwise_mergeSort_keyLE {α : Type} (key : α → Bool × Int) (l : List α) :
    (l.mergeSort fun a b => keyLE (key a) (key b)).Pairwise fun a b =>
      keyLE (key a) (key b) = true := by
  refine List.pairwise_mergeSort (fun a b c hab hbc => ?_) (fun a b => ?_) l
  · rw [keyLE_iff] at hab hbc ⊢
    grind
  · rw [Bool.or_eq_true, keyLE_iff, keyLE_iff]
    grind

/-- **The groups are put in order**, and each has a least member to do so. -/
theorem lookUpOrder_eq (hP : P.Divides T.states) (hstart : T.start ∈ T.states) :
    T.lookUpOrder P = .ok (T.orderGroups P) := by
  have hkeyed : (P.mapM fun G => do
        let least ← G.lookUpLeast
        return ((decide (¬ T.start ∈ G), least), G))
      = .ok (P.map fun G => (T.orderKey G, G)) :=
    mapM_eq_ok fun G hG => by rw [lookUpLeast_eq (hP.nonempty G hG)]; rfl
  have hsort : ((P.map fun G => (T.orderKey G, G)).mergeSort fun a b => keyLE a.1 b.1).map Prod.snd
      = P.mergeSort fun G H => keyLE (T.orderKey G) (T.orderKey H) := by
    rw [List.map_mergeSort (s := fun G H => keyLE (T.orderKey G) (T.orderKey H)), List.map_map]
    · exact congrArg (List.mergeSort · _) (List.map_id P)
    · intro a ha b hb
      obtain ⟨G, -, rfl⟩ := List.mem_map.1 ha
      obtain ⟨H, -, rfl⟩ := List.mem_map.1 hb
      rfl
  have hordered : (T.orderGroups P).Pairwise fun G H =>
      keyLE (T.orderKey G) (T.orderKey H) = true := by
    obtain ⟨G, rest, heq, hmem, hrest⟩ := exists_orderGroups_eq hP hstart
    have hdisj := (hP.perm (orderGroups_perm (T := T) P).symm).disjoint
    rw [heq, List.pairwise_cons] at hdisj ⊢
    have hlater : ∀ H ∈ rest, ¬ T.start ∈ H := fun H hH => hdisj.1 H hH T.start hmem
    refine ⟨fun H hH => keyLE_iff.2 (Or.inl ?_), hrest.imp_of_mem fun {H K} hH hK hlt =>
      keyLE_iff.2 (Or.inr ⟨?_, Int.le_of_lt hlt⟩)⟩
    · simp [orderKey, hmem, hlater H hH]
    · simp [orderKey, hlater H hH, hlater K hK]
  have hperm := (List.mergeSort_perm P fun G H => keyLE (T.orderKey G) (T.orderKey H)).trans
    (orderGroups_perm (T := T) P).symm
  rw [lookUpOrder]
  simp only [bind, Except.bind] at hkeyed ⊢
  rw [hkeyed]
  refine congrArg Except.ok (hsort.trans ?_)
  refine hperm.eq_of_pairwise (fun G H hG hH hGH hHG => ?_) (pairwise_mergeSort_keyLE _ P) hordered
  -- groups with the same least member are the same
  rw [List.mem_mergeSort] at hG
  have hH := (orderGroups_perm P).mem_iff.1 hH
  have hleast : G.least = H.least := congrArg Prod.snd (keyLE_antisymm hGH hHG)
  exact hP.group_eq hG hH (StateSet.least_mem (hP.nonempty G hG))
    (hleast ▸ StateSet.least_mem (hP.nonempty H hH))

/-! ## The quotient -/

/-- Entering into a row that is there keeps the keys. -/
theorem keys_enter {place : Int → Int} {rows : OrderedMap Int (OrderedMap String Int)}
    {t : Int × String × Int} (h : place t.1 ∈ rows.keys) :
    (enter place rows t).keys = rows.keys := by
  rw [enter, OrderedMap.keys_alter, if_pos h]

/-- The transitions of a state are entered one after the other. -/
def enterRow (place : Int → Int) (rows : OrderedMap Int (OrderedMap String Int))
    (e : Int × OrderedMap String Int) : OrderedMap Int (OrderedMap String Int) :=
  e.2.entries.foldl (fun rows x => enter place rows (e.1, x.1, x.2)) rows

theorem enterRow_eq (place : Int → Int) (rows : OrderedMap Int (OrderedMap String Int))
    (e : Int × OrderedMap String Int) :
    enterRow place rows e = (e.2.entries.map fun x => (e.1, x.1, x.2)).foldl (enter place) rows :=
  List.foldl_map.symm

/-- What entering the row of a state makes of the new table. -/
def addRow (T : Table) (place : Int → Int) (M : Table) (e : Int × OrderedMap String Int) : Table :=
  { M with
    rows := enterRow place M.rows e
    finals := if T.isFinal e.1 then M.finals.insert (place e.1) else M.finals }

/-- The rows of all states make the quotient. -/
theorem foldl_addRow (place : Int → Int) (es : List (Int × OrderedMap String Int)) (M : Table) :
    es.foldl (T.addRow place) M =
      { M with
        rows := (es.flatMap fun row => row.2.entries.map fun e => (row.1, e.1, e.2)).foldl
          (enter place) M.rows
        finals := (((es.map Prod.fst).filter T.isFinal).map place).foldl
          (fun S q => S.insert q) M.finals } := by
  induction es generalizing M with
  | nil => rfl
  | cons e es ih =>
    rw [List.foldl_cons, ih, List.flatMap_cons, List.foldl_append, ← enterRow_eq, List.map_cons,
      List.filter_cons, addRow]
    congr 1
    split <;> rfl

/-- **Every look-up for the quotient of a closed table is found.** -/
theorem lookUpQuotient_eq (hP : P.Divides T.states) (hT : T.Closed) :
    T.lookUpQuotient P = .ok (T.quotient P) := by
  let place : Int → Int := fun q => P.groupIndex q
  -- the new table has a row for every place from the beginning to the end
  have hplace : ∀ q ∈ T.states, ∀ rows : OrderedMap Int (OrderedMap String Int),
      rows.keys = (emptyRows P).keys → place q ∈ rows.keys := by
    intro q hq rows hrows
    have hlt := hP.groupIndex_lt hq
    rw [hrows, keys_emptyRows]
    exact List.mem_map.2 ⟨_, mem_numbered.2 ⟨_, rfl, List.getElem?_eq_getElem hlt⟩, rfl⟩
  have hentry : ∀ q ∈ T.states, ∀ rows : OrderedMap Int (OrderedMap String Int),
      rows.keys = (emptyRows P).keys → ∀ e ∈ (T.row q).entries,
        lookUpEntry P.places (place q) rows e = .ok (enter place rows (q, e.1, e.2)) ∧
          (enter place rows (q, e.1, e.2)).keys = (emptyRows P).keys := by
    rintro q hq rows hrows ⟨s, r⟩ he
    have hr : r ∈ T.states := hT.targets q s r (OrderedMap.mem_entries_iff.1 he)
    have hkey := hplace q hq rows hrows
    obtain ⟨row, hrow⟩ := OrderedMap.mem_keys_iff.1 hkey
    refine ⟨?_, (keys_enter hkey).trans hrows⟩
    rw [lookUpEntry, Partition.lookUp_places hP hr, OrderedMap.lookUp_eq_ok hrow, enter,
      OrderedMap.alter_eq_insert, hrow]
    rfl
  have hrow : ∀ M : Table, M.rows.keys = (emptyRows P).keys → ∀ e ∈ T.rows.entries,
      T.lookUpRow P.places M e = .ok (T.addRow place M e) ∧
        (T.addRow place M e).rows.keys = (emptyRows P).keys := by
    rintro M hM ⟨q, row⟩ he
    obtain ⟨hq, rfl⟩ := mem_entries_rows_iff.1 he
    obtain ⟨hrows, hkeys⟩ := foldlM_eq_ok
      (fun rows : OrderedMap Int (OrderedMap String Int) => rows.keys = (emptyRows P).keys)
      (hentry q hq) hM
    refine ⟨?_, hkeys⟩
    rw [lookUpRow, Partition.lookUp_places hP hq]
    simp only [bind, Except.bind]
    rw [hrows]
    rfl
  rw [lookUpQuotient, Partition.lookUp_places hP hT.start]
  refine (foldlM_eq_ok (fun M : Table => M.rows.keys = (emptyRows P).keys) hrow rfl).1.trans ?_
  rw [foldl_addRow]
  rfl

/-! ## Failures -/

/-- **Minimizing does not fail at a look-up**, whatever the table is. -/
theorem lookUpMinimize_eq (T : Table) (criterion : Criterion) :
    T.lookUpMinimize criterion = .ok (T.minimize criterion) := by
  rw [lookUpMinimize, minimize]
  cases hchecked : T.checkClosed with
  | error v => rfl
  | ok u =>
    have hT : T.Closed := checkClosed_eq_ok_iff.1 hchecked
    have hP : (T.groups criterion).Divides T.states := divides_groups criterion
    have hO := hP.perm (orderGroups_perm (T := T) _).symm
    have hpartition : T.lookUpPartition criterion = .ok (T.groups criterion) := by
      rw [lookUpPartition_eq]
      cases criterion with
      | targetState => rfl
      | targetGroup => rw [partition_targetGroup_eq hT.targets]; rfl
    simp only [bind, Except.bind, hpartition, lookUpOrder_eq hP hT.start, lookUpQuotient_eq hO hT]
    rfl

/-- The tables that are refused, each with the violation that it is refused for. -/
inductive Refused (T : Table) : Violation → Prop
  /-- A transition leads to a state without a row, and none before it does. -/
  | target {before after : List (Int × String × Int)} {p : Int} {s : String} {q : Int}
      (h : T.transitions = before ++ (p, s, q) :: after)
      (hbefore : ∀ t ∈ before, t.2.2 ∈ T.states) (hq : ¬ q ∈ T.states) :
      Refused T (.danglingTarget p s q)
  /-- No transition does, but the start state has no row. -/
  | start (h : ∀ t ∈ T.transitions, t.2.2 ∈ T.states) (hstart : ¬ T.start ∈ T.states) :
      Refused T (.startOutsideTable T.start)

/-- **The check finds what a table is refused for.** -/
theorem checkClosed_eq_error_iff {v : Violation} : T.checkClosed = .error v ↔ T.Refused v := by
  rw [checkClosed]
  constructor
  · intro h
    split at h
    · rename_i t hfind
      cases h
      obtain ⟨hq, before, after, heq, hbefore⟩ := List.find?_eq_some_iff_append.1 hfind
      refine .target heq (fun t ht => ?_) (not_contains_rows_iff.1 hq)
      have := hbefore t ht
      rwa [Bool.not_not, contains_rows_iff] at this
    · rename_i hfind
      split at h
      · cases h
      · rename_i hstart
        cases h
        rw [contains_rows_iff] at hstart
        refine .start (fun t ht => ?_) hstart
        have := List.find?_eq_none.1 hfind t ht
        rwa [not_contains_rows_iff, Decidable.not_not] at this
  · intro h
    cases h with
    | @target before after p s q heq hbefore hq =>
      have hfind : (T.transitions.find? fun t => !T.rows.contains t.2.2) = some (p, s, q) := by
        refine List.find?_eq_some_iff_append.2 ⟨not_contains_rows_iff.2 hq, before, after, heq, ?_⟩
        intro t ht
        rw [Bool.not_not, contains_rows_iff]
        exact hbefore t ht
      rw [hfind]
    | start hall hstart =>
      have hfind : (T.transitions.find? fun t => !T.rows.contains t.2.2) = none := by
        rw [List.find?_eq_none]
        intro t ht
        rw [not_contains_rows_iff, Decidable.not_not]
        exact hall t ht
      rw [hfind]
      exact if_neg (mt contains_rows_iff.1 hstart)

/-- Minimizing fails with the violation that the table is refused for. -/
theorem minimize_eq_error_iff {v : Violation} :
    T.minimize criterion = .error v ↔ T.Refused v := by
  rw [← checkClosed_eq_error_iff, minimize]
  cases T.checkClosed <;> simp

/-- The targets have rows when all transitions lead to states. -/
theorem targetsHaveRows_iff : T.TargetsHaveRows ↔ ∀ t ∈ T.transitions, t.2.2 ∈ T.states := by
  constructor
  · rintro h ⟨q, s, r⟩ ht
    exact h q s r (mem_transitions_iff.1 ht)
  · intro h q s r hr
    exact h (q, s, r) (mem_transitions_iff.2 hr)

/-- A table is refused exactly when some target or the start state has no row. -/
theorem exists_refused_iff :
    (∃ v, T.Refused v) ↔ (∃ t ∈ T.transitions, ¬ t.2.2 ∈ T.states) ∨ ¬ T.start ∈ T.states := by
  simp only [← checkClosed_eq_error_iff]
  have hclosed : T.checkClosed = .ok () ↔
      T.start ∈ T.states ∧ ∀ t ∈ T.transitions, t.2.2 ∈ T.states := by
    rw [checkClosed_eq_ok_iff, ← targetsHaveRows_iff]
    exact ⟨fun h => ⟨h.start, h.targets⟩, fun h => ⟨h.1, h.2⟩⟩
  cases hchecked : T.checkClosed with
  | ok u =>
    obtain ⟨hstart, htargets⟩ := hclosed.1 hchecked
    simp only [reduceCtorEq, exists_false, false_iff]
    rintro (⟨t, ht, hmissing⟩ | hmissing)
    · exact hmissing (htargets t ht)
    · exact hmissing hstart
  | error v =>
    simp only [Except.error.injEq, exists_eq', true_iff]
    refine Classical.byContradiction fun hnone => ?_
    rw [not_or, not_exists, Decidable.not_not] at hnone
    rw [hclosed.2 ⟨hnone.2, fun t ht => Decidable.not_not.1 fun h => hnone.1 t ⟨ht, h⟩⟩] at hchecked
    cases hchecked

/-- Computing the groups fails exactly when groups are compared and some target has none. -/
theorem exists_partition_eq_error_iff :
    (∃ e, T.partition criterion = .error e) ↔
      criterion = .targetGroup ∧ ∃ t ∈ T.transitions, ¬ t.2.2 ∈ T.states := by
  cases criterion with
  | targetState => simp [partition]
  | targetGroup =>
    have hrows := (missingTarget?_eq_none_iff (T := T)).trans targetsHaveRows_iff
    rw [partition]
    cases hmissing : T.missingTarget? with
    | none =>
      have hall := hrows.1 hmissing
      simpa using hall
    | some q =>
      have hnot : ¬ ∀ t ∈ T.transitions, t.2.2 ∈ T.states := fun h => by
        rw [hrows.2 h] at hmissing
        cases hmissing
      simpa using hnot

/-- **Minimizing and computing the groups fail exactly on broken tables.**  Whatever the final
states are, minimizing raises the violation that the table is refused for, which is that of the
first transition to a state without a row, or else that of a start state without one; there is one
exactly when some target or the start state has no row, and without one no look-up fails.  Computing
the groups alone fails exactly when groups are compared and some target has no row, at the look-up
of the target that is reported. -/
theorem minimize_fails_iff (T : Table) (criterion : Criterion) :
    (∀ v, T.minimize criterion = .error v ↔ T.Refused v) ∧
    ((∃ v, T.Refused v) ↔
      (∃ t ∈ T.transitions, ¬ t.2.2 ∈ T.states) ∨ ¬ T.start ∈ T.states) ∧
    T.lookUpMinimize criterion = .ok (T.minimize criterion) ∧
    ((∃ e, T.partition criterion = .error e) ↔
      criterion = .targetGroup ∧ ∃ t ∈ T.transitions, ¬ t.2.2 ∈ T.states) ∧
    T.lookUpPartition criterion = (T.partition criterion).mapError fun e => .group e.state :=
  ⟨fun _ => minimize_eq_error_iff, exists_refused_iff, lookUpMinimize_eq T criterion,
    exists_partition_eq_error_iff, lookUpPartition_eq⟩

end Table

end LexAutomata
