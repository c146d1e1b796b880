/-
# Merging in memory

Merging in place writes to no object that was there before: all that it changes are objects
of the union, which are new (`Owns`).  So every automaton that was in memory is found
unchanged, those that are merged included, also while they are copied
(`Extends.automaton_eq`).  The objects of the union are distinct from each other, so that
what is entered for one state and label shows there only, and the automaton that is found
in the end is the union (`shows_unionFrom`).
-/
import LexAutomata.Automaton.Memory
import LexAutomata.Proofs.OrderedMap

namespace LexAutomata

/-! ## Maps under a change at one key -/

namespace OrderedMap

variable {α β γ : Type} [DecidableEq α]

omit [DecidableEq α] in
/-- The keys stay when all values are changed. -/
theorem keys_mapValues (m : OrderedMap α β) (f : α → β → γ) : (m.mapValues f).keys = m.keys := by
  rw [keys, mapValues, List.map_map]
  rfl

/-- Changes that agree on the values of a map change it alike. -/
theorem mapValues_congr {m : OrderedMap α β} {f g : β → γ}
    (h : ∀ k v, m.get? k = some v → f v = g v) :
    (m.mapValues fun _ => f) = m.mapValues fun _ => g := by
  refine ext_get? (by rw [keys_mapValues, keys_mapValues]) fun k => ?_
  rw [get?_mapValues, get?_mapValues]
  cases hv : m.get? k with
  | none => rfl
  | some v => exact congrArg some (h k v hv)

/-- Where one key got another value and the values of the others are seen as before, the values
that are seen are altered at this key. -/
theorem mapValues_insert_eq_alter {m : OrderedMap α β} {f g : β → γ} {k : α} {v : β}
    {u : Option γ → γ} (hv : g v = u ((m.get? k).map f))
    (hother : ∀ k' w, ¬ k' = k → m.get? k' = some w → g w = f w) :
    ((m.insert k v).mapValues fun _ => g) = (m.mapValues fun _ => f).alter k u := by
  refine ext_get? ?_ fun k' => ?_
  · rw [keys_mapValues, keys_alter, keys_mapValues, insert, keys_alter]
  · rw [get?_mapValues, get?_insert, get?_alter, get?_mapValues, get?_mapValues]
    by_cases hk : k' = k
    · rw [if_pos hk, if_pos hk, Option.map_some, hv]
    · rw [if_neg hk, if_neg hk]
      cases hw : m.get? k' with
      | none => rfl
      | some w => exact congrArg some (hother k' w hk hw)

end OrderedMap

/-! ## Objects that stay -/

namespace Arena

variable {α : Type} {a b c : Arena α}

/-- A new object is found in its place, and the others stay. -/
theorem get_alloc (a : Arena α) (x : α) (k : Nat) :
    (a.alloc x).get k = if k = a.next then x else a.get k := rfl

/-- An update changes the object in its place, and the others stay. -/
theorem get_update (a : Arena α) (i : Nat) (f : α → α) (k : Nat) :
    (a.update i f).get k = if k = i then f (a.get i) else a.get k := rfl

/-- All objects of the first arena are as they were. -/
structure Extends (a b : Arena α) : Prop where
  /-- No object is removed. -/
  next_le : a.next ≤ b.next
  /-- No object is changed. -/
  get_eq : ∀ i, i < a.next → b.get i = a.get i

theorem Extends.refl (a : Arena α) : Extends a a := ⟨Nat.le_refl _, fun _ _ => rfl⟩

theorem Extends.trans (hab : Extends a b) (hbc : Extends b c) : Extends a c where
  next_le := Nat.le_trans hab.next_le hbc.next_le
  get_eq i hi := (hbc.get_eq i (Nat.lt_of_lt_of_le hi hab.next_le)).trans (hab.get_eq i hi)

/-- An arena with a new object extends what it extended before. -/
theorem Extends.alloc (h : Extends a b) (x : α) : Extends a (b.alloc x) where
  next_le := Nat.le_succ_of_le h.next_le
  get_eq i hi := by
    have := h.next_le
    rw [get_alloc, if_neg (by omega)]
    exact h.get_eq i hi

/-- A change to an object that is not among them. -/
theorem Extends.update (h : Extends a b) {i : Nat} (hi : a.next ≤ i) (f : α → α) :
    Extends a (b.update i f) where
  next_le := h.next_le
  get_eq k hk := by
    rw [get_update, if_neg (by omega)]
    exact h.get_eq k hk

/-- What is known of the place of an object that is found or new. -/
structure IsPlace (a : Arena α) (found : Option Nat) (x : α) (i : Nat) (b : Arena α) : Prop where
  /-- The objects that were there are as they were. -/
  kept : Extends a b
  /-- The place holds an object. -/
  lt : i < b.next
  /-- The object is the one that was found, or else the new one. -/
  get_eq : b.get i = (found.map a.get).getD x
  /-- The place is the one that was found, or else a new one. -/
  found_or_new : found = some i ∨ found = none ∧ i = a.next

/-- The place of an object that is found or else allocated holds it. -/
theorem isPlace_placeOr (a : Arena α) {found : Option Nat}
    (hfound : ∀ i, found = some i → i < a.next) (x : α) :
    IsPlace a found x (a.placeOr found x).1 (a.placeOr found x).2 := by
  cases found with
  | some i => exact ⟨.refl a, hfound i rfl, rfl, Or.inl rfl⟩
  | none => exact ⟨(Extends.refl a).alloc x, Nat.lt_succ_self _, if_pos rfl, Or.inr ⟨rfl, rfl⟩⟩

end Arena

namespace Memory

variable {b m m' : Memory} {A B : AutomatonRef} {p : Int} {l : Label} {S : StateSet}

/-- All objects of the first memory are as they were. -/
structure Extends (m m' : Memory) : Prop where
  /-- The sets are. -/
  sets : m.sets.Extends m'.sets
  /-- The rows are. -/
  rows : m.rows.Extends m'.rows
  /-- The tables are. -/
  tables : m.tables.Extends m'.tables

theorem Extends.refl (m : Memory) : m.Extends m := ⟨.refl _, .refl _, .refl _⟩

/-- The place of the targets of a state under a label. -/
def targetsPlace (m : Memory) (t : Nat) (p : Int) (l : Label) : Option Nat :=
  ((m.tables.get t).get? p).bind fun i => (m.rows.get i).get? l

/-- The place of the targets is read in the row of the state. -/
theorem targetsPlace_eq {t i : Nat} (hi : (m.tables.get t).get? p = some i) :
    m.targetsPlace t p l = (m.rows.get i).get? l := by
  rw [targetsPlace, hi, Option.bind_some]

/-- The targets are looked up in the row of the state, or in an empty one. -/
theorem targetsPlace_eq_getD (t : Nat) (p : Int) (l : Label) :
    m.targetsPlace t p l = ((((m.tables.get t).get? p).map m.rows.get).getD ∅).get? l := by
  rw [targetsPlace]
  cases (m.tables.get t).get? p <;> rfl

/-- The places that an automaton holds are places of objects. -/
structure Holds (m : Memory) (A : AutomatonRef) : Prop where
  /-- Its states are in memory. -/
  states : A.states < m.sets.next
  /-- Its final states are in memory. -/
  finals : A.finals < m.sets.next
  /-- Its table is in memory. -/
  table : A.table < m.tables.next
  /-- The rows of its table are in memory. -/
  row : ∀ p i, (m.tables.get A.table).get? p = some i → i < m.rows.next
  /-- The targets in these rows are in memory. -/
  set : ∀ p l j, m.targetsPlace A.table p l = some j → j < m.sets.next

theorem holds_iff :
    m.Holds A ↔ A.states < m.sets.next ∧ A.finals < m.sets.next ∧ A.table < m.tables.next ∧
      ∀ row ∈ (m.tables.get A.table).entries, row.2 < m.rows.next ∧
        ∀ e ∈ (m.rows.get row.2).entries, e.2 < m.sets.next := by
  constructor
  · intro h
    refine ⟨h.states, h.finals, h.table, fun row hrow => ?_⟩
    have hi := OrderedMap.mem_entries_iff.1 hrow
    exact ⟨h.row _ _ hi, fun e he =>
      h.set _ _ _ ((targetsPlace_eq hi).trans (OrderedMap.mem_entries_iff.1 he))⟩
  · rintro ⟨hstates, hfinals, htable, hrows⟩
    refine ⟨hstates, hfinals, htable, fun p i hi => ?_, fun p l j hj => ?_⟩
    · exact (hrows (p, i) (OrderedMap.mem_entries_iff.2 hi)).1
    · obtain ⟨i, hi, hj⟩ := Option.bind_eq_some_iff.1 hj
      exact (hrows (p, i) (OrderedMap.mem_entries_iff.2 hi)).2 (l, j)
        (OrderedMap.mem_entries_iff.2 hj)

instance (m : Memory) (A : AutomatonRef) : Decidable (m.Holds A) :=
  decidable_of_iff _ holds_iff.symm

/-- **Automata in memory are unchanged when more objects are made.** -/
theorem Extends.automaton_eq (h : m.Extends m') (hA : m.Holds A) :
    m'.automaton A = m.automaton A := by
  have htable : m'.tableAt A.table = m.tableAt A.table := by
    rw [tableAt, tableAt, h.tables.get_eq _ hA.table]
    refine OrderedMap.mapValues_congr fun p i hi => ?_
    rw [rowAt, rowAt, h.rows.get_eq i (hA.row p i hi)]
    refine OrderedMap.mapValues_congr fun l j hj => h.sets.get_eq j (hA.set p l j ?_)
    rw [targetsPlace_eq hi, hj]
  rw [automaton, automaton, htable, h.sets.get_eq _ hA.states, h.sets.get_eq _ hA.finals]

/-! ## Entering targets -/

/-- What has changed when targets were entered in a table: the row of the state has place `i` and
its targets under the label have place `j`, where both were already or where they are new. -/
structure Entered (m m' : Memory) (t : Nat) (p : Int) (l : Label) (S : StateSet) (i j : Nat) :
    Prop where
  /-- The row is in the table. -/
  table : m'.tables = m.tables.update t fun table => table.insert p i
  /-- The place of the row is that of an earlier one, or new. -/
  row_place : (m.tables.get t).get? p = some i ∨
    (m.tables.get t).get? p = none ∧ i = m.rows.next
  /-- The targets are in the row. -/
  row : m'.rows.get i = ((((m.tables.get t).get? p).map m.rows.get).getD ∅).insert l j
  /-- The other rows are as they were. -/
  row_other : ∀ i', i' < m.rows.next → ¬ i' = i → m'.rows.get i' = m.rows.get i'
  /-- No row was removed. -/
  row_next : m.rows.next ≤ m'.rows.next ∧ i < m'.rows.next
  /-- The place of the targets is that of earlier ones, or new. -/
  set_place : m.targetsPlace t p l = some j ∨ m.targetsPlace t p l = none ∧ j = m.sets.next
  /-- The targets are the earlier ones and those that were added. -/
  set : m'.sets.get j = ((m.targetsPlace t p l).map m.sets.get).getD ∅ ∪ S
  /-- The other sets are as they were. -/
  set_other : ∀ j', j' < m.sets.next → ¬ j' = j → m'.sets.get j' = m.sets.get j'
  /-- No set was removed. -/
  set_next : m.sets.next ≤ m'.sets.next ∧ j < m'.sets.next

/-- Targets can be entered in the table of any automaton in memory. -/
theorem exists_entered (hA : m.Holds A) (p : Int) (l : Label) (S : StateSet) :
    ∃ i j, Entered m (m.enter A.table p l S) A.table p l S i j := by
  have hi := Arena.isPlace_placeOr m.rows (hA.row p) ∅
  rw [enter]
  generalize hrows : m.rows.placeOr ((m.tables.get A.table).get? p) ∅ = r at hi
  obtain ⟨i, rows⟩ := r
  have hfound : (rows.get i).get? l = m.targetsPlace A.table p l := by
    rw [hi.get_eq, targetsPlace_eq_getD]
  have hj := Arena.isPlace_placeOr m.sets (hA.set p l) ∅
  simp only [hfound]
  generalize m.sets.placeOr (m.targetsPlace A.table p l) ∅ = s at hj
  obtain ⟨j, sets⟩ := s
  refine ⟨i, j, rfl, hi.found_or_new, ?_, fun i' hlt hne => ?_, ⟨hi.kept.next_le, hi.lt⟩,
    hj.found_or_new, ?_, fun j' hlt hne => ?_, ⟨hj.kept.next_le, hj.lt⟩⟩
  · rw [Arena.get_update, if_pos rfl, hi.get_eq]
  · rw [Arena.get_update, if_neg hne, hi.kept.get_eq i' hlt]
  · rw [Arena.get_update, if_pos rfl, hj.get_eq]
  · rw [Arena.get_update, if_neg hne, hj.kept.get_eq j' hlt]

/-- The state has its row afterwards, and the other states have theirs. -/
theorem Entered.get?_table {t i j : Nat} (e : Entered m m' t p l S i j) (p' : Int) :
    (m'.tables.get t).get? p' = if p' = p then some i else (m.tables.get t).get? p' := by
  rw [e.table, Arena.get_update, if_pos rfl, OrderedMap.get?_insert]

/-! ## Objects of the union -/

/-- `A` is an automaton whose objects are not in the memory `b`, from which `m` has come, and are
all distinct. -/
structure Owns (b m : Memory) (A : AutomatonRef) : Prop where
  /-- The automaton is in memory. -/
  holds : m.Holds A
  /-- The objects that were in memory before are as they were. -/
  kept : b.Extends m
  /-- The states are a new object. -/
  states_new : b.sets.next ≤ A.states
  /-- The final states are a new object. -/
  finals_new : b.sets.next ≤ A.finals
  /-- These two objects are distinct. -/
  states_ne : ¬ A.states = A.finals
  /-- The table is a new object. -/
  table_new : b.tables.next ≤ A.table
  /-- The rows are new objects. -/
  row_new : ∀ p i, (m.tables.get A.table).get? p = some i → b.rows.next ≤ i
  /-- The rows of different states are distinct. -/
  row_ne : ∀ p p' i, (m.tables.get A.table).get? p = some i →
    (m.tables.get A.table).get? p' = some i → p = p'
  /-- The targets are new objects, and not the states or final states. -/
  set_new : ∀ p l j, m.targetsPlace A.table p l = some j →
    b.sets.next ≤ j ∧ ¬ j = A.states ∧ ¬ j = A.finals
  /-- The targets of different states or labels are distinct. -/
  set_ne : ∀ p l p' l' j, m.targetsPlace A.table p l = some j →
    m.targetsPlace A.table p' l' = some j → p = p' ∧ l = l'

namespace Owns

variable {i j : Nat}

/-- The row that targets are entered in is that of no other state. -/
theorem ne_of_row (h : Owns b m A) (e : Entered m m' A.table p l S i j) {p' : Int} {i' : Nat}
    (hp : ¬ p' = p) (hi' : (m.tables.get A.table).get? p' = some i') : ¬ i' = i := by
  rintro rfl
  rcases e.row_place with hi | ⟨-, hi⟩
  · exact hp (h.row_ne p' p i' hi' hi)
  · exact Nat.lt_irrefl _ (hi ▸ h.holds.row p' i' hi')

/-- The targets that are added to are those of no other state or label. -/
theorem ne_of_set (h : Owns b m A) (e : Entered m m' A.table p l S i j) {p' : Int} {l' : Label}
    {j' : Nat} (hpl : ¬ (p' = p ∧ l' = l)) (hj' : m.targetsPlace A.table p' l' = some j') :
    ¬ j' = j := by
  rintro rfl
  rcases e.set_place with hj | ⟨-, hj⟩
  · exact hpl (h.set_ne p' l' p l j' hj' hj)
  · exact Nat.lt_irrefl _ (hj ▸ h.holds.set p' l' j' hj')

/-- The targets that are added to are new, and not the states or final states. -/
theorem new_of_entered (h : Owns b m A) (e : Entered m m' A.table p l S i j) :
    b.sets.next ≤ j ∧ ¬ j = A.states ∧ ¬ j = A.finals := by
  rcases e.set_place with hj | ⟨-, hj⟩
  · exact h.set_new p l j hj
  · have h1 := h.kept.sets.next_le
    have h2 := h.holds.states
    have h3 := h.holds.finals
    omega

/-- The row in which targets are entered is a new object. -/
theorem row_new_of_entered (h : Owns b m A) (e : Entered m m' A.table p l S i j) :
    b.rows.next ≤ i := by
  rcases e.row_place with hi | ⟨-, hi⟩
  · exact h.row_new p i hi
  · rw [hi]
    exact h.kept.rows.next_le

/-- Entering targets gives them a place and leaves all other targets in theirs. -/
theorem targetsPlace_entered (h : Owns b m A) (e : Entered m m' A.table p l S i j) (p' : Int)
    (l' : Label) :
    m'.targetsPlace A.table p' l'
      = if p' = p ∧ l' = l then some j else m.targetsPlace A.table p' l' := by
  by_cases hp : p' = p
  · subst hp
    have hi : (m'.tables.get A.table).get? p' = some i := by rw [e.get?_table, if_pos rfl]
    rw [targetsPlace_eq hi, e.row, OrderedMap.get?_insert, ← targetsPlace_eq_getD]
    simp only [true_and]
  · rw [if_neg fun h => hp h.1, targetsPlace, e.get?_table, if_neg hp, targetsPlace]
    cases hi' : (m.tables.get A.table).get? p' with
    | none => rfl
    | some i' =>
      rw [Option.bind_some, Option.bind_some,
        e.row_other i' (h.holds.row p' i' hi') (h.ne_of_row e hp hi')]

/-- **The objects of the union stay new and distinct when targets are entered.** -/
theorem entered (h : Owns b m A) (e : Entered m m' A.table p l S i j) : Owns b m' A := by
  have hset := h.new_of_entered e
  have hrow := h.row_new_of_entered e
  have htargets := h.targetsPlace_entered e
  have hsets := e.set_next
  have hrows := e.row_next
  refine
    { holds := ⟨?_, ?_, ?_, fun p' i' hi' => ?_, fun p' l' j' hj' => ?_⟩
      kept := ⟨⟨?_, fun k hk => ?_⟩, ⟨?_, fun k hk => ?_⟩, ?_⟩
      states_new := h.states_new
      finals_new := h.finals_new
      states_ne := h.states_ne
      table_new := h.table_new
      row_new := fun p' i' hi' => ?_
      row_ne := fun p' p'' i' hi' hi'' => ?_
      set_new := fun p' l' j' hj' => ?_
      set_ne := fun p' l' p'' l'' j' hj' hj'' => ?_ }
  · exact Nat.lt_of_lt_of_le h.holds.states hsets.1
  · exact Nat.lt_of_lt_of_le h.holds.finals hsets.1
  · rw [e.table]
    exact h.holds.table
  · rw [e.get?_table] at hi'
    split at hi'
    · cases hi'
      exact hrows.2
    · exact Nat.lt_of_lt_of_le (h.holds.row p' i' hi') hrows.1
  · rw [htargets] at hj'
    split at hj'
    · cases hj'
      exact hsets.2
    · exact Nat.lt_of_lt_of_le (h.holds.set p' l' j' hj') hsets.1
  · exact Nat.le_trans h.kept.sets.next_le hsets.1
  · rw [e.set_other k (Nat.lt_of_lt_of_le hk h.kept.sets.next_le) (by omega)]
    exact h.kept.sets.get_eq k hk
  · exact Nat.le_trans h.kept.rows.next_le hrows.1
  · rw [e.row_other k (Nat.lt_of_lt_of_le hk h.kept.rows.next_le) (by omega)]
    exact h.kept.rows.get_eq k hk
  · rw [e.table]
    exact h.kept.tables.update h.table_new _
  · rw [e.get?_table] at hi'
    split at hi'
    · cases hi'
      exact hrow
    · exact h.row_new p' i' hi'
  · rw [e.get?_table] at hi' hi''
    split at hi' <;> split at hi''
    · simp [*]
    · cases hi'
      exact absurd rfl (h.ne_of_row e ‹_› hi'')
    · cases hi''
      exact absurd rfl (h.ne_of_row e ‹_› hi')
    · exact h.row_ne p' p'' i' hi' hi''
  · rw [htargets] at hj'
    split at hj'
    · cases hj'
      exact hset
    · exact h.set_new p' l' j' hj'
  · rw [htargets] at hj' hj''
    split at hj' <;> split at hj''
    · simp [*]
    · cases hj'
      exact absurd rfl (h.ne_of_set e ‹_› hj'')
    · cases hj''
      exact absurd rfl (h.ne_of_set e ‹_› hj')
    · exact h.set_ne p' l' p'' l'' j' hj' hj''

/-- **What is entered shows as added targets, and nowhere else.** -/
theorem automaton_entered (h : Owns b m A) (e : Entered m m' A.table p l S i j) :
    m'.automaton A
      = { m.automaton A with rows := Automaton.addTargets (m.automaton A).rows p l S } := by
  obtain ⟨-, hstates, hfinals⟩ := h.new_of_entered e
  -- the row of the state, where the targets under other labels are as they were
  have hrow : m'.rowAt i = ((((m.tables.get A.table).get? p).map m.rowAt).getD ∅).alter l
      (fun old => old.getD ∅ ∪ S) := by
    have hold : (((m.tables.get A.table).get? p).map m.rowAt).getD ∅
        = ((((m.tables.get A.table).get? p).map m.rows.get).getD ∅).mapValues
          fun _ j => m.sets.get j := by
      cases (m.tables.get A.table).get? p <;> rfl
    rw [rowAt, e.row, hold]
    refine OrderedMap.mapValues_insert_eq_alter ?_ fun l' j' hl hj' => ?_
    · rw [e.set, targetsPlace_eq_getD]
    · rw [← targetsPlace_eq_getD] at hj'
      exact e.set_other j' (h.holds.set p l' j' hj') (h.ne_of_set e (fun h => hl h.2) hj')
  -- the rows of other states are as they were
  have htable : m'.tableAt A.table = Automaton.addTargets (m.tableAt A.table) p l S := by
    rw [tableAt, e.table, Arena.get_update, if_pos rfl, Automaton.addTargets]
    refine OrderedMap.mapValues_insert_eq_alter hrow fun p' i' hp hi' => ?_
    rw [rowAt, rowAt, e.row_other i' (h.holds.row p' i' hi') (h.ne_of_row e hp hi')]
    refine OrderedMap.mapValues_congr fun l' j' hj' => ?_
    rw [← targetsPlace_eq hi'] at hj'
    exact e.set_other j' (h.holds.set p' l' j' hj') (h.ne_of_set e (fun h => hp h.1) hj')
  rw [automaton, htable, e.set_other _ h.holds.states (Ne.symm hstates),
    e.set_other _ h.holds.finals (Ne.symm hfinals)]
  rfl

/-- Adding states to a set other than targets leaves the objects of the union new and distinct. -/
theorem addToSet (h : Owns b m A) (hi : b.sets.next ≤ i) (S : StateSet) :
    Owns b (m.addToSet i S) A :=
  { h with
    holds := ⟨h.holds.states, h.holds.finals, h.holds.table, h.holds.row, h.holds.set⟩
    kept := ⟨h.kept.sets.update hi fun T => T ∪ S, h.kept.rows, h.kept.tables⟩ }

/-- The targets are as they were when states are added to a set that is not among them. -/
theorem tableAt_addToSet (h : Owns b m A) (hi : i = A.states ∨ i = A.finals) (S : StateSet) :
    (m.addToSet i S).tableAt A.table = m.tableAt A.table := by
  refine OrderedMap.mapValues_congr fun p k hk => OrderedMap.mapValues_congr fun l j hj => ?_
  have hne : ¬ j = i := by
    obtain ⟨-, hstates, hfinals⟩ := h.set_new p l j ((targetsPlace_eq hk).trans hj)
    rcases hi with rfl | rfl
    · exact hstates
    · exact hfinals
  exact if_neg hne

end Owns

/-! ## Copying -/

/-- `A` is an automaton of new objects, and what is found in its places is `X`. -/
structure Shows (b m : Memory) (A : AutomatonRef) (X : Automaton) : Prop where
  /-- The objects are new and distinct. -/
  owns : Owns b m A
  /-- The automaton is found. -/
  automaton_eq : m.automaton A = X

namespace Shows

variable {X : Automaton}

/-- Targets entered in memory are targets added to the automaton. -/
theorem enter (h : Shows b m A X) (p : Int) (l : Label) (S : StateSet) :
    Shows b (m.enter A.table p l S) A
      { X with rows := Automaton.addTargets X.rows p l S } := by
  obtain ⟨i, j, e⟩ := exists_entered h.owns.holds p l S
  refine ⟨h.owns.entered e, ?_⟩
  rw [h.owns.automaton_entered e, h.automaton_eq]

/-- States added in memory are added to the automaton. -/
theorem addStates (h : Shows b m A X) (S : StateSet) :
    Shows b (m.addToSet A.states S) A { X with states := X.states ∪ S } := by
  refine ⟨h.owns.addToSet h.owns.states_new S, ?_⟩
  rw [← h.automaton_eq, automaton, h.owns.tableAt_addToSet (Or.inl rfl)]
  simp only [Memory.addToSet, Arena.get_update, if_neg (Ne.symm h.owns.states_ne)]
  rfl

/-- Final states added in memory are added to the automaton. -/
theorem addFinals (h : Shows b m A X) (S : StateSet) :
    Shows b (m.addToSet A.finals S) A { X with finals := X.finals ∪ S } := by
  refine ⟨h.owns.addToSet h.owns.finals_new S, ?_⟩
  rw [← h.automaton_eq, automaton, h.owns.tableAt_addToSet (Or.inr rfl)]
  simp only [Memory.addToSet, Arena.get_update, if_neg h.owns.states_ne]
  rfl

/-- The entries of a row that was in memory before are copied one after the other. -/
theorem foldl_enter (h : Shows b m A X) (p : Int) {es : List (Label × Nat)}
    (hes : ∀ e ∈ es, e.2 < b.sets.next) :
    Shows b (es.foldl (fun m e => m.enter A.table p e.1 (m.sets.get e.2)) m) A
      { X with
        rows := es.foldl (fun rows e => Automaton.addTargets rows p e.1 (b.sets.get e.2))
          X.rows } := by
  induction es generalizing m X with
  | nil => exact h
  | cons e es ih =>
    have hset := h.owns.kept.sets.get_eq e.2 (hes e List.mem_cons_self)
    rw [List.foldl_cons, hset]
    exact ih (h.enter p e.1 (b.sets.get e.2)) fun e' he' => hes e' (List.mem_cons_of_mem e he')

/-- Copying a row in memory adds its entries to the automaton. -/
theorem copyRow (h : Shows b m A X) {row : Int × Nat} (hrow : row.2 < b.rows.next)
    (hset : ∀ e ∈ (b.rows.get row.2).entries, e.2 < b.sets.next) :
    Shows b (copyRow A.table m row) A
      { X with
        rows := (b.rowAt row.2).entries.foldl
          (fun rows e => Automaton.addTargets rows row.1 e.1 e.2) X.rows } := by
  rw [Memory.copyRow, h.owns.kept.rows.get_eq _ hrow, rowAt, OrderedMap.mapValues,
    List.foldl_map]
  exact h.foldl_enter row.1 hset

/-- The rows of a table that was in memory before are copied one after the other. -/
theorem foldl_copyRow (h : Shows b m A X) {es : List (Int × Nat)}
    (hes : ∀ row ∈ es, row.2 < b.rows.next ∧
      ∀ e ∈ (b.rows.get row.2).entries, e.2 < b.sets.next) :
    Shows b (es.foldl (Memory.copyRow A.table) m) A
      { X with
        rows := es.foldl (fun rows row => (b.rowAt row.2).entries.foldl
          (fun rows e => Automaton.addTargets rows row.1 e.1 e.2) rows) X.rows } := by
  induction es generalizing m X with
  | nil => exact h
  | cons e es ih =>
    obtain ⟨⟨hrow, hset⟩, hes⟩ := List.forall_mem_cons.1 hes
    exact ih (h.copyRow hrow hset) hes

/-- **An automaton that was in memory before is absorbed** as it is found there. -/
theorem absorb (h : Shows b m A X) (hB : b.Holds B) (start : Int) :
    Shows b (Memory.absorb start A m B) A (Automaton.absorb start X (b.automaton B)) := by
  have hstates := h.addStates (b.sets.get B.states)
  have hfinals := hstates.addFinals (b.sets.get B.finals)
  have hrows := hfinals.foldl_copyRow (holds_iff.1 hB).2.2.2
  -- the objects of `B` are read when they are copied, and are still what they were
  have hstates_eq := h.owns.kept.sets.get_eq _ hB.states
  have hfinals_eq := hstates.owns.kept.sets.get_eq _ hB.finals
  have htable_eq := hfinals.owns.kept.tables.get_eq _ hB.table
  rw [Memory.absorb, hstates_eq, hfinals_eq, htable_eq, Automaton.absorb]
  simp only [automaton, tableAt, OrderedMap.mapValues, List.foldl_map]
  cases B.start with
  | none => exact hrows
  | some q =>
    have hjoined := (hrows.addStates ((StateSet.singleton start).insert q)).enter start .epsilon
      (.singleton q)
    have hunion : ∀ T : StateSet, T ∪ (StateSet.singleton start).insert q
        = (T.insert start).insert q := by
      intro T
      apply StateSet.ext
      intro r
      simp only [StateSet.mem_union, StateSet.mem_insert, StateSet.mem_singleton]
      rw [or_comm, or_assoc]
    simp only [hunion] at hjoined
    exact hjoined

/-- Absorbing parts in memory absorbs the automata that are found there. -/
theorem foldl_absorb (h : Shows b m A X) {parts : List AutomatonRef}
    (hparts : ∀ B ∈ parts, b.Holds B) (start : Int) :
    Shows b (parts.foldl (Memory.absorb start A) m) A
      ((parts.map b.automaton).foldl (Automaton.absorb start) X) := by
  induction parts generalizing m X with
  | nil => exact h
  | cons B parts ih =>
    obtain ⟨hB, hparts⟩ := List.forall_mem_cons.1 hparts
    exact ih (h.absorb hB start) hparts

end Shows

/-- A new automaton is made of new objects. -/
theorem shows_newAutomaton (m : Memory) (name : String) (start : Int) :
    Shows m (m.newAutomaton name start).2 (m.newAutomaton name start).1
      { name := name, states := .singleton start, start := some start } := by
  have htable : ((m.newAutomaton name start).2.tables.get m.tables.next) = ∅ := if_pos rfl
  have hrow : ∀ p i,
      ¬ ((m.newAutomaton name start).2.tables.get m.tables.next).get? p = some i := by
    intro p i hi
    rw [htable] at hi
    cases hi
  have hset : ∀ p l j,
      ¬ (m.newAutomaton name start).2.targetsPlace m.tables.next p l = some j := by
    intro p l j hj
    rw [targetsPlace, htable] at hj
    cases hj
  have hsets : m.sets.next < (m.newAutomaton name start).2.sets.next :=
    Nat.lt_add_of_pos_right (Nat.succ_pos 1)
  have howns : Owns m (m.newAutomaton name start).2 (m.newAutomaton name start).1 :=
    { holds := ⟨hsets, Nat.lt_succ_self _, Nat.lt_succ_self _, fun p i hi => absurd hi (hrow p i),
        fun p l j hj => absurd hj (hset p l j)⟩
      kept := ⟨((Arena.Extends.refl _).alloc _).alloc _, .refl _, (Arena.Extends.refl _).alloc _⟩
      states_new := Nat.le_refl _
      finals_new := Nat.le_succ _
      states_ne := Nat.ne_of_lt (Nat.lt_succ_self _)
      table_new := Nat.le_refl _
      row_new := fun p i hi => absurd hi (hrow p i)
      row_ne := fun p p' i hi _ => absurd hi (hrow p i)
      set_new := fun p l j hj => absurd hj (hset p l j)
      set_ne := fun p l p' l' j hj _ => absurd hj (hset p l j) }
  refine ⟨howns, ?_⟩
  have hrows : (m.newAutomaton name start).2.tableAt m.tables.next = ∅ := by
    rw [tableAt, htable]
    rfl
  have hstates : (m.newAutomaton name start).2.sets.get m.sets.next = .singleton start :=
    (if_neg (Nat.ne_of_lt (Nat.lt_succ_self _))).trans (if_pos rfl)
  have hfinals : (m.newAutomaton name start).2.sets.get (m.sets.next + 1) = ∅ := if_pos rfl
  have hfound : (m.newAutomaton name start).2.automaton (m.newAutomaton name start).1
      = Automaton.mk name ((m.newAutomaton name start).2.sets.get m.sets.next) (some start)
        ((m.newAutomaton name start).2.sets.get (m.sets.next + 1))
        ((m.newAutomaton name start).2.tableAt m.tables.next) := rfl
  rw [hfound, hstates, hfinals, hrows]

/-- **The union is found in memory**, and all that was there before is as it was. -/
theorem shows_unionFrom {parts : List AutomatonRef} (hparts : ∀ B ∈ parts, m.Holds B)
    (name : String) (start : Int) :
    Shows m (m.unionFrom name start parts).2 (m.unionFrom name start parts).1
      (Automaton.unionFrom name start (parts.map m.automaton)) :=
  (shows_newAutomaton m name start).foldl_absorb hparts start

/-- **Merging in place gives what merging gives and changes no object that was there.** -/
theorem merge_eq {parts : List AutomatonRef} (hparts : ∀ B ∈ parts, m.Holds B)
    (counter : Option Counter) (name : String) :
    ((m.merge parts counter name).1.map (m.merge parts counter name).2.2.automaton,
        (m.merge parts counter name).2.1)
      = Automaton.merge (parts.map m.automaton) counter name ∧
    m.Extends (m.merge parts counter name).2.2 := by
  rw [merge, Automaton.merge]
  cases Automaton.checkApart ∅ (parts.map m.automaton) with
  | error v => exact ⟨rfl, .refl m⟩
  | ok seen =>
    cases counter with
    | none =>
      have h := shows_unionFrom hparts name (seen.largest?.getD (-1) + 1)
      exact ⟨congrArg (fun A => (Except.ok A, none)) h.automaton_eq, h.owns.kept⟩
    | some c =>
      simp only
      split
      · exact ⟨rfl, .refl m⟩
      · have h := shows_unionFrom hparts name c.next
        exact ⟨congrArg (fun A => (Except.ok A, some c.advance)) h.automaton_eq, h.owns.kept⟩

end Memory

end LexAutomata
