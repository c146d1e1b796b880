/-
# Reading ordered maps

What a map holds, as opposed to how it came about.  An entry is listed exactly when
it is read back (`mem_entries_iff`), so two maps with the same keys in the same order
and the same values are equal (`ext_get?`).  A map that is entered from a list keeps
the first place of every key (`keys_ofList`) and its last value; where all values of a
key agree, this is the value that is read (`get?_ofList_of_forall`).  Entries that are
sorted by their keys tell what is read and nothing else (`sortedEntries_eq_iff`).
-/
import LexAutomata.OrderedMap
import LexAutomata.Proofs.Search

namespace LexAutomata

/-- Sorting by a key makes the keys ascend. -/
theorem pairwise_mergeSort_key {α β : Type} [LE β] [DecidableLE β] [Std.IsLinearPreorder β]
    (key : α → β) (l : List α) :
    (l.mergeSort fun a b => decide (key a ≤ key b)).Pairwise fun a b => key a ≤ key b := by
  refine (List.pairwise_mergeSort ?_ ?_ l).imp of_decide_eq_true
  · intro a b c hab hbc
    rw [decide_eq_true_eq] at hab hbc ⊢
    exact Std.le_trans hab hbc
  · intro a b
    rw [Bool.or_eq_true, decide_eq_true_eq, decide_eq_true_eq]
    exact Std.le_total

namespace OrderedMap

variable {α β : Type} [DecidableEq α]

/-! ## Entries and values -/

/-- An entry is found by its key when no key is repeated. -/
theorem findEntry_of_mem {k : α} {v : β} {es : List (α × β)} (hes : (es.map Prod.fst).Nodup)
    (h : (k, v) ∈ es) : findEntry k es = some v := by
  induction es with
  | nil => simp at h
  | cons e es ih =>
    obtain ⟨a, w⟩ := e
    rw [List.map_cons, List.nodup_cons] at hes
    rcases List.mem_cons.1 h with h | h
    · cases h
      simp [findEntry]
    · have hak : ¬ a = k := by
        rintro rfl
        exact hes.1 (List.mem_map.2 ⟨_, h, rfl⟩)
      rw [findEntry, if_neg hak]
      exact ih hes.2 h

/-- The entries are what is read back. -/
theorem mem_entries_iff {m : OrderedMap α β} {k : α} {v : β} :
    (k, v) ∈ m.entries ↔ m.get? k = some v :=
  ⟨findEntry_of_mem m.nodup, mem_entries_of_get?⟩

/-- The keys are those at which a value is read. -/
theorem mem_keys_iff {m : OrderedMap α β} {k : α} : k ∈ m.keys ↔ ∃ v, m.get? k = some v := by
  rw [keys, List.mem_map]
  constructor
  · rintro ⟨⟨k', v⟩, h, rfl⟩
    exact ⟨v, mem_entries_iff.1 h⟩
  · rintro ⟨v, h⟩
    exact ⟨(k, v), mem_entries_iff.2 h, rfl⟩

/-- Nothing is read at what is no key. -/
theorem get?_eq_none_iff {m : OrderedMap α β} {k : α} : m.get? k = none ↔ ¬ k ∈ m.keys := by
  rw [mem_keys_iff]
  cases m.get? k <;> simp

/-- A map contains its keys. -/
theorem contains_iff {m : OrderedMap α β} {k : α} : m.contains k = true ↔ k ∈ m.keys := by
  rw [mem_keys_iff, contains, Option.isSome_iff_exists]

/-- Lists with the same keys in the same order and the same values at them are equal. -/
theorem eq_of_findEntry {es fs : List (α × β)} (hes : (es.map Prod.fst).Nodup)
    (hk : es.map Prod.fst = fs.map Prod.fst) (h : ∀ k, findEntry k es = findEntry k fs) :
    es = fs := by
  induction es generalizing fs with
  | nil => exact (List.map_eq_nil_iff.1 hk.symm).symm
  | cons e es ih =>
    obtain ⟨a, v⟩ := e
    cases fs with
    | nil => simp at hk
    | cons e' fs =>
      obtain ⟨b, w⟩ := e'
      rw [List.map_cons, List.map_cons, List.cons.injEq] at hk
      obtain ⟨rfl, hk⟩ : a = b ∧ _ := hk
      have hv : v = w := by simpa [findEntry] using h a
      rw [List.map_cons, List.nodup_cons] at hes
      rw [hv, ih hes.2 hk]
      intro k
      by_cases hak : a = k
      · -- the head holds this key, so neither tail has it
        subst hak
        have h1 : findEntry a es = none := by
          cases hf : findEntry a es with
          | none => rfl
          | some u => exact absurd (List.mem_map.2 ⟨_, mem_of_findEntry hf, rfl⟩) hes.1
        have h2 : findEntry a fs = none := by
          cases hf : findEntry a fs with
          | none => rfl
          | some u => exact absurd (hk ▸ List.mem_map.2 ⟨_, mem_of_findEntry hf, rfl⟩) hes.1
        rw [h1, h2]
      · simpa [findEntry, hak] using h k

omit [DecidableEq α] in
theorem ext_entries {m n : OrderedMap α β} (h : m.entries = n.entries) : m = n := by
  cases m
  cases n
  cases h
  rfl

/-- **Maps are told apart by reading.** -/
theorem ext_get? {m n : OrderedMap α β} (hk : m.keys = n.keys)
    (h : ∀ k, m.get? k = n.get? k) : m = n :=
  ext_entries (eq_of_findEntry m.nodup hk h)

/-! ## Maps entered from lists -/

/-- Altering a value adds its key at the end unless it was there. -/
theorem keys_alter (m : OrderedMap α β) (k : α) (f : Option β → β) :
    (m.alter k f).keys = if k ∈ m.keys then m.keys else m.keys ++ [k] :=
  map_fst_alterEntries k f m.entries

/-- The keys after an insertion are the new key and those before. -/
@[simp] theorem mem_keys_insert {m : OrderedMap α β} {k k' : α} {v : β} :
    k' ∈ (m.insert k v).keys ↔ k' = k ∨ k' ∈ m.keys := by
  rw [insert, keys_alter]
  split
  · rename_i hk
    exact ⟨Or.inr, fun h => h.elim (fun h => h ▸ hk) id⟩
  · rw [List.mem_append, List.mem_singleton, or_comm]

/-- Inserting entries one after the other adds their new keys in order. -/
theorem keys_foldl_insert (m : OrderedMap α β) (es : List (α × β)) :
    (es.foldl (fun m e => m.insert e.1 e.2) m).keys
      = m.keys ++ Graph.newcomers m.keys (es.map Prod.fst) := by
  induction es generalizing m with
  | nil => simp [Graph.newcomers]
  | cons e es ih =>
    rw [List.foldl_cons, ih, List.map_cons, Graph.newcomers, insert, keys_alter]
    split
    · rfl
    · rw [List.append_assoc, List.singleton_append]
      congr 2
      apply Graph.newcomers_congr
      intro a
      simp [or_comm]

/-- What stands last in a list is entered last. -/
theorem ofList_concat (es : List (α × β)) (e : α × β) :
    ofList (es ++ [e]) = (ofList es).insert e.1 e.2 :=
  List.foldl_append

/-- A map entered from a list has its keys in the order of their first places. -/
theorem keys_ofList (es : List (α × β)) :
    (ofList es).keys = Graph.newcomers [] (es.map Prod.fst) :=
  keys_foldl_insert ∅ es

/-- The keys of a map that is made from a list are those of the list. -/
theorem mem_keys_ofList {es : List (α × β)} {k : α} :
    k ∈ (ofList es).keys ↔ k ∈ es.map Prod.fst := by
  rw [keys_ofList, Graph.mem_newcomers_iff]
  simp

/-- A value that every entry of a key agrees on is read back. -/
theorem get?_foldl_insert_of_forall {m : OrderedMap α β} {es : List (α × β)} {k : α} {v : β}
    (hv : ∀ e ∈ es, e.1 = k → e.2 = v) (h : k ∈ es.map Prod.fst ∨ m.get? k = some v) :
    (es.foldl (fun m e => m.insert e.1 e.2) m).get? k = some v := by
  -- the induction carries along that the key is still to come or holds the value already
  induction es generalizing m with
  | nil => simpa using h
  | cons e es ih =>
    rw [List.foldl_cons]
    apply ih fun e' he' => hv e' (List.mem_cons_of_mem _ he')
    rw [get?_insert]
    by_cases he : k = e.1
    · rw [if_pos he, hv e List.mem_cons_self he.symm]
      exact Or.inr rfl
    · rw [if_neg he]
      rcases h with h | h
      · rw [List.map_cons, List.mem_cons] at h
        exact Or.inl (h.resolve_left he)
      · exact Or.inr h

/-- A key that stands in a list with one value only is read with that value. -/
theorem get?_ofList_of_forall {es : List (α × β)} {k : α} {v : β} (h : k ∈ es.map Prod.fst)
    (hv : ∀ e ∈ es, e.1 = k → e.2 = v) : (ofList es).get? k = some v :=
  get?_foldl_insert_of_forall hv (Or.inl h)

/-- Nothing is read at a key that does not stand in the list. -/
theorem get?_ofList_eq_none {es : List (α × β)} {k : α} (h : ¬ k ∈ es.map Prod.fst) :
    (ofList es).get? k = none := by
  rw [get?_eq_none_iff, mem_keys_ofList]
  exact h

/-- In a list without repeated keys the entries are what is read back. -/
theorem get?_ofList_eq_some_iff {es : List (α × β)} (hes : (es.map Prod.fst).Nodup) {k : α}
    {v : β} : (ofList es).get? k = some v ↔ (k, v) ∈ es := by
  -- the only entry of a key is the one that all its entries agree on
  have hread : ∀ w, (k, w) ∈ es → (ofList es).get? k = some w := by
    intro w hw
    apply get?_ofList_of_forall (List.mem_map.2 ⟨_, hw, rfl⟩)
    rintro ⟨k', w'⟩ he rfl
    have h1 := findEntry_of_mem hes he
    rw [findEntry_of_mem hes hw] at h1
    exact (Option.some.inj h1).symm
  constructor
  · intro h
    have hk : k ∈ es.map Prod.fst := mem_keys_ofList.1 (mem_keys_iff.2 ⟨v, h⟩)
    rw [List.mem_map] at hk
    obtain ⟨⟨k', w⟩, he, rfl⟩ := hk
    rw [hread w he] at h
    cases h
    exact he
  · exact hread v

/-- A list without repeated keys is entered as it is. -/
theorem keys_ofList_of_nodup {es : List (α × β)} (hes : (es.map Prod.fst).Nodup) :
    (ofList es).keys = es.map Prod.fst := by
  rw [keys_ofList]
  exact Graph.newcomers_eq_self hes fun _ _ => List.not_mem_nil

/-- A list without repeated keys is entered as it is, with its values. -/
theorem entries_ofList {es : List (α × β)} (hes : (es.map Prod.fst).Nodup) :
    (ofList es).entries = es := by
  refine eq_of_findEntry (ofList es).nodup (keys_ofList_of_nodup hes) fun k => ?_
  ext v
  rw [show findEntry k (ofList es).entries = (ofList es).get? k from rfl,
    get?_ofList_eq_some_iff hes]
  exact ⟨findEntry_of_mem hes, mem_of_findEntry⟩

/-- Entering the entries of a map again gives the map. -/
theorem ofList_entries (m : OrderedMap α β) : ofList m.entries = m :=
  ext_entries (entries_ofList m.nodup)

/-! ## Changed values -/

/-- Changed values are found where the values were. -/
theorem findEntry_map {γ : Type} (f : α → β → γ) (es : List (α × β)) (k : α) :
    findEntry k (es.map fun e => (e.1, f e.1 e.2)) = (findEntry k es).map (f k) := by
  induction es with
  | nil => rfl
  | cons e es ih =>
    obtain ⟨a, v⟩ := e
    rw [List.map_cons, findEntry, findEntry]
    by_cases h : a = k
    · rw [if_pos h, if_pos h, h]
      rfl
    · rw [if_neg h, if_neg h, ih]

/-- What is read after a change of all values is the changed value. -/
theorem get?_mapValues {γ : Type} (f : α → β → γ) (m : OrderedMap α β) (k : α) :
    (m.mapValues f).get? k = (m.get? k).map (f k) :=
  findEntry_map f m.entries k

/-! ## Values and sizes -/

/-- The values are those that are read at some key. -/
theorem mem_values_iff {m : OrderedMap α β} {v : β} : v ∈ m.values ↔ ∃ k, m.get? k = some v := by
  rw [values, List.mem_map]
  constructor
  · rintro ⟨⟨k, v⟩, h, rfl⟩
    exact ⟨k, mem_entries_iff.1 h⟩
  · rintro ⟨k, h⟩
    exact ⟨(k, v), mem_entries_iff.2 h, rfl⟩

/-- Values of different keys are related if the relation holds between them. -/
theorem pairwise_values {m : OrderedMap α β} {R : β → β → Prop}
    (h : ∀ k k' v v', m.get? k = some v → m.get? k' = some v' → ¬ k = k' → R v v') :
    m.values.Pairwise R := by
  rw [values, List.pairwise_map]
  refine (List.pairwise_map.1 m.nodup).imp_of_mem ?_
  rintro ⟨k, v⟩ ⟨k', v'⟩ hv hv' hk
  exact h k k' v v' (mem_entries_iff.1 hv) (mem_entries_iff.1 hv') hk

/-- A map is empty when nothing is read in it. -/
theorem size_eq_zero_iff {m : OrderedMap α β} : m.size = 0 ↔ ∀ k, m.get? k = none := by
  simp only [get?_eq_none_iff, keys, ← List.eq_nil_iff_forall_not_mem, List.map_eq_nil_iff]
  exact List.length_eq_zero_iff

/-! ## Leaving out keys -/

/-- Without the entries of one key, only that key is no longer found. -/
theorem findEntry_filter (k : α) (es : List (α × β)) (k' : α) :
    findEntry k' (es.filter fun e => e.1 ≠ k) = if k' = k then none else findEntry k' es := by
  induction es with
  | nil => simp [findEntry]
  | cons e es ih =>
    obtain ⟨a, v⟩ := e
    by_cases ha : a = k
    · rw [List.filter_cons_of_neg (by simpa using ha), ih, findEntry]
      split
      · rfl
      · rename_i hk
        rw [if_neg fun h => hk (h.symm.trans ha)]
    · rw [List.filter_cons_of_pos (by simpa using ha), findEntry, findEntry, ih]
      by_cases hk : k' = k
      · rw [if_pos hk, if_pos hk, if_neg fun h => ha (h.trans hk)]
      · rw [if_neg hk, if_neg hk]

/-- A key that is left out has no value, and the others keep theirs. -/
theorem get?_erase (m : OrderedMap α β) (k k' : α) :
    (m.erase k).get? k' = if k' = k then none else m.get? k' :=
  findEntry_filter k m.entries k'

/-- Erasing takes away one key and no other. -/
@[simp] theorem mem_keys_erase {m : OrderedMap α β} {k k' : α} :
    k' ∈ (m.erase k).keys ↔ ¬ k' = k ∧ k' ∈ m.keys := by
  simp only [mem_keys_iff, get?_erase]
  split
  · simp [*]
  · simp [*]

/-! ## Sorted entries -/

/-- The entries of a map in the order of their keys. -/
def sortedEntries (m : OrderedMap String β) : List (String × β) :=
  m.entries.mergeSort fun a b => decide (a.1 ≤ b.1)

/-- The sorted entries are the entries. -/
theorem mem_sortedEntries {m : OrderedMap String β} {s : String} {v : β} :
    (s, v) ∈ m.sortedEntries ↔ m.get? s = some v := by
  rw [sortedEntries, List.mem_mergeSort, mem_entries_iff]

/-- The sorted entries ascend by their keys. -/
theorem pairwise_sortedEntries (m : OrderedMap String β) :
    m.sortedEntries.Pairwise fun a b => a.1 ≤ b.1 :=
  pairwise_mergeSort_key Prod.fst m.entries

theorem nodup_sortedEntries (m : OrderedMap String β) : m.sortedEntries.Nodup :=
  (List.mergeSort_perm _ _).nodup_iff.2 (List.Pairwise.of_map Prod.fst
    (fun _ _ h heq => h (congrArg Prod.fst heq)) m.nodup)

/-- Sorted entries forget the order in which the keys were entered and nothing else. -/
theorem sortedEntries_eq_iff {m n : OrderedMap String β} :
    m.sortedEntries = n.sortedEntries ↔ ∀ s, m.get? s = n.get? s := by
  constructor
  · intro h s
    ext v
    rw [← mem_sortedEntries, ← mem_sortedEntries, h]
  · intro h
    have hmem : ∀ e, e ∈ m.sortedEntries ↔ e ∈ n.sortedEntries := by
      rintro ⟨s, v⟩
      rw [mem_sortedEntries, mem_sortedEntries, h]
    have hperm : m.sortedEntries.Perm n.sortedEntries :=
      (List.perm_ext_iff_of_nodup (nodup_sortedEntries m) (nodup_sortedEntries n)).2 hmem
    refine hperm.eq_of_pairwise ?_ (pairwise_sortedEntries m) (pairwise_sortedEntries n)
    rintro ⟨s, v⟩ ⟨t, w⟩ hv hw hst hts
    -- each key has one value, so entries in both orders are the same
    obtain rfl : s = t := String.le_antisymm hst hts
    rw [mem_sortedEntries] at hv hw
    rw [h, hw, Option.some.injEq] at hv
    rw [hv]

end OrderedMap

end LexAutomata
