/-
# Insertion-ordered maps

A finite map that lists its keys in the order in which they were first entered.
Entering a key again keeps its place and replaces its value, so a traversal is a
function of the history of first entries.  The keys are distinct by construction.
-/

namespace LexAutomata

/-- A finite map from `α` to `β` whose keys are listed in the order of their first entry. -/
structure OrderedMap (α : Type) (β : Type) where
  /-- The entries in order. -/
  entries : List (α × β) := []
  /-- No key is entered twice. -/
  nodup : (entries.map Prod.fst).Nodup := by simp

namespace OrderedMap

variable {α β γ : Type}

instance : EmptyCollection (OrderedMap α β) := ⟨{}⟩

instance : Inhabited (OrderedMap α β) := ⟨∅⟩

instance [DecidableEq α] [DecidableEq β] : DecidableEq (OrderedMap α β) := fun m n =>
  decidable_of_iff (m.entries = n.entries)
    ⟨fun h => by cases m; cases n; simp_all, fun h => by rw [h]⟩

/-- The keys in order. -/
def keys (m : OrderedMap α β) : List α := m.entries.map Prod.fst

/-- The values in the order of their keys. -/
def values (m : OrderedMap α β) : List β := m.entries.map Prod.snd

/-- The number of keys. -/
def size (m : OrderedMap α β) : Nat := m.entries.length

/-- No key is entered twice. -/
theorem nodup_keys (m : OrderedMap α β) : m.keys.Nodup := m.nodup

variable [DecidableEq α]

/-- The first value entered at `k` in a list of entries. -/
def findEntry (k : α) : List (α × β) → Option β
  | [] => none
  | (k', v) :: es => if k' = k then some v else findEntry k es

/-- The value at a key. -/
def get? (m : OrderedMap α β) (k : α) : Option β := findEntry k m.entries

/-- Is the key entered? -/
def contains (m : OrderedMap α β) (k : α) : Bool := (m.get? k).isSome

/-! ## Entering values -/

/-- Rewrites the value at `k` in place, or appends a first value for it. -/
def alterEntries (k : α) (f : Option β → β) : List (α × β) → List (α × β)
  | [] => [(k, f none)]
  | (k', v) :: es => if k' = k then (k', f (some v)) :: es else (k', v) :: alterEntries k f es

/-- Rewriting keeps the keys and their order, and appends a new key at the end. -/
theorem map_fst_alterEntries (k : α) (f : Option β → β) (es : List (α × β)) :
    (alterEntries k f es).map Prod.fst
      = if k ∈ es.map Prod.fst then es.map Prod.fst else es.map Prod.fst ++ [k] := by
  induction es with
  | nil => simp [alterEntries]
  | cons e es ih =>
    obtain ⟨k', v⟩ := e
    by_cases h : k' = k
    · simp [alterEntries, h]
    · have h' : ¬ k = k' := fun hk => h hk.symm
      by_cases hm : k ∈ es.map Prod.fst
      · rw [if_pos hm] at ih
        rw [alterEntries, if_neg h, List.map_cons, ih, if_pos]
        · simp
        · exact List.mem_cons_of_mem _ hm
      · rw [if_neg hm] at ih
        rw [alterEntries, if_neg h, List.map_cons, ih, if_neg]
        · simp
        · simpa [h'] using hm

/-- Altering a value repeats no key. -/
theorem nodup_alterEntries (k : α) (f : Option β → β) {es : List (α × β)}
    (h : (es.map Prod.fst).Nodup) : ((alterEntries k f es).map Prod.fst).Nodup := by
  rw [map_fst_alterEntries]
  split
  · exact h
  · rename_i hk
    rw [List.nodup_append]
    exact ⟨h, by simp, by intro a ha b hb; simp only [List.mem_singleton] at hb; subst hb
                          intro hab; exact hk (hab ▸ ha)⟩

/-- Replaces the value at `k` by what `f` makes of it; a new key is entered last. -/
def alter (m : OrderedMap α β) (k : α) (f : Option β → β) : OrderedMap α β where
  entries := alterEntries k f m.entries
  nodup := nodup_alterEntries k f m.nodup

/-- Enters a value, replacing the one at `k` in its place. -/
def insert (m : OrderedMap α β) (k : α) (v : β) : OrderedMap α β := m.alter k fun _ => v

/-- Enters the pairs of a list one after the other. -/
def ofList (es : List (α × β)) : OrderedMap α β := es.foldl (fun m e => m.insert e.1 e.2) ∅

/-- Leaves out a key. -/
def erase (m : OrderedMap α β) (k : α) : OrderedMap α β where
  entries := m.entries.filter fun e => e.1 ≠ k
  nodup := by
    have h : ((m.entries.filter fun e => e.1 ≠ k).map Prod.fst).Sublist (m.entries.map Prod.fst) :=
      List.Sublist.map _ List.filter_sublist
    exact List.Nodup.sublist h m.nodup

/-- Applies a function to every value. -/
def mapValues (f : α → β → γ) (m : OrderedMap α β) : OrderedMap α γ where
  entries := m.entries.map fun e => (e.1, f e.1 e.2)
  nodup := by
    have h : (m.entries.map fun e => (e.1, f e.1 e.2)).map Prod.fst = m.entries.map Prod.fst := by
      simp [Function.comp_def]
    rw [h]
    exact m.nodup

/-! ## Reading back -/

@[simp] theorem get?_empty (k : α) : (∅ : OrderedMap α β).get? k = none := rfl

/-- Altering the value at one key leaves the values at the other keys. -/
theorem findEntry_alterEntries (k : α) (f : Option β → β) (es : List (α × β)) (k' : α) :
    findEntry k' (alterEntries k f es)
      = if k' = k then some (f (findEntry k es)) else findEntry k' es := by
  induction es with
  | nil =>
    by_cases h : k = k'
    · simp [alterEntries, findEntry, h]
    · simp [alterEntries, findEntry, h, Ne.symm h]
  | cons e es ih =>
    obtain ⟨a, v⟩ := e
    by_cases ha : a = k
    · subst ha
      by_cases h : a = k'
      · simp [alterEntries, findEntry, h]
      · simp [alterEntries, findEntry, h, Ne.symm h]
    · by_cases h : a = k'
      · subst h
        simp [alterEntries, findEntry, ha]
      · simp [alterEntries, findEntry, ha, h, ih]

/-- After an alteration the altered key holds the new value and the others what they held. -/
theorem get?_alter (m : OrderedMap α β) (k : α) (f : Option β → β) (k' : α) :
    (m.alter k f).get? k' = if k' = k then some (f (m.get? k)) else m.get? k' :=
  findEntry_alterEntries k f m.entries k'

/-- An inserted value is read at its key, and the other values stay. -/
theorem get?_insert (m : OrderedMap α β) (k : α) (v : β) (k' : α) :
    (m.insert k v).get? k' = if k' = k then some v else m.get? k' :=
  get?_alter m k (fun _ => v) k'

/-- What is found is an entry of the list. -/
theorem mem_of_findEntry {k : α} {v : β} {es : List (α × β)} (h : findEntry k es = some v) :
    (k, v) ∈ es := by
  induction es with
  | nil => simp [findEntry] at h
  | cons e es ih =>
    obtain ⟨a, w⟩ := e
    by_cases ha : a = k
    · simp_all [findEntry]
    · simp only [findEntry, if_neg ha] at h
      exact List.mem_cons_of_mem _ (ih h)

/-- A value that is read back stands among the entries. -/
theorem mem_entries_of_get? {m : OrderedMap α β} {k : α} {v : β} (h : m.get? k = some v) :
    (k, v) ∈ m.entries :=
  mem_of_findEntry h

end OrderedMap

end LexAutomata
