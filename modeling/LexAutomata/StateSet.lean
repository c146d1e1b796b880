/-
# Finite sets of states

A state is an integer, and a set of states is the strictly ascending list of its
members.  Every set has one such list, so two sets with the same members are
equal, and sets can be compared, counted and used as keys.  There is no greatest
state: states of any size are counted with and shown in full.
-/

namespace LexAutomata

/-- A finite set of states, held as the ascending list of its members. -/
structure StateSet where
  /-- The members in ascending order. -/
  toList : List Int := []
  /-- Every member is below those after it. -/
  ascending : toList.Pairwise (· < ·) := by simp
deriving DecidableEq

namespace StateSet

instance : EmptyCollection StateSet := ⟨{}⟩

instance : Inhabited StateSet := ⟨∅⟩

instance : Membership Int StateSet := ⟨fun S q => q ∈ S.toList⟩

instance (q : Int) (S : StateSet) : Decidable (q ∈ S) := inferInstanceAs (Decidable (q ∈ S.toList))

/-- What is listed are the members. -/
theorem mem_toList {q : Int} {S : StateSet} : q ∈ S.toList ↔ q ∈ S := Iff.rfl

/-- The empty set has no member. -/
@[simp] theorem not_mem_empty (q : Int) : ¬ q ∈ (∅ : StateSet) := List.not_mem_nil

/-- The number of members. -/
def size (S : StateSet) : Nat := S.toList.length

/-- Has the set no member? -/
def isEmpty (S : StateSet) : Bool := S.toList.isEmpty

/-- A set is empty when nothing is a member. -/
theorem isEmpty_eq_true_iff {S : StateSet} : S.isEmpty = true ↔ ∀ q, ¬ q ∈ S := by
  rw [isEmpty, List.isEmpty_iff, List.eq_nil_iff_forall_not_mem]
  rfl

/-- A set is not empty when something is a member. -/
theorem isEmpty_eq_false_iff {S : StateSet} : S.isEmpty = false ↔ ∃ q, q ∈ S := by
  rw [isEmpty, List.isEmpty_eq_false_iff_exists_mem]
  rfl

/-- The smallest member, and zero for the empty set. -/
def least (S : StateSet) : Int := S.toList.headD 0

/-! ## Inserting -/

/-- Puts a state into its place in an ascending list. -/
def insertAscending (q : Int) : List Int → List Int
  | [] => [q]
  | p :: l => if q < p then q :: p :: l else if q = p then p :: l else p :: insertAscending q l

/-- Inserting into a list adds one element. -/
theorem mem_insertAscending {q r : Int} {l : List Int} :
    r ∈ insertAscending q l ↔ r = q ∨ r ∈ l := by
  induction l with
  | nil => simp [insertAscending]
  | cons p l ih =>
    rw [insertAscending]
    split
    · simp
    · split
      · rename_i h
        subst h
        simp
      · simp only [List.mem_cons, ih]
        constructor
        · rintro (h | h | h) <;> simp [h]
        · rintro (h | h | h) <;> simp [h]

/-- Inserting into an ascending list leaves it ascending. -/
theorem pairwise_insertAscending {q : Int} {l : List Int} (h : l.Pairwise (· < ·)) :
    (insertAscending q l).Pairwise (· < ·) := by
  induction l with
  | nil => simp [insertAscending]
  | cons p l ih =>
    rw [List.pairwise_cons] at h
    rw [insertAscending]
    split
    · rename_i hq
      rw [List.pairwise_cons, List.pairwise_cons]
      refine ⟨?_, h⟩
      intro r hr
      rcases List.mem_cons.1 hr with hr | hr
      · omega
      · have := h.1 r hr
        omega
    · split
      · rw [List.pairwise_cons]
        exact h
      · rw [List.pairwise_cons]
        refine ⟨?_, ih h.2⟩
        intro r hr
        rcases mem_insertAscending.1 hr with hr | hr
        · omega
        · exact h.1 r hr

/-- The set with one more member. -/
def insert (q : Int) (S : StateSet) : StateSet :=
  ⟨insertAscending q S.toList, pairwise_insertAscending S.ascending⟩

/-- Inserting adds one member. -/
@[simp] theorem mem_insert {q r : Int} {S : StateSet} : r ∈ S.insert q ↔ r = q ∨ r ∈ S :=
  mem_insertAscending

/-- The set of the states in a list. -/
def ofList (l : List Int) : StateSet := l.foldl (fun S q => S.insert q) ∅

/-- The members of two sets. -/
def union (S T : StateSet) : StateSet := T.toList.foldl (fun U q => U.insert q) S

instance : Union StateSet := ⟨union⟩

/-- The set of one state. -/
def singleton (q : Int) : StateSet := ⟨[q], by simp⟩

/-- Inserting a list of states adds them all. -/
theorem mem_foldl_insert {r : Int} {l : List Int} {S : StateSet} :
    r ∈ l.foldl (fun U q => U.insert q) S ↔ r ∈ S ∨ r ∈ l := by
  induction l generalizing S with
  | nil => simp
  | cons p l ih =>
    rw [List.foldl_cons, ih, mem_insert, List.mem_cons]
    constructor
    · rintro ((h | h) | h) <;> simp [h]
    · rintro (h | h | h) <;> simp [h]

/-- A list gives the set of its elements. -/
@[simp] theorem mem_ofList {r : Int} {l : List Int} : r ∈ ofList l ↔ r ∈ l := by
  rw [ofList, mem_foldl_insert]
  simp

/-- The union has the members of both sets. -/
@[simp] theorem mem_union {r : Int} {S T : StateSet} : r ∈ S ∪ T ↔ r ∈ S ∨ r ∈ T :=
  mem_foldl_insert

/-- The only member of the set of one state is that state. -/
@[simp] theorem mem_singleton {q r : Int} : r ∈ singleton q ↔ r = q := List.mem_singleton

/-! ## Selecting -/

/-- The members that pass a test. -/
def filter (p : Int → Bool) (S : StateSet) : StateSet := ⟨S.toList.filter p, S.ascending.filter p⟩

/-- Filtering keeps the members that pass the test. -/
@[simp] theorem mem_filter {p : Int → Bool} {q : Int} {S : StateSet} :
    q ∈ S.filter p ↔ q ∈ S ∧ p q = true :=
  List.mem_filter

/-- The members of both sets. -/
def inter (S T : StateSet) : StateSet := S.filter fun q => q ∈ T

/-- The members of the first set that are not in the second. -/
def diff (S T : StateSet) : StateSet := S.filter fun q => ¬ q ∈ T

/-- Is some state a member of both sets? -/
def meets (S T : StateSet) : Bool := S.toList.any fun q => q ∈ T

/-- The members of all sets of a list. -/
def unions (l : List StateSet) : StateSet := l.foldl (· ∪ ·) ∅

/-- Adding sets one after the other adds the members of all. -/
theorem mem_foldl_union {r : Int} {l : List StateSet} {S : StateSet} :
    r ∈ l.foldl (· ∪ ·) S ↔ r ∈ S ∨ ∃ T ∈ l, r ∈ T := by
  induction l generalizing S with
  | nil => simp
  | cons U l ih =>
    rw [List.foldl_cons, ih, mem_union]
    constructor
    · rintro ((h | h) | ⟨T, hT, h⟩)
      · exact Or.inl h
      · exact Or.inr ⟨U, List.mem_cons_self, h⟩
      · exact Or.inr ⟨T, List.mem_cons_of_mem _ hT, h⟩
    · rintro (h | ⟨T, hT, h⟩)
      · exact Or.inl (Or.inl h)
      · rcases List.mem_cons.1 hT with rfl | hT
        · exact Or.inl (Or.inr h)
        · exact Or.inr ⟨T, hT, h⟩

/-- The union of a list of sets has the members of all. -/
@[simp] theorem mem_unions {r : Int} {l : List StateSet} : r ∈ unions l ↔ ∃ T ∈ l, r ∈ T := by
  rw [unions, mem_foldl_union]
  simp

/-! ## Equality and subsets -/

/-- No member is listed twice. -/
theorem nodup_toList (S : StateSet) : S.toList.Nodup := S.ascending.imp Int.ne_of_lt

/-- Sets with the same members are equal. -/
theorem ext {S T : StateSet} (h : ∀ q, q ∈ S ↔ q ∈ T) : S = T := by
  have hperm : S.toList.Perm T.toList :=
    (List.perm_ext_iff_of_nodup S.nodup_toList T.nodup_toList).2 h
  have hlist : S.toList = T.toList := hperm.eq_of_pairwise
    (fun _ _ _ _ hpq hqp => absurd hqp (Int.lt_asymm hpq)) S.ascending T.ascending
  cases S
  cases hlist
  rfl

/-- The members are listed in the only ascending way. -/
theorem toList_eq_of_mem_iff {S : StateSet} {l : List Int} (hl : l.Pairwise (· < ·))
    (h : ∀ q, q ∈ S ↔ q ∈ l) : S.toList = l :=
  congrArg toList (ext (T := ⟨l, hl⟩) h)

/-- A set is what its members make. -/
theorem ofList_toList (S : StateSet) : ofList S.toList = S := ext fun _ => mem_ofList

/-- Some list holds everything that can be left of a list by leaving out elements. -/
theorem exists_forall_sublist_mem {α : Type} (m : List α) :
    ∃ ls : List (List α), ∀ l, l.Sublist m → l ∈ ls := by
  induction m with
  | nil => exact ⟨[[]], fun l hl => List.mem_singleton.2 (List.sublist_nil.1 hl)⟩
  | cons a m ih =>
    obtain ⟨ls, hls⟩ := ih
    refine ⟨ls ++ ls.map (a :: ·), fun l hl => List.mem_append.2 ?_⟩
    cases hl with
    | cons _ hl => exact Or.inl (hls l hl)
    | cons_cons _ hl => exact Or.inr (List.mem_map_of_mem (hls _ hl))

/-- What a subset lists is left of the set by leaving out members. -/
theorem sublist_toList {S T : StateSet} (h : ∀ q ∈ S, q ∈ T) : S.toList.Sublist T.toList := by
  have hS : S = T.filter fun q => q ∈ S := ext fun q => by
    rw [mem_filter, decide_eq_true_eq]
    exact ⟨fun hq => ⟨h q hq, hq⟩, And.right⟩
  rw [hS]
  exact List.filter_sublist

/-- **A set has finitely many subsets.** -/
theorem exists_forall_subset_mem (T : StateSet) :
    ∃ sets : List StateSet, ∀ S : StateSet, (∀ q ∈ S, q ∈ T) → S ∈ sets := by
  obtain ⟨ls, hls⟩ := exists_forall_sublist_mem T.toList
  refine ⟨ls.map ofList, fun S hS => ?_⟩
  exact List.mem_map.2 ⟨S.toList, hls _ (sublist_toList hS), S.ofList_toList⟩

end StateSet

end LexAutomata
