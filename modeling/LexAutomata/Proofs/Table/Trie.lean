/-
# The trie of listed words

Where every entry of an automaton leads somewhere, its table has a run for exactly the
sequences that lead somewhere, which ends in the state of the set that they lead to
(`exists_run?_start_iff`, `exists_set_of_run?_start`).  The fragment of listed words has no
two sequences that lead to one state, so that different beginnings of words lead to different
sets, and no set is without one.  Hence its table is the trie of the words: a state for each
beginning, with an entry for each character that goes on to another one
(`isTrie_determinize`).
-/
import Mathlib.Data.List.Infix
import Mathlib.Data.List.Nodup
import Mathlib.Data.Set.Function
import LexAutomata.Proofs.Pattern.Branching
import LexAutomata.Proofs.Pattern.Compilation
import LexAutomata.Proofs.Table.BreadthFirst
import LexAutomata.Proofs.Table.ReachedSets

namespace LexAutomata

/-! ## Beginnings -/

/-- The beginnings of the listed words, each once, with the empty one in front. -/
def beginnings (list : List String) : List (List Char) :=
  ([] :: list.flatMap fun w => w.toList.inits).eraseDups

theorem nodup_beginnings (list : List String) : (beginnings list).Nodup :=
  Partition.nodup_eraseDups _

theorem mem_beginnings_iff {list : List String} {p : List Char} :
    p ∈ beginnings list ↔ Begins list p := by
  rw [beginnings, List.mem_eraseDups, List.mem_cons, List.mem_flatMap, Begins]
  simp only [List.mem_inits]

/-- The keywords have thirty-seven nonempty beginnings. -/
example : (beginnings Category.keywords).length = 38 := by decide

/-! ## Runs of the table of the sets -/

namespace Automaton.IsSubsetTable

variable {A : Automaton} {T : Table} {start : Int} {S : StateSet} {k m : Int} {w : List String}

/-- A run from the state of a set ends in the state of the set that the run of the automaton
ends in. -/
theorem get?_subsets_of_run? (h : A.IsSubsetTable start T) (hk : T.subsets.get? k = some S)
    (hw : T.run? k w = some m) : T.subsets.get? m = some (A.run S w) := by
  induction w generalizing k S with
  | nil =>
    cases hw
    exact hk
  | cons s w ih =>
    rw [Table.run?_cons, Option.bind_eq_some_iff] at hw
    obtain ⟨j, hj, hw⟩ := hw
    exact ih (h.step k S hk s j hj) hw

/-- Where every entry leads somewhere, the table has a run for what leads the set somewhere. -/
theorem exists_run?_iff (h : A.IsSubsetTable start T)
    (hentries : ∀ q l, A.HasEntry q l → ∃ r, r ∈ A.targets q l)
    (hk : T.subsets.get? k = some S) (hS : ∃ q, q ∈ S) :
    (∃ m, T.run? k w = some m) ↔ ∃ r, r ∈ A.run S w := by
  induction w generalizing k S with
  | nil => exact iff_of_true ⟨k, rfl⟩ hS
  | cons s w ih =>
    rw [Table.run?_cons, run_cons]
    by_cases hs : s ∈ (T.row k).keys
    · obtain ⟨m, hm⟩ := OrderedMap.mem_keys_iff.1 hs
      obtain ⟨q, hq, hentry⟩ := (h.row k S hk s).1 hs
      obtain ⟨r, hr⟩ := hentries q _ hentry
      have hstep : T.step? k s = some m := hm
      rw [hstep, Option.bind_some]
      exact ih (h.step k S hk s m hm) ⟨r, mem_closure_iff.2 ⟨r, mem_move.2 ⟨q, hq, hr⟩, .nil r⟩⟩
    · -- the table has no entry here, and the set is led to the empty set
      have hstep : T.step? k s = none := OrderedMap.get?_eq_none_iff.2 hs
      rw [h.row k S hk s, ← mem_symbolsOf_iff_hasEntry] at hs
      rw [hstep, successor_eq_empty hs, run_empty]
      simp

theorem exists_run?_start_iff (h : A.IsSubsetTable start T)
    (hentries : ∀ q l, A.HasEntry q l → ∃ r, r ∈ A.targets q l) :
    (∃ m, T.run? T.start w = some m) ↔ ∃ r, A.Leads start w r := by
  have hclosed : ∃ q, q ∈ A.closure (.singleton start) :=
    ⟨start, mem_closure_iff.2 ⟨start, StateSet.mem_singleton.2 rfl, .nil start⟩⟩
  rw [h.start_eq, h.exists_run?_iff hentries h.get?_zero hclosed]
  simp only [mem_run_closure_iff, StateSet.mem_singleton, exists_eq_left]

/-- **The state that a sequence ends in stands for what the sequence leads to.** -/
theorem exists_set_of_run?_start (h : A.IsSubsetTable start T) (hw : T.run? T.start w = some m) :
    ∃ S, T.subsets.get? m = some S ∧ ∀ r, r ∈ S ↔ A.Leads start w r := by
  rw [h.start_eq] at hw
  refine ⟨_, h.get?_subsets_of_run? h.get?_zero hw, fun r => ?_⟩
  simp only [mem_run_closure_iff, StateSet.mem_singleton, exists_eq_left]

/-- The state that a sequence ends in is final exactly when the sequence is read. -/
theorem isFinal_of_run?_start (h : A.IsSubsetTable start T) (hw : T.run? T.start w = some m) :
    T.isFinal m = true ↔ A.Reads start w := by
  obtain ⟨S, hS, hmem⟩ := h.exists_set_of_run?_start hw
  rw [h.final m S hS, Reads]
  simp only [hmem]
  exact exists_congr fun r => And.comm

end Automaton.IsSubsetTable

/-! ## Tries -/

namespace Table

variable {T : Table} {list : List String}

/-- The state that the characters lead to, and the start state if they lead nowhere. -/
def place (T : Table) (p : List Char) : Int := (T.run? T.start (symbols p)).getD T.start

/-- The table is the trie of the listed words. -/
structure IsTrie (T : Table) (list : List String) : Prop where
  /-- The start state is zero. -/
  start_eq : T.start = 0
  /-- The empty beginning has the start state. -/
  place_nil : T.place [] = 0
  /-- Each beginning has a state, and each state is that of one beginning. -/
  bijOn : Set.BijOn T.place {p | Begins list p} {k | k ∈ T.states}
  /-- The entries are for the characters that go on to a beginning, and lead to its state. -/
  step?_iff : ∀ p, Begins list p → ∀ s m, T.step? (T.place p) s = some m ↔
    ∃ x, s = String.ofList [x] ∧ Begins list (p ++ [x]) ∧ T.place (p ++ [x]) = m
  /-- The final states are those of the words. -/
  isFinal_iff : ∀ p, Begins list p → (T.isFinal (T.place p) = true ↔ String.ofList p ∈ list)
  /-- No state is final that is not a state of the table. -/
  finals : ∀ k ∈ T.finals, k ∈ T.states
  /-- There are as many states as beginnings. -/
  size_eq : T.states.size = (beginnings list).length

/-- States that belong to the beginnings one to one are as many. -/
theorem size_states_eq_of_bijOn
    (h : Set.BijOn T.place {p | Begins list p} {k | k ∈ T.states}) :
    T.states.size = (beginnings list).length := by
  have hnodup : ((beginnings list).map T.place).Nodup :=
    (nodup_beginnings list).map_on fun p hp q hq =>
      h.injOn (mem_beginnings_iff.1 hp) (mem_beginnings_iff.1 hq)
  have hperm : T.states.toList.Perm ((beginnings list).map T.place) := by
    rw [List.perm_ext_iff_of_nodup T.states.nodup_toList hnodup]
    intro k
    rw [List.mem_map, StateSet.mem_toList]
    constructor
    · intro hk
      obtain ⟨p, hp, rfl⟩ := h.surjOn hk
      exact ⟨p, mem_beginnings_iff.2 hp, rfl⟩
    · rintro ⟨p, hp, rfl⟩
      exact h.mapsTo (mem_beginnings_iff.1 hp)
  rw [StateSet.size, hperm.length_eq, List.length_map]

end Table

/-! ## The table of the chains -/

namespace Automaton

variable {A : Automaton} {T : Table} {list : List String} {c c' : Counter}

section

variable (hA : Pattern.IsFragment (.words list) c (A, c')) (hbranching : A.Branching c.next c.next)
  (hT : A.IsSubsetTable c.next T)

include hA hbranching hT

/-- The runs over characters are those over beginnings. -/
theorem run?_place_iff {p : List Char} :
    T.run? T.start (symbols p) = some (T.place p) ↔ Begins list p := by
  rw [Pattern.begins_iff hA hbranching, ← hT.exists_run?_start_iff hbranching.entries, Table.place]
  constructor
  · exact fun h => ⟨_, h⟩
  · rintro ⟨m, hm⟩
    rw [hm, Option.getD_some]

/-- **Each state is the state of one beginning.** -/
theorem bijOn_place (hreached : T.Accessible) :
    Set.BijOn T.place {p | Begins list p} {k | k ∈ T.states} := by
  have hrun : ∀ {p}, Begins list p → T.run? T.start (symbols p) = some (T.place p) :=
    (run?_place_iff hA hbranching hT).2
  refine ⟨?mapsTo, ?injOn, ?surjOn⟩
  case mapsTo =>
    intro p hp
    obtain ⟨S, hS, -⟩ := hT.exists_set_of_run?_start (hrun hp)
    exact hT.mem_states_iff.2 ⟨S, hS⟩
  case injOn =>
    intro p hp q hq hpq
    obtain ⟨S, hS, hpS⟩ := hT.exists_set_of_run?_start (hrun hp)
    obtain ⟨S', hS', hqS⟩ := hT.exists_set_of_run?_start (hrun hq)
    rw [hpq, hS', Option.some.injEq] at hS
    subst hS
    -- a state of the set is reached by both beginnings, but by one sequence only
    obtain ⟨r, hr⟩ := (Pattern.begins_iff hA hbranching).1 hp
    have hr' := (hqS r).1 ((hpS r).2 hr)
    exact symbols_injective (hbranching.unique _ _ r hr hr')
  case surjOn =>
    intro k hk
    obtain ⟨w, hw⟩ := hreached k hk
    obtain ⟨r, hr⟩ := (hT.exists_run?_start_iff hbranching.entries).1 ⟨k, hw⟩
    obtain ⟨p, rfl⟩ := hA.draft.exists_symbols_eq hr
    have hp := (Pattern.begins_iff hA hbranching).2 ⟨r, hr⟩
    refine ⟨p, hp, ?_⟩
    rw [hrun hp, Option.some.injEq] at hw
    exact hw

/-- The entries of a beginning lead to the beginnings that are longer by one character. -/
theorem step?_place_iff {p : List Char} (hp : Begins list p) {s : String} {m : Int} :
    T.step? (T.place p) s = some m ↔
      ∃ x, s = String.ofList [x] ∧ Begins list (p ++ [x]) ∧ T.place (p ++ [x]) = m := by
  have hstep : T.step? (T.place p) s = T.run? T.start (symbols p ++ [s]) := by
    rw [Table.run?_concat, (run?_place_iff hA hbranching hT).2 hp, Option.bind_some]
  rw [hstep]
  constructor
  · intro hm
    obtain ⟨r, hr⟩ := (hT.exists_run?_start_iff hbranching.entries).1 ⟨m, hm⟩
    obtain ⟨v, hv⟩ := hA.draft.exists_symbols_eq hr
    have hs : s ∈ symbols v := hv ▸ List.mem_append_right _ (List.mem_singleton.2 rfl)
    obtain ⟨x, -, rfl⟩ := List.mem_map.1 hs
    have hlonger : symbols (p ++ [x]) = symbols p ++ [String.ofList [x]] := symbols_append p [x]
    rw [← hlonger] at hm hr
    have hbegins := (Pattern.begins_iff hA hbranching).2 ⟨r, hr⟩
    rw [(run?_place_iff hA hbranching hT).2 hbegins, Option.some.injEq] at hm
    exact ⟨x, rfl, hbegins, hm⟩
  · rintro ⟨x, rfl, hbegins, rfl⟩
    rw [← (run?_place_iff hA hbranching hT).2 hbegins, symbols_append]
    rfl

/-- **The table of the chains is the trie.** -/
theorem isTrie_of_isSubsetTable (hreached : T.Accessible) : T.IsTrie list where
  start_eq := hT.start_eq
  place_nil := hT.start_eq
  bijOn := bijOn_place hA hbranching hT hreached
  step?_iff _ hp _ _ := step?_place_iff hA hbranching hT hp
  isFinal_iff p hp := by
    rw [hT.isFinal_of_run?_start ((run?_place_iff hA hbranching hT).2 hp),
      ← Pattern.describes_words_iff]
    exact hA.reads_iff p
  finals := hT.finals
  size_eq := Table.size_states_eq_of_bijOn (bijOn_place hA hbranching hT hreached)

end

end Automaton

namespace Catalogue

variable {k : Catalogue} {name : String} {list : List String}

/-- **Determinizing a list of words yields their trie.**  Wherever the counter stands, the fragment
of listed words can be built and determinized, and its table has one state for each beginning of the
words, which goes on to the longer beginnings and is final for the words. -/
theorem isTrie_determinize (hk : k name = some (.words list)) (c : Counter) :
    ∃ A c' T, k.build name c = (.ok A, c') ∧ A.determinize = .ok T ∧ T.IsTrie list := by
  obtain ⟨A, c', hbuild, hA, hbranching⟩ := Pattern.exists_fragment_words_eq list name c
  have hvalid := hA.draft.valid
  have hT := Automaton.isSubsetTable_subsetTable hvalid hA.draft.mem_first
  refine ⟨A, c', A.subsetTable c.next, build_eq_ok hk hbuild, ?_, ?_⟩
  · exact Automaton.determinize_eq (Automaton.validate_eq_ok_iff.2 hvalid) hA.draft.start_eq
  · exact Automaton.isTrie_of_isSubsetTable hA hbranching hT
      (Automaton.accessible_subsetTable c.next)

/-- A catalogue of one list, whose words begin alike, are repeated, begin others or are empty. -/
def overlapping : Catalogue := fun _ => some (.words ["int", "in", "", "int", "if"])

theorem isTrie_determinize_overlapping :
    overlapping "words" = some (.words ["int", "in", "", "int", "if"]) ∧
      (∃ A c' T, overlapping.build "words" ⟨-3⟩ = (.ok A, c') ∧ A.determinize = .ok T ∧
        T.IsTrie ["int", "in", "", "int", "if"] ∧ T.states.size = 5) := by
  have hwords : overlapping "words" = some (.words ["int", "in", "", "int", "if"]) := rfl
  obtain ⟨A, c', T, hA, hT, htrie⟩ := isTrie_determinize hwords ⟨-3⟩
  exact ⟨hwords, A, c', T, hA, hT, htrie, htrie.size_eq.trans (by decide)⟩

end Catalogue

end LexAutomata
