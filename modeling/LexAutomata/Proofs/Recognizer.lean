/-
# The recognizer and the grammar

Categories can be built one after the other from any counter (`exists_buildOnto_eq`), and
their fragments and the union of these are over characters
(`Drawn.oneCharacter_unionFrom`).  So a recognizer can be built with every criterion and
every counter (`exists_build_eq`), and all that is in it agrees with the grammar
(`build_agrees`): the fragments classify a word as the grammar does, two of them accept the
same word only where a keyword is an identifier, and the union, its table and the small
table accept the words that have a category.
-/
import LexAutomata.Proofs.Source.Classification
import LexAutomata.Proofs.Table.Intact
import LexAutomata.Recognizer
import Mathlib.Data.List.Find

namespace LexAutomata

open Catalogue Automaton

/-! ## Automata over characters -/

namespace Automaton

variable {A : Automaton}

/-- The symbols are characters exactly when the entries are for characters. -/
theorem oneCharacter_iff :
    A.OneCharacter ↔ ∀ p s, A.HasEntry p (.symbol s) → s.length = 1 := by
  have halphabet : ∀ s, s ∈ A.alphabet ↔ ∃ p, A.HasEntry p (.symbol s) := by
    intro s
    rw [alphabet, mem_sortedSymbols, List.mem_filterMap]
    constructor
    · rintro ⟨l, hl, hs⟩
      cases l with
      | epsilon => cases hs
      | symbol t =>
        cases hs
        exact mem_labels_iff.1 hl
    · exact fun h => ⟨.symbol s, mem_labels_iff.2 h, rfl⟩
  simp only [OneCharacter, halphabet]
  constructor
  · exact fun h p s hs => h s ⟨p, hs⟩
  · rintro h s ⟨p, hs⟩
    exact h p s hs

theorem Draft.oneCharacter {first : Int} {c : Counter} (h : A.Draft first c) :
    A.OneCharacter := by
  rw [oneCharacter_iff]
  intro p s hs
  obtain ⟨d, hd⟩ := h.hasEntry p _ hs
  cases hd
  exact String.length_ofList

/-- A union is over characters if its parts are. -/
theorem oneCharacter_unionFrom {parts : List Automaton} (h : ∀ B ∈ parts, B.OneCharacter)
    (name : String) (start : Int) : (unionFrom name start parts).OneCharacter := by
  rw [oneCharacter_iff]
  intro p s hs
  rcases hasEntry_foldl_absorb hs with hs | ⟨B, hB, hs⟩ | hs
  · cases hs
  · exact oneCharacter_iff.1 (h B hB) p s hs
  · cases hs

end Automaton

/-- The union of fragments from one counter is over characters. -/
theorem Catalogue.Drawn.oneCharacter_unionFrom {fs : Fragments} {c : Counter} (h : Drawn fs c)
    (name : String) : (unionFrom name c.next fs.values).OneCharacter := by
  refine Automaton.oneCharacter_unionFrom (fun B hB => ?_) name c.next
  obtain ⟨a, hB⟩ := OrderedMap.mem_values_iff.1 hB
  obtain ⟨_, _, hstd, -⟩ := h.isStandard a B hB
  exact hstd.draft.oneCharacter

/-! ## Building several fragments -/

/-- **Categories can be built one after the other**, onto fragments from the same counter. -/
theorem Catalogue.exists_buildOnto_eq {names : List String}
    (hnames : ∀ name ∈ names, name ∈ Category.all) {fs : Fragments} {c : Counter}
    (hfs : Drawn fs c) (hnew : (fs.keys ++ names).Nodup) :
    ∃ fs' c', standard.buildOnto fs c names = (.ok fs', c') ∧ Drawn fs' c' ∧
      fs'.keys = fs.keys ++ names := by
  induction names generalizing fs c with
  | nil => exact ⟨fs, c, rfl, hfs, (List.append_nil _).symm⟩
  | cons name names ih =>
    rw [List.forall_mem_cons] at hnames
    obtain ⟨A, c₁, hbuild, hA⟩ := exists_build_eq hnames.1 c
    have hkeys : (fs.insert name A).keys = fs.keys ++ [name] := by
      have hname : ¬ name ∈ fs.keys := fun h =>
        (List.nodup_append.1 hnew).2.2 name h name List.mem_cons_self rfl
      rw [OrderedMap.insert, OrderedMap.keys_alter, if_neg hname]
    have hsplit : (fs.insert name A).keys ++ names = fs.keys ++ name :: names := by
      rw [hkeys, List.append_assoc, List.singleton_append]
    obtain ⟨fs', c', hbuilt, hdrawn, hfs'⟩ := ih hnames.2 (hfs.insert hA) (hsplit ▸ hnew)
    refine ⟨fs', c', ?_, hdrawn, hfs'.trans hsplit⟩
    rw [buildOnto, hbuild]
    exact hbuilt

namespace Recognizer

/-! ## Agreement -/

/-- All that is in the recognizer does with a word what the grammar says. -/
structure Agrees (r : Recognizer) : Prop where
  /-- Every category has a fragment. -/
  keys_eq : r.fragments.keys = Category.all
  /-- The fragments classify words as the grammar does. -/
  classify_eq : ∀ word, Source.classify word r.fragments = .ok (Grammar.category? word)
  /-- The fragment of identifiers accepts the keywords. -/
  identifier_of_keyword : ∀ A B word, r.fragments.get? Category.keyword = some A →
    r.fragments.get? Category.identifier = some B → A.accepts word = .ok true →
      B.accepts word = .ok true
  /-- No other two fragments accept the same word. -/
  overlap : ∀ a b A B word, r.fragments.get? a = some A → r.fragments.get? b = some B →
    A.accepts word = .ok true → B.accepts word = .ok true → ¬ a = b →
      (a = Category.keyword ∧ b = Category.identifier) ∨
        (a = Category.identifier ∧ b = Category.keyword)
  /-- The union accepts the words that have a category. -/
  combined_eq : ∀ word, r.combined.accepts word = .ok (Grammar.category? word).isSome
  /-- So does its table. -/
  table_eq : ∀ word, r.table.accepts word = (Grammar.category? word).isSome
  /-- So does the small table. -/
  minimal_eq : ∀ word, r.minimal.accepts word = (Grammar.category? word).isSome

/-- Fragments for all categories classify words as the grammar does. -/
theorem classify_eq_category? {fs : Fragments} {c : Counter} (hfs : Drawn fs c)
    (hkeys : fs.keys = Category.all) (word : String) :
    Source.classify word fs = .ok (Grammar.category? word) := by
  have hbuilt : ∀ a ∈ Category.priority,
      (fs.contains a && decide (Grammar.Belongs a word)) = decide (Grammar.Belongs a word) := by
    intro a ha
    have hall : fs.contains a = true := by
      rw [OrderedMap.contains_iff, hkeys]
      exact Grammar.mem_priority_iff.1 ha
    rw [hall, Bool.true_and]
  rw [hfs.classify_eq, Grammar.category?_eq_find?]
  exact congrArg Except.ok (List.find?_congr hbuilt)

/-- What is assembled of fragments: their union under the next state of the counter, its table, and
the small table. -/
theorem assemble_eq {criterion : Criterion} {fs : Fragments} {c : Counter} (hfs : Drawn fs c)
    {M : Table}
    (hM : ((unionFrom "Combined" c.next fs.values).subsetTable c.next).minimize criterion = .ok M) :
    assemble criterion fs c
      = (.ok ⟨fs, unionFrom "Combined" c.next fs.values,
          (unionFrom "Combined" c.next fs.values).subsetTable c.next, M⟩, some c.advance) := by
  have hunion := hfs.isUnion "Combined"
  have hdeterminize := determinize_eq
    (validate_eq_ok_iff.2 (hunion.valid fun B => hfs.valid_of_mem)) hunion.start_eq
  rw [assemble, hfs.merge_eq]
  simp only [bind, Except.bind, hdeterminize, hM]
  rfl

/-- How a recognizer comes about. -/
theorem exists_build_eq (criterion : Criterion) (c : Counter) :
    ∃ fs c' M, standard.buildAll Category.all c = (.ok fs, c') ∧ Drawn fs c' ∧
      fs.keys = Category.all ∧
      ((unionFrom "Combined" c'.next fs.values).subsetTable c'.next).minimize criterion = .ok M ∧
      build criterion c = (.ok ⟨fs, unionFrom "Combined" c'.next fs.values,
        (unionFrom "Combined" c'.next fs.values).subsetTable c'.next, M⟩, c'.advance) := by
  obtain ⟨fs, c', hbuilt, hfs, hkeys⟩ :=
    exists_buildOnto_eq (fun _ => id) (Drawn.empty c) (by decide)
  obtain ⟨M, hM, -⟩ := Table.exists_minimize_eq (closed_subsetTable c'.next) criterion
  refine ⟨fs, c', M, hbuilt, hfs, hkeys, hM, ?_⟩
  rw [build, buildAll, hbuilt]
  simp only [assemble_eq hfs hM]
  rfl

/-- **What is assembled of fragments for all categories agrees with the grammar.** -/
theorem exists_assemble_eq (criterion : Criterion) {fs : Fragments} {c : Counter}
    (hfs : Drawn fs c) (hkeys : fs.keys = Category.all) :
    ∃ r, assemble criterion fs c = (.ok r, some c.advance) ∧ r.Agrees := by
  obtain ⟨T, hT⟩ : ∃ T, T = (unionFrom "Combined" c.next fs.values).subsetTable c.next := ⟨_, rfl⟩
  have hunion := hfs.isUnion "Combined"
  have hcombined : ∀ word, (unionFrom "Combined" c.next fs.values).accepts word
      = .ok (Grammar.category? word).isSome := by
    intro word
    rw [hfs.accepts_unionFrom, hkeys, Grammar.isSome_category?]
  have htable : ∀ word, T.accepts word = (Grammar.category? word).isSome := by
    intro word
    rw [hT, ← Except.ok.injEq, ← accepts_subsetTable hunion.start_eq, hcombined]
  obtain ⟨M, hM, -, -, hMwords⟩ :=
    Table.exists_minimize_eq (hT ▸ closed_subsetTable c.next) criterion
  refine ⟨⟨fs, unionFrom "Combined" c.next fs.values, T, M⟩, ?_, hkeys,
    classify_eq_category? hfs hkeys, ?_, ?_, hcombined, htable,
    fun word => (hMwords word).trans (htable word)⟩
  · rw [hT] at hM ⊢
    exact assemble_eq hfs hM
  · intro A B word hA hB hword
    rw [hfs.accepts_iff hA, Grammar.belongs_keyword_iff] at hword
    rw [hfs.accepts_iff hB, Grammar.belongs_identifier_iff]
    exact Grammar.isIdentifier_of_isKeyword hword
  · intro a b A B word hA hB hAword hBword hab
    exact Grammar.overlap ((hfs.accepts_iff hA).1 hAword) ((hfs.accepts_iff hB).1 hBword) hab

/-- **A recognizer agrees with the grammar**, whatever the criterion and the counter. -/
theorem build_agrees (criterion : Criterion) (c : Counter) :
    ∃ r c', build criterion c = (.ok r, c') ∧ r.Agrees := by
  obtain ⟨fs, c', hbuilt, hfs, hkeys⟩ :=
    exists_buildOnto_eq (fun _ => id) (Drawn.empty c) (by decide)
  obtain ⟨r, hr, hagrees⟩ := exists_assemble_eq criterion hfs hkeys
  refine ⟨r, c'.advance, ?_, hagrees⟩
  rw [build, buildAll, hbuilt]
  simp only [hr]
  rfl

end Recognizer

end LexAutomata
