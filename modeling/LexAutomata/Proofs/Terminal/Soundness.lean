/-
# Sound sessions

In a sound session the fragments are those of categories, drawn from the counter and
stored under their names, and all that is stored is in order: automata are valid and have
their states below the counter, tables are intact, and both are over characters
(`Session.Sound`).  Here is said once what the commands that build and store do:
building begins with the first name (`build_cons`), and merging, determinizing and
minimizing always store a result (`Sound.merge_eq`, `Sound.determinize_eq`,
`Sound.minimize_eq`).
-/
import LexAutomata.Proofs.Recognizer
import LexAutomata.Terminal.Session

namespace LexAutomata

open Catalogue

namespace Terminal

variable {s : Session} {c c' : Counter}

/-! ## What is stored -/

/-- What is stored is in order, with states below the counter if it is an automaton. -/
def Stored.Sound (c : Counter) : Stored → Prop
  | .automaton A => A.Valid ∧ A.OneCharacter ∧ ∀ q ∈ A.states, q < c.next
  | .table T => T.Intact ∧ T.OneCharacter

/-- What is stored stays sound when the counter moves on. -/
theorem Stored.Sound.mono {x : Stored} (h : x.Sound c) (hc : c.next ≤ c'.next) : x.Sound c' := by
  cases x with
  | automaton A => exact ⟨h.1, h.2.1, fun q hq => Int.lt_of_lt_of_le (h.2.2 q hq) hc⟩
  | table T => exact h

/-- The fragment of a category is in order. -/
theorem sound_of_isStandard {name : String} {A : Automaton} (h : IsStandard name A c c') :
    (Stored.automaton A).Sound c' :=
  ⟨h.draft.valid, h.draft.oneCharacter, fun q hq => ((h.draft.mem_states q).1 hq).2⟩

/-- The union of fragments is in order once its start state is taken from the counter. -/
theorem sound_unionFrom {fs : Fragments} (h : Drawn fs c) (name : String) :
    (Stored.automaton (Automaton.unionFrom name c.next fs.values)).Sound c.advance := by
  have hunion := h.isUnion name
  refine ⟨hunion.valid fun B => h.valid_of_mem, h.oneCharacter_unionFrom name, fun q hq => ?_⟩
  rcases (hunion.mem_states q).1 hq with rfl | ⟨B, hB, hq⟩
  · exact Int.lt_succ c.next
  · obtain ⟨a, hB⟩ := OrderedMap.mem_values_iff.1 hB
    exact Int.lt_trans (h.below hB hq) (Int.lt_succ c.next)

/-! ## Sessions -/

namespace Session

/-- The fragments are those of categories and are stored, and what is stored is in order. -/
structure Sound (s : Session) : Prop where
  /-- Every fragment is built under a name that is stored. -/
  stored : ∀ name ∈ s.fragments.keys, name ∈ s.store.keys
  /-- The fragments are those of categories, drawn from the counter. -/
  drawn : Drawn s.fragments s.counter
  /-- What is stored is in order. -/
  sound : ∀ name x, s.store.get? name = some x → x.Sound s.counter

/-- The session after a fragment is built and stored. -/
def enroll (s : Session) (name : String) (A : Automaton) (c : Counter) : Session :=
  { s with counter := c, fragments := s.fragments.insert name A }.keep name (.automaton A)

/-- **What building a category first does.**  If it is built already, nothing; if there is no such
category, building ends; and otherwise its fragment is built and stored. -/
theorem build_cons (s : Session) (name : String) :
    (name ∈ s.fragments.keys ∧ ∀ names, s.build (name :: names)
      = { s.build names with lines := ("Already built: " ++ name) :: (s.build names).lines }) ∨
    (¬ name ∈ s.fragments.keys ∧ ¬ name ∈ Category.all ∧ ∀ names, s.build (name :: names)
      = { session := s, failure := some (.build (.unknownCategory name)) }) ∨
    (¬ name ∈ s.fragments.keys ∧ ∃ A c, IsStandard name A s.counter c ∧
      ∀ names, s.build (name :: names)
        = { (s.enroll name A c).build names with
            lines := s!"Created automaton: {name} ({A.states.size} states)"
              :: ((s.enroll name A c).build names).lines }) := by
  by_cases hbuilt : name ∈ s.fragments.keys
  · refine Or.inl ⟨hbuilt, fun names => ?_⟩
    rw [Session.build, if_pos (OrderedMap.contains_iff.2 hbuilt)]
  · have hcontains : ¬ s.fragments.contains name = true := fun h =>
      hbuilt (OrderedMap.contains_iff.1 h)
    by_cases hknown : name ∈ Category.all
    · obtain ⟨A, c, hA, hstd⟩ := exists_build_eq hknown s.counter
      refine Or.inr (Or.inr ⟨hbuilt, A, c, hstd, fun names => ?_⟩)
      rw [Session.build, if_neg hcontains, hA]
      rfl
    · refine Or.inr (Or.inl ⟨hbuilt, hknown, fun names => ?_⟩)
      rw [Session.build, if_neg hcontains, build_eq_of_not_mem hknown]

/-! ### Commands that only look -/

theorem session_draw (s : Session) (name : String) : (s.draw name).session = s := by
  rw [draw]
  split
  · rfl
  · rfl
  · split <;> rfl

theorem session_test (s : Session) (name word : String) : (s.test name word).session = s := by
  rw [test]
  split
  · rfl
  · split <;> rfl

theorem session_classify (s : Session) (token : String) : (s.classify token).session = s := by
  rw [classify]
  split
  · rfl
  · split <;> rfl

theorem session_report (s : Session) (kind : SourceReport) : (s.report kind).session = s := by
  rw [report]
  split
  · rfl
  · split
    · split <;> rfl
    · rfl

/-- The empty session is sound. -/
theorem sound_empty : Sound {} where
  stored name h := absurd h List.not_mem_nil
  drawn := Drawn.empty {}
  sound name x h := by cases h

namespace Sound

variable {name result : String}

/-- Storing what is in order keeps a session sound. -/
theorem keep (hs : s.Sound) {x : Stored} (hx : x.Sound s.counter) (name : String) :
    (s.keep name x).Sound where
  stored a ha := OrderedMap.mem_keys_insert.2 (Or.inr (hs.stored a ha))
  drawn := hs.drawn
  sound a y hy := by
    rw [Session.keep, OrderedMap.get?_insert] at hy
    split at hy
    · cases hy
      exact hx
    · exact hs.sound a y hy

/-- Moving the counter on keeps a session sound. -/
theorem counter (hs : s.Sound) (hc : s.counter.next ≤ c.next) :
    Sound { s with counter := c } where
  stored := hs.stored
  drawn := hs.drawn.mono hc
  sound a x hx := (hs.sound a x hx).mono hc

/-- A session stays sound when a category is built. -/
theorem enroll (hs : s.Sound) {A : Automaton} (hA : IsStandard name A s.counter c) :
    (s.enroll name A c).Sound where
  stored a ha := by
    rw [Session.enroll, Session.keep, OrderedMap.mem_keys_insert] at ha ⊢
    exact ha.imp_right (hs.stored a)
  drawn := hs.drawn.insert hA
  sound a x hx := by
    rw [Session.enroll, Session.keep, OrderedMap.get?_insert] at hx
    split at hx
    · cases hx
      exact sound_of_isStandard hA
    · exact (hs.sound a x hx).mono (Int.le_of_lt hA.draft.first_lt)

/-! ### What the commands do -/

/-- **Merging stores the union**, with a start state from the counter. -/
theorem merge_eq (hs : s.Sound) (hbuilt : ¬ s.fragments.size = 0) (result : String) :
    s.merge result
      = { session := { s with counter := s.counter.advance }.keep result
            (.automaton (Automaton.unionFrom result s.counter.next s.fragments.values))
          lines := ["Created automaton: " ++ result] } := by
  rw [Session.merge, if_neg hbuilt, hs.drawn.merge_eq]
  rfl

/-- **A stored automaton can be made a table.** -/
theorem determinize_eq (hs : s.Sound) {A : Automaton}
    (hA : s.store.get? name = some (.automaton A)) (result : String) :
    ∃ q, A.start = some q ∧ s.determinize name result
      = { session := s.keep result (.table (A.subsetTable q))
          lines := [s!"Created DFA: {result} ({(A.subsetTable q).rows.size} states)"] } := by
  have hvalid := (hs.sound name _ hA).1
  obtain ⟨q, -, hq⟩ := hvalid.start
  refine ⟨q, hq, ?_⟩
  rw [Session.determinize, hA]
  simp only [Automaton.determinize_eq (Automaton.validate_eq_ok_iff.2 hvalid) hq]

/-- **A stored table can be minimized**, which keeps its words. -/
theorem minimize_eq (hs : s.Sound) {T : Table} (hT : s.store.get? name = some (.table T))
    (criterion : Criterion) (result : String) :
    ∃ M, (Stored.table M).Sound s.counter ∧ (∀ word, M.accepts word = T.accepts word) ∧
      ∃ lines, s.minimize name criterion result
        = { session := s.keep result (.table M), lines := lines } := by
  obtain ⟨hintact, hchars⟩ := hs.sound name _ hT
  obtain ⟨M, hM, hMintact, hMchars, hwords⟩ := Table.exists_minimize_eq hintact.toClosed criterion
  refine ⟨M, ⟨hMintact, hMchars hchars⟩, hwords, ?_⟩
  rw [Session.minimize, hT]
  simp only [hM]
  exact ⟨_, rfl⟩

end Sound

end Session

end Terminal

end LexAutomata
