/-
# What patterns are built into

A catalogue builds the fragment of each well-formed pattern that it knows, wherever the counter
stands (`build_eq_ok`).  The fragment is valid, consumes a character on every transition
(`Draft.hasEpsilon_eq`), and answers for every word whether the pattern describes it
(`IsFragment.exists_accepts_eq`, `build_describes`).  A pattern without characters and words
describes nothing (`not_describes_of_bare`).
-/
import LexAutomata.Pattern.Catalogue
import LexAutomata.Proofs.Pattern.Language

namespace LexAutomata

/-- The labels of a draft are characters. -/
theorem Automaton.Draft.hasEpsilon_eq {A : Automaton} {first : Int} {c : Counter}
    (h : A.Draft first c) : A.hasEpsilon = false := by
  rw [hasEpsilon, List.any_eq_false]
  intro l hl
  obtain ⟨q, hq⟩ := mem_labels_iff.1 hl
  obtain ⟨x, rfl⟩ := h.hasEntry q l hq
  simp [Label.ofChar]

namespace Pattern

variable {pattern : Pattern}

/-- There is no character, or no word, in the pattern. -/
def Bare : Pattern → Prop
  | run charset _ => charset = ""
  | words list => list = []
  | single charset => charset = ""

theorem not_isRun_nil (w : List Char) : ¬ IsRun [] w := by
  rintro ⟨hne, hw⟩
  obtain ⟨x, v, rfl⟩ := List.exists_cons_of_ne_nil hne
  exact List.not_mem_nil (hw x List.mem_cons_self)

/-- A bare pattern describes no word. -/
theorem not_describes_of_bare (hbare : pattern.Bare) (w : List Char) : ¬ pattern.Describes w := by
  intro hw
  cases hw with
  | run hw =>
    cases hbare
    exact not_isRun_nil _ hw
  | runs hu _ =>
    cases hbare
    exact not_isRun_nil _ hu
  | word hw =>
    cases hbare
    exact List.not_mem_nil hw
  | single hx =>
    cases hbare
    exact List.not_mem_nil hx

/-- A fragment answers for every word whether its pattern describes it. -/
theorem IsFragment.exists_accepts_eq {c : Counter} {r : Automaton × Counter}
    (h : IsFragment pattern c r) (word : String) :
    ∃ b, r.1.accepts word = .ok b ∧ (b = true ↔ pattern.Describes word.toList) := by
  obtain ⟨b, hb⟩ := Automaton.exists_accepts_eq_ok h.draft.start_eq word
  have hword := h.accepts_iff word
  rw [hb, Except.ok.injEq] at hword
  exact ⟨b, hb, hword⟩

end Pattern

namespace Catalogue

variable {k : Catalogue} {name : String} {pattern : Pattern} {c c' : Counter}

/-- What is built for a name is the fragment of its pattern. -/
theorem build_eq_ok {A : Automaton} (hk : k name = some pattern)
    (hA : pattern.fragment name c = (.ok A, c')) : k.build name c = (.ok A, c') := by
  rw [build, hk]
  simp only [hA]
  rfl

/-- **Every pattern is built into exactly its language.**  Wherever the counter stands, the fragment
of a well-formed pattern can be built; it is valid, no transition of it is an epsilon transition,
and it accepts exactly the words that the pattern describes, which are none if the pattern is
bare. -/
theorem build_describes (hk : k name = some pattern) (hpattern : pattern.WellFormed) (c : Counter) :
    ∃ A c', k.build name c = (.ok A, c') ∧ A.validate = .ok () ∧ A.hasEpsilon = false ∧
      (∀ word, ∃ b, A.accepts word = .ok b ∧ (b = true ↔ pattern.Describes word.toList)) ∧
      (pattern.Bare → ∀ word, A.accepts word = .ok false) := by
  obtain ⟨A, c', hA, hfragment⟩ := Pattern.exists_fragment_eq hpattern name c
  refine ⟨A, c', build_eq_ok hk hA, Automaton.validate_eq_ok_iff.2 hfragment.draft.valid,
    hfragment.draft.hasEpsilon_eq, hfragment.exists_accepts_eq, fun hbare word => ?_⟩
  obtain ⟨b, hb, hiff⟩ := hfragment.exists_accepts_eq word
  have hnot : ¬ b = true := fun h => Pattern.not_describes_of_bare hbare _ (hiff.1 h)
  rw [hb, Bool.eq_false_iff.2 hnot]

/-- A catalogue with a pattern whose separator is one of its repeated characters, and with one that
has no characters. -/
def intricate : Catalogue := fun name =>
  if name = "dotted" then some (.run "a.a" (some "."))
  else if name = "empty" then some (.run "" (some "x"))
  else none

theorem build_describes_intricate :
    (intricate "dotted" = some (.run "a.a" (some ".")) ∧
      (Pattern.run "a.a" (some ".")).WellFormed ∧
      ∃ A c', intricate.build "dotted" ⟨-4⟩ = (.ok A, c') ∧ A.validate = .ok () ∧
        A.hasEpsilon = false ∧
        (∀ word, ∃ b, A.accepts word = .ok b ∧
          (b = true ↔ (Pattern.run "a.a" (some ".")).Describes word.toList)) ∧
        ((Pattern.run "a.a" (some ".")).Bare → ∀ word, A.accepts word = .ok false)) ∧
      (Pattern.run "" (some "x")).Bare ∧
        ∃ A c', intricate.build "empty" ⟨7⟩ = (.ok A, c') ∧ ∀ word, A.accepts word = .ok false := by
  have hdotted : intricate "dotted" = some (.run "a.a" (some ".")) := rfl
  have hempty : intricate "empty" = some (.run "" (some "x")) := rfl
  have hbare : (Pattern.run "" (some "x")).Bare := rfl
  obtain ⟨A, c', hA, -, -, -, hnone⟩ := build_describes hempty rfl ⟨7⟩
  exact ⟨⟨hdotted, rfl, build_describes hdotted rfl ⟨-4⟩⟩, hbare, A, c', hA, hnone hbare⟩

end Catalogue

end LexAutomata
