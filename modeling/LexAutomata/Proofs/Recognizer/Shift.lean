/-
# Recognizers from one counter

Where the counter stands when a recognizer is built does not matter.  A counter further on
gives the same recognizer with the states of its automata shifted as far (`build_shift`): its
tables are the same, for the subset construction does not depend on the names of states.  So
any number of recognizers can be built from one counter, each of them a shifted fresh one, and
no two of them share a state of their unions (`exists_buildEach_eq`).
-/
import LexAutomata.Proofs.Counter
import LexAutomata.Proofs.Pattern.Shift
import LexAutomata.Proofs.Recognizer
import LexAutomata.Proofs.Table.Renaming

namespace LexAutomata

open Catalogue Automaton

theorem values_shift (d : Int) (fs : Fragments) :
    (Fragments.shift d fs).values = fs.values.map (Automaton.shift d) := by
  rw [OrderedMap.values, Fragments.shift, OrderedMap.mapValues, OrderedMap.values, List.map_map,
    List.map_map]
  rfl

namespace Recognizer

/-- The recognizer with a constant added to the states of its automata.  The tables have states of
their own; the sets of states noted beside the first are shifted. -/
def shift (d : Int) (r : Recognizer) : Recognizer where
  fragments := Fragments.shift d r.fragments
  combined := r.combined.shift d
  table := { r.table with subsets := r.table.subsets.mapValues fun _ S => S.image (· + d) }
  minimal := r.minimal

/-- **A recognizer from a shifted counter is the shifted recognizer.** -/
theorem build_shift (criterion : Criterion) (c : Counter) (d : Int) :
    build criterion (c.shift d)
      = (build criterion c).map (Except.map (shift d)) (Counter.shift d) := by
  obtain ⟨fs, c', M, hbuilt, hfs, -, hM, hbuild⟩ := exists_build_eq criterion c
  obtain ⟨fs', c'', M', hbuilt', -, -, hM', hbuild'⟩ := exists_build_eq criterion (c.shift d)
  obtain ⟨rfl, rfl⟩ : Fragments.shift d fs = fs' ∧ c'.shift d = c'' := by
    rw [buildAll_shift, hbuilt] at hbuilt'
    cases hbuilt'
    exact ⟨rfl, rfl⟩
  -- the fragments are shifted, so their union is, and its table is the same but for the sets
  have hunion := hfs.isUnion "Combined"
  have hvalid := hunion.valid fun B => hfs.valid_of_mem
  have hcombined : unionFrom "Combined" (c'.shift d).next (Fragments.shift d fs).values
      = (unionFrom "Combined" c'.next fs.values).shift d := by
    rw [values_shift, Automaton.shift, rename_unionFrom (Pattern.add_injective d)]
    rfl
  have htable := subsetTable_rename hvalid (Pattern.add_injective d).injOn
    (mem_mentioned_of_mem ((hunion.mem_states c'.next).2 (Or.inl rfl)))
    fun q hq => mem_mentioned_of_mem (hvalid.finals q hq)
  rw [hcombined, Counter.next_shift, Automaton.shift, htable] at hM' hbuild'
  rw [Table.minimize_withSubsets, hM] at hM'
  cases hM'
  rw [hbuild', hbuild, Counter.advance_shift]
  rfl

/-- Building a recognizer moves the counter on, past all states of the union. -/
theorem bounds_of_build {criterion : Criterion} {c c' : Counter} {r : Recognizer}
    (h : build criterion c = (.ok r, c')) :
    c.next < c'.next ∧ ∀ q ∈ r.combined.states, c.next ≤ q ∧ q < c'.next := by
  obtain ⟨fs, c₁, M, hbuilt, hfs, -, -, hbuild⟩ := exists_build_eq criterion c
  rw [hbuild] at h
  cases h
  have hle : c.next ≤ c₁.next := by
    have hspans := standard.spans_buildsOf ∅ c Category.all
    rw [← buildAll, hbuilt] at hspans
    exact hspans.le
  refine ⟨Int.lt_of_le_of_lt hle c₁.lt_advance, fun q hq => ?_⟩
  rcases ((hfs.isUnion "Combined").mem_states q).1 hq with rfl | ⟨A, hA, hq⟩
  · exact ⟨hle, c₁.lt_advance⟩
  · have hA := of_mem_states_buildAll (congrArg Prod.fst hbuilt) hA hq
    rw [hbuilt] at hA
    exact ⟨hA.1, Int.lt_trans hA.2 c₁.lt_advance⟩

/-! ## One after the other -/

/-- Builds a recognizer for each criterion, one after the other from the same counter. -/
def buildEach (c : Counter) : List Criterion → List (Except BuildError Recognizer)
  | [] => []
  | criterion :: rest =>
    let r := build criterion c
    r.1 :: buildEach r.2 rest

/-- **Recognizers from one counter** are shifted fresh ones.  Their unions lie one after the other
above where the counter stood. -/
theorem exists_buildEach_eq (c : Counter) (criteria : List Criterion) :
    ∃ rs : List Recognizer, buildEach c criteria = rs.map Except.ok ∧
      (∀ r ∈ rs, ∀ q ∈ r.combined.states, c.next ≤ q) ∧
      rs.Pairwise (fun r r' => r.combined.Apart r'.combined) ∧
      List.Forall₂ (fun criterion r => ∃ fresh d,
        (build criterion {}).1 = .ok fresh ∧ r = fresh.shift d) criteria rs := by
  induction criteria generalizing c with
  | nil => exact ⟨[], rfl, by simp, .nil, .nil⟩
  | cons criterion criteria ih =>
    obtain ⟨fs, c', M, -, -, -, -, hfresh⟩ := exists_build_eq criterion {}
    obtain ⟨fresh, hfresh⟩ : ∃ fresh, build criterion {} = (.ok fresh, c'.advance) := ⟨_, hfresh⟩
    have hbuild : build criterion c = (.ok (fresh.shift c.next), c'.advance.shift c.next) := by
      have hc : ({} : Counter).shift c.next = c := congrArg Counter.mk (Int.zero_add c.next)
      rw [← hc, build_shift, hfresh, hc]
      rfl
    -- the other unions begin where the counter has come to, which is above this one
    obtain ⟨hmoved, hbounds⟩ := bounds_of_build hbuild
    obtain ⟨rs, hrs, hle, hapart, hshifted⟩ := ih (c'.advance.shift c.next)
    refine ⟨fresh.shift c.next :: rs, ?_, ?_, ?_, ?_⟩
    · rw [buildEach, hbuild, List.map_cons, hrs]
    · rw [List.forall_mem_cons]
      exact ⟨fun q hq => (hbounds q hq).1, fun r hr q hq =>
        Int.le_trans (Int.le_of_lt hmoved) (hle r hr q hq)⟩
    · rw [List.pairwise_cons]
      refine ⟨fun r hr q hq hqr => ?_, hapart⟩
      have hlt := (hbounds q hq).2
      have hge := hle r hr q hqr
      exact Int.not_le_of_gt hlt hge
    · exact .cons ⟨fresh, c.next, congrArg Prod.fst hfresh, rfl⟩ hshifted

/-- **Nothing depends on where the counter stands**, or on the names of states at all.  However many
recognizers are built from one counter, wherever it stands and with whatever criteria: all of them
are built, their unions share no state, and each is a fresh one with a constant added to the states
of its fragments, of its union and of the sets noted beside its table, while both tables are the
same.  And renaming the states of a valid automaton, by any map that keeps the states it mentions
apart, changes nothing in its table but these sets. -/
theorem independent_of_states :
    (∀ (c : Counter) (criteria : List Criterion), ∃ rs : List Recognizer,
      buildEach c criteria = rs.map Except.ok ∧
      rs.Pairwise (fun r r' => r.combined.Apart r'.combined) ∧
      List.Forall₂ (fun criterion r => ∃ fresh d,
        (build criterion {}).1 = .ok fresh ∧ r = fresh.shift d) criteria rs) ∧
    ∀ (A : Automaton) (f : Int → Int), A.validate = .ok () → Set.InjOn f A.mentioned →
      ∃ T, A.determinize = .ok T ∧ (A.rename f).determinize
        = .ok { T with subsets := T.subsets.mapValues fun _ S => S.image f } := by
  refine ⟨fun c criteria => ?_, fun A f => determinize_rename⟩
  obtain ⟨rs, hrs, -, hapart, hshifted⟩ := exists_buildEach_eq c criteria
  exact ⟨rs, hrs, hapart, hshifted⟩

/-- Squares tell the states of the cycle apart, though not all integers. -/
theorem independent_of_states_epsilonCycle :
    epsilonCycle.validate = .ok () ∧
      Set.InjOn (fun q : Int => q * q) epsilonCycle.mentioned ∧
      ∃ T, epsilonCycle.determinize = .ok T ∧ (epsilonCycle.rename fun q => q * q).determinize
        = .ok { T with subsets := T.subsets.mapValues fun _ S => S.image fun q => q * q } := by
  have hlisted : ∀ q ∈ epsilonCycle.mentioned, q ∈ ([-1, 0, 5, 9] : List Int) := by
    rintro q (hq | hq)
    · exact hq
    · have hrow : ∀ q ∈ ([5, -1] : List Int), q ∈ ([-1, 0, 5, 9] : List Int) := by decide
      exact hrow q hq
  have hsquares : ∀ p ∈ ([-1, 0, 5, 9] : List Int), ∀ q ∈ ([-1, 0, 5, 9] : List Int),
      p * p = q * q → p = q := by decide
  have hinj : Set.InjOn (fun q : Int => q * q) epsilonCycle.mentioned := fun p hp q hq =>
    hsquares p (hlisted p hp) q (hlisted q hq)
  exact ⟨rfl, hinj, independent_of_states.2 epsilonCycle _ rfl hinj⟩

end Recognizer

end LexAutomata
