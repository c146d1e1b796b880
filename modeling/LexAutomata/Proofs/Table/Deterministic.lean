/-
# Tables of deterministic automata

In a deterministic automaton nothing is consumed for free and no symbol leaves a choice of
targets.  So a set of one state leads to sets of one state (`Functional.successor_singleton`),
and the sets that are obtained from the start state are those of the states that paths lead
to (`Functional.obtained_iff`).  Determinizing therefore changes nothing but names: each
state of the table stands for one reached state and does what this does
(`Functional.isReachedPart`), and a table that is copied into an automaton comes back as its
own reached part (`Copies.isReachedPart`).
-/
import Mathlib.Data.List.Nodup
import Mathlib.Data.Set.Function
import LexAutomata.Proofs.Automaton.Closure
import LexAutomata.Proofs.Table.Copy
import LexAutomata.Proofs.Table.ReachedSets

namespace LexAutomata

namespace StateSet

variable {S : StateSet} {p q : Int}

/-- A set whose members are all the same is the set of that one. -/
theorem eq_singleton (hq : q ∈ S) (h : ∀ r ∈ S, r = q) : S = .singleton q := by
  apply ext
  intro r
  rw [mem_singleton]
  constructor
  · exact h r
  · rintro rfl
    exact hq

/-- A set of at most one member has no two of them. -/
theorem eq_of_size_le_one (hS : S.size ≤ 1) (hp : p ∈ S) (hq : q ∈ S) : p = q := by
  obtain ⟨i, hi, rfl⟩ := List.mem_iff_getElem.1 hp
  obtain ⟨j, hj, rfl⟩ := List.mem_iff_getElem.1 hq
  rw [size] at hS
  obtain rfl : i = j := by omega
  rfl

end StateSet

/-- The state that a state of a table stands for, where it stands for one: the only member of the
set beside it. -/
def Table.origin (T : Table) (k : Int) : Int := ((T.subsets.get? k).getD ∅).least

theorem Table.origin_eq {T : Table} {k q : Int} (h : T.subsets.get? k = some (.singleton q)) :
    T.origin k = q := by
  rw [origin, h]
  rfl

namespace Automaton

variable {A : Automaton} {start p q r : Int} {s : String} {l : Label} {S : StateSet}

/-! ## Deterministic automata -/

/-- An automaton is deterministic when no entry is for epsilon and none has two targets. -/
theorem isDeterministic_iff :
    A.isDeterministic = true ↔ (∀ p, ¬ A.HasEntry p .epsilon) ∧
      ∀ row ∈ A.rows.values, ∀ S ∈ row.values, S.size ≤ 1 := by
  have hepsilon : A.hasEpsilon = true ↔ ∃ p, A.HasEntry p .epsilon := by
    rw [hasEpsilon, List.any_eq_true, ← mem_labels_iff]
    simp
  rw [isDeterministic, Bool.and_eq_true, Bool.not_eq_true', ← Bool.not_eq_true, hepsilon]
  simp

/-- No entry is for epsilon, and every entry has one target. -/
structure Functional (A : Automaton) : Prop where
  /-- No entry is for epsilon. -/
  epsilon : ∀ p, ¬ A.HasEntry p .epsilon
  /-- Every entry has one target. -/
  entries : ∀ p l S, entryOf A.rows p l = some S → ∃ q, S = .singleton q

/-- In a deterministic automaton without empty entries every entry has one target. -/
theorem functional_of_isDeterministic (hA : A.isDeterministic = true)
    (hstored : ∀ row ∈ A.rows.values, ∀ S ∈ row.values, ∃ q, q ∈ S) : A.Functional := by
  obtain ⟨hepsilon, hsize⟩ := isDeterministic_iff.1 hA
  refine ⟨hepsilon, fun p l S hS => ?_⟩
  obtain ⟨row, hrow, hS⟩ := exists_stored_iff.2 ⟨p, l, hS⟩
  obtain ⟨q, hq⟩ := hstored row hrow S hS
  exact ⟨q, StateSet.eq_singleton hq fun r hr =>
    StateSet.eq_of_size_le_one (hsize row hrow S hS) hr hq⟩

/-! ## Sets of one state -/

namespace Functional

variable (hA : A.Functional)
include hA

theorem hasEntry_iff : A.HasEntry p l ↔ ∃ r, r ∈ A.targets p l := by
  rw [HasEntry, targets_eq]
  cases h : entryOf A.rows p l with
  | none => simp
  | some S =>
    obtain ⟨q, rfl⟩ := hA.entries p l S h
    simp

/-- A target is the only one. -/
theorem targets_eq_singleton (hr : r ∈ A.targets p l) : A.targets p l = .singleton r := by
  obtain ⟨S, hS⟩ := Option.isSome_iff_exists.1 (hA.hasEntry_iff.2 ⟨r, hr⟩)
  obtain ⟨q, rfl⟩ := hA.entries p l S hS
  rw [targets_eq, hS, Option.getD_some] at hr ⊢
  rw [StateSet.mem_singleton.1 hr]

/-- Every set is closed. -/
theorem closure_eq (S : StateSet) : A.closure S = S := by
  apply closure_eq_self
  intro p _ q hpq
  exact absurd (hA.hasEntry_iff.2 ⟨q, epsilonEdge_iff.1 hpq⟩) (hA.epsilon p)

/-- **A set of one state leads to a set of one state.** -/
theorem successor_singleton (hr : r ∈ A.targets p (.symbol s)) :
    A.closure (A.move (.singleton p) s) = .singleton r := by
  rw [hA.closure_eq]
  apply StateSet.ext
  intro q
  rw [mem_move, ← hA.targets_eq_singleton hr]
  simp

/-- A path goes from obtained sets to obtained sets. -/
theorem obtained_of_leads {w : List String} (h : A.Leads p w q)
    (hp : A.Obtained start (.singleton p)) : A.Obtained start (.singleton q) := by
  induction h with
  | nil => exact hp
  | epsilon h _ _ => exact absurd (hA.hasEntry_iff.2 ⟨_, h⟩) (hA.epsilon _)
  | symbol h _ ih =>
    have hstep := hp.step (StateSet.mem_singleton.2 rfl) (hA.hasEntry_iff.2 ⟨_, h⟩)
    rw [hA.successor_singleton h] at hstep
    exact ih hstep

/-- **What is obtained are the sets of the states that paths lead to.** -/
theorem obtained_iff : A.Obtained start S ↔ ∃ q, S = .singleton q ∧ ∃ w, A.Leads start w q := by
  constructor
  · intro h
    induction h with
    | start => exact ⟨start, hA.closure_eq _, [], .nil start⟩
    | step _ hq hs ih =>
      obtain ⟨p, rfl, w, hw⟩ := ih
      obtain rfl := StateSet.mem_singleton.1 hq
      obtain ⟨r, hr⟩ := hA.hasEntry_iff.1 hs
      exact ⟨r, hA.successor_singleton hr, w ++ [_], hw.append (.symbol hr (.nil r))⟩
  · rintro ⟨q, rfl, w, hw⟩
    have hstart : A.Obtained start (A.closure (.singleton start)) := .start
    rw [hA.closure_eq] at hstart
    exact hA.obtained_of_leads hw hstart

end Functional

/-! ## The reached part -/

/-- The states of the table stand for the states that paths lead to, each for one, and do what these
do. -/
structure IsReachedPart (A : Automaton) (start : Int) (T : Table) : Prop where
  /-- The start state, the targets and the final states have rows. -/
  intact : T.Intact
  /-- Beside each state is the set of the state that it stands for, and no other set is noted. -/
  get?_subsets : ∀ k S, T.subsets.get? k = some S ↔ k ∈ T.states ∧ S = .singleton (T.origin k)
  /-- Each state that a path leads to has one state of the table. -/
  bijOn : Set.BijOn T.origin {k | k ∈ T.states} {q | ∃ w, A.Leads start w q}
  /-- The start state stands for the start state. -/
  start_eq : T.origin T.start = start
  /-- The steps stand for the transitions. -/
  step : ∀ k ∈ T.states, ∀ s r,
    r ∈ A.targets (T.origin k) (.symbol s) ↔ ∃ m, T.step? k s = some m ∧ T.origin m = r
  /-- The final states stand for final states, and no others do. -/
  final : ∀ k ∈ T.states, T.isFinal k = A.isFinal (T.origin k)

/-- There are no more states than the automaton has. -/
theorem IsReachedPart.size_le {T : Table} (h : A.IsReachedPart start T) (hA : A.Valid)
    (hstart : start ∈ A.states) : T.states.size ≤ A.states.size := by
  refine StateSet.size_le_of_injOn h.bijOn.injOn fun k hk => ?_
  obtain ⟨w, hw⟩ := h.bijOn.mapsTo hk
  exact hA.mem_of_leads hstart hw

namespace Functional

variable {T : Table} (hA : A.Functional) (hT : A.IsSubsetTable start T) {j k m : Int}

include hA hT

/-- Beside each state is the set of one state that is reached. -/
theorem get?_subsets (hk : k ∈ T.states) :
    T.subsets.get? k = some (.singleton (T.origin k)) ∧ ∃ w, A.Leads start w (T.origin k) := by
  obtain ⟨S, hS⟩ := hT.mem_states_iff.1 hk
  obtain ⟨q, rfl, hq⟩ := hA.obtained_iff.1 ((hT.obtained S).1 ⟨k, hS⟩)
  rw [Table.origin_eq hS]
  exact ⟨hS, hq⟩

/-- A step stands for a transition. -/
theorem origin_mem_targets (hk : k ∈ T.states) (hm : T.step? k s = some m) :
    T.origin m ∈ A.targets (T.origin k) (.symbol s) := by
  have hset := (hA.get?_subsets hT hk).1
  have hs : s ∈ (T.row k).keys := OrderedMap.mem_keys_iff.2 ⟨m, hm⟩
  obtain ⟨q, hq, hentry⟩ := (hT.row k _ hset s).1 hs
  obtain rfl := StateSet.mem_singleton.1 hq
  obtain ⟨r, hr⟩ := hA.hasEntry_iff.1 hentry
  have hstep := hT.step k _ hset s m hm
  rw [hA.successor_singleton hr] at hstep
  rwa [Table.origin_eq hstep]

/-- A transition has a step that stands for it. -/
theorem exists_step (hk : k ∈ T.states) (hr : r ∈ A.targets (T.origin k) (.symbol s)) :
    ∃ m, T.step? k s = some m ∧ T.origin m = r := by
  have hset := (hA.get?_subsets hT hk).1
  have hs : s ∈ (T.row k).keys := (hT.row k _ hset s).2
    ⟨_, StateSet.mem_singleton.2 rfl, hA.hasEntry_iff.2 ⟨r, hr⟩⟩
  obtain ⟨m, hm⟩ := OrderedMap.mem_keys_iff.1 hs
  have hstep := hT.step k _ hset s m hm
  rw [hA.successor_singleton hr] at hstep
  exact ⟨m, hm, Table.origin_eq hstep⟩

/-- **The states of the table are the states that are reached.** -/
theorem bijOn_origin : Set.BijOn T.origin {k | k ∈ T.states} {q | ∃ w, A.Leads start w q} := by
  refine ⟨?mapsTo, ?injOn, ?surjOn⟩
  case mapsTo => exact fun k hk => (hA.get?_subsets hT hk).2
  case injOn =>
    intro j hj k hk hjk
    have hset := (hA.get?_subsets hT hj).1
    rw [hjk] at hset
    exact hT.injective j k _ hset (hA.get?_subsets hT hk).1
  case surjOn =>
    intro q hq
    obtain ⟨k, hk⟩ := (hT.obtained _).2 (hA.obtained_iff.2 ⟨q, rfl, hq⟩)
    exact ⟨k, hT.mem_states_iff.2 ⟨_, hk⟩, Table.origin_eq hk⟩

/-- **The table of the sets is the reached part** of an automaton whose entries have one target. -/
theorem isReachedPart : A.IsReachedPart start T := by
  have hzero := hT.get?_zero
  rw [hA.closure_eq] at hzero
  exact {
    intact :=
      { start := by
          rw [hT.start_eq]
          exact hT.mem_states_iff.2 ⟨_, hzero⟩
        targets := hT.targets
        finals := hT.finals }
    get?_subsets := fun k S => by
      constructor
      · intro hS
        have hk := hT.mem_states_iff.2 ⟨S, hS⟩
        rw [(hA.get?_subsets hT hk).1, Option.some.injEq] at hS
        exact ⟨hk, hS.symm⟩
      · rintro ⟨hk, rfl⟩
        exact (hA.get?_subsets hT hk).1
    bijOn := hA.bijOn_origin hT
    start_eq := by rw [hT.start_eq, Table.origin_eq hzero]
    step := fun k hk s r => by
      constructor
      · exact hA.exists_step hT hk
      · rintro ⟨m, hm, rfl⟩
        exact hA.origin_mem_targets hT hk hm
    final := fun k hk => by
      rw [Bool.eq_iff_iff, hT.final k _ (hA.get?_subsets hT hk).1, isFinal, decide_eq_true_eq]
      simp }

end Functional

/-- An automaton whose entries have one target is determinized into its reached part. -/
theorem Functional.isReachedPart_determinize (hA : A.Functional) (hvalid : A.validate = .ok ()) :
    ∃ q T, A.start = some q ∧ A.determinize = .ok T ∧ A.IsReachedPart q T ∧
      T.states.size ≤ A.states.size := by
  have hvalid' := validate_eq_ok_iff.1 hvalid
  obtain ⟨q, hq, hstart⟩ := hvalid'.start
  have hpart := hA.isReachedPart (isSubsetTable_subsetTable hvalid' hq)
  exact ⟨q, _, hstart, determinize_eq hvalid hstart, hpart, hpart.size_le hvalid' hq⟩

end Automaton

namespace Table

variable {D T : Table} {A : Automaton}

/-! ## Tables that come back -/

/-- An entry of a copy is for a symbol, and has the target of the table alone. -/
theorem Copies.exists_of_entry (h : D.Copies A) {p : Int} {l : Label} {S : StateSet}
    (hS : Automaton.entryOf A.rows p l = some S) :
    ∃ s q, l = .symbol s ∧ S = .singleton q := by
  have hmem : ∀ r ∈ S, ∃ s, l = .symbol s ∧ D.step? p s = some r := by
    intro r hr
    rw [← h.mem_targets, Automaton.targets_eq, hS]
    exact hr
  obtain ⟨row, hrow, hSrow⟩ := Automaton.exists_stored_iff.2 ⟨p, l, hS⟩
  obtain ⟨q, hq⟩ := h.wellFormed.stored row hrow S hSrow
  obtain ⟨s, rfl, hstep⟩ := hmem q hq
  refine ⟨s, q, rfl, StateSet.eq_singleton hq fun r hr => ?_⟩
  obtain ⟨t, ht, hstep'⟩ := hmem r hr
  cases ht
  exact Option.some.inj (hstep'.symm.trans hstep)

theorem Copies.functional (h : D.Copies A) : A.Functional where
  epsilon p hp := by
    obtain ⟨S, hS⟩ := Option.isSome_iff_exists.1 hp
    obtain ⟨s, -, hs, -⟩ := h.exists_of_entry hS
    cases hs
  entries p l S hS := by
    obtain ⟨-, q, -, hq⟩ := h.exists_of_entry hS
    exact ⟨q, hq⟩

/-- The states of the other table stand for the states that runs from the start state end in, each
for one, and do what these do. -/
structure IsReachedPart (D T : Table) : Prop where
  /-- The start state, the targets and the final states have rows. -/
  intact : T.Intact
  /-- Each state that a run ends in has one state of the other table. -/
  bijOn : Set.BijOn T.origin {k | k ∈ T.states} {q | ∃ w, D.run? D.start w = some q}
  /-- The start state stands for the start state. -/
  start_eq : T.origin T.start = D.start
  /-- The steps are the same; a state without a row has none. -/
  step?_eq : ∀ k ∈ T.states, ∀ s, (T.step? k s).map T.origin = D.step? (T.origin k) s
  /-- The final states are the same. -/
  isFinal_eq : ∀ k ∈ T.states, T.isFinal k = D.isFinal (T.origin k)

/-- **The reached part of a copy is the reached part of the table.** -/
theorem Copies.isReachedPart (h : D.Copies A) (hT : A.IsReachedPart D.start T) :
    D.IsReachedPart T where
  intact := hT.intact
  bijOn := by
    have hbij := hT.bijOn
    simp only [h.leads_iff] at hbij
    exact hbij
  start_eq := hT.start_eq
  step?_eq k hk s := by
    apply Option.ext
    intro r
    rw [Option.map_eq_some_iff, ← hT.step k hk s r, h.mem_targets]
    simp
  isFinal_eq k hk := by
    rw [hT.final k hk, Automaton.isFinal, Table.isFinal, decide_eq_decide]
    exact h.mem_finals _

end Table

namespace Automaton

/-! ## Determinizing deterministic automata -/

/-- **Determinizing a deterministic automaton changes nothing but names.**  The table of a valid
deterministic automaton without empty entries is its reached part, so it has no more states than the
automaton; and a table that can be copied into an automaton has its own reached part as the table of
the copy. -/
theorem determinize_deterministic :
    (∀ A : Automaton, A.validate = .ok () → A.isDeterministic = true →
      (∀ row ∈ A.rows.values, ∀ S ∈ row.values, ∃ q, q ∈ S) →
        ∃ q T, A.start = some q ∧ A.determinize = .ok T ∧ A.IsReachedPart q T ∧
          T.states.size ≤ A.states.size) ∧
      ∀ (D : Table) (name : String) (A : Automaton), D.toAutomaton name = .ok A →
        ∃ T, A.determinize = .ok T ∧ D.IsReachedPart T := by
  constructor
  · intro A hvalid hdet hstored
    exact (functional_of_isDeterministic hdet hstored).isReachedPart_determinize hvalid
  · intro D name A hA
    have hcopy := Table.copies_of_toAutomaton hA
    obtain ⟨q, T, hq, hT, hpart, -⟩ :=
      hcopy.functional.isReachedPart_determinize hcopy.validate_eq
    rw [hcopy.start_eq, Option.some.injEq] at hq
    exact ⟨T, hT, hcopy.isReachedPart (hq ▸ hpart)⟩

/-- A deterministic automaton with a state out of reach. -/
def detached : Automaton :=
  ofParts "detached" [3, -2, 8] (some 3) [8, -2]
    [(3, [(.symbol "b", [-2]), (.symbol "a", [3])]), (8, [(.symbol "a", [3])])]

/-- A table with a target that has no row, and a row out of reach. -/
def unended : Table := .ofParts [(4, [("x", 7), ("a", 4)]), (1, [("a", 4)])] [7] 4

/-- What the table is copied into. -/
def unendedCopy : Automaton :=
  ofParts "copy" [1, 4, 7] (some 4) [7]
    [(4, [(.symbol "x", [7]), (.symbol "a", [4])]), (1, [(.symbol "a", [4])])]

theorem determinize_deterministic_detached_unended :
    (detached.validate = .ok () ∧ detached.isDeterministic = true ∧
      (∀ row ∈ detached.rows.values, ∀ S ∈ row.values, ∃ q, q ∈ S) ∧
        ∃ q T, detached.start = some q ∧ detached.determinize = .ok T ∧
          detached.IsReachedPart q T ∧ T.states.size ≤ detached.states.size) ∧
      unended.toAutomaton "copy" = .ok unendedCopy ∧
        ∃ T, unendedCopy.determinize = .ok T ∧ unended.IsReachedPart T := by
  have hstored : ∀ row ∈ detached.rows.values, ∀ S ∈ row.values, ∃ q, q ∈ S := by
    have hheads : ∀ row ∈ detached.rows.values, ∀ S ∈ row.values, S.least ∈ S := by decide
    exact fun row hrow S hS => ⟨S.least, hheads row hrow S hS⟩
  exact ⟨⟨rfl, rfl, hstored, determinize_deterministic.1 detached rfl rfl hstored⟩, rfl,
    determinize_deterministic.2 unended "copy" unendedCopy rfl⟩

end Automaton

end LexAutomata
