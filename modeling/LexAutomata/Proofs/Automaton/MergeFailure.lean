/-
# Failures of merging

Automata can be merged when each is valid and no two share a state (`Joinable`), unless the
counter hands out a state that is in use.  The automata are checked in order, so what is
reported of a list that is not joinable is the fault of the first automaton that cannot
follow those before it (`checkApart_eq_error_iff`).  The counter is not touched before that
check is passed, and is moved by one when it is (`outcome_merge`).
-/
import LexAutomata.Proofs.Automaton.Memory
import LexAutomata.Proofs.Automaton.Merge

namespace LexAutomata

/-- The name of the automaton that is reported, where it is one. -/
def Violation.automaton? : Violation → Option String
  | badLabel _ => none
  | unknownStart _ a => some a
  | unknownFinal _ a => some a
  | noStart a => some a
  | strayStart _ a => some a
  | strayFinals _ a => some a
  | strayTransition _ _ a => some a
  | sharedStates a _ => some a
  | stateInUse _ => none
  | danglingTarget _ _ _ => none
  | startOutsideTable _ => none

@[simp] theorem StateSet.mem_inter {S T : StateSet} {q : Int} :
    q ∈ S.inter T ↔ q ∈ S ∧ q ∈ T := by
  rw [inter, mem_filter, decide_eq_true_eq]

namespace Automaton

variable {A B : Automaton} {parts : List Automaton} {v : Violation}

/-- An automaton that is not valid is reported by its name. -/
theorem automaton?_of_validate (h : A.validate = .error v) : v.automaton? = some A.name := by
  rw [validate] at h
  split at h
  · cases h
    rfl
  · split at h
    · cases h
      rfl
    · split at h
      · cases h
        rfl
      · split at h
        · cases h
          rfl
        · cases h

/-! ## The check of all automata -/

/-- Automata that are valid and have no state in common. -/
structure Joinable (parts : List Automaton) : Prop where
  /-- The automata are valid. -/
  valid : ∀ B ∈ parts, B.validate = .ok ()
  /-- No two of them share a state. -/
  apart : parts.Pairwise Apart

/-- `B` is the first automaton of a list that is not valid or shares states with automata before
it, and `v` tells which is the case. -/
inductive FirstFault (parts : List Automaton) : Automaton → Violation → Prop
  /-- The automaton is not valid. -/
  | invalid {before after : List Automaton} {B : Automaton} {v : Violation}
      (hparts : parts = before ++ B :: after) (hbefore : Joinable before)
      (hB : B.validate = .error v) : FirstFault parts B v
  /-- The automaton is valid, and shares just these states with automata before it. -/
  | shared {before after : List Automaton} {B : Automaton} {S : StateSet}
      (hparts : parts = before ++ B :: after) (hbefore : Joinable before)
      (hB : B.validate = .ok ()) (hne : ∃ q, q ∈ S)
      (hS : ∀ q, q ∈ S ↔ q ∈ B.states ∧ ∃ C ∈ before, q ∈ C.states) :
      FirstFault parts B (.sharedStates B.name S)

/-- The violation names the automaton that is at fault first. -/
theorem FirstFault.automaton?_eq (h : FirstFault parts B v) : v.automaton? = some B.name := by
  cases h with
  | invalid _ _ hB => exact automaton?_of_validate hB
  | shared _ _ _ _ _ => rfl

/-- A list is joinable exactly when the check accepts it. -/
theorem joinable_iff : Joinable parts ↔ ∃ all, checkApart ∅ parts = .ok all := by
  rw [exists_checkApart_eq_ok_iff]
  constructor
  · intro h
    exact ⟨fun B hB => ⟨validate_eq_ok_iff.1 (h.valid B hB),
      fun q hq => absurd hq (StateSet.not_mem_empty q)⟩, h.apart⟩
  · rintro ⟨hparts, hapart⟩
    exact ⟨fun B hB => validate_eq_ok_iff.2 (hparts B hB).1, hapart⟩

/-- The check goes on behind automata that it accepts with all their states seen. -/
theorem checkApart_append {seen all : StateSet} {before : List Automaton}
    (h : checkApart seen before = .ok all) (rest : List Automaton) :
    checkApart seen (before ++ rest) = checkApart all rest := by
  induction before generalizing seen with
  | nil =>
    cases h
    rfl
  | cons B before ih =>
    rw [List.cons_append]
    rw [checkApart] at h ⊢
    cases hB : B.validate with
    | error v => rw [hB] at h; cases h
    | ok =>
      rw [hB] at h
      simp only at h ⊢
      cases hmeets : seen.meets B.states with
      | true => rw [hmeets] at h; cases h
      | false =>
        rw [hmeets] at h
        exact ih h

/-- Where the check fails, it has accepted all automata before. -/
theorem exists_of_checkApart_eq_error {seen : StateSet} (h : checkApart seen parts = .error v) :
    ∃ before B after all, parts = before ++ B :: after ∧ checkApart seen before = .ok all ∧
      (B.validate = .error v ∨
        B.validate = .ok () ∧ all.meets B.states = true ∧
          v = .sharedStates B.name (all.inter B.states)) := by
  induction parts generalizing seen with
  | nil => cases h
  | cons B parts ih =>
    rw [checkApart] at h
    cases hB : B.validate with
    | error w =>
      rw [hB] at h
      cases h
      exact ⟨[], B, parts, seen, rfl, rfl, Or.inl hB⟩
    | ok =>
      rw [hB] at h
      simp only at h
      cases hmeets : seen.meets B.states with
      | true =>
        rw [hmeets] at h
        cases h
        exact ⟨[], B, parts, seen, rfl, rfl, Or.inr ⟨hB, hmeets, rfl⟩⟩
      | false =>
        rw [hmeets] at h
        obtain ⟨before, C, after, all, rfl, hbefore, hC⟩ := ih h
        refine ⟨B :: before, C, after, all, rfl, ?_, hC⟩
        rw [checkApart, hB]
        simp only [hmeets]
        exact hbefore

/-- The states that an automaton shares with those that were checked before. -/
theorem mem_inter_of_checkApart {before : List Automaton} {all : StateSet}
    (h : checkApart ∅ before = .ok all) {q : Int} :
    q ∈ all.inter B.states ↔ q ∈ B.states ∧ ∃ C ∈ before, q ∈ C.states := by
  rw [StateSet.mem_inter, mem_of_checkApart h, or_iff_right (StateSet.not_mem_empty q), and_comm]

/-- **What the check reports is the fault of the first automaton that has one.** -/
theorem checkApart_eq_error_iff :
    checkApart ∅ parts = .error v ↔ ∃ B, FirstFault parts B v := by
  constructor
  · intro h
    obtain ⟨before, B, after, all, hparts, hbefore, hB⟩ := exists_of_checkApart_eq_error h
    have hjoinable := joinable_iff.2 ⟨all, hbefore⟩
    obtain hB | ⟨hB, hmeets, rfl⟩ := hB
    · exact ⟨B, .invalid hparts hjoinable hB⟩
    · obtain ⟨q, hall, hq⟩ := StateSet.meets_eq_true_iff.1 hmeets
      exact ⟨B, .shared hparts hjoinable hB ⟨q, StateSet.mem_inter.2 ⟨hall, hq⟩⟩
        fun r => mem_inter_of_checkApart hbefore⟩
  · rintro ⟨B, h⟩
    cases h with
    | invalid hparts hbefore hB =>
      obtain ⟨all, hall⟩ := joinable_iff.1 hbefore
      rw [hparts, checkApart_append hall, checkApart, hB]
    | @shared before after _ S hparts hbefore hB hne hS =>
      obtain ⟨all, hall⟩ := joinable_iff.1 hbefore
      have hinter : all.inter B.states = S :=
        StateSet.ext fun q => (mem_inter_of_checkApart hall).trans (hS q).symm
      have hmeets : all.meets B.states = true := by
        obtain ⟨q, hq⟩ := hne
        rw [← hinter, StateSet.mem_inter] at hq
        exact StateSet.meets_eq_true_iff.2 ⟨q, hq⟩
      rw [hparts, checkApart_append hall, checkApart, hB]
      simp only [hmeets, if_true, hinter]

/-! ## Outcomes -/

/-- Two automata at different places of a list share a state. -/
def ShareState (parts : List Automaton) : Prop :=
  ∃ (i j : Nat) (B C : Automaton),
    i < j ∧ parts[i]? = some B ∧ parts[j]? = some C ∧ ∃ q ∈ B.states, q ∈ C.states

/-- Automata are apart in pairs when no two of them share a state. -/
theorem pairwise_apart_iff : parts.Pairwise Apart ↔ ¬ ShareState parts := by
  rw [List.pairwise_iff_getElem]
  constructor
  · rintro h ⟨i, j, B, C, hij, hB, hC, q, hqB, hqC⟩
    obtain ⟨hi, rfl⟩ := List.getElem?_eq_some_iff.1 hB
    obtain ⟨hj, rfl⟩ := List.getElem?_eq_some_iff.1 hC
    exact h i j hi hj hij q hqB hqC
  · intro h i j hi hj hij q hqB hqC
    exact h ⟨i, j, _, _, hij, List.getElem?_eq_getElem hi, List.getElem?_eq_getElem hj, q, hqB, hqC⟩

/-- A list is not joinable if it has an automaton that is not valid, or two that share a state. -/
theorem not_joinable_iff :
    ¬ Joinable parts ↔ (∃ B ∈ parts, ¬ B.validate = .ok ()) ∨ ShareState parts := by
  have hsplit : Joinable parts ↔
      (¬ ∃ B ∈ parts, ¬ B.validate = .ok ()) ∧ ¬ ShareState parts := by
    simp only [not_exists, not_and, Decidable.not_not]
    exact ⟨fun h => ⟨h.valid, pairwise_apart_iff.1 h.apart⟩,
      fun h => ⟨h.1, pairwise_apart_iff.2 h.2⟩⟩
  rw [hsplit, ← not_or, Classical.not_not]

/-- How merging ends, with the counter that is left. -/
inductive Outcome (parts : List Automaton) :
    Option Counter → Except Violation Automaton × Option Counter → Prop
  /-- Some automaton is at fault; the first one is reported, and the counter is left as it is. -/
  | fault {counter : Option Counter} {B : Automaton} {v : Violation}
      (hfault : FirstFault parts B v) : Outcome parts counter (.error v, counter)
  /-- The counter has handed out a state of one of the automata. -/
  | inUse {c : Counter} (hparts : Joinable parts) (hused : ∃ B ∈ parts, c.next ∈ B.states) :
      Outcome parts (some c) (.error (.stateInUse c.next), some c.advance)
  /-- The automata are merged under the state that the counter has handed out. -/
  | counted {c : Counter} {A : Automaton} (hparts : Joinable parts)
      (hunion : A.IsUnion c.next parts) : Outcome parts (some c) (.ok A, some c.advance)
  /-- The automata are merged without a counter. -/
  | uncounted {start : Int} {A : Automaton} (hparts : Joinable parts)
      (hunion : A.IsUnion start parts) : Outcome parts none (.ok A, none)

theorem outcome_merge (parts : List Automaton) (counter : Option Counter) (name : String) :
    Outcome parts counter (merge parts counter name) := by
  rw [merge]
  cases hcheck : checkApart ∅ parts with
  | error v =>
    obtain ⟨B, hB⟩ := checkApart_eq_error_iff.1 hcheck
    exact .fault hB
  | ok seen =>
    have hparts := joinable_iff.2 ⟨seen, hcheck⟩
    obtain ⟨hvalid, hapart, hseen⟩ := valid_of_checkApart hcheck
    cases counter with
    | none =>
      refine .uncounted hparts (isUnion_unionFrom name hvalid hapart fun B hB hq => ?_)
      -- the new start state is above all states
      have := StateSet.le_largest (hseen B hB _ hq)
      omega
    | some c =>
      simp only
      split
      · rename_i hc
        have hused := (mem_of_checkApart hcheck).1 hc
        exact .inUse hparts (hused.resolve_left (StateSet.not_mem_empty _))
      · rename_i hc
        exact .counted hparts (isUnion_unionFrom name hvalid hapart
          fun B hB hmem => hc (hseen B hB _ hmem))

/-- Automata with a fault cannot be joined. -/
theorem FirstFault.not_joinable (h : FirstFault parts B v) : ¬ Joinable parts := by
  rw [joinable_iff]
  rintro ⟨all, hall⟩
  rw [checkApart_eq_error_iff.2 ⟨B, h⟩] at hall
  cases hall

/-- A merge ends in a violation exactly when an automaton is at fault or the state of the counter is
in use. -/
theorem Outcome.isError_iff {counter : Option Counter}
    {r : Except Violation Automaton × Option Counter} (h : Outcome parts counter r) :
    (∃ v, r.1 = .error v) ↔
      ¬ Joinable parts ∨ ∃ c, counter = some c ∧ ∃ B ∈ parts, c.next ∈ B.states := by
  cases h with
  | fault hfault => exact ⟨fun _ => Or.inl hfault.not_joinable, fun _ => ⟨_, rfl⟩⟩
  | @inUse c hparts hused => exact ⟨fun _ => Or.inr ⟨c, rfl, hused⟩, fun _ => ⟨_, rfl⟩⟩
  | @counted c A hparts hunion =>
    simp only [reduceCtorEq, exists_false, false_iff]
    rintro (hnot | ⟨c', hc, B, hB, hq⟩)
    · exact hnot hparts
    · cases hc
      exact hunion.fresh B hB hq
  | uncounted hparts hunion =>
    simp only [reduceCtorEq, exists_false, false_iff]
    rintro (hnot | ⟨c', hc, -⟩)
    · exact hnot hparts
    · cases hc

/-- **Merging fails exactly when it must.**  It ends in a violation just if an automaton is not
valid, two share a state, or the state of a counter is in use, so that without a counter only the
first two can occur.  The first automaton that is at fault is reported by its name; the counter is
moved by one if no automaton is at fault, and not at all otherwise.  In memory, where the automata
are objects that could be changed, all automata are found afterwards as they were. -/
theorem merge_fails_cleanly (parts : List Automaton) (counter : Option Counter) (name : String) :
    ((∃ v, (merge parts counter name).1 = .error v) ↔
      (∃ B ∈ parts, ¬ B.validate = .ok ()) ∨ ShareState parts ∨
        ∃ c, counter = some c ∧ ∃ B ∈ parts, c.next ∈ B.states) ∧
    Outcome parts counter (merge parts counter name) ∧
    (∀ B v, FirstFault parts B v → v.automaton? = some B.name) ∧
    ∀ (m : Memory) (refs : List AutomatonRef), (∀ R ∈ refs, m.Holds R) →
      refs.map m.automaton = parts →
      ((m.merge refs counter name).1.map (m.merge refs counter name).2.2.automaton,
        (m.merge refs counter name).2.1) = merge parts counter name ∧
      ∀ R, m.Holds R → (m.merge refs counter name).2.2.automaton R = m.automaton R := by
  have houtcome := outcome_merge parts counter name
  refine ⟨?_, houtcome, fun B v h => h.automaton?_eq, fun m refs hrefs hparts => ?_⟩
  · rw [houtcome.isError_iff, not_joinable_iff, or_assoc]
  · obtain ⟨hmerge, hextends⟩ := Memory.merge_eq hrefs counter name
    exact ⟨hparts ▸ hmerge, fun R hR => hextends.automaton_eq hR⟩

/-- The objects of two automata, which hold one empty set, and one of which holds its final states
once more as targets. -/
def sharedMemory : Memory where
  sets := ⟨10, fun i =>
    [.ofList [-7, -3, -2], .ofList [-7, -2], .ofList [-7, -3], ∅, .ofList [-3],
      .ofList [-1, 0, 5, 9], .ofList [0], .ofList [-1], .ofList [5, 0], .ofList [5]].getD i ∅⟩
  rows := ⟨4, fun i =>
    [.ofList [(.symbol "b", 2), (.symbol "c", 3)], .ofList [(.epsilon, 4)],
      .ofList [(.epsilon, 7), (.symbol "a", 8), (.symbol "c", 3)],
      .ofList [(.epsilon, 9), (.symbol "b", 6)]].getD i ∅⟩
  tables := ⟨2, fun i => [.ofList [(-3, 0), (-7, 1)], .ofList [(5, 2), (-1, 3)]].getD i ∅⟩

/-- The places of the two automata. -/
def sharedRefs : List AutomatonRef :=
  [{ name := "loop", states := 0, start := some (-3), finals := 1, table := 0 },
    { name := "cycle", states := 5, start := some 5, finals := 6, table := 1 }]

theorem merge_fails_cleanly_loop_cycle :
    FirstFault [negativeLoop, epsilonCycle, negativeLoop] negativeLoop
      (.sharedStates "loop" (.ofList [-7, -3, -2])) ∧
    (Violation.sharedStates "loop" (.ofList [-7, -3, -2])).automaton? = some "loop" ∧
    (∀ R ∈ sharedRefs, sharedMemory.Holds R) ∧
    sharedRefs.map sharedMemory.automaton = [negativeLoop, epsilonCycle] ∧
    ((sharedMemory.merge sharedRefs (some ⟨4⟩) "union").1.map
        (sharedMemory.merge sharedRefs (some ⟨4⟩) "union").2.2.automaton,
      (sharedMemory.merge sharedRefs (some ⟨4⟩) "union").2.1)
      = merge [negativeLoop, epsilonCycle] (some ⟨4⟩) "union" ∧
    ∀ R, sharedMemory.Holds R →
      (sharedMemory.merge sharedRefs (some ⟨4⟩) "union").2.2.automaton R
        = sharedMemory.automaton R := by
  have hjoinable : Joinable [negativeLoop, epsilonCycle] := joinable_iff.2 ⟨_, rfl⟩
  have hshared : ∀ q, q ∈ StateSet.ofList [-7, -3, -2] ↔
      q ∈ negativeLoop.states ∧ ∃ C ∈ [negativeLoop, epsilonCycle], q ∈ C.states :=
    fun q => ⟨fun hq => ⟨hq, negativeLoop, List.mem_cons_self, hq⟩, fun hq => hq.1⟩
  have hfault : FirstFault [negativeLoop, epsilonCycle, negativeLoop] negativeLoop
      (.sharedStates "loop" (.ofList [-7, -3, -2])) :=
    .shared rfl hjoinable rfl ⟨-7, by decide⟩ hshared
  have hrefs : ∀ R ∈ sharedRefs, sharedMemory.Holds R := by decide
  have hparts : sharedRefs.map sharedMemory.automaton = [negativeLoop, epsilonCycle] := by decide
  obtain ⟨-, -, hnamed, -⟩ :=
    merge_fails_cleanly [negativeLoop, epsilonCycle, negativeLoop] (some ⟨4⟩) "union"
  obtain ⟨-, -, -, hmemory⟩ := merge_fails_cleanly [negativeLoop, epsilonCycle] (some ⟨4⟩) "union"
  exact ⟨hfault, hnamed _ _ hfault, hrefs, hparts, hmemory sharedMemory sharedRefs hrefs hparts⟩

end Automaton

end LexAutomata
