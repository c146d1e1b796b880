/-
# The union of automata

Merging copies every automaton of a list into one, and leads from a new start state to
the start state of each (`isUnion_unionFrom`).  The automata are valid and have no state
in common, so a path that has entered one of them stays there and is a path of its own
(`IsUnion.leads_iff`).  A path from the new start state to a final state therefore first
enters some automaton and then reads a word of it, and the union accepts what one of the
automata accepts (`accepts_merge`).
-/
import Mathlib.Data.List.Nodup
import Mathlib.Data.List.Pairwise
import LexAutomata.Automaton.Merge
import LexAutomata.Proofs.Automaton.Construction

namespace LexAutomata

theorem StateSet.meets_eq_false_iff {S T : StateSet} :
    S.meets T = false ↔ ∀ q ∈ S, ¬ q ∈ T := by
  rw [← Bool.not_eq_true, meets_eq_true_iff]
  simp only [not_exists, not_and]

/-- No member is above the largest. -/
theorem StateSet.le_largest {S : StateSet} {q : Int} (hq : q ∈ S) :
    q ≤ S.largest?.getD (-1) := by
  have hne : S.toList ≠ [] := List.ne_nil_of_mem hq
  rw [largest?, List.getLast?_eq_getLast_of_ne_nil hne, Option.getD_some]
  have hsplit := List.dropLast_append_getLast hne
  have hasc := S.ascending
  rw [← hsplit, List.pairwise_append] at hasc
  rw [← StateSet.mem_toList, ← hsplit, List.mem_append] at hq
  rcases hq with h | h
  · exact Int.le_of_lt (hasc.2.2 q h _ List.mem_cons_self)
  · exact Int.le_of_eq (List.mem_singleton.1 h)

namespace Automaton

variable {A B : Automaton} {parts : List Automaton}

/-- Automata without a common state. -/
def Apart (A B : Automaton) : Prop := ∀ q ∈ A.states, ¬ q ∈ B.states

theorem Apart.symm (h : A.Apart B) : B.Apart A := fun q hB hA => h q hA hB

instance : Std.Symm Apart := ⟨fun _ _ => Apart.symm⟩

/-- Automata of a list without common states that share one are the same. -/
theorem eq_of_mem_states (hparts : parts.Pairwise Apart) (hA : A ∈ parts) (hB : B ∈ parts)
    {q : Int} (hqA : q ∈ A.states) (hqB : q ∈ B.states) : A = B := by
  by_contra hne
  exact hparts.forall hA hB hne q hqA hqB

/-- The transitions from a new start state to the start states of automata. -/
def joins (start : Int) (parts : List Automaton) : List (Int × Label × Int) :=
  parts.filterMap fun B => B.start.map fun q => (start, .epsilon, q)

/-- The joints lead from the start state to the start states of the parts by epsilon. -/
theorem mem_joins {start p r : Int} {l : Label} :
    (p, l, r) ∈ joins start parts
      ↔ p = start ∧ l = .epsilon ∧ ∃ B ∈ parts, B.start = some r := by
  simp only [joins, List.mem_filterMap, Option.map_eq_some_iff, Prod.mk.injEq]
  constructor
  · rintro ⟨B, hB, q, hq, rfl, rfl, rfl⟩
    exact ⟨rfl, rfl, B, hB, hq⟩
  · rintro ⟨rfl, rfl, B, hB, hr⟩
    exact ⟨B, hB, r, hr, rfl, rfl, rfl⟩

/-- `A` is the disjoint union of automata under a new start state. -/
structure IsUnion (A : Automaton) (start : Int) (parts : List Automaton) : Prop where
  /-- The start state is the new one. -/
  start_eq : A.start = some start
  /-- The new start state belongs to no automaton. -/
  fresh : ∀ B ∈ parts, ¬ start ∈ B.states
  /-- The automata have no state in common. -/
  apart : parts.Pairwise Apart
  /-- The states are the new one and those of the automata. -/
  mem_states : ∀ q, q ∈ A.states ↔ q = start ∨ ∃ B ∈ parts, q ∈ B.states
  /-- The final states are those of the automata. -/
  mem_finals : ∀ q, q ∈ A.finals ↔ ∃ B ∈ parts, q ∈ B.finals
  /-- The transitions are those to the start states and those of the automata, each once. -/
  transitions : A.transitions.Perm (joins start parts ++ parts.flatMap Automaton.transitions)

namespace IsUnion

variable {start : Int}

/-- A union leads where its joints and its parts lead. -/
theorem mem_targets_iff (h : A.IsUnion start parts) {p r : Int} {l : Label} :
    r ∈ A.targets p l ↔ (p = start ∧ l = .epsilon ∧ ∃ B ∈ parts, B.start = some r) ∨
      ∃ B ∈ parts, r ∈ B.targets p l := by
  rw [← mem_transitions_iff, h.transitions.mem_iff, List.mem_append, mem_joins, List.mem_flatMap]
  simp only [mem_transitions_iff]

/-- What a state of an automaton leads to is what it leads to in the automaton. -/
theorem mem_targets_iff_of_mem (h : A.IsUnion start parts) (hvalid : ∀ B ∈ parts, B.Valid)
    (hB : B ∈ parts) {p r : Int} (hp : p ∈ B.states) {l : Label} :
    r ∈ A.targets p l ↔ r ∈ B.targets p l := by
  rw [h.mem_targets_iff]
  constructor
  · rintro (⟨rfl, -⟩ | ⟨C, hC, hr⟩)
    · exact absurd hp (h.fresh B hB)
    · rwa [eq_of_mem_states h.apart hB hC hp ((hvalid C hC).ends _ _ _ hr).1]
  · exact fun hr => Or.inr ⟨B, hB, hr⟩

/-- **Paths that have entered an automaton are paths of it.** -/
theorem leads_iff (h : A.IsUnion start parts) (hvalid : ∀ B ∈ parts, B.Valid) (hB : B ∈ parts)
    {p r : Int} (hp : p ∈ B.states) {w : List String} :
    A.Leads p w r ↔ B.Leads p w r := by
  have hstep : ∀ {p q : Int} {l : Label}, p ∈ B.states →
      (q ∈ A.targets p l ↔ q ∈ B.targets p l) := fun hp => h.mem_targets_iff_of_mem hvalid hB hp
  constructor
  · intro hw
    induction hw with
    | nil => exact .nil _
    | epsilon hq _ ih =>
      have hq := (hstep hp).1 hq
      exact .epsilon hq (ih ((hvalid B hB).ends _ _ _ hq).2)
    | symbol hq _ ih =>
      have hq := (hstep hp).1 hq
      exact .symbol hq (ih ((hvalid B hB).ends _ _ _ hq).2)
  · intro hw
    induction hw with
    | nil => exact .nil _
    | epsilon hq _ ih =>
      exact .epsilon ((hstep hp).2 hq) (ih ((hvalid B hB).ends _ _ _ hq).2)
    | symbol hq _ ih =>
      exact .symbol ((hstep hp).2 hq) (ih ((hvalid B hB).ends _ _ _ hq).2)

/-- From a state of a part, the union reads what the part reads. -/
theorem reads_iff_of_mem (h : A.IsUnion start parts) (hvalid : ∀ B ∈ parts, B.Valid)
    (hB : B ∈ parts) {p : Int} (hp : p ∈ B.states) {w : List String} :
    A.Reads p w ↔ B.Reads p w := by
  constructor
  · rintro ⟨r, hfin, hw⟩
    have hw := (h.leads_iff hvalid hB hp).1 hw
    -- the automaton that the final state is one of is the one that the path stays in
    obtain ⟨C, hC, hr⟩ := (h.mem_finals r).1 hfin
    have hBC := eq_of_mem_states h.apart hB hC ((hvalid B hB).mem_of_leads hp hw)
      ((hvalid C hC).finals r hr)
    exact ⟨r, hBC ▸ hr, hw⟩
  · rintro ⟨r, hfin, hw⟩
    exact ⟨r, (h.mem_finals r).2 ⟨B, hB, hfin⟩, (h.leads_iff hvalid hB hp).2 hw⟩

/-- From the new start state the symbols are read that some automaton reads. -/
theorem reads_start_iff (h : A.IsUnion start parts) (hvalid : ∀ B ∈ parts, B.Valid)
    {w : List String} :
    A.Reads start w ↔ ∃ B ∈ parts, ∃ q, B.start = some q ∧ B.Reads q w := by
  have hno : ∀ {B}, B ∈ parts → ∀ {r l}, ¬ r ∈ B.targets start l := fun hB r l hr =>
    h.fresh _ hB ((hvalid _ hB).ends _ _ _ hr).1
  constructor
  · rintro ⟨r, hfin, hw⟩
    cases hw with
    | nil =>
      -- the new start state is not final
      obtain ⟨B, hB, hr⟩ := (h.mem_finals _).1 hfin
      exact absurd ((hvalid B hB).finals _ hr) (h.fresh B hB)
    | epsilon hq hw =>
      obtain ⟨-, -, B, hB, hstart⟩ | ⟨B, hB, hq⟩ := h.mem_targets_iff.1 hq
      · exact ⟨B, hB, _, hstart,
          (h.reads_iff_of_mem hvalid hB ((hvalid B hB).mem_start hstart)).1 ⟨r, hfin, hw⟩⟩
      · exact absurd hq (hno hB)
    | symbol hq hw =>
      obtain ⟨-, hl, -⟩ | ⟨B, hB, hq⟩ := h.mem_targets_iff.1 hq
      · cases hl
      · exact absurd hq (hno hB)
  · rintro ⟨B, hB, q, hq, hw⟩
    obtain ⟨r, hfin, hw⟩ :=
      (h.reads_iff_of_mem hvalid hB ((hvalid B hB).mem_start hq)).2 hw
    exact ⟨r, hfin, .epsilon (h.mem_targets_iff.2 (Or.inl ⟨rfl, rfl, B, hB, hq⟩)) hw⟩

/-- **The union accepts what one of the automata accepts.** -/
theorem accepts_iff (h : A.IsUnion start parts) (hvalid : ∀ B ∈ parts, B.Valid) (word : String) :
    A.accepts word = .ok true ↔ ∃ B ∈ parts, B.accepts word = .ok true := by
  simp only [accepts_eq_ok_true_iff, h.start_eq, Option.some.injEq, exists_eq_left']
  exact h.reads_start_iff hvalid

/-- A union of valid parts is valid. -/
theorem valid (h : A.IsUnion start parts) (hvalid : ∀ B ∈ parts, B.Valid) : A.Valid where
  start := ⟨start, (h.mem_states start).2 (Or.inl rfl), h.start_eq⟩
  finals q hq := by
    obtain ⟨B, hB, hq⟩ := (h.mem_finals q).1 hq
    exact (h.mem_states q).2 (Or.inr ⟨B, hB, (hvalid B hB).finals q hq⟩)
  ends p l q hq := by
    rw [h.mem_states, h.mem_states]
    obtain ⟨rfl, -, B, hB, hstart⟩ | ⟨B, hB, hq⟩ := h.mem_targets_iff.1 hq
    · exact ⟨Or.inl rfl, Or.inr ⟨B, hB, (hvalid B hB).mem_start hstart⟩⟩
    · obtain ⟨h1, h2⟩ := (hvalid B hB).ends p l q hq
      exact ⟨Or.inr ⟨B, hB, h1⟩, Or.inr ⟨B, hB, h2⟩⟩

end IsUnion

/-! ## Copying -/

/-- All entries with their states and labels. -/
def entries (A : Automaton) : List (Int × Label × StateSet) :=
  A.rows.entries.flatMap fun row => row.2.entries.map fun e => (row.1, e.1, e.2)

theorem mem_entries_iff {p : Int} {l : Label} {T : StateSet} :
    (p, l, T) ∈ A.entries ↔ entryOf A.rows p l = some T := by
  rw [entries, List.mem_flatMap]
  constructor
  · rintro ⟨⟨p', row⟩, hrow, h⟩
    obtain ⟨⟨l', T'⟩, he, h⟩ := List.mem_map.1 h
    cases h
    rw [entryOf, OrderedMap.mem_entries_iff.1 hrow]
    exact OrderedMap.mem_entries_iff.1 he
  · intro h
    rw [entryOf] at h
    cases hrow : A.rows.get? p with
    | none => rw [hrow] at h; cases h
    | some row =>
      rw [hrow] at h
      exact ⟨(p, row), OrderedMap.mem_entries_iff.2 hrow,
        List.mem_map.2 ⟨(l, T), OrderedMap.mem_entries_iff.2 h, rfl⟩⟩

/-- Adds the targets of a list of entries one after the other. -/
def enterAll (rows : OrderedMap Int (OrderedMap Label StateSet))
    (es : List (Int × Label × StateSet)) : OrderedMap Int (OrderedMap Label StateSet) :=
  es.foldl (fun rows e => addTargets rows e.1 e.2.1 e.2.2) rows

/-- What holds of an entry with more targets if it held before or holds of the targets, holds
after entering a list if it held before or holds of targets from the list. -/
theorem entryOf_enterAll {P : Option StateSet → Prop} {Q : StateSet → Prop}
    (hP : ∀ old T, P (some (old.getD ∅ ∪ T)) ↔ P old ∨ Q T)
    (es : List (Int × Label × StateSet)) (rows : OrderedMap Int (OrderedMap Label StateSet))
    (p : Int) (l : Label) :
    P (entryOf (enterAll rows es) p l)
      ↔ P (entryOf rows p l) ∨ ∃ T, (p, l, T) ∈ es ∧ Q T := by
  induction es generalizing rows with
  | nil => simp [enterAll]
  | cons e es ih =>
    obtain ⟨p', l', T⟩ := e
    rw [enterAll, List.foldl_cons, ← enterAll, ih, entryOf_addTargets]
    simp only [List.mem_cons, Prod.mk.injEq]
    split
    · rename_i h
      obtain ⟨rfl, rfl⟩ := h
      rw [hP]
      constructor
      · rintro ((h | h) | ⟨U, hU, h⟩)
        · exact Or.inl h
        · exact Or.inr ⟨T, Or.inl ⟨rfl, rfl, rfl⟩, h⟩
        · exact Or.inr ⟨U, Or.inr hU, h⟩
      · rintro (h | ⟨U, ⟨-, -, rfl⟩ | hU, h⟩)
        · exact Or.inl (Or.inl h)
        · exact Or.inl (Or.inr h)
        · exact Or.inr ⟨U, hU, h⟩
    · rename_i h
      simp only [← and_assoc, h, false_and, false_or]

/-- The automaton with the states, the final states and the entries of another. -/
def copyInto (A B : Automaton) : Automaton :=
  { A with
    states := A.states ∪ B.states
    finals := A.finals ∪ B.finals
    rows := enterAll A.rows B.entries }

theorem absorb_eq (start : Int) (A B : Automaton) :
    absorb start A B = match B.start with
      | none => copyInto A B
      | some q => (copyInto A B).connect start q .epsilon := by
  have hrows : enterAll A.rows B.entries = B.rows.entries.foldl
      (fun rows row => row.2.entries.foldl (fun rows e => addTargets rows row.1 e.1 e.2) rows)
      A.rows := by
    rw [enterAll, entries, List.foldl_flatMap]
    simp only [List.foldl_map]
  cases hstart : B.start <;> simp only [absorb, copyInto, hrows, hstart]

/-- A copy leads where either of the two automata leads. -/
theorem mem_targets_copyInto {p r : Int} {l : Label} :
    r ∈ (copyInto A B).targets p l ↔ r ∈ A.targets p l ∨ r ∈ B.targets p l := by
  have h := entryOf_enterAll (P := fun o => r ∈ o.getD ∅) (Q := fun T => r ∈ T)
    (fun old T => by rw [Option.getD_some, StateSet.mem_union]) B.entries A.rows p l
  rw [targets_eq, targets_eq, targets_eq, copyInto, h]
  simp only [mem_entries_iff]
  cases entryOf B.rows p l with
  | none => simp
  | some T => simp

/-- A copy has the entries of both automata. -/
theorem hasEntry_copyInto {p : Int} {l : Label} :
    (copyInto A B).HasEntry p l ↔ A.HasEntry p l ∨ B.HasEntry p l := by
  have h := entryOf_enterAll (P := fun o => o.isSome = true) (Q := fun _ => True)
    (fun old T => by simp) B.entries A.rows p l
  rw [HasEntry, HasEntry, HasEntry, copyInto, h]
  simp only [mem_entries_iff, and_true, Option.isSome_iff_exists]

/-! ## Absorbing one automaton after the other -/

variable {start : Int}

theorem start_absorb : (absorb start A B).start = A.start := by
  rw [absorb_eq]
  cases B.start <;> rfl

/-- Absorbing adds the states of a part and the ends of its joint. -/
theorem mem_states_absorb {q : Int} :
    q ∈ (absorb start A B).states
      ↔ q ∈ A.states ∨ q ∈ B.states ∨ ∃ r, B.start = some r ∧ (q = start ∨ q = r) := by
  have hcopy : q ∈ (copyInto A B).states ↔ q ∈ A.states ∨ q ∈ B.states := StateSet.mem_union
  rw [absorb_eq]
  cases B.start with
  | none => simp [hcopy]
  | some r =>
    rw [mem_states_connect, hcopy]
    simp only [Option.some.injEq, exists_eq_left']
    constructor
    · rintro (h | h | h | h) <;> simp [h]
    · rintro (h | h | h | h) <;> simp [h]

/-- Absorbing adds the final states of a part. -/
theorem mem_finals_absorb {q : Int} :
    q ∈ (absorb start A B).finals ↔ q ∈ A.finals ∨ q ∈ B.finals := by
  have hcopy : q ∈ (copyInto A B).finals ↔ q ∈ A.finals ∨ q ∈ B.finals := StateSet.mem_union
  rw [absorb_eq]
  cases B.start with
  | none => exact hcopy
  | some r => rw [finals_connect, hcopy]

/-- Absorbing adds the transitions of a part and its joint. -/
theorem mem_targets_absorb {p r : Int} {l : Label} :
    r ∈ (absorb start A B).targets p l ↔
      r ∈ A.targets p l ∨ r ∈ B.targets p l ∨
        (p = start ∧ l = .epsilon ∧ B.start = some r) := by
  rw [absorb_eq]
  cases B.start with
  | none => simp [mem_targets_copyInto]
  | some q =>
    rw [mem_targets_connect, mem_targets_copyInto, or_assoc, Option.some.injEq,
      eq_comm (a := q)]

/-- Absorbing adds no entries but those of a part and one for epsilon. -/
theorem hasEntry_absorb {p : Int} {l : Label} (h : (absorb start A B).HasEntry p l) :
    A.HasEntry p l ∨ B.HasEntry p l ∨ l = .epsilon := by
  rw [absorb_eq] at h
  cases hstart : B.start with
  | none =>
    rw [hstart] at h
    exact (hasEntry_copyInto.1 h).elim Or.inl fun h => Or.inr (Or.inl h)
  | some q =>
    rw [hstart] at h
    rcases hasEntry_connect.1 h with h | ⟨-, h⟩
    · exact (hasEntry_copyInto.1 h).elim Or.inl fun h => Or.inr (Or.inl h)
    · exact Or.inr (Or.inr h)

theorem start_foldl_absorb (A : Automaton) :
    (parts.foldl (absorb start) A).start = A.start := by
  induction parts generalizing A with
  | nil => rfl
  | cons B parts ih => rw [List.foldl_cons, ih, start_absorb]

/-- When all parts are absorbed, their states are there. -/
theorem mem_states_foldl_absorb (hstart : start ∈ A.states) (hvalid : ∀ B ∈ parts, B.Valid)
    {q : Int} :
    q ∈ (parts.foldl (absorb start) A).states ↔ q ∈ A.states ∨ ∃ B ∈ parts, q ∈ B.states := by
  induction parts generalizing A with
  | nil => simp
  | cons B parts ih =>
    have hmem : ∀ q, q ∈ (absorb start A B).states ↔ q ∈ A.states ∨ q ∈ B.states := by
      intro q
      rw [mem_states_absorb]
      constructor
      · rintro (h | h | ⟨r, hr, rfl | rfl⟩)
        · exact Or.inl h
        · exact Or.inr h
        · exact Or.inl hstart
        · exact Or.inr ((hvalid B List.mem_cons_self).mem_start hr)
      · rintro (h | h)
        · exact Or.inl h
        · exact Or.inr (Or.inl h)
    rw [List.foldl_cons, ih ((hmem start).2 (Or.inl hstart))
      fun C hC => hvalid C (List.mem_cons_of_mem _ hC), hmem, List.exists_mem_cons_iff, or_assoc]

/-- When all parts are absorbed, their final states are there. -/
theorem mem_finals_foldl_absorb {q : Int} :
    q ∈ (parts.foldl (absorb start) A).finals ↔ q ∈ A.finals ∨ ∃ B ∈ parts, q ∈ B.finals := by
  induction parts generalizing A with
  | nil => simp
  | cons B parts ih =>
    rw [List.foldl_cons, ih, mem_finals_absorb, List.exists_mem_cons_iff, or_assoc]

/-- When all parts are absorbed, their transitions and joints are there. -/
theorem mem_targets_foldl_absorb {p r : Int} {l : Label} :
    r ∈ (parts.foldl (absorb start) A).targets p l ↔
      r ∈ A.targets p l ∨ ∃ B ∈ parts, r ∈ B.targets p l ∨
        (p = start ∧ l = .epsilon ∧ B.start = some r) := by
  induction parts generalizing A with
  | nil => simp
  | cons B parts ih =>
    rw [List.foldl_cons, ih, mem_targets_absorb, List.exists_mem_cons_iff, or_assoc]

/-- The entries of absorbed parts are theirs, and those for epsilon. -/
theorem hasEntry_foldl_absorb {p : Int} {l : Label}
    (h : (parts.foldl (absorb start) A).HasEntry p l) :
    A.HasEntry p l ∨ (∃ B ∈ parts, B.HasEntry p l) ∨ l = .epsilon := by
  induction parts generalizing A with
  | nil => exact Or.inl h
  | cons B parts ih =>
    rw [List.exists_mem_cons_iff]
    rcases ih h with h | h | h
    · rcases hasEntry_absorb h with h | h | h
      · exact Or.inl h
      · exact Or.inr (Or.inl (Or.inl h))
      · exact Or.inr (Or.inr h)
    · exact Or.inr (Or.inl (Or.inr h))
    · exact Or.inr (Or.inr h)

/-! ## The union -/

theorem nodup_transitions (A : Automaton) : A.transitions.Nodup := by
  rw [transitions, List.nodup_flatMap]
  constructor
  · rintro ⟨p, row⟩ -
    rw [rowTransitions, List.nodup_flatMap]
    constructor
    · rintro ⟨l, T⟩ -
      exact T.nodup_toList.map fun q r h => (Prod.mk.inj (Prod.mk.inj h).2).2
    · refine (List.pairwise_map.1 row.nodup).imp fun h => ?_
      rintro ⟨p', l, q⟩ h1 h2
      simp only [List.mem_map, Prod.mk.injEq] at h1 h2
      obtain ⟨-, -, -, h1, -⟩ := h1
      obtain ⟨-, -, -, h2, -⟩ := h2
      exact h (h1.trans h2.symm)
  · refine (List.pairwise_map.1 A.rows.nodup).imp fun h => ?_
    rintro ⟨p, l, q⟩ h1 h2
    simp only [rowTransitions, List.mem_flatMap, List.mem_map, Prod.mk.injEq] at h1 h2
    obtain ⟨-, -, -, -, h1, -⟩ := h1
    obtain ⟨-, -, -, -, h2, -⟩ := h2
    exact h (h1.trans h2.symm)

/-- The transitions of automata without common states, and those to their start states, are all
different. -/
theorem nodup_joins_append (hvalid : ∀ B ∈ parts, B.Valid) (hapart : parts.Pairwise Apart)
    (hfresh : ∀ B ∈ parts, ¬ start ∈ B.states) :
    (joins start parts ++ parts.flatMap transitions).Nodup := by
  rw [List.nodup_append']
  refine ⟨?_, ?_, ?_⟩
  · -- the start states are states, so they differ
    rw [joins]
    apply List.pairwise_filterMap.2
    refine hapart.imp_of_mem fun {B C} hB hC hBC => ?_
    simp only [Option.map_eq_some_iff]
    rintro _ ⟨q, hq, rfl⟩ _ ⟨r, hr, rfl⟩ heq
    obtain rfl : q = r := (Prod.mk.inj (Prod.mk.inj heq).2).2
    exact hBC q ((hvalid B hB).mem_start hq) ((hvalid C hC).mem_start hr)
  · rw [List.nodup_flatMap]
    refine ⟨fun B _ => nodup_transitions B, hapart.imp_of_mem fun {B C} hB hC hBC => ?_⟩
    rintro ⟨p, l, r⟩ h1 h2
    rw [mem_transitions_iff] at h1 h2
    exact hBC p ((hvalid B hB).ends p l r h1).1 ((hvalid C hC).ends p l r h2).1
  · rintro ⟨p, l, r⟩ h1 h2
    obtain ⟨rfl, -, -⟩ := mem_joins.1 h1
    obtain ⟨B, hB, h2⟩ := List.mem_flatMap.1 h2
    exact hfresh B hB ((hvalid B hB).ends p l r (mem_transitions_iff.1 h2)).1

/-- **Absorbing automata makes their union.** -/
theorem isUnion_unionFrom (name : String) (hvalid : ∀ B ∈ parts, B.Valid)
    (hapart : parts.Pairwise Apart) (hfresh : ∀ B ∈ parts, ¬ start ∈ B.states) :
    (unionFrom name start parts).IsUnion start parts where
  start_eq := start_foldl_absorb _
  fresh := hfresh
  apart := hapart
  mem_states q := by
    rw [unionFrom, mem_states_foldl_absorb (StateSet.mem_singleton.2 rfl) hvalid,
      StateSet.mem_singleton]
  mem_finals q := by
    rw [unionFrom, mem_finals_foldl_absorb]
    simp only [StateSet.not_mem_empty, false_or]
  transitions := by
    apply (List.perm_ext_iff_of_nodup (nodup_transitions _)
      (nodup_joins_append hvalid hapart hfresh)).2
    rintro ⟨p, l, r⟩
    rw [mem_transitions_iff, unionFrom, mem_targets_foldl_absorb, List.mem_append, mem_joins,
      List.mem_flatMap]
    simp only [mem_transitions_iff]
    constructor
    · rintro (h | ⟨B, hB, h | ⟨rfl, rfl, h⟩⟩)
      · exact absurd h (StateSet.not_mem_empty r)
      · exact Or.inr ⟨B, hB, h⟩
      · exact Or.inl ⟨rfl, rfl, B, hB, h⟩
    · rintro (⟨rfl, rfl, B, hB, h⟩ | ⟨B, hB, h⟩)
      · exact Or.inr ⟨B, hB, Or.inr ⟨rfl, rfl, h⟩⟩
      · exact Or.inr ⟨B, hB, Or.inl h⟩

/-! ## Merging -/

/-- The check collects the states of all automata. -/
theorem mem_of_checkApart {seen all : StateSet} (h : checkApart seen parts = .ok all) {q : Int} :
    q ∈ all ↔ q ∈ seen ∨ ∃ B ∈ parts, q ∈ B.states := by
  induction parts generalizing seen with
  | nil =>
    cases h
    simp
  | cons B parts ih =>
    rw [checkApart] at h
    split at h
    · cases h
    · split at h
      · cases h
      · rw [ih h, StateSet.mem_union, List.exists_mem_cons_iff, or_assoc]

/-- The check accepts valid automata that share no state with each other or with those seen. -/
theorem exists_checkApart_eq_ok_iff {seen : StateSet} :
    (∃ all, checkApart seen parts = .ok all) ↔
      (∀ B ∈ parts, B.Valid ∧ ∀ q ∈ seen, ¬ q ∈ B.states) ∧ parts.Pairwise Apart := by
  induction parts generalizing seen with
  | nil => simp [checkApart]
  | cons B parts ih =>
    rw [checkApart, List.forall_mem_cons, List.pairwise_cons]
    cases hB : B.validate with
    | error v =>
      simp only [reduceCtorEq, exists_false, false_iff]
      rintro ⟨⟨⟨hvalid, -⟩, -⟩, -⟩
      rw [validate_eq_ok_iff.2 hvalid] at hB
      cases hB
    | ok =>
      have hvalid := validate_eq_ok_iff.1 hB
      simp only
      cases hmeets : seen.meets B.states with
      | true =>
        simp only [if_true, reduceCtorEq, exists_false, false_iff]
        rintro ⟨⟨⟨-, hseen⟩, -⟩, -⟩
        rw [StateSet.meets_eq_false_iff.2 hseen] at hmeets
        cases hmeets
      | false =>
        -- the states of `B` are seen from here on
        rw [StateSet.meets_eq_false_iff] at hmeets
        simp only [Bool.false_eq_true, if_false]
        rw [ih]
        simp only [StateSet.mem_union]
        constructor
        · rintro ⟨hparts, hpair⟩
          exact ⟨⟨⟨hvalid, hmeets⟩, fun C hC => ⟨(hparts C hC).1, fun q hq =>
            (hparts C hC).2 q (Or.inl hq)⟩⟩, fun C hC q hq => (hparts C hC).2 q (Or.inr hq), hpair⟩
        · rintro ⟨⟨-, hparts⟩, hB, hpair⟩
          exact ⟨fun C hC => ⟨(hparts C hC).1, fun q hq => hq.elim ((hparts C hC).2 q)
            (hB C hC q)⟩, hpair⟩

/-- **Valid automata below a counter that share no state can be merged** with the next state of the
counter. -/
theorem merge_eq_of_lt {c : Counter} (hvalid : ∀ B ∈ parts, B.Valid)
    (hapart : parts.Pairwise Apart) (hlt : ∀ B ∈ parts, ∀ q ∈ B.states, q < c.next)
    (name : String) :
    merge parts (some c) name = (.ok (unionFrom name c.next parts), some c.advance) := by
  obtain ⟨seen, hseen⟩ : ∃ seen, checkApart ∅ parts = .ok seen :=
    exists_checkApart_eq_ok_iff.2
      ⟨fun B hB => ⟨hvalid B hB, fun q hq => absurd hq (StateSet.not_mem_empty q)⟩, hapart⟩
  have hfresh : ¬ c.next ∈ seen := by
    intro hmem
    rcases (mem_of_checkApart hseen).1 hmem with hmem | ⟨B, hB, hmem⟩
    · exact StateSet.not_mem_empty _ hmem
    · exact Int.lt_irrefl _ (hlt B hB _ hmem)
  rw [merge, hseen]
  simp only [if_neg hfresh]

/-- What the check says about the automata that it accepts. -/
theorem valid_of_checkApart {seen : StateSet} (h : checkApart ∅ parts = .ok seen) :
    (∀ B ∈ parts, B.Valid) ∧ parts.Pairwise Apart ∧ ∀ B ∈ parts, ∀ q ∈ B.states, q ∈ seen := by
  obtain ⟨hparts, hapart⟩ := exists_checkApart_eq_ok_iff.1 ⟨seen, h⟩
  exact ⟨fun B hB => (hparts B hB).1, hapart, fun B hB q hq =>
    (mem_of_checkApart h).2 (Or.inr ⟨B, hB, hq⟩)⟩

/-- A merge with a counter fails without moving it or moves it by one, and then it may give the
union of valid automata under the state that was next. -/
theorem merge_some_cases (parts : List Automaton) (c : Counter) (name : String) :
    (∃ v, merge parts (some c) name = (.error v, some c)) ∨
    (∃ v, merge parts (some c) name = (.error v, some c.advance)) ∨
    (∃ A, merge parts (some c) name = (.ok A, some c.advance) ∧ (∀ B ∈ parts, B.Valid) ∧
      A.IsUnion c.next parts) := by
  rw [merge]
  cases hcheck : checkApart ∅ parts with
  | error v => exact Or.inl ⟨v, rfl⟩
  | ok seen =>
    obtain ⟨hvalid, hapart, hseen⟩ := valid_of_checkApart hcheck
    simp only
    split
    · exact Or.inr (Or.inl ⟨_, rfl⟩)
    · rename_i hc
      exact Or.inr (Or.inr ⟨_, rfl, hvalid, isUnion_unionFrom name hvalid hapart
        fun B hB hmem => hc (hseen B hB _ hmem)⟩)

/-- A merge that succeeds gives the union of valid automata without common states. -/
theorem isUnion_of_merge {counter : Option Counter} {name : String}
    (h : (merge parts counter name).1 = .ok A) :
    (∀ B ∈ parts, B.Valid) ∧ ∃ start, A.IsUnion start parts := by
  cases counter with
  | none =>
    rw [merge] at h
    cases hcheck : checkApart ∅ parts with
    | error v => rw [hcheck] at h; cases h
    | ok seen =>
      obtain ⟨hvalid, hapart, hseen⟩ := valid_of_checkApart hcheck
      rw [hcheck] at h
      cases h
      refine ⟨hvalid, _, isUnion_unionFrom name hvalid hapart fun B hB hq => ?_⟩
      have := StateSet.le_largest (hseen B hB _ hq)
      omega
  | some c =>
    obtain ⟨v, hr⟩ | ⟨v, hr⟩ | ⟨B, hr, hvalid, hB⟩ := merge_some_cases parts c name
    · rw [hr] at h
      cases h
    · rw [hr] at h
      cases h
    · rw [hr] at h
      cases h
      exact ⟨hvalid, c.next, hB⟩

/-- **Merging is the union of languages.**  What a merge makes of any list of automata is valid,
accepts exactly the words that one of them accepts, and is their disjoint union under a new start
state. -/
theorem accepts_merge {counter : Option Counter} {name : String}
    (h : (merge parts counter name).1 = .ok A) :
    A.validate = .ok () ∧
      (∀ word, ∃ b, A.accepts word = .ok b ∧
        (b = true ↔ ∃ B ∈ parts, B.accepts word = .ok true)) ∧
      ∃ start, A.IsUnion start parts := by
  obtain ⟨hvalid, start, hA⟩ := isUnion_of_merge h
  refine ⟨validate_eq_ok_iff.2 (hA.valid hvalid), fun word => ?_, start, hA⟩
  obtain ⟨b, hb⟩ := exists_accepts_eq_ok hA.start_eq word
  refine ⟨b, hb, ?_⟩
  rw [← hA.accepts_iff hvalid word, hb, Except.ok.injEq]

/-- A loop on two states with negative numbers, a final state out of reach, and an entry without
a target. -/
def negativeLoop : Automaton :=
  ofParts "loop" [-7, -3, -2] (some (-3)) [-7, -2]
    [(-3, [(.symbol "b", [-7, -3]), (.symbol "c", [])]), (-7, [(.epsilon, [-3])])]

theorem accepts_merge_negativeLoop_epsilonCycle :
    ∃ A, (merge [negativeLoop, epsilonCycle] none "union").1 = .ok A ∧ A.validate = .ok () ∧
      (∀ word, ∃ b, A.accepts word = .ok b ∧
        (b = true ↔ ∃ B ∈ [negativeLoop, epsilonCycle], B.accepts word = .ok true)) ∧
      ∃ start, A.IsUnion start [negativeLoop, epsilonCycle] :=
  have h : (merge [negativeLoop, epsilonCycle] none "union").1 = .ok _ := rfl
  ⟨_, h, accepts_merge h⟩

end Automaton

end LexAutomata
