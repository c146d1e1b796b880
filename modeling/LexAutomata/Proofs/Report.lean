/-
# What a report lists

A report on an automaton has a line for every entry of the rows of its states, the states
in ascending order and the entries of a row in the order of their labels.  In an automaton
that calls have built no entry is empty and every row belongs to a state, so the entries are
exactly the states and labels with a transition, each with all its targets
(`isListing_listing`).  Such a listing accounts for every transition once
(`IsListing.perm_transitions`), and it is the only one: automata with the same transitions
have the same listing, in whatever order these were added (`IsListing.eq_of_mem_iff`).
-/
import Mathlib.Data.List.Sort
import LexAutomata.Proofs.Automaton.History
import LexAutomata.Proofs.Automaton.Merge
import LexAutomata.Report

namespace LexAutomata

/-! ## Order by states -/

section ByState

variable {α : Type} {first : α → Int} {R : α → α → Prop}

/-- Stands before: by the state first, and for the same state by another order. -/
def ByState (first : α → Int) (R : α → α → Prop) (a b : α) : Prop :=
  first a < first b ∨ first a = first b ∧ R a b

instance [Std.Asymm R] : Std.Asymm (ByState first R) where
  asymm a b := by
    rintro (hab | ⟨hab, hR⟩) (hba | ⟨hba, hR'⟩)
    · exact Int.lt_asymm hab hba
    · exact Int.lt_irrefl _ (hba ▸ hab)
    · exact Int.lt_irrefl _ (hab ▸ hba)
    · exact Std.Asymm.asymm a b hR hR'

/-- What is listed for one state after the other is in the order of the states. -/
theorem pairwise_flatMap_byState {S : StateSet} {f : Int → List α}
    (hfirst : ∀ q ∈ S, ∀ a ∈ f q, first a = q) (hf : ∀ q ∈ S, (f q).Pairwise R) :
    (S.toList.flatMap f).Pairwise (ByState first R) := by
  rw [List.pairwise_flatMap]
  constructor
  · intro q hq
    refine (hf q hq).imp_of_mem fun {a b} ha hb hR => Or.inr ⟨?_, hR⟩
    rw [hfirst q hq a ha, hfirst q hq b hb]
  · refine S.ascending.imp_of_mem fun {p q} hp hq hlt a ha b hb => Or.inl ?_
    rw [hfirst p hp a ha, hfirst q hq b hb]
    exact hlt

end ByState

/-! ## Order of labels -/

/-- The order of labels: epsilon before all symbols, and the symbols by their characters. -/
inductive Label.Before : Label → Label → Prop
  /-- Epsilon stands before every symbol. -/
  | epsilon (s : String) : Before .epsilon (.symbol s)
  /-- The lower symbol stands before the higher one. -/
  | symbol {s t : String} (h : s < t) : Before (.symbol s) (.symbol t)

instance : Std.Asymm Label.Before where
  asymm a b hab hba := by
    cases hab with
    | epsilon s => cases hba
    | symbol hst =>
      cases hba with
      | symbol hts => exact String.lt_asymm hst hts

namespace Report

/-- Labels are sorted by their order. -/
theorem labelLE_iff {a b : Label} : labelLE a b = true ↔ a.Before b ∨ a = b := by
  constructor
  · intro h
    match a, b with
    | .epsilon, .epsilon => exact Or.inr rfl
    | .epsilon, .symbol t => exact Or.inl (.epsilon t)
    | .symbol s, .symbol t =>
      rw [labelLE, decide_eq_true_eq] at h
      by_cases hts : t ≤ s
      · exact Or.inr (congrArg Label.symbol (String.le_antisymm h hts))
      · exact Or.inl (.symbol (String.not_le.1 hts))
  · rintro (h | rfl)
    · cases h with
      | epsilon s => rfl
      | symbol h => exact decide_eq_true (String.not_lt.1 (String.lt_asymm h))
    · cases a with
      | epsilon => rfl
      | symbol s => exact decide_eq_true (String.le_refl s)

theorem labelLE_trans {a b c : Label} (hab : labelLE a b = true) (hbc : labelLE b c = true) :
    labelLE a c = true := by
  match a, b, c with
  | .epsilon, _, _ => rfl
  | .symbol s, .symbol t, .symbol u =>
    rw [labelLE, decide_eq_true_eq] at hab hbc ⊢
    exact String.le_trans hab hbc

theorem labelLE_total (a b : Label) : labelLE a b = true ∨ labelLE b a = true := by
  match a, b with
  | .epsilon, _ => exact Or.inl rfl
  | .symbol s, .epsilon => exact Or.inr rfl
  | .symbol s, .symbol t =>
    rw [labelLE, labelLE, decide_eq_true_eq, decide_eq_true_eq]
    exact String.le_total s t

/-- Sorting by the labels leaves each label before the ones after it. -/
theorem pairwise_sortedRow (row : OrderedMap Label StateSet) :
    (sortedRow row).Pairwise fun e f => e.1.Before f.1 := by
  have hperm : (sortedRow row).Perm row.entries := List.mergeSort_perm _ _
  have hne : (sortedRow row).Pairwise fun e f => ¬ e.1 = f.1 :=
    List.pairwise_map.1 ((hperm.map Prod.fst).nodup_iff.2 row.nodup)
  have hle : (sortedRow row).Pairwise fun e f => labelLE e.1 f.1 = true := by
    rw [sortedRow]
    apply List.pairwise_mergeSort
    · exact fun _ _ _ => labelLE_trans
    · exact fun e f => Bool.or_eq_true_iff.2 (labelLE_total e.1 f.1)
  exact hle.imp₂ (fun e f hle hne => (labelLE_iff.1 hle).resolve_right hne) hne

/-- Sorting a row keeps its entries. -/
theorem mem_sortedRow {row : OrderedMap Label StateSet} {l : Label} {T : StateSet} :
    (l, T) ∈ sortedRow row ↔ row.get? l = some T := by
  rw [sortedRow, List.mem_mergeSort, OrderedMap.mem_entries_iff]

end Report

namespace Automaton

variable {A B : Automaton}

/-! ## Automata without empty entries -/

/-- What has an entry has a target. -/
theorem WellFormed.hasEntry_iff (h : A.WellFormed) {p : Int} {l : Label} :
    A.HasEntry p l ↔ ∃ q, (p, l, q) ∈ A.transitions := by
  simp only [mem_transitions_iff, targets_eq, HasEntry]
  constructor
  · intro hentry
    obtain ⟨T, hT⟩ := Option.isSome_iff_exists.1 hentry
    obtain ⟨row, hrow, hmem⟩ := exists_stored_iff.2 ⟨p, l, hT⟩
    rw [hT]
    exact h.stored row hrow T hmem
  · rintro ⟨q, hq⟩
    cases hT : entryOf A.rows p l with
    | none =>
      rw [hT] at hq
      exact absurd hq (StateSet.not_mem_empty q)
    | some T => rfl

/-! ## Listings -/

/-- A listing of an automaton: every state and label with a transition once, in order, with all
targets. -/
structure IsListing (A : Automaton) (entries : List (Int × Label × StateSet)) : Prop where
  /-- There is an entry for a state and a label exactly when there is a transition. -/
  exists_iff : ∀ p l, (∃ T, (p, l, T) ∈ entries) ↔ ∃ q, (p, l, q) ∈ A.transitions
  /-- An entry has all the targets of its state and label. -/
  mem_targets : ∀ p l T, (p, l, T) ∈ entries → ∀ q, q ∈ T ↔ (p, l, q) ∈ A.transitions
  /-- The states ascend, and the labels of a state are in order and different. -/
  ordered : entries.Pairwise (ByState (fun e => e.1) fun e f => e.2.1.Before f.2.1)

namespace IsListing

variable {es fs : List (Int × Label × StateSet)}

/-- Automata with the same transitions have the same entries in their listings. -/
theorem mem_of_mem (hes : A.IsListing es) (hfs : B.IsListing fs)
    (h : ∀ t, t ∈ A.transitions ↔ t ∈ B.transitions) {e : Int × Label × StateSet} (he : e ∈ es) :
    e ∈ fs := by
  obtain ⟨p, l, T⟩ := e
  obtain ⟨q, hq⟩ := (hes.exists_iff p l).1 ⟨T, he⟩
  obtain ⟨U, hU⟩ := (hfs.exists_iff p l).2 ⟨q, (h _).1 hq⟩
  have hTU : T = U := StateSet.ext fun r =>
    (hes.mem_targets p l T he r).trans ((h _).trans (hfs.mem_targets p l U hU r).symm)
  exact hTU ▸ hU

/-- **The transitions determine the listing.** -/
theorem eq_of_mem_iff (hes : A.IsListing es) (hfs : B.IsListing fs)
    (h : ∀ t, t ∈ A.transitions ↔ t ∈ B.transitions) : es = fs :=
  hes.ordered.eq_of_mem_iff hfs.ordered fun _ =>
    ⟨hes.mem_of_mem hfs h, hfs.mem_of_mem hes fun t => (h t).symm⟩

/-- **A listing accounts for every transition once.** -/
theorem perm_transitions (h : A.IsListing es) :
    (es.flatMap fun e => e.2.2.toList.map fun q => (e.1, e.2.1, q)).Perm A.transitions := by
  refine (List.perm_ext_iff_of_nodup ?_ A.nodup_transitions).2 ?_
  · rw [List.nodup_flatMap]
    constructor
    · rintro ⟨p, l, T⟩ -
      exact T.nodup_toList.map fun q r hqr => (Prod.mk.inj (Prod.mk.inj hqr).2).2
    · refine h.ordered.imp ?_
      rintro ⟨p, l, T⟩ ⟨p', l', T'⟩ hef t he hf
      obtain ⟨q, -, rfl⟩ := List.mem_map.1 he
      obtain ⟨q', -, heq⟩ := List.mem_map.1 hf
      -- entries in order differ in the state or in the label
      cases heq
      exact hef.elim (Int.lt_irrefl _) fun hl => Std.Asymm.asymm _ _ hl.2 hl.2
  · rintro ⟨p, l, q⟩
    rw [List.mem_flatMap]
    constructor
    · rintro ⟨⟨p', l', T⟩, he, hq⟩
      obtain ⟨q', hq', heq⟩ := List.mem_map.1 hq
      cases heq
      exact (h.mem_targets _ _ T he _).1 hq'
    · intro ht
      obtain ⟨T, hT⟩ := (h.exists_iff p l).2 ⟨q, ht⟩
      exact ⟨(p, l, T), hT, List.mem_map.2 ⟨q, (h.mem_targets p l T hT q).2 ht, rfl⟩⟩

end IsListing

end Automaton

namespace Report

variable {A : Automaton}

/-- The entries of the states, in the order of the report. -/
def listing (A : Automaton) : List (Int × Label × StateSet) :=
  A.states.toList.flatMap fun q => (sortedRow (A.row q)).map fun e => (q, e.1, e.2)

/-- The line for an entry. -/
def entryLine (e : Int × Label × StateSet) : String :=
  s!"  State {e.1} --({showLabel e.2.1})--> {bracketed e.2.2.toList}"

/-- The report has a line for every entry of the listing. -/
theorem transitionLines_eq (A : Automaton) :
    transitionLines A = (listing A).map entryLine := by
  rw [transitionLines, listing, List.map_flatMap]
  simp only [List.map_map]
  rfl

/-- Does the line begin as the lines for transitions do? -/
def beginsEntry (line : String) : Bool := "  State ".toList.isPrefixOf line.toList

/-- The line for an entry begins as such lines do. -/
theorem beginsEntry_entryLine (e : Int × Label × StateSet) : beginsEntry (entryLine e) = true := by
  simp [beginsEntry, entryLine, toString]

/-- **The lines that begin as those for transitions do are those of the listing.** -/
theorem filter_beginsEntry_automaton (A : Automaton) (title : Option String) :
    (automaton A title).filter beginsEntry = (listing A).map entryLine := by
  have hentries : ((listing A).map entryLine).filter beginsEntry = (listing A).map entryLine := by
    refine List.filter_eq_self.2 fun line hline => ?_
    obtain ⟨e, -, rfl⟩ := List.mem_map.1 hline
    exact beginsEntry_entryLine e
  rw [automaton, List.filter_append, List.filter_append, transitionLines_eq, hentries]
  simp [beginsEntry, rule, toString, List.replicate_succ, List.isPrefixOf]

/-- The listing has the entries of all states. -/
theorem mem_listing {p : Int} {l : Label} {T : StateSet} :
    (p, l, T) ∈ listing A ↔ p ∈ A.states ∧ Automaton.entryOf A.rows p l = some T := by
  rw [listing, List.mem_flatMap]
  constructor
  · rintro ⟨q, hq, he⟩
    obtain ⟨⟨l', T'⟩, hrow, heq⟩ := List.mem_map.1 he
    cases heq
    exact ⟨hq, mem_sortedRow.1 hrow⟩
  · rintro ⟨hp, hT⟩
    exact ⟨p, hp, List.mem_map.2 ⟨(l, T), mem_sortedRow.2 hT, rfl⟩⟩

/-- **The report lists an automaton in order completely.** -/
theorem isListing_listing (h : A.WellFormed) : A.IsListing (listing A) where
  exists_iff p l := by
    simp only [mem_listing, exists_and_left, ← Option.isSome_iff_exists]
    rw [← h.hasEntry_iff]
    refine and_iff_right_of_imp fun hentry => ?_
    obtain ⟨q, hq⟩ := h.hasEntry_iff.1 hentry
    exact (h.ends p l q hq).1
  mem_targets p l T he q := by
    rw [Automaton.mem_transitions_iff, Automaton.targets_eq, (mem_listing.1 he).2,
      Option.getD_some]
  ordered := by
    refine pairwise_flatMap_byState ?_ fun q _ => ?_
    · intro q _ e he
      obtain ⟨-, -, rfl⟩ := List.mem_map.1 he
      rfl
    · exact List.pairwise_map.2 (pairwise_sortedRow (A.row q))

end Report

end LexAutomata
