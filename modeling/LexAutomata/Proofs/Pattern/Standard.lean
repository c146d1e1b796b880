/-
# The standard fragments

The patterns of the standard catalogue describe the words of the grammar
(`exists_standard_eq`), so the fragment of a category accepts its words
(`exists_build_eq`).  Fragments that are drawn from one counter have no state in common
and stay below the counter (`Drawn`); building one more, leaving one out and moving the
counter keep this, and their merge succeeds (`Drawn.merge_eq`).
-/
import LexAutomata.Proofs.Automaton.Merge
import LexAutomata.Proofs.Grammar
import LexAutomata.Proofs.Pattern.Compilation

namespace LexAutomata

open Automaton

/-! ## Sets of characters -/

/-- Characters with consecutive code points. -/
def charRange (first count : Nat) : List Char :=
  (List.range count).map fun n => Char.ofNat (first + n)

/-- Below the surrogates every number is that of its character. -/
theorem toNat_ofNat_of_lt {n : Nat} (h : n < 0xD800) : (Char.ofNat n).toNat = n := by
  rw [Char.ofNat, dif_pos (Or.inl h)]
  rfl

/-- A range of characters holds those whose numbers lie between its ends. -/
theorem mem_charRange_iff {first count : Nat} (h : first + count ≤ 0xD800) {c : Char} :
    c ∈ charRange first count ↔ first ≤ c.toNat ∧ c.toNat < first + count := by
  rw [charRange, List.mem_map]
  constructor
  · rintro ⟨n, hn, rfl⟩
    rw [List.mem_range] at hn
    rw [toNat_ofNat_of_lt (by omega)]
    omega
  · rintro ⟨h1, h2⟩
    refine ⟨c.toNat - first, List.mem_range.2 (by omega), ?_⟩
    rw [Nat.add_sub_cancel' h1, Char.ofNat_toNat]

/-- The charset of identifiers holds the small letters from a to z. -/
theorem mem_letters_iff {c : Char} :
    c ∈ "abcdefghijklmnopqrstuvwxyz".toList ↔ 'a' ≤ c ∧ c ≤ 'z' := by
  rw [show "abcdefghijklmnopqrstuvwxyz".toList = charRange 97 26 by decide,
    mem_charRange_iff (by decide)]
  exact and_congr_right' Nat.lt_succ_iff

/-- The charset of numbers holds the digits from 0 to 9. -/
theorem mem_digits_iff {c : Char} : c ∈ "0123456789".toList ↔ '0' ≤ c ∧ c ≤ '9' := by
  rw [show "0123456789".toList = charRange 48 10 by decide, mem_charRange_iff (by decide)]
  exact and_congr_right' Nat.lt_succ_iff

/-! ## Patterns of the categories -/

namespace Catalogue

/-- The runs of small letters are the identifiers. -/
theorem isRun_letters_iff {w : List Char} :
    IsRun "abcdefghijklmnopqrstuvwxyz".toList w ↔ Grammar.IsIdentifier w := by
  simp only [IsRun, Grammar.IsIdentifier, mem_letters_iff]

/-- The runs of digits are the unsigned integers. -/
theorem isRun_digits_iff {w : List Char} :
    IsRun "0123456789".toList w ↔ Grammar.IsDigits w := by
  simp only [IsRun, Grammar.IsDigits, mem_digits_iff]

open Pattern (Describes describes_words_iff describes_single_iff)

/-- The pattern for identifiers describes what the grammar calls one. -/
theorem describes_identifier_iff {w : List Char} :
    Describes (.run "abcdefghijklmnopqrstuvwxyz" none) w ↔ Grammar.IsIdentifier w := by
  constructor
  · intro h
    cases h with
    | run h => exact isRun_letters_iff.1 h
  · exact fun h => .run (isRun_letters_iff.2 h)

/-- The pattern for numbers describes what the grammar calls one. -/
theorem describes_number_iff {w : List Char} :
    Describes (.run "0123456789" (some ".")) w ↔ Grammar.IsNumber w := by
  constructor
  · intro h
    cases h with
    | run h => exact Or.inl (isRun_digits_iff.1 h)
    | runs hu hv =>
      exact Or.inr ⟨_, _, isRun_digits_iff.1 hu, isRun_digits_iff.1 hv, by simp⟩
  · rintro (h | ⟨u, v, hu, hv, rfl⟩)
    · exact .run (isRun_digits_iff.2 h)
    · have h : Describes (.run "0123456789" (some ".")) (u ++ ".".toList ++ v) :=
        .runs (isRun_digits_iff.2 hu) (isRun_digits_iff.2 hv)
      simpa using h

/-- The pattern of a category is well formed and describes the words of the category. -/
theorem exists_standard_eq {name : String} (h : name ∈ Category.all) :
    ∃ pattern, standard name = some pattern ∧ pattern.WellFormed ∧
      ∀ word, pattern.Describes word.toList ↔ Grammar.Belongs name word := by
  simp only [Category.all, List.mem_cons, List.not_mem_nil, or_false] at h
  rcases h with rfl | rfl | rfl | rfl | rfl
  · exact ⟨_, rfl, trivial, fun word =>
      describes_identifier_iff.trans Grammar.belongs_identifier_iff.symm⟩
  · exact ⟨_, rfl, rfl, fun word =>
      describes_number_iff.trans Grammar.belongs_number_iff.symm⟩
  · exact ⟨_, rfl, trivial, fun word =>
      describes_words_iff.trans Grammar.belongs_keyword_iff.symm⟩
  · exact ⟨_, rfl, trivial, fun word =>
      describes_single_iff.trans Grammar.belongs_operator_iff.symm⟩
  · exact ⟨_, rfl, trivial, fun word =>
      describes_single_iff.trans Grammar.belongs_punctuator_iff.symm⟩

/-- Only the categories have patterns. -/
theorem standard_eq_none {name : String} (h : ¬ name ∈ Category.all) : standard name = none := by
  simp only [Category.all, List.mem_cons, List.not_mem_nil, or_false, not_or] at h
  obtain ⟨h1, h2, h3, h4, h5⟩ := h
  rw [standard, if_neg h1, if_neg h2, if_neg h3, if_neg h4, if_neg h5]

/-! ## Building -/

/-- `A` is the fragment of a category, with the states from one counter up to another. -/
structure IsStandard (name : String) (A : Automaton) (c c' : Counter) : Prop where
  /-- The name is that of a category. -/
  known : name ∈ Category.all
  /-- The states are those between the counters. -/
  draft : A.Draft c.next c'
  /-- The words of the category are accepted. -/
  accepts_eq : ∀ word, A.accepts word = .ok (decide (Grammar.Belongs name word))

/-- **The fragment of a category can be built**, and accepts the words of the category. -/
theorem exists_build_eq {name : String} (h : name ∈ Category.all) (c : Counter) :
    ∃ A c', standard.build name c = (.ok A, c') ∧ IsStandard name A c c' := by
  obtain ⟨pattern, hpattern, hwell, hwords⟩ := exists_standard_eq h
  obtain ⟨A, c', hA, hfrag⟩ := Pattern.exists_fragment_eq hwell name c
  refine ⟨A, c', build_eq_ok hpattern hA, h, hfrag.draft, fun word => ?_⟩
  obtain ⟨b, hb, hword⟩ := hfrag.exists_accepts_eq word
  rw [hb, Except.ok.injEq, Bool.eq_iff_iff, decide_eq_true_eq]
  exact hword.trans (hwords word)

/-- A name of no category is refused, and takes no state. -/
theorem build_eq_of_not_mem {name : String} (h : ¬ name ∈ Category.all) (c : Counter) :
    standard.build name c = (.error (.unknownCategory name), c) := by
  rw [build, standard_eq_none h]

/-! ## Fragments from one counter -/

/-- The fragments are those of categories, drawn one after the other from a counter that has come
to `c`. -/
structure Drawn (fs : Fragments) (c : Counter) : Prop where
  /-- Each is the fragment of its category, with states below the counter. -/
  isStandard : ∀ name A, fs.get? name = some A →
    ∃ c₁ c₂, IsStandard name A c₁ c₂ ∧ c₂.next ≤ c.next
  /-- Fragments of different categories have no state in common. -/
  apart : ∀ a b A B, fs.get? a = some A → fs.get? b = some B → ¬ a = b → A.Apart B

namespace Drawn

variable {fs : Fragments} {c c' : Counter} {name : String} {A : Automaton}

/-- Drawn fragments have the names of categories. -/
theorem known (h : Drawn fs c) (hA : fs.get? name = some A) : name ∈ Category.all := by
  obtain ⟨_, _, hstd, -⟩ := h.isStandard name A hA
  exact hstd.known

/-- A drawn fragment is valid. -/
theorem valid (h : Drawn fs c) (hA : fs.get? name = some A) : A.Valid := by
  obtain ⟨_, _, hstd, -⟩ := h.isStandard name A hA
  exact hstd.draft.valid

/-- The states of a drawn fragment were handed out by the counter. -/
theorem below (h : Drawn fs c) (hA : fs.get? name = some A) {q : Int} (hq : q ∈ A.states) :
    q < c.next := by
  obtain ⟨_, _, hstd, hc⟩ := h.isStandard name A hA
  exact Int.lt_of_lt_of_le ((hstd.draft.mem_states q).1 hq).2 hc

/-- A drawn fragment decides whether a word belongs to its category. -/
theorem accepts_eq (h : Drawn fs c) (hA : fs.get? name = some A) (word : String) :
    A.accepts word = .ok (decide (Grammar.Belongs name word)) := by
  obtain ⟨_, _, hstd, -⟩ := h.isStandard name A hA
  exact hstd.accepts_eq word

/-- A drawn fragment accepts the words of its category. -/
theorem accepts_iff (h : Drawn fs c) (hA : fs.get? name = some A) {word : String} :
    A.accepts word = .ok true ↔ Grammar.Belongs name word := by
  rw [h.accepts_eq hA, Except.ok.injEq, decide_eq_true_eq]

theorem empty (c : Counter) : Drawn ∅ c where
  isStandard name A hA := by cases hA
  apart a b A B hA := by cases hA

/-- Moving the counter on keeps the fragments below it. -/
theorem mono (h : Drawn fs c) (hc : c.next ≤ c'.next) : Drawn fs c' where
  isStandard name A hA := by
    obtain ⟨c₁, c₂, hstd, hc₂⟩ := h.isStandard name A hA
    exact ⟨c₁, c₂, hstd, Int.le_trans hc₂ hc⟩
  apart := h.apart

/-- Leaving out a fragment keeps the others. -/
theorem erase (h : Drawn fs c) (name : String) : Drawn (fs.erase name) c where
  isStandard a A hA := by
    rw [OrderedMap.get?_erase] at hA
    split at hA
    · cases hA
    · exact h.isStandard a A hA
  apart a b A B hA hB := by
    rw [OrderedMap.get?_erase] at hA hB
    split at hA
    · cases hA
    · split at hB
      · cases hB
      · exact h.apart a b A B hA hB

/-- The states of a new fragment are not below the counter, so they are new. -/
theorem insert (h : Drawn fs c) (hA : IsStandard name A c c') : Drawn (fs.insert name A) c' where
  isStandard a B hB := by
    rw [OrderedMap.get?_insert] at hB
    split at hB
    · rename_i ha
      cases hB
      exact ⟨c, c', ha ▸ hA, Int.le_refl _⟩
    · obtain ⟨c₁, c₂, hstd, hc₂⟩ := h.isStandard a B hB
      exact ⟨c₁, c₂, hstd, Int.le_trans hc₂ (Int.le_of_lt hA.draft.first_lt)⟩
  apart := by
    have hnew : ∀ {b B}, fs.get? b = some B → A.Apart B := by
      intro b B hB q hqA hqB
      have h1 := ((hA.draft.mem_states q).1 hqA).1
      have h2 := h.below hB hqB
      omega
    intro a b B C hB hC hab
    rw [OrderedMap.get?_insert] at hB hC
    split at hB
    · cases hB
      split at hC
      · rename_i ha hb
        exact absurd (ha.trans hb.symm) hab
      · exact hnew hC
    · split at hC
      · cases hC
        exact (hnew hB).symm
      · exact h.apart a b B C hB hC hab

/-! ### Merging -/

/-- Whatever is drawn is valid. -/
theorem valid_of_mem (h : Drawn fs c) (hA : A ∈ fs.values) : A.Valid := by
  obtain ⟨name, hA⟩ := OrderedMap.mem_values_iff.1 hA
  exact h.valid hA

/-- **Fragments from one counter can be merged** with the next state of the counter. -/
theorem merge_eq (h : Drawn fs c) (name : String) :
    Automaton.merge fs.values (some c) name
      = (.ok (unionFrom name c.next fs.values), some c.advance) := by
  refine merge_eq_of_lt (fun B => h.valid_of_mem) (OrderedMap.pairwise_values h.apart) ?_ name
  intro B hB q hq
  obtain ⟨a, hB⟩ := OrderedMap.mem_values_iff.1 hB
  exact h.below hB hq

/-- The next state of the counter is fresh, so it starts a union of what was drawn. -/
theorem isUnion (h : Drawn fs c) (name : String) :
    (unionFrom name c.next fs.values).IsUnion c.next fs.values := by
  refine isUnion_unionFrom name (fun B => h.valid_of_mem) (OrderedMap.pairwise_values h.apart) ?_
  intro B hB hmem
  obtain ⟨a, hB⟩ := OrderedMap.mem_values_iff.1 hB
  exact Int.lt_irrefl _ (h.below hB hmem)

/-- **The merge accepts the words of the categories.** -/
theorem accepts_unionFrom (h : Drawn fs c) (name word : String) :
    (unionFrom name c.next fs.values).accepts word
      = .ok (fs.keys.any fun a => decide (Grammar.Belongs a word)) := by
  have hunion := h.isUnion name
  obtain ⟨b, hb⟩ := exists_accepts_eq_ok hunion.start_eq word
  have hiff := hunion.accepts_iff (fun B => h.valid_of_mem) word
  rw [hb, Except.ok.injEq] at hiff ⊢
  rw [Bool.eq_iff_iff, hiff, List.any_eq_true]
  constructor
  · rintro ⟨B, hB, hword⟩
    obtain ⟨a, hB⟩ := OrderedMap.mem_values_iff.1 hB
    exact ⟨a, OrderedMap.mem_keys_iff.2 ⟨B, hB⟩, decide_eq_true ((h.accepts_iff hB).1 hword)⟩
  · rintro ⟨a, ha, hword⟩
    obtain ⟨B, hB⟩ := OrderedMap.mem_keys_iff.1 ha
    exact ⟨B, OrderedMap.mem_values_iff.2 ⟨a, hB⟩, (h.accepts_iff hB).2 (of_decide_eq_true hword)⟩

end Drawn

end Catalogue

end LexAutomata
