/-
# The grammar of the standard categories

What the words of the five categories are, without reference to patterns or automata
(`Belongs`), and to which category a word belongs when the categories are tried in their
order (`category?`).  Keywords are identifiers, and otherwise no word belongs to two
categories, since the first character tells the category (`overlap`).
-/
import LexAutomata.Pattern.Catalogue

namespace LexAutomata.Grammar

/-! ## Words of the categories -/

/-- A nonempty run of decimal digits. -/
def IsDigits (w : List Char) : Prop := w ≠ [] ∧ ∀ c ∈ w, '0' ≤ c ∧ c ≤ '9'

/-- Digits, possibly with a point and more digits after them. -/
def IsNumber (w : List Char) : Prop :=
  IsDigits w ∨ ∃ u v, IsDigits u ∧ IsDigits v ∧ w = u ++ '.' :: v

/-- A nonempty run of small letters. -/
def IsIdentifier (w : List Char) : Prop := w ≠ [] ∧ ∀ c ∈ w, 'a' ≤ c ∧ c ≤ 'z'

/-- One of the reserved words. -/
def IsKeyword (w : List Char) : Prop := String.ofList w ∈ Category.keywords
deriving Decidable

/-- The operators. -/
def operators : List Char := ['+', '-', '*', '/', '%', '=']

/-- The punctuators. -/
def punctuators : List Char := [',', ';', '{', '}', '[', ']', '(', ')']

/-- One of the operators. -/
def IsOperator (w : List Char) : Prop := ∃ c ∈ operators, w = [c]

/-- One of the punctuators. -/
def IsPunctuator (w : List Char) : Prop := ∃ c ∈ punctuators, w = [c]

/-! The words are decided by their own characters; an instance for all characters would run
through every code point. -/

instance (w : List Char) : Decidable (IsDigits w) :=
  decidable_of_iff (w ≠ [] ∧ (w.all fun c => '0' ≤ c ∧ c ≤ '9') = true) (by simp [IsDigits])

instance (w : List Char) : Decidable (IsIdentifier w) :=
  decidable_of_iff (w ≠ [] ∧ (w.all fun c => 'a' ≤ c ∧ c ≤ 'z') = true) (by simp [IsIdentifier])

instance (w : List Char) : Decidable (IsOperator w) :=
  decidable_of_iff ((operators.any fun c => w = [c]) = true) (by simp [IsOperator])

instance (w : List Char) : Decidable (IsPunctuator w) :=
  decidable_of_iff ((punctuators.any fun c => w = [c]) = true) (by simp [IsPunctuator])

/-- A number has its point at some place, if anywhere. -/
theorem isNumber_iff {w : List Char} :
    IsNumber w ↔ IsDigits w ∨ ∃ n < w.length,
      IsDigits (w.take n) ∧ IsDigits (w.drop (n + 1)) ∧ w[n]? = some '.' := by
  refine or_congr_right ⟨?_, ?_⟩
  · rintro ⟨u, v, hu, hv, rfl⟩
    refine ⟨u.length, by simp, ?_, ?_, by simp⟩
    · rwa [List.take_left]
    · have hdrop : (u ++ '.' :: v).drop (u.length + 1) = v := by simp
      rwa [hdrop]
  · rintro ⟨n, hn, hu, hv, hpoint⟩
    refine ⟨_, _, hu, hv, ?_⟩
    rw [List.getElem?_eq_getElem hn, Option.some.injEq] at hpoint
    rw [← hpoint, List.getElem_cons_drop, List.take_append_drop]

instance (w : List Char) : Decidable (IsNumber w) := decidable_of_iff _ isNumber_iff.symm

/-- The words of a category.  A name of no category has none. -/
def Belongs (category word : String) : Prop :=
  if category = Category.keyword then IsKeyword word.toList
  else if category = Category.number then IsNumber word.toList
  else if category = Category.operator then IsOperator word.toList
  else if category = Category.punctuator then IsPunctuator word.toList
  else if category = Category.identifier then IsIdentifier word.toList
  else False
deriving Decidable

/-- The category of a word: the first in the order of priority that it belongs to. -/
def category? (word : String) : Option String :=
  if IsKeyword word.toList then some Category.keyword
  else if IsNumber word.toList then some Category.number
  else if IsOperator word.toList then some Category.operator
  else if IsPunctuator word.toList then some Category.punctuator
  else if IsIdentifier word.toList then some Category.identifier
  else none

variable {a b word : String}

@[simp] theorem belongs_keyword_iff : Belongs Category.keyword word ↔ IsKeyword word.toList := by
  rw [Belongs, if_pos rfl]

@[simp] theorem belongs_number_iff : Belongs Category.number word ↔ IsNumber word.toList := by
  rw [Belongs, if_neg (by decide), if_pos rfl]

@[simp] theorem belongs_operator_iff :
    Belongs Category.operator word ↔ IsOperator word.toList := by
  rw [Belongs, if_neg (by decide), if_neg (by decide), if_pos rfl]

@[simp] theorem belongs_punctuator_iff :
    Belongs Category.punctuator word ↔ IsPunctuator word.toList := by
  rw [Belongs, if_neg (by decide), if_neg (by decide), if_neg (by decide), if_pos rfl]

@[simp] theorem belongs_identifier_iff :
    Belongs Category.identifier word ↔ IsIdentifier word.toList := by
  rw [Belongs, if_neg (by decide), if_neg (by decide), if_neg (by decide), if_neg (by decide),
    if_pos rfl]

/-- Only categories have words. -/
theorem mem_all_of_belongs (h : Belongs a word) : a ∈ Category.all := by
  simp only [Category.all, List.mem_cons, List.not_mem_nil, or_false]
  refine Decidable.byContradiction fun hall => ?_
  simp only [not_or] at hall
  obtain ⟨h1, h2, h3, h4, h5⟩ := hall
  rw [Belongs, if_neg h3, if_neg h2, if_neg h4, if_neg h5, if_neg h1] at h
  exact h

/-- The category of a word is the first in the order of priority to which it belongs. -/
theorem category?_eq_find? (word : String) :
    category? word = Category.priority.find? fun c => decide (Belongs c word) := by
  simp only [category?, Category.priority, List.find?_cons, belongs_keyword_iff,
    belongs_number_iff, belongs_operator_iff, belongs_punctuator_iff, belongs_identifier_iff,
    List.find?_nil]
  grind

/-- Every category has its rank. -/
theorem mem_priority_iff : a ∈ Category.priority ↔ a ∈ Category.all := by
  have h : Category.priority.Perm Category.all := by decide
  exact h.mem_iff

/-- The words that have a category are those of the categories. -/
theorem isSome_category? (word : String) :
    (category? word).isSome = Category.all.any fun a => decide (Belongs a word) := by
  rw [category?_eq_find?, Bool.eq_iff_iff, List.find?_isSome, List.any_eq_true]
  simp only [mem_priority_iff]

example : category? "float" = some Category.keyword := by decide

example : category? "3." = none := by decide

/-! ## Overlaps -/

/-- What the first character of a word tells: the category, where keywords are identifiers. -/
def family (c : Char) : String :=
  if 'a' ≤ c ∧ c ≤ 'z' then Category.identifier
  else if '0' ≤ c ∧ c ≤ '9' then Category.number
  else if c ∈ operators then Category.operator
  else Category.punctuator

/-- Every keyword has the form of an identifier. -/
theorem isIdentifier_of_isKeyword {w : List Char} (h : IsKeyword w) : IsIdentifier w := by
  have hall : ∀ k ∈ Category.keywords, IsIdentifier k.toList := by decide
  simpa using hall _ h

/-- The first character of a word tells its family. -/
theorem exists_family_eq (h : Belongs a word) :
    ∃ c t, word.toList = c :: t ∧
      family c = if a = Category.keyword then Category.identifier else a := by
  have hletter : ∀ w, IsIdentifier w → ∃ c t, w = c :: t ∧ family c = Category.identifier := by
    rintro w ⟨hne, hw⟩
    obtain ⟨c, t, rfl⟩ := List.exists_cons_of_ne_nil hne
    exact ⟨c, t, rfl, if_pos (hw c List.mem_cons_self)⟩
  have hdigit : ∀ w t, IsDigits w → ∃ c t', w ++ t = c :: t' ∧ family c = Category.number := by
    rintro w t ⟨hne, hw⟩
    obtain ⟨c, t', rfl⟩ := List.exists_cons_of_ne_nil hne
    have hc := hw c List.mem_cons_self
    have hno : ¬ ('a' ≤ c ∧ c ≤ 'z') := fun h =>
      absurd (Char.le_trans h.1 hc.2) (by decide)
    exact ⟨c, t' ++ t, rfl, by rw [family, if_neg hno, if_pos hc]⟩
  have hall := mem_all_of_belongs h
  simp only [Category.all, List.mem_cons, List.not_mem_nil, or_false] at hall
  rcases hall with rfl | rfl | rfl | rfl | rfl
  · rw [if_neg (by decide)]
    exact hletter _ (belongs_identifier_iff.1 h)
  · rw [if_neg (by decide)]
    rcases belongs_number_iff.1 h with h | ⟨u, v, hu, -, huv⟩
    · rw [← List.append_nil word.toList]
      exact hdigit _ [] h
    · rw [huv]
      exact hdigit u _ hu
  · rw [if_pos rfl]
    exact hletter _ (isIdentifier_of_isKeyword (belongs_keyword_iff.1 h))
  · rw [if_neg (by decide)]
    obtain ⟨c, hc, hword⟩ := belongs_operator_iff.1 h
    have hall : (operators.all fun c => family c = Category.operator) = true := by decide
    exact ⟨c, [], hword, of_decide_eq_true (List.all_eq_true.1 hall c hc)⟩
  · rw [if_neg (by decide)]
    obtain ⟨c, hc, hword⟩ := belongs_punctuator_iff.1 h
    have hall : (punctuators.all fun c => family c = Category.punctuator) = true := by decide
    exact ⟨c, [], hword, of_decide_eq_true (List.all_eq_true.1 hall c hc)⟩

/-- **Only keywords belong to two categories.** -/
theorem overlap (ha : Belongs a word) (hb : Belongs b word) (hab : a ≠ b) :
    (a = Category.keyword ∧ b = Category.identifier) ∨
      (a = Category.identifier ∧ b = Category.keyword) := by
  obtain ⟨c, t, hword, hfa⟩ := exists_family_eq ha
  obtain ⟨c', t', hword', hfb⟩ := exists_family_eq hb
  obtain rfl : c = c' := List.head_eq_of_cons_eq (hword.symm.trans hword')
  rw [hfa] at hfb
  by_cases hka : a = Category.keyword
  · by_cases hkb : b = Category.keyword
    · exact absurd (hka.trans hkb.symm) hab
    · rw [if_pos hka, if_neg hkb] at hfb
      exact Or.inl ⟨hka, hfb.symm⟩
  · by_cases hkb : b = Category.keyword
    · rw [if_neg hka, if_pos hkb] at hfb
      exact Or.inr ⟨hfb, hkb⟩
    · rw [if_neg hka, if_neg hkb] at hfb
      exact absurd hfb hab

/-- **An identifier is a keyword if it is reserved**, and otherwise of no other category. -/
theorem category?_of_isIdentifier (h : IsIdentifier word.toList) :
    category? word =
      some (if word ∈ Category.keywords then Category.keyword else Category.identifier) := by
  have hother : ∀ a, Belongs a word → a = Category.keyword ∨ a = Category.identifier := by
    intro a ha
    by_cases hid : a = Category.identifier
    · exact Or.inr hid
    · rcases overlap ha (belongs_identifier_iff.2 h) hid with ⟨hkey, -⟩ | ⟨hid', -⟩
      · exact Or.inl hkey
      · exact absurd hid' hid
  have hnumber : ¬ IsNumber word.toList := fun hw =>
    absurd (hother _ (belongs_number_iff.2 hw)) (by decide)
  have hoperator : ¬ IsOperator word.toList := fun hw =>
    absurd (hother _ (belongs_operator_iff.2 hw)) (by decide)
  have hpunctuator : ¬ IsPunctuator word.toList := fun hw =>
    absurd (hother _ (belongs_punctuator_iff.2 hw)) (by decide)
  have hreserved : IsKeyword word.toList ↔ word ∈ Category.keywords := by
    rw [IsKeyword, String.ofList_toList]
  simp only [category?, hreserved, if_neg hnumber, if_neg hoperator, if_neg hpunctuator, if_pos h]
  split <;> rfl

end LexAutomata.Grammar
