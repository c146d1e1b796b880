/-
# Blanking comments out line by line

Comments are found by a scan of the whole text.  Unless it comes to a block comment that
has no end, the scan of a text that ends in a line break does not depend on what follows
(`blankComments_append`): a slash at the end of a line begins nothing, a line comment ends
there, and a block comment has found its end before.  A block comment that has no end is
left standing, so that the blanked text shows it.  No line break is lost or made
(`count_blankComments`).
-/
import LexAutomata.Source.Comment
import LexAutomata.Text.Blank

namespace LexAutomata

/-! ## Lines -/

namespace Text

theorem splitLines_ne_nil (cs : List Char) : splitLines cs ≠ [] := by
  cases cs with
  | nil => exact List.cons_ne_nil _ _
  | cons c cs =>
    rw [splitLines]
    split
    · exact List.cons_ne_nil _ _
    · split <;> exact List.cons_ne_nil _ _

/-- A character that is no line break belongs to the first line. -/
theorem splitLines_cons_of_ne {c : Char} (hc : ¬ c = '\n') {cs l : List Char}
    {ls : List (List Char)} (h : splitLines cs = l :: ls) :
    splitLines (c :: cs) = (c :: l) :: ls := by
  rw [splitLines, if_neg hc, h]

/-- **The lines of two texts with a line break between them** are the lines of both. -/
theorem splitLines_append (cs ds : List Char) :
    splitLines (cs ++ '\n' :: ds) = splitLines cs ++ splitLines ds := by
  induction cs with
  | nil => rfl
  | cons c cs ih =>
    rw [List.cons_append]
    by_cases hc : c = '\n'
    · rw [splitLines, if_pos hc, splitLines, if_pos hc, ih, List.cons_append]
    · obtain ⟨l, ls, h⟩ := List.exists_cons_of_ne_nil (splitLines_ne_nil cs)
      rw [splitLines_cons_of_ne hc h, List.cons_append]
      rw [h, List.cons_append] at ih
      exact splitLines_cons_of_ne hc ih

/-- There is one line more than there are line breaks. -/
theorem length_splitLines (cs : List Char) : (splitLines cs).length = cs.count '\n' + 1 := by
  induction cs with
  | nil => rfl
  | cons c cs ih =>
    by_cases hc : c = '\n'
    · rw [splitLines, if_pos hc, List.length_cons, ih, hc, List.count_cons_self]
    · obtain ⟨l, ls, h⟩ := List.exists_cons_of_ne_nil (splitLines_ne_nil cs)
      rw [splitLines_cons_of_ne hc h, List.length_cons, List.count_cons_of_ne hc, ← ih, h,
        List.length_cons]

theorem length_lines (s : String) : (lines s).length = s.toList.count '\n' + 1 := by
  rw [lines, List.length_map, length_splitLines]

end Text

namespace Source

/-! ## The end of a block comment -/

/-- The first star and slash stands between the two parts. -/
theorem eq_append_of_splitAtClose {cs : List Char} {r : List Char × List Char}
    (h : splitAtClose cs = some r) : cs = r.1 ++ '*' :: '/' :: r.2 := by
  fun_induction splitAtClose cs generalizing r with
  | case1 => cases h
  | case2 rest =>
    cases h
    rfl
  | case3 c cs _ ih =>
    rw [Option.map_eq_some_iff] at h
    obtain ⟨r', h', rfl⟩ := h
    rw [List.cons_append, ← ih h']

/-- A character that is not the star of the first star and slash comes before them. -/
theorem splitAtClose_cons {c : Char} {cs : List Char} (h : ¬ (c = '*' ∧ cs.head? = some '/')) :
    splitAtClose (c :: cs) = (splitAtClose cs).map fun r => (c :: r.1, r.2) := by
  rw [splitAtClose]
  rintro rest rfl rfl
  exact h ⟨rfl, rfl⟩

/-- An end that is found is found in every longer text. -/
theorem splitAtClose_append {cs : List Char} {r : List Char × List Char}
    (h : splitAtClose cs = some r) (ds : List Char) :
    splitAtClose (cs ++ ds) = some (r.1, r.2 ++ ds) := by
  fun_induction splitAtClose cs generalizing r with
  | case1 => cases h
  | case2 rest =>
    cases h
    rfl
  | case3 c cs hc ih =>
    rw [Option.map_eq_some_iff] at h
    obtain ⟨r', h', rfl⟩ := h
    -- there is a next character, so that the longer text goes on with the same one
    have hhead : ¬ (c = '*' ∧ (cs ++ ds).head? = some '/') := by
      rintro ⟨rfl, hslash⟩
      cases cs with
      | nil => cases h'
      | cons d cs =>
        cases hslash
        exact hc cs rfl rfl
    rw [List.cons_append, splitAtClose_cons hhead, ih h']
    rfl

/-! ## Blanking out -/

/-- A character that begins no comment stays. -/
theorem blankComments_cons {c : Char} {cs : List Char}
    (h : c = '/' → ¬ cs.head? = some '/' ∧ ¬ cs.head? = some '*') :
    blankComments (c :: cs) = c :: blankComments cs := by
  rw [blankComments]
  · rintro rest rfl rfl
    exact (h rfl).1 rfl
  · rintro rest rfl rfl
    exact (h rfl).2 rfl

theorem blankComments_line (rest : List Char) :
    blankComments ('/' :: '/' :: rest) = blankComments (rest.dropWhile fun c => c ≠ '\n') := by
  rw [blankComments]

/-- A block comment that has an end leaves its line breaks. -/
theorem blankComments_block {rest : List Char} {r : List Char × List Char}
    (h : splitAtClose rest = some r) :
    blankComments ('/' :: '*' :: rest) = breaksOf r.1 ++ blankComments r.2 := by
  rw [blankComments]
  split
  · rename_i r' h'
    rw [h, Option.some.injEq] at h'
    rw [h']
  · rename_i h'
    rw [h] at h'
    cases h'

/-- A line comment ends where the text before a line break does. -/
theorem dropWhile_append_break (cs ds : List Char) :
    (cs ++ '\n' :: ds).dropWhile (fun c => c ≠ '\n')
      = cs.dropWhile (fun c => c ≠ '\n') ++ '\n' :: ds := by
  induction cs with
  | nil => simp
  | cons c cs ih =>
    rw [List.cons_append, List.dropWhile_cons, List.dropWhile_cons, ih]
    split <;> rfl

/-- **What follows a line break does not change what comes before it**, unless a block comment is
left open there. -/
theorem blankComments_append {cs : List Char} (h : ¬ ['/', '*'] <:+: blankComments cs)
    (ds : List Char) :
    blankComments (cs ++ '\n' :: ds) = blankComments cs ++ '\n' :: blankComments ds := by
  fun_induction blankComments cs with
  | case1 =>
    rw [List.nil_append, List.nil_append, blankComments_cons]
    intro hc
    cases hc
  | case2 rest ih =>
    rw [List.cons_append, List.cons_append, blankComments_line, dropWhile_append_break]
    exact ih h
  | case3 rest r hr ih =>
    -- the end of the comment is found before the line break
    rw [List.cons_append, List.cons_append, blankComments_block (splitAtClose_append hr _),
      List.append_assoc]
    congr 1
    exact ih fun hopen => h (hopen.trans (List.suffix_append _ _).isInfix)
  | case4 rest hr ih =>
    -- the beginning of the comment was left standing
    refine absurd ?_ h
    rw [blankComments_cons (fun hc => by cases hc)]
    exact (List.prefix_append ['/', '*'] _).isInfix
  | case5 c rest hline hblock ih =>
    have hhead : c = '/' →
        ¬ (rest ++ '\n' :: ds).head? = some '/' ∧ ¬ (rest ++ '\n' :: ds).head? = some '*' := by
      rintro rfl
      cases rest with
      | nil => simp
      | cons d rest =>
        simp only [List.cons_append, List.head?_cons, Option.some.injEq]
        constructor
        · rintro rfl
          exact hline rest rfl rfl
        · rintro rfl
          exact hblock rest rfl rfl
    rw [List.cons_append, blankComments_cons hhead, List.cons_append,
      ih fun hopen => h (hopen.trans (List.suffix_cons _ _).isInfix)]

/-- The line breaks that stay are all that there are. -/
theorem count_breaksOf (cs : List Char) : (breaksOf cs).count '\n' = cs.count '\n' := by
  rw [breaksOf, List.count_filter]
  rfl

/-- **No line break is lost or made.** -/
theorem count_blankComments (cs : List Char) :
    (blankComments cs).count '\n' = cs.count '\n' := by
  fun_induction blankComments cs with
  | case1 => rfl
  | case2 rest ih =>
    -- a line comment holds no line break
    have htake : (rest.takeWhile fun c => c ≠ '\n').count '\n' = 0 := by
      rw [List.count_eq_zero]
      intro hmem
      have := List.all_eq_true.1 List.all_takeWhile '\n' hmem
      simp at this
    have hsplit := congrArg (List.count '\n')
      (@List.takeWhile_append_dropWhile _ (fun c => decide (c ≠ '\n')) rest)
    rw [List.count_append, htake, Nat.zero_add] at hsplit
    rw [ih, List.count_cons_of_ne (by decide), List.count_cons_of_ne (by decide), hsplit]
  | case3 rest r hr ih =>
    rw [List.count_append, ih, count_breaksOf, eq_append_of_splitAtClose hr]
    simp [List.count_append]
  | case4 rest hr ih => rw [List.count_cons, ih, ← List.count_cons]
  | case5 c rest _ _ ih => rw [List.count_cons, ih, List.count_cons]

theorem toList_stripComments (code : String) :
    (stripComments code).toList = blankComments code.toList := by
  rw [stripComments, String.toList_ofList]

end Source

end LexAutomata
