/-
# Texts without comments

Leaving a comment out brings the characters before and after it together.  No new comment
comes about that way: a slash that stays is followed by the character that followed it in the
text (`head?_blankComments`), so it begins a comment only if it began one before, and an
opening of a block comment that stayed for want of an end does not get one
(`not_close_blankComments`).  A blanked text is therefore free of comments
(`uncommented_blankComments`), and a text that is free of comments is left as it is
(`blankComments_eq_self`).
-/
import LexAutomata.Proofs.Source.Comment

namespace LexAutomata.Source

variable {cs : List Char}

/-! ## Pairs of characters -/

/-- Two adjacent characters stand at the front of a text or in the rest of it. -/
theorem pair_infix_cons_iff {a b c : Char} :
    [a, b] <:+: c :: cs ↔ (c = a ∧ cs.head? = some b) ∨ [a, b] <:+: cs := by
  rw [List.infix_cons_iff, List.cons_prefix_cons, eq_comm (a := a)]
  cases cs with
  | nil => simp
  | cons d cs => simp [List.cons_prefix_cons, eq_comm]

/-- No end of a block comment is found exactly when star and slash are nowhere adjacent. -/
theorem splitAtClose_eq_none_iff : splitAtClose cs = none ↔ ¬ ['*', '/'] <:+: cs := by
  fun_induction splitAtClose cs with
  | case1 => simp
  | case2 rest =>
    simp only [reduceCtorEq, false_iff, Decidable.not_not]
    exact (List.prefix_append ['*', '/'] rest).isInfix
  | case3 c cs hc ih =>
    have hhead : ¬ (c = '*' ∧ cs.head? = some '/') := by
      rintro ⟨rfl, hslash⟩
      obtain ⟨rest, rfl⟩ := List.head?_eq_some_iff.1 hslash
      exact hc rest rfl rfl
    rw [Option.map_eq_none_iff, ih, pair_infix_cons_iff, or_iff_right hhead]

/-! ## Absence of comments -/

/-- A text in which no comment begins: no two slashes are adjacent, and after slash and star no
block comment ends. -/
structure Uncommented (cs : List Char) : Prop where
  /-- No line comment begins. -/
  line : ¬ ['/', '/'] <:+: cs
  /-- Where a block comment would begin, it has no end. -/
  block : ∀ before after, cs = before ++ '/' :: '*' :: after → ¬ ['*', '/'] <:+: after

theorem uncommented_nil : Uncommented [] where
  line := by simp
  block := by simp

/-- No comment begins in a text when none begins with its first character and none in the rest. -/
theorem uncommented_cons_iff {c : Char} :
    Uncommented (c :: cs) ↔
      (c = '/' → ¬ cs.head? = some '/' ∧ ∀ after, cs = '*' :: after → ¬ ['*', '/'] <:+: after) ∧
        Uncommented cs := by
  constructor
  · intro h
    refine ⟨?_, ⟨fun hline => h.line (pair_infix_cons_iff.2 (Or.inr hline)), ?_⟩⟩
    · rintro rfl
      refine ⟨fun hslash => h.line (pair_infix_cons_iff.2 (Or.inl ⟨rfl, hslash⟩)), ?_⟩
      rintro after rfl
      exact h.block [] after rfl
    · rintro before after rfl
      exact h.block (c :: before) after rfl
  · rintro ⟨hfirst, hrest⟩
    refine ⟨fun hline => ?_, fun before after heq => ?_⟩
    · rcases pair_infix_cons_iff.1 hline with ⟨hc, hslash⟩ | hline
      · exact (hfirst hc).1 hslash
      · exact hrest.line hline
    · cases before with
      | nil =>
        rw [List.nil_append, List.cons.injEq] at heq
        exact (hfirst heq.1).2 after heq.2
      | cons d before =>
        rw [List.cons_append, List.cons.injEq] at heq
        exact hrest.block before after heq.2

/-- Line breaks begin no comment. -/
theorem Uncommented.breaksOf_append (h : Uncommented cs) (ds : List Char) :
    Uncommented (breaksOf ds ++ cs) := by
  have hbreaks : ∀ c ∈ breaksOf ds, c = '\n' := fun c hc =>
    of_decide_eq_true (List.mem_filter.1 hc).2
  generalize breaksOf ds = bs at hbreaks
  induction bs with
  | nil => exact h
  | cons c bs ih =>
    rw [List.cons_append, uncommented_cons_iff]
    refine ⟨fun hc => ?_, ih fun d hd => hbreaks d (List.mem_cons_of_mem _ hd)⟩
    rw [hbreaks c List.mem_cons_self] at hc
    exact absurd hc (by decide)

/-! ## What blanking leaves -/

/-- A character that is no slash begins no comment. -/
theorem blankComments_cons_of_ne {c : Char} (hc : ¬ c = '/') :
    blankComments (c :: cs) = c :: blankComments cs :=
  blankComments_cons fun h => absurd h hc

/-- Unless a text begins with a slash, its first character stays the first. -/
theorem head?_blankComments (h : ¬ cs.head? = some '/') :
    (blankComments cs).head? = cs.head? := by
  cases cs with
  | nil => rw [blankComments]
  | cons c cs =>
    rw [List.head?_cons, Option.some.injEq] at h
    rw [blankComments_cons_of_ne h]
    rfl

/-- **No end of a block comment comes about.** -/
theorem not_close_blankComments (h : ¬ ['*', '/'] <:+: cs) :
    ¬ ['*', '/'] <:+: blankComments cs := by
  fun_induction blankComments cs with
  | case1 => exact h
  | case2 rest ih =>
    have hsuffix : (rest.dropWhile fun c => c ≠ '\n') <:+ '/' :: '/' :: rest :=
      (List.dropWhile_suffix _).trans ((List.suffix_cons '/' rest).trans (List.suffix_cons '/' _))
    exact ih fun hclose => h (hclose.trans hsuffix.isInfix)
  | case3 rest r hr ih =>
    -- the block comment has an end
    refine absurd ?_ h
    rw [pair_infix_cons_iff, pair_infix_cons_iff, ← Decidable.not_not (p := _ <:+: rest),
      ← splitAtClose_eq_none_iff, hr]
    simp
  | case4 rest hr ih =>
    rw [pair_infix_cons_iff] at h ⊢
    rintro (⟨hstar, -⟩ | hclose)
    · exact absurd hstar (by decide)
    · exact ih (fun hclose => h (Or.inr hclose)) hclose
  | case5 c rest hline hblock ih =>
    rw [pair_infix_cons_iff] at h ⊢
    rintro (⟨hstar, hslash⟩ | hclose)
    · -- a slash after the star was there before
      by_cases hhead : rest.head? = some '/'
      · exact h (Or.inl ⟨hstar, hhead⟩)
      · exact hhead ((head?_blankComments hhead).symm.trans hslash)
    · exact ih (fun hclose => h (Or.inr hclose)) hclose

/-- **A blanked text is free of comments.** -/
theorem uncommented_blankComments (cs : List Char) : Uncommented (blankComments cs) := by
  fun_induction blankComments cs with
  | case1 => exact uncommented_nil
  | case2 rest ih => exact ih
  | case3 rest r hr ih => exact ih.breaksOf_append r.1
  | case4 rest hr ih =>
    rw [splitAtClose_eq_none_iff] at hr
    have hstar : blankComments ('*' :: rest) = '*' :: blankComments rest :=
      blankComments_cons_of_ne (by decide)
    rw [uncommented_cons_iff]
    refine ⟨fun _ => ⟨?_, fun after hafter => ?_⟩, ih⟩
    · rw [hstar]
      simp
    · rw [hstar, List.cons.injEq] at hafter
      rw [← hafter.2]
      exact not_close_blankComments hr
  | case5 c rest hline hblock ih =>
    rw [uncommented_cons_iff]
    refine ⟨?_, ih⟩
    rintro rfl
    have hslash : ¬ rest.head? = some '/' := by
      intro h
      obtain ⟨rest', rfl⟩ := List.head?_eq_some_iff.1 h
      exact hline rest' rfl rfl
    have hhead := head?_blankComments hslash
    refine ⟨fun h => hslash (hhead.symm.trans h), fun after hafter => ?_⟩
    -- a star after the slash was there before, and then a comment was left open
    rw [hafter] at hhead
    obtain ⟨rest', rfl⟩ := List.head?_eq_some_iff.1 hhead.symm
    exact absurd rfl (hblock rest' rfl)

/-- **A text that is free of comments is left as it is.** -/
theorem blankComments_eq_self (h : Uncommented cs) : blankComments cs = cs := by
  fun_induction blankComments cs with
  | case1 => rfl
  | case2 rest ih => exact absurd (List.prefix_append ['/', '/'] rest).isInfix h.line
  | case3 rest r hr ih =>
    have hopen : splitAtClose rest = none := splitAtClose_eq_none_iff.2 (h.block [] rest rfl)
    rw [hr] at hopen
    cases hopen
  | case4 rest hr ih => rw [ih (uncommented_cons_iff.1 h).2]
  | case5 c rest hline hblock ih => rw [ih (uncommented_cons_iff.1 h).2]

/-- A text without adjacent slashes and without a slash before a star is free of comments. -/
theorem uncommented_of_no_opening (hline : ¬ ['/', '/'] <:+: cs) (hblock : ¬ ['/', '*'] <:+: cs) :
    Uncommented cs where
  line := hline
  block := by
    rintro before after rfl
    exact absurd ⟨before, after, by simp⟩ hblock

/-- **Blanking comments out leaves none and makes none.**  The blanked text is free of comments, so
that blanking it once more changes nothing; and the texts that blanking does not change are exactly
those that are free of comments, among them all in which no comment even seems to begin. -/
theorem uncommented_stripComments (code : String) :
    Uncommented (stripComments code).toList ∧
    stripComments (stripComments code) = stripComments code ∧
    (stripComments code = code ↔ Uncommented code.toList) ∧
    (¬ "//".toList <:+: code.toList → ¬ "/*".toList <:+: code.toList →
      stripComments code = code) := by
  have hclean : ∀ code : String, Uncommented (stripComments code).toList := by
    intro code
    rw [toList_stripComments]
    exact uncommented_blankComments code.toList
  have hself : ∀ code : String, Uncommented code.toList → stripComments code = code := by
    intro code h
    rw [stripComments, blankComments_eq_self h, String.ofList_toList]
  refine ⟨hclean code, hself _ (hclean code), ⟨fun h => ?_, hself code⟩, fun hline hblock => ?_⟩
  · rw [← h]
    exact hclean code
  · exact hself code (uncommented_of_no_opening hline hblock)

/-- The theorem at a text in which a comment ends without having begun, and a slash stands
alone. -/
theorem uncommented_stripComments_stray :
    ¬ "//".toList <:+: "a / b*/".toList ∧ ¬ "/*".toList <:+: "a / b*/".toList ∧
      stripComments "a / b*/" = "a / b*/" := by
  have hline : ¬ "//".toList <:+: "a / b*/".toList := by
    change ¬ ['/', '/'] <:+: ['a', ' ', '/', ' ', 'b', '*', '/']
    decide
  have hblock : ¬ "/*".toList <:+: "a / b*/".toList := by
    change ¬ ['/', '*'] <:+: ['a', ' ', '/', ' ', 'b', '*', '/']
    decide
  exact ⟨hline, hblock, (uncommented_stripComments "a / b*/").2.2.2 hline hblock⟩

end LexAutomata.Source
