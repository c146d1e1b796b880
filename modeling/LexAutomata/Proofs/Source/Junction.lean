/-
# Where a comment was

A block comment on one line is taken out without a trace (`blankComments_comment`), so the
characters before and after it become neighbours.  Tokens are cut there as they would be
with a blank character between the two (`cutTokens_append_of_boundary`), except where the
one belongs to a word and the other does too: then the word before the comment and the word
after it become a single one (`exists_cutTokens_append_eq`).  Hence a comment counts as
blank space exactly if it does not stand between two words (`tokenize_commented`).
-/
import Mathlib.Data.List.DropRight
import LexAutomata.Proofs.Recognizer
import LexAutomata.Proofs.Source.Concatenation
import LexAutomata.Proofs.Source.LineNumbers
import LexAutomata.Proofs.Source.Uncommented

namespace LexAutomata

/-! ## Lines of adjacent texts -/

namespace Text

variable {cs ds x y : List Char} {ls ms : List (List Char)} {c : Char}

/-- What the first character of a text has to do with its last line and the lines before that: it
ends the first of these, or it begins the only line, or it begins the first of several. -/
theorem of_splitLines_cons (h : splitLines (c :: cs) = ls ++ [x]) :
    (c = '\n' ∧ ∃ ls', ls = [] :: ls' ∧ splitLines cs = ls' ++ [x]) ∨
      (¬ c = '\n' ∧ ls = [] ∧ ∃ x', x = c :: x' ∧ splitLines cs = [] ++ [x']) ∨
      (¬ c = '\n' ∧ ∃ l ls', ls = (c :: l) :: ls' ∧ splitLines cs = (l :: ls') ++ [x]) := by
  by_cases hc : c = '\n'
  · rw [splitLines, if_pos hc] at h
    cases ls with
    | nil => exact absurd (List.tail_eq_of_cons_eq h) (splitLines_ne_nil cs)
    | cons l ls =>
      obtain ⟨rfl, hrest⟩ := List.cons.inj h
      exact Or.inl ⟨hc, ls, rfl, hrest⟩
  · obtain ⟨m, ns, hm⟩ := List.exists_cons_of_ne_nil (splitLines_ne_nil cs)
    rw [splitLines_cons_of_ne hc hm] at h
    cases ls with
    | nil =>
      obtain ⟨rfl, rfl⟩ := List.cons.inj h
      exact Or.inr (Or.inl ⟨hc, rfl, m, rfl, hm⟩)
    | cons l ls =>
      obtain ⟨rfl, rfl⟩ := List.cons.inj h
      exact Or.inr (Or.inr ⟨hc, m, ls, rfl, hm⟩)

/-- **The last line of a text goes on** with the first line of the text behind it. -/
theorem splitLines_append_eq (hcs : splitLines cs = ls ++ [x]) (hds : splitLines ds = y :: ms) :
    splitLines (cs ++ ds) = ls ++ (x ++ y) :: ms := by
  induction cs generalizing ls x with
  | nil =>
    obtain ⟨rfl, hx⟩ := List.append_inj' (show [] ++ [[]] = ls ++ [x] from hcs) rfl
    obtain rfl := List.singleton_inj.1 hx
    exact hds
  | cons c cs ih =>
    rw [List.cons_append]
    rcases of_splitLines_cons hcs with ⟨hc, ls, rfl, h⟩ | ⟨hc, rfl, x, rfl, h⟩ |
      ⟨hc, l, ls, rfl, h⟩
    · rw [splitLines, if_pos hc, ih h]
      rfl
    · exact splitLines_cons_of_ne hc (ih h)
    · exact splitLines_cons_of_ne hc (ih h)

/-- The lines of a text, with their line breaks, make up the text. -/
theorem eq_of_splitLines (h : splitLines cs = ls ++ [x]) :
    cs = (ls.flatMap fun l => l ++ ['\n']) ++ x := by
  induction cs generalizing ls x with
  | nil =>
    obtain ⟨rfl, hx⟩ := List.append_inj' (show [] ++ [[]] = ls ++ [x] from h) rfl
    exact List.singleton_inj.1 hx
  | cons c cs ih =>
    rcases of_splitLines_cons h with ⟨hc, ls, rfl, hrest⟩ | ⟨-, rfl, x, rfl, hrest⟩ |
      ⟨-, l, ls, rfl, hrest⟩
    · rw [hc, ih hrest]
      rfl
    · exact congrArg (c :: ·) (ih hrest)
    · exact congrArg (c :: ·) (ih hrest)

end Text

namespace Source

/-! ## Taking a comment out -/

variable {ps bs cs : List Char}

/-- A text without slashes begins no comment. -/
theorem blankComments_append_of_not_mem (hps : ¬ '/' ∈ ps) (cs : List Char) :
    blankComments (ps ++ cs) = ps ++ blankComments cs := by
  induction ps with
  | nil => rfl
  | cons c ps ih =>
    rw [List.mem_cons, not_or] at hps
    rw [List.cons_append, blankComments_cons_of_ne (Ne.symm hps.1), ih hps.2, List.cons_append]

theorem blankComments_eq_of_not_mem (hps : ¬ '/' ∈ ps) : blankComments ps = ps := by
  have hself := blankComments_append_of_not_mem hps []
  rwa [List.append_nil, blankComments, List.append_nil] at hself

/-- A comment ends with the first star and slash. -/
theorem splitAtClose_eq_some (hbs : ¬ ['*', '/'] <:+: bs) (cs : List Char) :
    splitAtClose (bs ++ '*' :: '/' :: cs) = some (bs, cs) := by
  induction bs with
  | nil => rfl
  | cons c bs ih =>
    rw [pair_infix_cons_iff, not_or] at hbs
    -- a star at the end of the body is followed by the one that closes the comment
    have hhead : ¬ (c = '*' ∧ (bs ++ '*' :: '/' :: cs).head? = some '/') := by
      rintro ⟨rfl, hslash⟩
      cases bs with
      | nil => exact absurd hslash (by simp)
      | cons d bs => exact hbs.1 ⟨rfl, hslash⟩
    rw [List.cons_append, splitAtClose_cons hhead, ih hbs.2]
    rfl

/-- **A comment on one line leaves nothing.** -/
theorem blankComments_comment (hps : ¬ '/' ∈ ps) (hcs : ¬ '/' ∈ cs) (hbreak : ¬ '\n' ∈ bs)
    (hclose : ¬ ['*', '/'] <:+: bs) :
    blankComments (ps ++ '/' :: '*' :: (bs ++ '*' :: '/' :: cs)) = ps ++ cs := by
  have hbreaks : breaksOf bs = [] := by
    rw [breaksOf, List.filter_eq_nil_iff]
    rintro c hc hc'
    exact hbreak (of_decide_eq_true hc' ▸ hc)
  rw [blankComments_append_of_not_mem hps, blankComments_block (splitAtClose_eq_some hclose cs),
    hbreaks, List.nil_append, blankComments_eq_of_not_mem hcs]

/-! ## Tokens of adjacent texts -/

variable {x y : List Char}

/-- A character that is in no word does not change whether the text ends in a word. -/
theorem any_getLast?_cons {c : Char} (hc : isWordChar c = false) (cs : List Char) :
    (c :: cs).getLast?.any isWordChar = cs.getLast?.any isWordChar := by
  cases cs with
  | nil => simpa using hc
  | cons d cs => rw [List.getLast?_cons_cons]

/-- A word ends in a character of a word. -/
theorem IsWordToken.any_getLast? {t : List Char} (h : IsWordToken t) :
    t.getLast?.any isWordChar = true := by
  rw [List.getLast?_eq_some_getLast h.1, Option.any_some]
  exact h.forall_isWordChar _ (List.getLast_mem h.1)

/-- **Where no word goes on, the tokens are those of both texts.** -/
theorem cutTokens_append_of_boundary
    (h : x.getLast?.any isWordChar = false ∨ y.head?.any isWordChar = false) :
    cutTokens (x ++ y) = cutTokens x ++ cutTokens y := by
  fun_induction cutTokens x with
  | case1 => rfl
  | case2 c rest hc ih =>
    rw [any_getLast?_cons (isWordChar_of_isBlank hc)] at h
    rw [List.cons_append, cutTokens_cons_of_isBlank hc, ih h]
  | case3 c rest hc hd ih =>
    rw [any_getLast?_cons (isWordChar_of_isDelimiter hd)] at h
    rw [List.cons_append, cutTokens_cons_of_isDelimiter hd, ih h]
    rfl
  | case4 c rest hc hd ih =>
    rw [Bool.not_eq_true] at hc hd
    have hword := isWordToken_takeWhile (isWordChar_eq_true_iff.2 ⟨hc, hd⟩) rest
    have hstop := head?_dropWhile_isWordChar rest
    have hsplit : c :: rest = (c :: rest.takeWhile isWordChar) ++ rest.dropWhile isWordChar :=
      congrArg (c :: ·) List.takeWhile_append_dropWhile.symm
    rw [hsplit, List.getLast?_append] at h
    conv => lhs; rw [hsplit, List.append_assoc]
    -- if the text ends in this word, the other one begins with no character of a word
    obtain ⟨hrest, hlast⟩ : (rest.dropWhile isWordChar ++ y).head?.any isWordChar = false ∧
        ((rest.dropWhile isWordChar).getLast?.any isWordChar = false ∨
          y.head?.any isWordChar = false) := by
      cases hlater : rest.dropWhile isWordChar with
      | nil =>
        rw [hlater, List.getLast?_nil, Option.none_or, hword.any_getLast?] at h
        have hy := h.resolve_left (by decide)
        exact ⟨hy, Or.inr hy⟩
      | cons d later =>
        rw [hlater] at h hstop
        exact ⟨hstop, h⟩
    rw [cutTokens_append_of_isWordToken hword hrest, ih hlast]
    rfl

/-- A text that ends in a word is the text before the word and the word. -/
theorem exists_eq_append_of_any_getLast? (hx : x.getLast?.any isWordChar = true) :
    ∃ front u, x = front ++ u ∧ front.getLast?.any isWordChar = false ∧ IsWordToken u := by
  refine ⟨x.rdropWhile isWordChar, x.rtakeWhile isWordChar,
    List.rdropWhile_append_rtakeWhile.symm, ?_, fun hnil => ?_, fun c hc => ?_⟩
  · by_cases hfront : x.rdropWhile isWordChar = []
    · rw [hfront]
      rfl
    · rw [List.getLast?_eq_some_getLast hfront, Option.any_some]
      exact Bool.eq_false_iff.2 (List.rdropWhile_last_not isWordChar x hfront)
  · have hne : x ≠ [] := by
      rintro rfl
      exact absurd hx (by decide)
    rw [List.getLast?_eq_some_getLast hne, Option.any_some] at hx
    exact List.rtakeWhile_eq_nil_iff.1 hnil hne hx
  · exact isWordChar_eq_true_iff.1 (List.mem_rtakeWhile_imp hc)

/-- A text that begins with a word is the word and the text behind it. -/
theorem exists_eq_append_of_any_head? (hy : y.head?.any isWordChar = true) :
    ∃ v rest, y = v ++ rest ∧ IsWordToken v ∧ rest.head?.any isWordChar = false := by
  cases y with
  | nil => exact absurd hy (by decide)
  | cons c y =>
    exact ⟨c :: y.takeWhile isWordChar, y.dropWhile isWordChar,
      congrArg (c :: ·) List.takeWhile_append_dropWhile.symm, isWordToken_takeWhile hy y,
      head?_dropWhile_isWordChar y⟩

theorem IsWordToken.append {t u : List Char} (ht : IsWordToken t) (hu : IsWordToken u) :
    IsWordToken (t ++ u) :=
  ⟨List.append_ne_nil_of_left_ne_nil ht.1 u, List.forall_mem_append.2 ⟨ht.2, hu.2⟩⟩

/-- **Where a word goes on, its two parts become one token.** -/
theorem exists_cutTokens_append_eq (hx : x.getLast?.any isWordChar = true)
    (hy : y.head?.any isWordChar = true) :
    ∃ ts u v us, cutTokens x = ts ++ [u] ∧ cutTokens y = v :: us ∧
      cutTokens (x ++ y) = ts ++ (u ++ v) :: us := by
  obtain ⟨front, u, rfl, hfront, hu⟩ := exists_eq_append_of_any_getLast? hx
  obtain ⟨v, rest, rfl, hv, hrest⟩ := exists_eq_append_of_any_head? hy
  refine ⟨cutTokens front, u, v, cutTokens rest, ?_, cutTokens_append_of_isWordToken hv hrest, ?_⟩
  · have hcut : cutTokens (u ++ []) = u :: cutTokens [] := cutTokens_append_of_isWordToken hu rfl
    rw [List.append_nil, cutTokens_nil] at hcut
    rw [cutTokens_append_of_boundary (Or.inl hfront), hcut]
  · rw [List.append_assoc, cutTokens_append_of_boundary (Or.inl hfront), ← List.append_assoc u v,
      cutTokens_append_of_isWordToken (hu.append hv) hrest]

/-! ## Lines of tokens -/

/-- The tokens of a line. -/
def lineTokens (cs : List Char) : List String := (cutTokens cs).map String.ofList

theorem tokenLines_eq (code : String) :
    tokenLines code = (Text.splitLines (blankComments code.toList)).map lineTokens := by
  rw [tokenLines, Text.lines, toList_stripComments, List.map_map]
  refine List.map_congr_left fun l _ => ?_
  show splitTokens (String.ofList l) = lineTokens l
  rw [splitTokens_eq, String.toList_ofList, lineTokens]

/-- The last line of a text ends in a word if the text does. -/
theorem any_getLast?_of_splitLines {ls : List (List Char)}
    (h : Text.splitLines cs = ls ++ [x]) :
    x.getLast?.any isWordChar = cs.getLast?.any isWordChar := by
  rw [Text.eq_of_splitLines h, List.getLast?_append]
  cases hx : x.getLast? with
  | some c => rfl
  | none =>
    rw [Option.none_or]
    rcases List.eq_nil_or_concat ls with rfl | ⟨ls, l, rfl⟩
    · rfl
    · rw [List.concat_eq_append, List.flatMap_append, List.flatMap_singleton, ← List.append_assoc,
        List.getLast?_concat]
      exact (isWordChar_of_isBlank (by decide)).symm

/-- The first line of a text begins with a word if the text does. -/
theorem any_head?_of_splitLines {ms : List (List Char)} (h : Text.splitLines cs = y :: ms) :
    y.head?.any isWordChar = cs.head?.any isWordChar := by
  cases cs with
  | nil =>
    obtain ⟨rfl, -⟩ := List.cons.inj (show [] :: [] = y :: ms from h)
    rfl
  | cons c cs =>
    by_cases hc : c = '\n'
    · rw [Text.splitLines, if_pos hc] at h
      obtain ⟨rfl, -⟩ := List.cons.inj h
      rw [hc]
      exact (isWordChar_of_isBlank (by decide)).symm
    · obtain ⟨m, ns, hm⟩ := List.exists_cons_of_ne_nil (Text.splitLines_ne_nil cs)
      rw [Text.splitLines_cons_of_ne hc hm] at h
      obtain ⟨rfl, -⟩ := List.cons.inj h
      rfl

/-- The first text ends in a word and the second one begins with one. -/
def Joins (p s : String) : Prop :=
  p.toList.getLast?.any isWordChar = true ∧ s.toList.head?.any isWordChar = true

instance (p s : String) : Decidable (Joins p s) := inferInstanceAs (Decidable (_ ∧ _))

variable {p s b : String}

/-- **The lines of tokens do not show a comment on one line.** -/
theorem tokenLines_comment (hp : ¬ '/' ∈ p.toList) (hs : ¬ '/' ∈ s.toList)
    (hbreak : ¬ '\n' ∈ b.toList) (hclose : ¬ "*/".toList <:+: b.toList) :
    tokenLines (p ++ "/*" ++ b ++ "*/" ++ s) = tokenLines (p ++ s) := by
  have hcode : (p ++ "/*" ++ b ++ "*/" ++ s).toList
      = p.toList ++ '/' :: '*' :: (b.toList ++ '*' :: '/' :: s.toList) := by
    simp [String.toList_append]
  have hnone : blankComments (p ++ s).toList = p.toList ++ s.toList := by
    rw [String.toList_append, blankComments_append_of_not_mem hp, blankComments_eq_of_not_mem hs]
  rw [tokenLines_eq, tokenLines_eq, hcode, hnone, blankComments_comment hp hs hbreak hclose]

/-- The line on which the first text ends and the second one begins. -/
theorem exists_tokenLines_append (hp : ¬ '/' ∈ p.toList) (hs : ¬ '/' ∈ s.toList) :
    ∃ ls x y ms, x.getLast?.any isWordChar = p.toList.getLast?.any isWordChar ∧
      y.head?.any isWordChar = s.toList.head?.any isWordChar ∧
      tokenLines p = ls ++ [lineTokens x] ∧ tokenLines s = lineTokens y :: ms ∧
      tokenLines (p ++ s) = ls ++ lineTokens (x ++ y) :: ms ∧
      tokenLines (p ++ " " ++ s) = ls ++ (lineTokens x ++ lineTokens y) :: ms := by
  obtain ⟨ls, x, hx⟩ : ∃ ls x, Text.splitLines p.toList = ls ++ [x] :=
    ⟨_, _, (List.dropLast_concat_getLast (Text.splitLines_ne_nil p.toList)).symm⟩
  obtain ⟨y, ms, hy⟩ := List.exists_cons_of_ne_nil (Text.splitLines_ne_nil s.toList)
  have hspace : Text.splitLines (' ' :: s.toList) = (' ' :: y) :: ms :=
    Text.splitLines_cons_of_ne (by decide) hy
  have hps : ¬ '/' ∈ (p ++ s).toList := by
    simp [hp, hs]
  have hpspace : ¬ '/' ∈ (p ++ " " ++ s).toList := by
    simp [hp, hs]
  have hblank : Text.isBlank ' ' = true := by decide
  have hline : lineTokens (x ++ ' ' :: y) = lineTokens x ++ lineTokens y := by
    have hstop : (' ' :: y).head?.any isWordChar = false := isWordChar_of_isBlank hblank
    unfold lineTokens
    rw [cutTokens_append_of_boundary (Or.inr hstop), cutTokens_cons_of_isBlank hblank,
      List.map_append]
  refine ⟨ls.map lineTokens, x, y, ms.map lineTokens, any_getLast?_of_splitLines hx,
    any_head?_of_splitLines hy, ?_, ?_, ?_, ?_⟩
  · rw [tokenLines_eq, blankComments_eq_of_not_mem hp, hx, List.map_append]
    rfl
  · rw [tokenLines_eq, blankComments_eq_of_not_mem hs, hy, List.map_cons]
  · rw [tokenLines_eq, blankComments_eq_of_not_mem hps, String.toList_append,
      Text.splitLines_append_eq hx hy, List.map_append, List.map_cons]
  · have htext : (p ++ " " ++ s).toList = p.toList ++ ' ' :: s.toList := by
      rw [String.toList_append, String.toList_append, List.append_assoc]
      rfl
    rw [tokenLines_eq, blankComments_eq_of_not_mem hpspace, htext,
      Text.splitLines_append_eq hx hspace, List.map_append, List.map_cons, hline]

/-! ## Classified tokens -/

variable {fragments : Fragments}

/-- The texts of the tokens are those of the lines one after the other. -/
theorem map_text_of_tokenizeLines {line : Int} {ls : List (List String)} {tokens : List Token}
    (h : tokenizeLines fragments line ls = .ok tokens) : tokens.map Token.text = ls.flatten := by
  induction ls generalizing line tokens with
  | nil =>
    cases h
    rfl
  | cons l ls ih =>
    rw [tokenizeLines, bind_eq_ok_iff] at h
    obtain ⟨first, hfirst, h⟩ := h
    obtain ⟨rest, hrest, h⟩ := bind_eq_ok_iff.1 h
    cases h
    rw [List.map_append, (of_tokenizeLine hfirst).1, ih hrest, List.flatten_cons]

/-- **A comment between two words is no blank space, and any other one is.**  A block comment on
one line, in a text that has no other slashes, is as if it were not there.  Unless a word ends
before it and another begins behind it, a space in its place makes no difference.  Otherwise the
two words become one token, which the space would keep apart. -/
theorem tokenize_commented (hp : ¬ '/' ∈ p.toList) (hs : ¬ '/' ∈ s.toList)
    (hbreak : ¬ '\n' ∈ b.toList) (hclose : ¬ "*/".toList <:+: b.toList) (fragments : Fragments) :
    tokenize (p ++ "/*" ++ b ++ "*/" ++ s) fragments = tokenize (p ++ s) fragments ∧
    (¬ Joins p s →
      tokenize (p ++ "/*" ++ b ++ "*/" ++ s) fragments = tokenize (p ++ " " ++ s) fragments) ∧
    (Joins p s →
      (∃ ls ts u v us ms, tokenLines p = ls ++ [ts ++ [u]] ∧ tokenLines s = (v :: us) :: ms ∧
        tokenLines (p ++ " " ++ s) = ls ++ (ts ++ u :: v :: us) :: ms ∧
        tokenLines (p ++ "/*" ++ b ++ "*/" ++ s) = ls ++ (ts ++ (u ++ v) :: us) :: ms) ∧
      ∀ joined apart, tokenize (p ++ "/*" ++ b ++ "*/" ++ s) fragments = .ok joined →
        tokenize (p ++ " " ++ s) fragments = .ok apart → apart.length = joined.length + 1) := by
  have hcomment := tokenLines_comment hp hs hbreak hclose
  obtain ⟨ls, x, y, ms, hx, hy, hpline, hsline, hjoined, hapart⟩ := exists_tokenLines_append hp hs
  refine ⟨?_, fun hnot => ?_, fun hjoins => ?_⟩
  · rw [tokenize, tokenize, hcomment]
  · have hboundary : x.getLast?.any isWordChar = false ∨ y.head?.any isWordChar = false := by
      rw [hx, hy, ← Bool.not_eq_true, ← Bool.not_eq_true, ← Classical.not_and_iff_not_or_not]
      exact hnot
    rw [tokenize, tokenize, hcomment, hjoined, hapart, lineTokens,
      cutTokens_append_of_boundary hboundary, List.map_append]
    rfl
  · obtain ⟨ts, u, v, us, hxs, hys, hxy⟩ :=
      exists_cutTokens_append_eq (hx.trans hjoins.1) (hy.trans hjoins.2)
    rw [lineTokens, hxs, List.map_append, List.map_singleton] at hpline hapart
    rw [lineTokens, hys, List.map_cons] at hsline hapart
    rw [lineTokens, hxy, List.map_append, List.map_cons, String.ofList_append,
      ← hcomment] at hjoined
    rw [List.append_assoc, List.singleton_append] at hapart
    refine ⟨⟨ls, _, _, _, _, ms, hpline, hsline, hapart, hjoined⟩, ?_⟩
    intro joined apart hjoined' hapart'
    have hshort := congrArg List.length (map_text_of_tokenizeLines hjoined')
    have hlong := congrArg List.length (map_text_of_tokenizeLines hapart')
    rw [hjoined] at hshort
    rw [hapart] at hlong
    simp only [List.length_map, List.flatten_append, List.flatten_cons, List.length_append,
      List.length_cons] at hshort hlong
    omega

/-- The theorem at a comment inside a word, whose body is full of stars and slashes, and at one
behind a delimiter. -/
theorem tokenize_commented_word_delimiter :
    (¬ '/' ∈ "in".toList ∧ ¬ '/' ∈ "t x".toList ∧ ¬ '\n' ∈ "/* // *".toList ∧
      ¬ "*/".toList <:+: "/* // *".toList ∧ Joins "in" "t x" ∧
      tokenize ("in" ++ "/*" ++ "/* // *" ++ "*/" ++ "t x") standardFragments
        = tokenize ("in" ++ "t x") standardFragments ∧
      ∃ ls ts u v us ms, tokenLines "in" = ls ++ [ts ++ [u]] ∧
        tokenLines "t x" = (v :: us) :: ms ∧
        tokenLines ("in" ++ " " ++ "t x") = ls ++ (ts ++ u :: v :: us) :: ms ∧
        tokenLines ("in" ++ "/*" ++ "/* // *" ++ "*/" ++ "t x")
          = ls ++ (ts ++ (u ++ v) :: us) :: ms) ∧
      ¬ '/' ∈ "f(".toList ∧ ¬ '/' ∈ "a)".toList ∧ ¬ '\n' ∈ "".toList ∧
      ¬ "*/".toList <:+: "".toList ∧ ¬ Joins "f(" "a)" ∧
      tokenize ("f(" ++ "/*" ++ "" ++ "*/" ++ "a)") standardFragments
        = tokenize ("f(" ++ " " ++ "a)") standardFragments := by
  have hclose : ¬ "*/".toList <:+: "/* // *".toList := by
    change ¬ ['*', '/'] <:+: ['/', '*', ' ', '/', '/', ' ', '*']
    decide
  have hempty : ¬ "*/".toList <:+: "".toList := by
    change ¬ ['*', '/'] <:+: []
    decide
  have hjoins : Joins "in" "t x" := by decide
  have hapart : ¬ Joins "f(" "a)" := by decide
  have hp : ¬ '/' ∈ "in".toList := by decide
  have hs : ¬ '/' ∈ "t x".toList := by decide
  have hbreak : ¬ '\n' ∈ "/* // *".toList := by decide
  have hp' : ¬ '/' ∈ "f(".toList := by decide
  have hs' : ¬ '/' ∈ "a)".toList := by decide
  have hbreak' : ¬ '\n' ∈ "".toList := by decide
  obtain ⟨hnone, -, hword⟩ := tokenize_commented hp hs hbreak hclose standardFragments
  obtain ⟨-, hspace, -⟩ := tokenize_commented hp' hs' hbreak' hempty standardFragments
  exact ⟨⟨hp, hs, hbreak, hclose, hjoins, hnone, (hword hjoins).1⟩, hp', hs', hbreak', hempty,
    hapart, hspace hapart⟩

/-- An empty comment makes one token of two letters, which a space keeps apart. -/
theorem tokenize_empty_comment :
    ¬ '/' ∈ "a".toList ∧ ¬ '/' ∈ "b".toList ∧ ¬ '\n' ∈ "".toList ∧
    ¬ "*/".toList <:+: "".toList ∧
    ∃ fragments c', Catalogue.standard.buildAll Category.all {} = (.ok fragments, c') ∧
      tokenize ("a" ++ "/*" ++ "" ++ "*/" ++ "b") fragments
        = .ok [⟨"ab", some Category.identifier, 1⟩] ∧
      tokenize ("a" ++ " " ++ "b") fragments
        = .ok [⟨"a", some Category.identifier, 1⟩, ⟨"b", some Category.identifier, 1⟩] ∧
      ¬ tokenize ("a" ++ "/*" ++ "" ++ "*/" ++ "b") fragments
        = tokenize ("a" ++ " " ++ "b") fragments := by
  obtain ⟨fragments, c', hbuilt, hdrawn, hkeys⟩ :=
    Catalogue.exists_buildOnto_eq (fun _ => id) (Catalogue.Drawn.empty {}) (by decide)
  have hclassify := Recognizer.classify_eq_category? hdrawn hkeys
  have hempty : ¬ "*/".toList <:+: "".toList := by
    change ¬ ['*', '/'] <:+: []
    decide
  have hjoined : tokenize ("a" ++ "/*" ++ "" ++ "*/" ++ "b") fragments
      = .ok [⟨"ab", some Category.identifier, 1⟩] := by
    rw [tokenize, show tokenLines ("a" ++ "/*" ++ "" ++ "*/" ++ "b") = [["ab"]] by decide +kernel,
      tokenizeLines, tokenizeLine, hclassify]
    rfl
  have hapart : tokenize ("a" ++ " " ++ "b") fragments
      = .ok [⟨"a", some Category.identifier, 1⟩, ⟨"b", some Category.identifier, 1⟩] := by
    rw [tokenize, show tokenLines ("a" ++ " " ++ "b") = [["a", "b"]] by decide +kernel,
      tokenizeLines, tokenizeLine, tokenizeLine, hclassify, hclassify]
    rfl
  refine ⟨by decide, by decide, by decide, hempty, fragments, c', hbuilt, hjoined, hapart, ?_⟩
  rw [hjoined, hapart]
  decide

end Source

end LexAutomata
