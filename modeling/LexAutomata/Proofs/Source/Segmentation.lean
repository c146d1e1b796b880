/-
# The segmentation of a line

Separators are blank characters, or nothing at all beside a delimiter.  What they leave
between them, if it is not empty, is cut off directly by `cutTokens`: a delimiter, or all
characters up to the next one that is blank or a delimiter (`splitTokens_eq`).  These are
the tokens of a segmentation, in which blank characters stand between the tokens and at
least one of them between two words (`exists_isSegmentation`), and a line has only one
(`IsSegmentation.cutTokens_eq`).
-/
import Mathlib.Data.List.Chain
import LexAutomata.Source.Token

namespace LexAutomata.Source

/-! ## Cutting without separators -/

/-- Does the character belong to a longer token? -/
def isWordChar (c : Char) : Bool := !Text.isBlank c && !isDelimiter c

/-- The characters of words are neither blank nor delimiters. -/
theorem isWordChar_eq_true_iff {c : Char} :
    isWordChar c = true ↔ Text.isBlank c = false ∧ isDelimiter c = false := by
  rw [isWordChar, Bool.and_eq_true, Bool.not_eq_true', Bool.not_eq_true']

theorem isWordChar_of_isBlank {c : Char} (h : Text.isBlank c = true) : isWordChar c = false := by
  rw [isWordChar, h]
  rfl

theorem isWordChar_of_isDelimiter {c : Char} (h : isDelimiter c = true) :
    isWordChar c = false := by
  rw [isWordChar, h, Bool.not_true, Bool.and_false]

/-- No delimiter is blank. -/
theorem isBlank_of_isDelimiter {c : Char} (h : isDelimiter c = true) :
    Text.isBlank c = false := by
  have hall : ['{', '}', '(', ')', '=', ';', ','].all fun d => !Text.isBlank d := by decide
  have := List.all_eq_true.1 hall c (of_decide_eq_true h)
  rwa [Bool.not_eq_true'] at this

/-- The delimiters of a line and its maximal runs of other characters that are not blank. -/
def cutTokens (cs : List Char) : List (List Char) :=
  match cs with
  | [] => []
  | c :: rest =>
    if Text.isBlank c then cutTokens rest
    else if isDelimiter c then [c] :: cutTokens rest
    else (c :: rest.takeWhile isWordChar) :: cutTokens (rest.dropWhile isWordChar)
termination_by cs.length
decreasing_by
  · simp
  · simp
  · have := (List.dropWhile_sublist isWordChar (l := rest)).length_le
    simp only [List.length_cons]
    omega

theorem cutTokens_nil : cutTokens [] = [] := by
  rw [cutTokens]

/-- A blank character adds no token. -/
theorem cutTokens_cons_of_isBlank {c : Char} (h : Text.isBlank c = true) (rest : List Char) :
    cutTokens (c :: rest) = cutTokens rest := by
  rw [cutTokens, if_pos h]

/-- A delimiter is a token by itself. -/
theorem cutTokens_cons_of_isDelimiter {c : Char} (h : isDelimiter c = true) (rest : List Char) :
    cutTokens (c :: rest) = [c] :: cutTokens rest := by
  rw [cutTokens, isBlank_of_isDelimiter h, if_pos h]
  rfl

/-- A word goes as far as the characters of words do. -/
theorem cutTokens_cons_of_isWordChar {c : Char} (h : isWordChar c = true) (rest : List Char) :
    cutTokens (c :: rest)
      = (c :: rest.takeWhile isWordChar) :: cutTokens (rest.dropWhile isWordChar) := by
  obtain ⟨hblank, hdelimiter⟩ := isWordChar_eq_true_iff.1 h
  rw [cutTokens, hblank, hdelimiter]
  rfl

/-- Blank characters at the front are left out. -/
theorem cutTokens_append_of_blank {gap : List Char} (h : ∀ c ∈ gap, Text.isBlank c = true)
    (rest : List Char) : cutTokens (gap ++ rest) = cutTokens rest := by
  induction gap with
  | nil => rfl
  | cons c gap ih =>
    rw [List.cons_append, cutTokens_cons_of_isBlank (h c List.mem_cons_self)]
    exact ih fun d hd => h d (List.mem_cons_of_mem c hd)

/-- Blank characters at the beginning add no token. -/
theorem cutTokens_dropWhile_isBlank (rest : List Char) :
    cutTokens (rest.dropWhile Text.isBlank) = cutTokens rest := by
  have hblank : ∀ c ∈ rest.takeWhile Text.isBlank, Text.isBlank c = true :=
    List.all_eq_true.1 List.all_takeWhile
  have hsplit := congrArg cutTokens
    (List.takeWhile_append_dropWhile (p := Text.isBlank) (l := rest))
  rwa [cutTokens_append_of_blank hblank] at hsplit

/-! ## Cutting at separators -/

theorem isEmpty_takeWhile {α : Type} (p : α → Bool) (l : List α) :
    (l.takeWhile p).isEmpty = !l.head?.any p := by
  cases l with
  | nil => rfl
  | cons a l =>
    rw [List.takeWhile_cons, List.head?_cons, Option.any_some]
    cases p a <;> rfl

theorem takeWhile_eq_nil {α : Type} {p : α → Bool} {l : List α} (h : l.head?.any p = false) :
    l.takeWhile p = [] := by
  rw [← List.isEmpty_iff, isEmpty_takeWhile, h]
  rfl

theorem dropWhile_eq_self {α : Type} {p : α → Bool} {l : List α} (h : l.head?.any p = false) :
    l.dropWhile p = l := by
  have hsplit := List.takeWhile_append_dropWhile (p := p) (l := l)
  rwa [takeWhile_eq_nil h] at hsplit

/-- A separator is found before a blank character, and beside a delimiter unless it was taken. -/
theorem separator?_eq (taken : Bool) (before : Option Char) (rest : List Char) :
    separator? taken before rest =
      if rest.head?.any Text.isBlank
          || !taken && (rest.head?.any isDelimiter || before.any isDelimiter) then
        some (rest.takeWhile Text.isBlank, rest.dropWhile Text.isBlank)
      else none := by
  rw [separator?]
  simp only [isEmpty_takeWhile, Bool.not_not]

/-- There is no separator before a character that is not blank, unless a delimiter is beside it. -/
theorem separator?_eq_none_iff {taken : Bool} {before : Option Char} {rest : List Char} :
    separator? taken before rest = none ↔
      rest.head?.any Text.isBlank = false ∧
        (taken = false → rest.head?.any isDelimiter = false ∧ before.any isDelimiter = false) := by
  rw [separator?_eq]
  cases taken <;> simp

/-- Behind the characters of a word a separator is found only where the word ends. -/
theorem head?_any_isWordChar_of_separator? {c : Char} (hc : isDelimiter c = false)
    {rest : List Char} {r : List Char × List Char}
    (h : separator? false (some c) rest = some r) : rest.head?.any isWordChar = false := by
  cases rest with
  | nil => rfl
  | cons d rest =>
    rw [List.head?_cons, Option.any_some]
    cases hd : isWordChar d with
    | false => rfl
    | true =>
      rw [isWordChar_eq_true_iff] at hd
      have hnone : separator? false (some c) (d :: rest) = none :=
        separator?_eq_none_iff.2 ⟨hd.1, fun _ => ⟨hd.2, hc⟩⟩
      rw [hnone] at h
      cases h

/-- A separator ends before the next character that is not blank. -/
theorem snd_of_separator? {taken : Bool} {before : Option Char} {rest : List Char}
    {r : List Char × List Char} (h : separator? taken before rest = some r) :
    r.2 = rest.dropWhile Text.isBlank := by
  rw [separator?_eq] at h
  split at h
  · cases h
    rfl
  · cases h

/-- The tokens of a line from which `piece`, the last character first, was taken since the last
separator. -/
def tokensAfter (piece rest : List Char) : List (List Char) :=
  match piece with
  | [] => cutTokens rest
  | c :: _ =>
    if isDelimiter c then piece.reverse :: cutTokens rest
    else (piece.reverse ++ rest.takeWhile isWordChar) :: cutTokens (rest.dropWhile isWordChar)

theorem tokensAfter_nil (rest : List Char) : tokensAfter [] rest = cutTokens rest := rfl

/-- A delimiter that was taken is complete. -/
theorem tokensAfter_of_isDelimiter {c : Char} (h : isDelimiter c = true) (piece rest : List Char) :
    tokensAfter (c :: piece) rest = (c :: piece).reverse :: cutTokens rest := by
  rw [tokensAfter, if_pos h]

/-- The beginning of a word that was taken is completed by what follows. -/
theorem tokensAfter_of_not_isDelimiter {c : Char} (h : isDelimiter c = false)
    (piece rest : List Char) :
    tokensAfter (c :: piece) rest
      = ((c :: piece).reverse ++ rest.takeWhile isWordChar)
        :: cutTokens (rest.dropWhile isWordChar) := by
  rw [tokensAfter, h]
  rfl

/-- What may have been taken since the last separator when the search is at a place: nothing, one
delimiter, or characters of a word, the last of which is the one before the place. -/
inductive Pending : Bool → Option Char → List Char → Prop
  /-- Nothing was taken. -/
  | nothing (taken : Bool) (before : Option Char) : Pending taken before []
  /-- A delimiter was taken. -/
  | delimiter {d : Char} (hd : isDelimiter d = true) : Pending false (some d) [d]
  /-- The beginning of a word was taken. -/
  | word {c : Char} {piece : List Char} (hword : ∀ x ∈ c :: piece, isWordChar x = true) :
      Pending false (some c) (c :: piece)

/-- One more character is taken where no separator is found. -/
theorem Pending.take {taken : Bool} {before : Option Char} {piece : List Char}
    (h : Pending taken before piece) {c : Char} {rest : List Char}
    (hnone : separator? taken before (c :: rest) = none) :
    Pending false (some c) (c :: piece) ∧
      tokensAfter (c :: piece) rest = tokensAfter piece (c :: rest) := by
  obtain ⟨hblank, hbeside⟩ := separator?_eq_none_iff.1 hnone
  rw [List.head?_cons, Option.any_some] at hblank hbeside
  cases h with
  | nothing =>
    cases hd : isDelimiter c with
    | true =>
      refine ⟨.delimiter hd, ?_⟩
      rw [tokensAfter_of_isDelimiter hd, tokensAfter_nil, cutTokens_cons_of_isDelimiter hd]
      rfl
    | false =>
      have hc := isWordChar_eq_true_iff.2 ⟨hblank, hd⟩
      refine ⟨.word fun x hx => ?_, ?_⟩
      · rwa [List.mem_singleton.1 hx]
      · rw [tokensAfter_of_not_isDelimiter hd, tokensAfter_nil, cutTokens_cons_of_isWordChar hc]
        rfl
  | delimiter hd =>
    -- behind a delimiter there is a separator
    rw [Option.any_some, hd] at hbeside
    exact absurd (hbeside rfl).2 (by decide)
  | @word b piece hword =>
    have hb := isWordChar_eq_true_iff.1 (hword b List.mem_cons_self)
    have hd := (hbeside rfl).1
    have hc := isWordChar_eq_true_iff.2 ⟨hblank, hd⟩
    refine ⟨.word (List.forall_mem_cons.2 ⟨hc, hword⟩), ?_⟩
    rw [tokensAfter_of_not_isDelimiter hd, tokensAfter_of_not_isDelimiter hb.2,
      List.takeWhile_cons_of_pos hc, List.dropWhile_cons_of_pos hc, List.reverse_cons,
      List.append_assoc]
    rfl

/-- **The pieces that are not empty are the tokens.** -/
theorem filter_piecesFrom {taken : Bool} {before : Option Char} {piece : List Char}
    (h : Pending taken before piece) (rest : List Char) :
    (piecesFrom taken before piece rest).filter (fun piece => !piece.isEmpty)
      = tokensAfter piece rest := by
  fun_induction piecesFrom taken before piece rest with
  | case1 taken before piece rest r hr ih =>
    -- the piece is complete, and the tokens of the rest follow
    have ih := ih (.nothing _ _)
    rw [tokensAfter_nil, snd_of_separator? hr, cutTokens_dropWhile_isBlank,
      ← snd_of_separator? hr] at ih
    cases h with
    | nothing => exact ih
    | delimiter hd =>
      rw [tokensAfter_of_isDelimiter hd, List.filter_cons_of_pos (by simp), ih]
    | @word c piece hword =>
      have hc := isWordChar_eq_true_iff.1 (hword c List.mem_cons_self)
      have hstop := head?_any_isWordChar_of_separator? hc.2 hr
      rw [tokensAfter_of_not_isDelimiter hc.2, takeWhile_eq_nil hstop, dropWhile_eq_self hstop,
        List.append_nil, List.filter_cons_of_pos (by simp), ih]
  | case2 taken before piece hr =>
    cases h with
    | nothing => simp [tokensAfter_nil, cutTokens_nil]
    | delimiter hd =>
      have hbefore := ((separator?_eq_none_iff.1 hr).2 rfl).2
      rw [Option.any_some, hd] at hbefore
      cases hbefore
    | @word c piece hword =>
      have hc := isWordChar_eq_true_iff.1 (hword c List.mem_cons_self)
      rw [tokensAfter_of_not_isDelimiter hc.2]
      simp [cutTokens_nil]
  | case3 taken before piece c rest hr ih =>
    obtain ⟨hpending, htokens⟩ := h.take hr
    rw [ih hpending, htokens]

/-- **The tokens of a line** are its delimiters and its maximal runs of other characters that are
not blank. -/
theorem splitTokens_eq (line : String) :
    splitTokens line = (cutTokens line.toList).map String.ofList := by
  rw [splitTokens, filter_piecesFrom (.nothing false none)]
  rfl

/-! ## Segmentations -/

/-- One delimiter. -/
def IsDelimiterToken (t : List Char) : Prop := ∃ d, isDelimiter d = true ∧ t = [d]

/-- At least one character, and none that is blank or a delimiter. -/
def IsWordToken (t : List Char) : Prop :=
  t ≠ [] ∧ ∀ c ∈ t, Text.isBlank c = false ∧ isDelimiter c = false

/-- A line consists of blank characters, `gap`, and then of tokens each with the blank characters
behind it, of which there is at least one between two words. -/
structure IsSegmentation (line gap : List Char) (segments : List (List Char × List Char)) :
    Prop where
  /-- The parts make up the line. -/
  line_eq : line = gap ++ segments.flatMap fun s => s.1 ++ s.2
  /-- There are only blank characters before the first token. -/
  blank_first : ∀ c ∈ gap, Text.isBlank c = true
  /-- There are only blank characters behind a token. -/
  blank : ∀ s ∈ segments, ∀ c ∈ s.2, Text.isBlank c = true
  /-- The tokens are delimiters and words. -/
  token : ∀ s ∈ segments, IsDelimiterToken s.1 ∨ IsWordToken s.1
  /-- A blank character separates a word from the next one. -/
  separated : segments.IsChain fun s t => IsWordToken s.1 → IsWordToken t.1 → s.2 ≠ []

/-- A delimiter is not a word. -/
theorem IsDelimiterToken.not_isWordToken {t : List Char} (h : IsDelimiterToken t) :
    ¬ IsWordToken t := by
  obtain ⟨d, hd, rfl⟩ := h
  intro hword
  have := (hword.2 d List.mem_cons_self).2
  rw [hd] at this
  cases this

theorem IsWordToken.forall_isWordChar {t : List Char} (h : IsWordToken t) :
    ∀ c ∈ t, isWordChar c = true :=
  fun c hc => isWordChar_eq_true_iff.2 (h.2 c hc)

/-- A character of a word and those that follow it make up a word. -/
theorem isWordToken_takeWhile {c : Char} (hc : isWordChar c = true) (rest : List Char) :
    IsWordToken (c :: rest.takeWhile isWordChar) := by
  have hall : ∀ x ∈ rest.takeWhile isWordChar, isWordChar x = true :=
    List.all_eq_true.1 List.all_takeWhile
  exact ⟨List.cons_ne_nil _ _, List.forall_mem_cons.2
    ⟨isWordChar_eq_true_iff.1 hc, fun x hx => isWordChar_eq_true_iff.1 (hall x hx)⟩⟩

/-- Behind the characters of a word there is no other one. -/
theorem head?_dropWhile_isWordChar (rest : List Char) :
    (rest.dropWhile isWordChar).head?.any isWordChar = false := by
  have hnot := List.head?_dropWhile_not isWordChar rest
  cases hhead : (rest.dropWhile isWordChar).head? with
  | none => rfl
  | some x =>
    rw [hhead] at hnot
    exact hnot

/-- A word is cut off where it ends. -/
theorem cutTokens_append_of_isWordToken {t rest : List Char} (h : IsWordToken t)
    (hrest : rest.head?.any isWordChar = false) :
    cutTokens (t ++ rest) = t :: cutTokens rest := by
  obtain ⟨c, t, rfl⟩ := List.exists_cons_of_ne_nil h.1
  obtain ⟨hc, ht⟩ := List.forall_mem_cons.1 h.forall_isWordChar
  rw [List.cons_append, cutTokens_cons_of_isWordChar hc, List.takeWhile_append_of_pos ht,
    List.dropWhile_append_of_pos ht, takeWhile_eq_nil hrest, dropWhile_eq_self hrest,
    List.append_nil]

/-- A token is cut off, if it is a word only where it ends. -/
theorem cutTokens_append {t rest : List Char} (ht : IsDelimiterToken t ∨ IsWordToken t)
    (hrest : IsWordToken t → rest.head?.any isWordChar = false) :
    cutTokens (t ++ rest) = t :: cutTokens rest := by
  rcases ht with ⟨d, hd, rfl⟩ | hword
  · exact cutTokens_cons_of_isDelimiter hd rest
  · exact cutTokens_append_of_isWordToken hword (hrest hword)

namespace IsSegmentation

variable {line gap : List Char} {segments : List (List Char × List Char)}

/-- A line of blank characters has no token. -/
theorem nil (h : ∀ c ∈ gap, Text.isBlank c = true) : IsSegmentation gap gap [] where
  line_eq := by simp
  blank_first := h
  blank := by simp
  token := by simp
  separated := .nil

/-- A blank character at the beginning widens the first gap. -/
theorem cons_blank (h : IsSegmentation line gap segments) {c : Char}
    (hc : Text.isBlank c = true) : IsSegmentation (c :: line) (c :: gap) segments where
  line_eq := by rw [h.line_eq, List.cons_append]
  blank_first := List.forall_mem_cons.2 ⟨hc, h.blank_first⟩
  blank := h.blank
  token := h.token
  separated := h.separated

/-- A word does not stand at the front of a line that begins with no character of a word. -/
theorem gap_ne_nil {t w : List Char} (h : IsSegmentation line gap ((t, w) :: segments))
    (ht : IsWordToken t) (hline : line.head?.any isWordChar = false) : gap ≠ [] := by
  rintro rfl
  obtain ⟨c, t, rfl⟩ := List.exists_cons_of_ne_nil ht.1
  rw [h.line_eq, List.nil_append, List.flatMap_cons, List.cons_append, List.cons_append,
    List.head?_cons, Option.any_some, ht.forall_isWordChar c List.mem_cons_self] at hline
  cases hline

/-- A token is put in front, if it is a word only where it ends. -/
theorem cons_token (h : IsSegmentation line gap segments) {t : List Char}
    (ht : IsDelimiterToken t ∨ IsWordToken t)
    (hline : IsWordToken t → line.head?.any isWordChar = false) :
    IsSegmentation (t ++ line) [] ((t, gap) :: segments) where
  line_eq := by rw [h.line_eq, List.nil_append, List.flatMap_cons, List.append_assoc]
  blank_first := by simp
  blank := List.forall_mem_cons.2 ⟨h.blank_first, h.blank⟩
  token := List.forall_mem_cons.2 ⟨ht, h.token⟩
  separated := by
    cases segments with
    | nil => exact .singleton _
    | cons s segments =>
      rw [List.isChain_cons_cons]
      exact ⟨fun htw hsw => h.gap_ne_nil hsw (hline htw), h.separated⟩

/-- Without its first token, a segmentation is one of what follows the token. -/
theorem tail {t w : List Char} (h : IsSegmentation line gap ((t, w) :: segments)) :
    IsSegmentation (w ++ segments.flatMap fun s => s.1 ++ s.2) w segments where
  line_eq := rfl
  blank_first := h.blank (t, w) List.mem_cons_self
  blank s hs := h.blank s (List.mem_cons_of_mem _ hs)
  token s hs := h.token s (List.mem_cons_of_mem _ hs)
  separated := h.separated.tail

/-- What follows a word begins with no character of a word. -/
theorem head?_any_isWordChar {t w : List Char}
    (h : IsSegmentation line gap ((t, w) :: segments)) (ht : IsWordToken t) :
    (w ++ segments.flatMap fun s => s.1 ++ s.2).head?.any isWordChar = false := by
  cases w with
  | cons c w =>
    exact isWordChar_of_isBlank (h.blank (t, c :: w) List.mem_cons_self c List.mem_cons_self)
  | nil =>
    cases segments with
    | nil => rfl
    | cons u segments =>
      -- the next token follows at once, so it is a delimiter
      have hu : ¬ IsWordToken u.1 := fun hu =>
        (List.isChain_cons_cons.1 h.separated).1 ht hu rfl
      obtain ⟨d, hd, hud⟩ :=
        (h.token u (List.mem_cons_of_mem _ List.mem_cons_self)).resolve_right hu
      rw [List.nil_append, List.flatMap_cons, hud]
      exact isWordChar_of_isDelimiter hd

/-- **The tokens of a segmentation are those that are cut off**, so that a line has one list of
them only. -/
theorem cutTokens_eq (h : IsSegmentation line gap segments) :
    cutTokens line = segments.map Prod.fst := by
  induction segments generalizing line gap with
  | nil =>
    rw [h.line_eq, cutTokens_append_of_blank h.blank_first]
    exact cutTokens_nil
  | cons s segments ih =>
    obtain ⟨t, w⟩ := s
    rw [h.line_eq, cutTokens_append_of_blank h.blank_first, List.flatMap_cons, List.append_assoc,
      cutTokens_append (h.token _ List.mem_cons_self) h.head?_any_isWordChar, ih h.tail,
      List.map_cons]

end IsSegmentation

/-- **Every line has a segmentation into the tokens that are cut off.** -/
theorem exists_isSegmentation (line : List Char) :
    ∃ gap segments, IsSegmentation line gap segments ∧
      segments.map Prod.fst = cutTokens line := by
  fun_induction cutTokens line with
  | case1 => exact ⟨[], [], .nil (by simp), rfl⟩
  | case2 c rest hc ih =>
    obtain ⟨gap, segments, h, htokens⟩ := ih
    exact ⟨c :: gap, segments, h.cons_blank hc, htokens⟩
  | case3 c rest hc hd ih =>
    obtain ⟨gap, segments, h, htokens⟩ := ih
    have ht : IsDelimiterToken [c] := ⟨c, hd, rfl⟩
    refine ⟨[], ([c], gap) :: segments, h.cons_token (Or.inl ht) fun hword =>
      absurd hword ht.not_isWordToken, ?_⟩
    rw [List.map_cons, htokens]
  | case4 c rest hc hd ih =>
    obtain ⟨gap, segments, h, htokens⟩ := ih
    rw [Bool.not_eq_true] at hc hd
    have ht := isWordToken_takeWhile (isWordChar_eq_true_iff.2 ⟨hc, hd⟩) rest
    have hsegments := h.cons_token (Or.inr ht) fun _ => head?_dropWhile_isWordChar rest
    rw [List.cons_append, List.takeWhile_append_dropWhile] at hsegments
    refine ⟨[], _, hsegments, ?_⟩
    rw [List.map_cons, htokens]

/-- The tokens of a line are delimiters and words. -/
theorem isToken_of_mem_cutTokens {line t : List Char} (ht : t ∈ cutTokens line) :
    IsDelimiterToken t ∨ IsWordToken t := by
  obtain ⟨gap, segments, h, htokens⟩ := exists_isSegmentation line
  rw [← htokens, List.mem_map] at ht
  obtain ⟨s, hs, rfl⟩ := ht
  exact h.token s hs

/-- **Tokens with spaces between them are cut off again.** -/
theorem cutTokens_intercalate {tokens : List (List Char)}
    (h : ∀ t ∈ tokens, IsDelimiterToken t ∨ IsWordToken t) :
    cutTokens ([' '].intercalate tokens) = tokens := by
  have hspace : Text.isBlank ' ' = true := by decide
  induction tokens with
  | nil =>
    rw [List.intercalate_nil]
    exact cutTokens_nil
  | cons t tokens ih =>
    obtain ⟨ht, htokens⟩ := List.forall_mem_cons.1 h
    cases tokens with
    | nil =>
      have hcut : cutTokens (t ++ []) = t :: cutTokens [] := cutTokens_append ht fun _ => rfl
      rw [List.append_nil, cutTokens_nil] at hcut
      rw [List.intercalate_singleton, hcut]
    | cons u tokens =>
      have hstop : (' ' :: [' '].intercalate (u :: tokens)).head?.any isWordChar = false :=
        isWordChar_of_isBlank hspace
      rw [List.intercalate_cons_cons, List.append_assoc, List.singleton_append,
        cutTokens_append ht fun _ => hstop, cutTokens_cons_of_isBlank hspace, ih htokens]

/-- **Cutting a line into tokens is its segmentation.**  Among all lists of texts, the tokens of a
line are the one into which it can be segmented; and joined by spaces, they are cut off again. -/
theorem splitTokens_segmentation (line : String) :
    (∀ tokens : List String,
      (∃ gap segments, IsSegmentation line.toList gap segments ∧
        segments.map (fun s => String.ofList s.1) = tokens) ↔ tokens = splitTokens line) ∧
    splitTokens (" ".intercalate (splitTokens line)) = splitTokens line := by
  have hmap : ∀ segments : List (List Char × List Char),
      segments.map (fun s => String.ofList s.1)
        = (segments.map Prod.fst).map String.ofList := by
    intro segments
    rw [List.map_map]
    rfl
  constructor
  · intro tokens
    rw [splitTokens_eq]
    constructor
    · rintro ⟨gap, segments, h, rfl⟩
      rw [hmap, h.cutTokens_eq]
    · rintro rfl
      obtain ⟨gap, segments, h, htokens⟩ := exists_isSegmentation line.toList
      exact ⟨gap, segments, h, by rw [hmap, htokens]⟩
  · have hlists : (splitTokens line).map String.toList = cutTokens line.toList := by
      rw [splitTokens_eq, List.map_map]
      exact (List.map_congr_left fun t _ => String.toList_ofList).trans (List.map_id _)
    rw [splitTokens_eq (" ".intercalate _), String.toList_intercalate, hlists,
      splitTokens_eq line]
    exact congrArg (List.map String.ofList)
      (cutTokens_intercalate fun t ht => isToken_of_mem_cutTokens ht)

end LexAutomata.Source
