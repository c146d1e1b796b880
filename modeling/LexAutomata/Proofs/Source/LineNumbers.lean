/-
# Line numbers

Blanking comments out takes characters from lines and never moves a character to another
line (`forall₂_sublist_lines`), so the lines of the blanked text have the numbers of the
lines of the text.  A token is numbered by the line that it is cut from, and cutting a line
takes nothing but blank characters from it (`flatten_cutTokens`), so the tokens of a number
are its line without blank characters (`Placed`).
-/
import Mathlib.Data.List.Forall2
import LexAutomata.Proofs.Automaton.Path
import LexAutomata.Proofs.Source.Comment
import LexAutomata.Proofs.Source.Segmentation

namespace LexAutomata

/-- The text without its blank characters. -/
def Text.withoutBlanks (s : String) : String := String.ofList (s.toList.filter fun c => !isBlank c)

namespace Source

/-! ## Lines of a blanked text -/

/-- The texts have the same number of lines, and each line of the first is part of that of the
second. -/
def Sublines (cs ds : List Char) : Prop :=
  List.Forall₂ List.Sublist (Text.splitLines cs) (Text.splitLines ds)

namespace Sublines

variable {cs ds : List Char}

/-- The first lines and the others, of texts that are line by line part of each other. -/
theorem exists_cons (h : Sublines cs ds) :
    ∃ l ls m ms, Text.splitLines cs = l :: ls ∧ Text.splitLines ds = m :: ms ∧
      l.Sublist m ∧ List.Forall₂ List.Sublist ls ms := by
  obtain ⟨l, ls, hl⟩ := List.exists_cons_of_ne_nil (Text.splitLines_ne_nil cs)
  obtain ⟨m, ms, hm⟩ := List.exists_cons_of_ne_nil (Text.splitLines_ne_nil ds)
  rw [Sublines, hl, hm, List.forall₂_cons] at h
  exact ⟨l, ls, m, ms, hl, hm, h⟩

/-- A character that both texts begin with. -/
theorem cons (h : Sublines cs ds) (c : Char) : Sublines (c :: cs) (c :: ds) := by
  by_cases hc : c = '\n'
  · rw [Sublines, Text.splitLines, if_pos hc, Text.splitLines, if_pos hc]
    exact .cons .slnil h
  · obtain ⟨l, ls, m, ms, hl, hm, hfirst, hrest⟩ := h.exists_cons
    rw [Sublines, Text.splitLines_cons_of_ne hc hl, Text.splitLines_cons_of_ne hc hm]
    exact .cons (hfirst.cons_cons c) hrest

/-- A character that is left out and is no line break. -/
theorem skip (h : Sublines cs ds) {c : Char} (hc : ¬ c = '\n') : Sublines cs (c :: ds) := by
  obtain ⟨l, ls, m, ms, hl, hm, hfirst, hrest⟩ := h.exists_cons
  rw [Sublines, hl, Text.splitLines_cons_of_ne hc hm]
  exact .cons (hfirst.cons c) hrest

/-- A part that is left out except for its line breaks. -/
theorem breaksOf_append (h : Sublines cs ds) (part : List Char) :
    Sublines (breaksOf part ++ cs) (part ++ ds) := by
  induction part with
  | nil => exact h
  | cons c part ih =>
    by_cases hc : c = '\n'
    · rw [breaksOf, List.filter_cons_of_pos (by simpa using hc), List.cons_append, ← breaksOf]
      exact ih.cons c
    · rw [breaksOf, List.filter_cons_of_neg (by simpa using hc), ← breaksOf]
      exact ih.skip hc

end Sublines

/-- A line comment holds no line break. -/
theorem breaksOf_takeWhile (cs : List Char) : breaksOf (cs.takeWhile fun c => c ≠ '\n') = [] := by
  rw [breaksOf, List.filter_eq_nil_iff]
  intro c hc
  have := List.all_eq_true.1 List.all_takeWhile c hc
  simpa using this

/-- **Blanking comments out takes characters from lines and leaves the others on their lines.** -/
theorem sublines_blankComments (cs : List Char) : Sublines (blankComments cs) cs := by
  fun_induction blankComments cs with
  | case1 => exact List.Forall₂.cons .slnil .nil
  | case2 rest ih =>
    have hrest := ih.breaksOf_append (rest.takeWhile fun c => c ≠ '\n')
    rw [breaksOf_takeWhile, List.nil_append, List.takeWhile_append_dropWhile] at hrest
    exact (hrest.skip (by decide)).skip (by decide)
  | case3 rest r hr ih =>
    rw [eq_append_of_splitAtClose hr]
    have hrest : Sublines (blankComments r.2) ('*' :: '/' :: r.2) :=
      (ih.skip (by decide)).skip (by decide)
    exact ((hrest.breaksOf_append r.1).skip (by decide)).skip (by decide)
  | case4 rest hr ih => exact ih.cons '/'
  | case5 c rest _ _ ih => exact ih.cons c

/-- The lines of a blanked text are parts of the lines of the text. -/
theorem forall₂_sublist_lines (code : String) :
    List.Forall₂ (fun l m => l.toList.Sublist m.toList) (Text.lines (stripComments code))
      (Text.lines code) := by
  rw [Text.lines, Text.lines, List.forall₂_map_left_iff, List.forall₂_map_right_iff,
    toList_stripComments]
  simp only [String.toList_ofList]
  exact sublines_blankComments code.toList

/-! ## Characters of tokens -/

/-- **Cutting takes nothing but the blank characters from a line.** -/
theorem flatten_cutTokens (cs : List Char) :
    (cutTokens cs).flatten = cs.filter fun c => !Text.isBlank c := by
  fun_induction cutTokens cs with
  | case1 => rfl
  | case2 c rest hc ih => rw [ih, List.filter_cons_of_neg (by simpa using hc)]
  | case3 c rest hc hd ih =>
    rw [List.flatten_cons, ih, List.filter_cons_of_pos (by simpa using hc)]
    rfl
  | case4 c rest hc hd ih =>
    have hword : ∀ x ∈ rest.takeWhile isWordChar, (!Text.isBlank x) = true := by
      intro x hx
      have := List.all_eq_true.1 List.all_takeWhile x hx
      rw [(isWordChar_eq_true_iff.1 this).1]
      rfl
    rw [List.flatten_cons, ih, List.filter_cons_of_pos (by simpa using hc), List.cons_append]
    congr 1
    conv => rhs; rw [← List.takeWhile_append_dropWhile (p := isWordChar) (l := rest)]
    rw [List.filter_append, List.filter_eq_self.2 hword]

theorem join_splitTokens (line : String) :
    String.join (splitTokens line) = Text.withoutBlanks line := by
  rw [← String.toList_inj, String.toList_join, splitTokens_eq, List.flatMap_map,
    Text.withoutBlanks, String.toList_ofList, ← flatten_cutTokens]
  simp only [String.toList_ofList]
  exact List.flatMap_id

/-! ## Computations one after the other -/

section Bind

variable {ε α β : Type} {x : Except ε α} {f : α → Except ε β}

theorem bind_eq_ok_iff {b : β} : (x >>= f) = .ok b ↔ ∃ a, x = .ok a ∧ f a = .ok b := by
  cases x <;> simp [bind, Except.bind]

/-- The first computation fails, or the second one does. -/
theorem bind_eq_error_iff {e : ε} :
    (x >>= f) = .error e ↔ x = .error e ∨ ∃ a, x = .ok a ∧ f a = .error e := by
  cases x <;> simp [bind, Except.bind]

end Bind

/-! ## Lines of tokens -/

variable {fragments : Fragments}

theorem of_tokenizeLine {line : Int} {ts : List String} {tokens : List Token}
    (h : tokenizeLine fragments line ts = .ok tokens) :
    tokens.map Token.text = ts ∧ ∀ t ∈ tokens, t.line = line := by
  induction ts generalizing tokens with
  | nil =>
    cases h
    exact ⟨rfl, by simp⟩
  | cons t ts ih =>
    rw [tokenizeLine, bind_eq_ok_iff] at h
    obtain ⟨category, -, h⟩ := h
    obtain ⟨rest, hrest, h⟩ := bind_eq_ok_iff.1 h
    cases h
    obtain ⟨htexts, hlines⟩ := ih hrest
    exact ⟨congrArg (t :: ·) htexts, List.forall_mem_cons.2 ⟨rfl, hlines⟩⟩

/-- The tokens of consecutive lines, the first of which has the given number, in their places. -/
structure Placed (line : Int) (ls : List (List String)) (tokens : List Token) : Prop where
  /-- The lines do not descend. -/
  ordered : tokens.Pairwise fun s t => s.line ≤ t.line
  /-- The lines are those that there are. -/
  bounds : ∀ t ∈ tokens, line ≤ t.line ∧ t.line < line + ls.length
  /-- The tokens of a number are those of its line. -/
  texts : ∀ k : Nat, (tokens.filter fun t => t.line = line + k).map Token.text = ls[k]?.getD []

theorem placed_nil (line : Int) : Placed line [] [] where
  ordered := .nil
  bounds := by simp
  texts := by simp

/-- One more line is put in front. -/
theorem Placed.append {line : Int} {ls : List (List String)} {rest : List Token}
    (h : Placed (line + 1) ls rest) {first : List Token} (hfirst : ∀ t ∈ first, t.line = line) :
    Placed line (first.map Token.text :: ls) (first ++ rest) where
  ordered := by
    rw [List.pairwise_append]
    refine ⟨?_, h.ordered, fun s hs t ht => ?_⟩
    · exact List.pairwise_of_forall_mem_list fun s hs t ht =>
        Int.le_of_eq ((hfirst s hs).trans (hfirst t ht).symm)
    · have := (h.bounds t ht).1
      rw [hfirst s hs]
      omega
  bounds t ht := by
    rw [List.length_cons]
    rcases List.mem_append.1 ht with ht | ht
    · rw [hfirst t ht]
      omega
    · have := h.bounds t ht
      omega
  texts k := by
    rw [List.filter_append, List.map_append]
    cases k with
    | zero =>
      have hall : first.filter (fun t => t.line = line + (0 : Nat)) = first :=
        List.filter_eq_self.2 fun t ht => by simp [hfirst t ht]
      have hnone : rest.filter (fun t => t.line = line + (0 : Nat)) = [] := by
        rw [List.filter_eq_nil_iff]
        intro t ht
        have := (h.bounds t ht).1
        simp
        omega
      rw [hall, hnone]
      simp
    | succ k =>
      have hnone : first.filter (fun t => t.line = line + (k + 1 : Nat)) = [] := by
        rw [List.filter_eq_nil_iff]
        intro t ht
        simp [hfirst t ht]
        omega
      have hline : line + (k + 1 : Nat) = line + 1 + k := by omega
      rw [hnone, hline, List.map_nil, List.nil_append, h.texts k, List.getElem?_cons_succ]

/-- **Tokens stand on the lines that they are cut from.** -/
theorem placed_of_tokenizeLines {line : Int} {ls : List (List String)} {tokens : List Token}
    (h : tokenizeLines fragments line ls = .ok tokens) : Placed line ls tokens := by
  induction ls generalizing line tokens with
  | nil =>
    cases h
    exact placed_nil line
  | cons l ls ih =>
    rw [tokenizeLines, bind_eq_ok_iff] at h
    obtain ⟨first, hfirst, h⟩ := h
    obtain ⟨rest, hrest, h⟩ := bind_eq_ok_iff.1 h
    cases h
    obtain ⟨rfl, hlines⟩ := of_tokenizeLine hfirst
    exact (ih hrest).append hlines

/-! ## Failures -/

/-- Some category is to be tried with an automaton that has no start state, which is reported. -/
def Unstarted (fragments : Fragments) (v : Violation) : Prop :=
  ∃ name ∈ Category.priority, ∃ A, fragments.get? name = some A ∧ A.start = none ∧
    v = .noStart A.name

theorem of_classifyIn_eq_error {token : String} {names : List String} {v : Violation}
    (h : classifyIn token fragments names = .error v) :
    ∃ name ∈ names, ∃ A, fragments.get? name = some A ∧ A.start = none ∧
      v = .noStart A.name := by
  induction names with
  | nil => cases h
  | cons name names ih =>
    have hothers (h : classifyIn token fragments names = .error v) :
        ∃ name' ∈ name :: names, ∃ A, fragments.get? name' = some A ∧ A.start = none ∧
          v = .noStart A.name := by
      obtain ⟨name', hname, hA⟩ := ih h
      exact ⟨name', List.mem_cons_of_mem _ hname, hA⟩
    rw [classifyIn] at h
    cases hA : fragments.get? name with
    | none =>
      rw [hA] at h
      exact hothers h
    | some A =>
      rw [hA] at h
      cases hstart : A.start with
      | none =>
        have haccepts : A.accepts token = .error (.noStart A.name) := by
          rw [Automaton.accepts, hstart]
        simp only [haccepts] at h
        cases h
        exact ⟨name, List.mem_cons_self, A, hA, hstart, rfl⟩
      | some q =>
        obtain ⟨b, hb⟩ := Automaton.exists_accepts_eq_ok hstart token
        simp only [hb] at h
        cases b with
        | true => cases h
        | false => exact hothers h

theorem unstarted_of_tokenizeLine {line : Int} {ts : List String} {v : Violation}
    (h : tokenizeLine fragments line ts = .error v) : Unstarted fragments v := by
  induction ts with
  | nil => cases h
  | cons t ts ih =>
    rw [tokenizeLine, bind_eq_error_iff] at h
    obtain hcategory | ⟨category, -, h⟩ := h
    · exact of_classifyIn_eq_error hcategory
    · obtain hrest | ⟨rest, -, h⟩ := bind_eq_error_iff.1 h
      · exact ih hrest
      · cases h

/-- Tokenizing fails only for want of a start state. -/
theorem unstarted_of_tokenizeLines {line : Int} {ls : List (List String)} {v : Violation}
    (h : tokenizeLines fragments line ls = .error v) : Unstarted fragments v := by
  induction ls generalizing line with
  | nil => cases h
  | cons l ls ih =>
    rw [tokenizeLines, bind_eq_error_iff] at h
    obtain hfirst | ⟨first, -, h⟩ := h
    · exact unstarted_of_tokenizeLine hfirst
    · obtain hrest | ⟨rest, -, h⟩ := bind_eq_error_iff.1 h
      · exact ih hrest
      · cases h

/-! ## Tokens of a text -/

/-- The characters of the tokens of a line. -/
def textOnLine (tokens : List Token) (line : Int) : String :=
  String.join ((tokens.filter fun t => t.line = line).map Token.text)

/-- The tokens of a text in the places of its lines. -/
structure KeepsLines (code : String) (tokens : List Token) : Prop where
  /-- The lines do not descend. -/
  ordered : tokens.Pairwise fun s t => s.line ≤ t.line
  /-- The lines are those of the text, counted from one. -/
  bounds : ∀ t ∈ tokens, 1 ≤ t.line ∧ t.line ≤ (Text.lines code).length
  /-- The tokens of a line are the line of the blanked text without blank characters. -/
  texts : ∀ (k : Nat) (l : String), (Text.lines (stripComments code))[k]? = some l →
    textOnLine tokens (k + 1) = Text.withoutBlanks l
  /-- The tokens of a line are part of the line. -/
  sublist : ∀ (k : Nat) (l : String), (Text.lines code)[k]? = some l →
    (textOnLine tokens (k + 1)).toList.Sublist l.toList

/-- Blanking comments out does not change the number of lines. -/
theorem length_lines_stripComments (code : String) :
    (Text.lines (stripComments code)).length = (Text.lines code).length := by
  rw [Text.length_lines, Text.length_lines, toList_stripComments, count_blankComments]

theorem keepsLines_of_tokenize {code : String} {tokens : List Token}
    (h : tokenize code fragments = .ok tokens) : KeepsLines code tokens := by
  have hplaced := placed_of_tokenizeLines h
  have htexts : ∀ (k : Nat) (l : String), (Text.lines (stripComments code))[k]? = some l →
      textOnLine tokens (k + 1) = Text.withoutBlanks l := by
    intro k l hl
    have hline : tokens.filter (fun t => t.line = (k : Int) + 1)
        = tokens.filter (fun t => t.line = 1 + (k : Int)) := by
      simp only [Int.add_comm]
    rw [textOnLine, hline, hplaced.texts k, tokenLines, List.getElem?_map, hl]
    exact join_splitTokens l
  refine ⟨hplaced.ordered, fun t ht => ?_, htexts, fun k m hm => ?_⟩
  · have := hplaced.bounds t ht
    rw [tokenLines, List.length_map, length_lines_stripComments] at this
    omega
  · obtain ⟨hk, rfl⟩ := List.getElem?_eq_some_iff.1 hm
    have hk' : k < (Text.lines (stripComments code)).length := by
      rwa [length_lines_stripComments]
    have hpart := (forall₂_sublist_lines code).get hk' hk
    rw [List.get_eq_getElem, List.get_eq_getElem] at hpart
    rw [htexts k _ (List.getElem?_eq_getElem hk'), Text.withoutBlanks, String.toList_ofList]
    exact List.filter_sublist.trans hpart

/-- **Line numbers survive.**  Blanking comments out keeps the line breaks, and leaves of each line
a part.  The tokens that are found with any fragments, unless one to be tried has no start state,
stand in the order of their lines, and those of a line are what is left of it without blank
characters. -/
theorem tokenize_keepsLines (code : String) (fragments : Fragments) :
    (stripComments code).toList.count '\n' = code.toList.count '\n' ∧
    List.Forall₂ (fun l m => l.toList.Sublist m.toList) (Text.lines (stripComments code))
      (Text.lines code) ∧
    ((∃ tokens, tokenize code fragments = .ok tokens ∧ KeepsLines code tokens) ∨
      ∃ v, tokenize code fragments = .error v ∧ Unstarted fragments v) := by
  refine ⟨?_, forall₂_sublist_lines code, ?_⟩
  · rw [toList_stripComments, count_blankComments]
  · cases h : tokenize code fragments with
    | ok tokens => exact Or.inl ⟨tokens, rfl, keepsLines_of_tokenize h⟩
    | error v => exact Or.inr ⟨v, rfl, unstarted_of_tokenizeLines h⟩

end Source

end LexAutomata
