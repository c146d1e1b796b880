/-
# Classifying with the standard fragments

Where the fragments are those of categories, a token has the first category in the order
of priority that is built and to which it belongs (`Drawn.classify_eq`).  So no report on
a source text can fail (`exists_tokenize_eq`, `exists_lexemeErrors_eq`), and the symbol
table needs no more than the identifiers (`exists_symbolTable_eq`).
-/
import LexAutomata.Proofs.Pattern.Standard
import LexAutomata.Source.Symbol

namespace LexAutomata

open Source

namespace Catalogue.Drawn

variable {fs : Fragments} {c : Counter}

/-- A token is put into the first category that has a fragment and that it belongs to. -/
theorem classifyIn_eq (h : Drawn fs c) (token : String) (names : List String) :
    classifyIn token fs names
      = .ok (names.find? fun a => fs.contains a && decide (Grammar.Belongs a token)) := by
  induction names with
  | nil => rfl
  | cons a names ih =>
    rw [classifyIn, List.find?_cons, OrderedMap.contains]
    cases hA : fs.get? a with
    | none =>
      rw [Option.isSome_none, Bool.false_and]
      exact ih
    | some A =>
      rw [Option.isSome_some, Bool.true_and]
      simp only [h.accepts_eq hA token]
      cases decide (Grammar.Belongs a token)
      · exact ih
      · rfl

/-- **A token has the first category that is built and to which it belongs.** -/
theorem classify_eq (h : Drawn fs c) (token : String) :
    classify token fs
      = .ok (Category.priority.find? fun a =>
          fs.contains a && decide (Grammar.Belongs a token)) :=
  h.classifyIn_eq token Category.priority

/-! ## Reports on a source text -/

/-- The tokens of a line are all classified. -/
theorem exists_tokenizeLine_eq (h : Drawn fs c) (line : Int) (ts : List String) :
    ∃ tokens, tokenizeLine fs line ts = .ok tokens := by
  induction ts with
  | nil => exact ⟨[], rfl⟩
  | cons t ts ih =>
    obtain ⟨rest, hrest⟩ := ih
    rw [tokenizeLine, h.classify_eq, hrest]
    exact ⟨_, rfl⟩

/-- The tokens of all lines are classified. -/
theorem exists_tokenizeLines_eq (h : Drawn fs c) (line : Int) (ls : List (List String)) :
    ∃ tokens, tokenizeLines fs line ls = .ok tokens := by
  induction ls generalizing line with
  | nil => exact ⟨[], rfl⟩
  | cons l ls ih =>
    obtain ⟨first, hfirst⟩ := h.exists_tokenizeLine_eq line l
    obtain ⟨rest, hrest⟩ := ih (line + 1)
    rw [tokenizeLines, hfirst, hrest]
    exact ⟨_, rfl⟩

/-- Every source text can be cut into classified tokens. -/
theorem exists_tokenize_eq (h : Drawn fs c) (code : String) :
    ∃ tokens, tokenize code fs = .ok tokens :=
  h.exists_tokenizeLines_eq 1 (tokenLines code)

/-- The list of unrecognized tokens is always made. -/
theorem exists_lexemeErrors_eq (h : Drawn fs c) (code : String) :
    ∃ errors, lexemeErrors code fs = .ok errors := by
  obtain ⟨tokens, htokens⟩ := h.exists_tokenize_eq code
  rw [lexemeErrors, htokens]
  exact ⟨_, rfl⟩

/-- A drawn fragment decides which candidates are kept. -/
theorem exists_keepAccepted_eq (h : Drawn fs c) {a : String} {A : Automaton}
    (hA : fs.get? a = some A) (es : List SymbolEntry) :
    ∃ kept, keepAccepted A es = .ok kept := by
  induction es with
  | nil => exact ⟨[], rfl⟩
  | cons e es ih =>
    obtain ⟨rest, hrest⟩ := ih
    rw [keepAccepted, h.accepts_eq hA, hrest]
    exact ⟨_, rfl⟩

/-- Once identifiers are built, every source text has a symbol table. -/
theorem exists_symbolTable_eq (h : Drawn fs c) (hid : fs.contains Category.identifier = true)
    (code : String) : ∃ entries, symbolTable code fs = .ok entries := by
  obtain ⟨A, hA⟩ := OrderedMap.mem_keys_iff.1 (OrderedMap.contains_iff.1 hid)
  obtain ⟨kept, hkept⟩ := h.exists_keepAccepted_eq hA (candidates false (tokenLines code))
  rw [symbolTable, hA]
  simp only [hkept]
  exact ⟨kept, rfl⟩

end Catalogue.Drawn

end LexAutomata
