/-
# Tokens

A line is cut into tokens at blank characters, which are left out, and before and
after each delimiter.  A token belongs to the first category, in order of priority,
whose automaton accepts it.
-/
import LexAutomata.Automaton.Run
import LexAutomata.Pattern.Catalogue
import LexAutomata.Source.Comment
import LexAutomata.Text.Blank

namespace LexAutomata.Source

/-! ## Cutting -/

/-- Is the character a token wherever it stands? -/
def isDelimiter (c : Char) : Bool := c ∈ ['{', '}', '(', ')', '=', ';', ',']

/-- The separator at a place of a line, and what follows it: blank characters, or no character at
all next to a delimiter.  `before` is the character before the place, and `taken` tells that a
separator without characters was taken there already, so that it is not taken again. -/
def separator? (taken : Bool) (before : Option Char) (rest : List Char) :
    Option (List Char × List Char) :=
  let blanks := rest.takeWhile Text.isBlank
  if !blanks.isEmpty || !taken && (rest.head?.any isDelimiter || before.any isDelimiter) then
    some (blanks, rest.dropWhile Text.isBlank)
  else none

/-- A separator takes characters away, unless it has none and is the first at its place. -/
theorem measure_of_separator? {taken : Bool} {before : Option Char} {rest : List Char}
    {r : List Char × List Char} (h : separator? taken before rest = some r) :
    2 * r.2.length + (if r.1.isEmpty then 0 else 1)
      < 2 * rest.length + if taken then 0 else 1 := by
  have hlength := congrArg List.length
    (List.takeWhile_append_dropWhile (p := Text.isBlank) (l := rest))
  rw [List.length_append] at hlength
  rw [separator?] at h
  split at h
  · rename_i hfound
    cases h
    cases hblanks : rest.takeWhile Text.isBlank with
    | nil =>
      -- the flag is not set, and the separator without characters sets it
      rw [hblanks] at hfound hlength
      have htaken : taken = false := by
        cases taken
        · rfl
        · simp at hfound
      rw [List.length_nil, Nat.zero_add] at hlength
      simp [hlength, htaken]
    | cons c blanks =>
      rw [hblanks, List.length_cons] at hlength
      simp only [List.isEmpty_cons, Bool.false_eq_true, if_false]
      omega
  · cases h

/-- The pieces between the separators of a line, which are found from left to right.  `piece` holds
the characters since the last separator, the last one first. -/
def piecesFrom (taken : Bool) (before : Option Char) (piece rest : List Char) :
    List (List Char) :=
  match _h : separator? taken before rest with
  | some r => piece.reverse :: piecesFrom r.1.isEmpty (r.1.getLast?.or before) [] r.2
  | none =>
    match rest with
    | [] => [piece.reverse]
    | c :: rest => piecesFrom false (some c) (c :: piece) rest
termination_by 2 * rest.length + if taken then 0 else 1
decreasing_by
  · exact measure_of_separator? _h
  · simp only [if_false, List.length_cons]
    omega

/-- The tokens of a line: its pieces that are not empty. -/
def splitTokens (line : String) : List String :=
  ((piecesFrom false none [] line.toList).filter fun piece => !piece.isEmpty).map String.ofList

/-- The tokens of a text without its comments, line by line. -/
def tokenLines (code : String) : List (List String) :=
  (Text.lines (stripComments code)).map splitTokens

/-! ## Classifying -/

/-- The first of the categories whose automaton accepts the token.  A category without an
automaton is passed over. -/
def classifyIn (token : String) (fragments : Fragments) :
    List String → Except Violation (Option String)
  | [] => .ok none
  | name :: names =>
    match fragments.get? name with
    | none => classifyIn token fragments names
    | some A =>
      match A.accepts token with
      | .error v => .error v
      | .ok true => .ok (some name)
      | .ok false => classifyIn token fragments names

/-- The category of a token. -/
def classify (token : String) (fragments : Fragments) : Except Violation (Option String) :=
  classifyIn token fragments Category.priority

/-- A token with its category, if it has one, and the number of its line. -/
structure Token where
  /-- The characters of the token. -/
  text : String
  /-- The category that accepts it. -/
  category : Option String
  /-- The line, counted from one. -/
  line : Int
deriving DecidableEq

/-- Classifies the tokens of one line. -/
def tokenizeLine (fragments : Fragments) (line : Int) : List String → Except Violation (List Token)
  | [] => .ok []
  | t :: ts => do
    let category ← classify t fragments
    let rest ← tokenizeLine fragments line ts
    return ⟨t, category, line⟩ :: rest

/-- Classifies the tokens of consecutive lines, the first of which has the given number. -/
def tokenizeLines (fragments : Fragments) (line : Int) :
    List (List String) → Except Violation (List Token)
  | [] => .ok []
  | l :: ls => do
    let first ← tokenizeLine fragments line l
    let rest ← tokenizeLines fragments (line + 1) ls
    return first ++ rest

/-- The classified tokens of a source text. -/
def tokenize (code : String) (fragments : Fragments) : Except Violation (List Token) :=
  tokenizeLines fragments 1 (tokenLines code)

/-! ## Unrecognized tokens -/

/-- A token that could not be accepted. -/
structure LexemeError where
  /-- The line, counted from one. -/
  line : Int
  /-- The characters of the token. -/
  token : String
  /-- Why it is reported. -/
  reason : String := "Unrecognized token"
deriving DecidableEq

/-- The report on a token, if it belongs to no category. -/
def Token.error? (t : Token) : Option LexemeError :=
  match t.category with
  | none => some { line := t.line, token := t.text }
  | some _ => none

/-- The tokens of a source text that belong to no category. -/
def lexemeErrors (code : String) (fragments : Fragments) : Except Violation (List LexemeError) :=
  (tokenize code fragments).map fun tokens => tokens.filterMap Token.error?

end LexAutomata.Source
