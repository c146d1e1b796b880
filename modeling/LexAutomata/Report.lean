/-
# Reports

Plain-text reports on automata, tables, and the tokens of a source text.  A report
is a list of lines.
-/
import LexAutomata.Source.Symbol
import LexAutomata.Table.Minimal

namespace LexAutomata

namespace Report

open Source (Token LexemeError SymbolEntry)

/-- A row of equal characters. -/
def rule (c : Char) (width : Nat) : String := String.ofList (List.replicate width c)

/-- The text, filled up with spaces to the given number of characters. -/
def padRight (width : Nat) (s : String) : String :=
  s ++ String.ofList (List.replicate (width - s.length) ' ')

/-! ## Automata -/

/-- How reports and drawings show a label. -/
def showLabel : Label → String
  | .epsilon => "ε"
  | .symbol s => s

/-- Does the first label stand before the second?  Epsilon comes first, then the symbols. -/
def labelLE : Label → Label → Bool
  | .epsilon, _ => true
  | .symbol _, .epsilon => false
  | .symbol s, .symbol t => decide (s ≤ t)

/-- The entries of a row in the order of their labels. -/
def sortedRow (row : OrderedMap Label StateSet) : List (Label × StateSet) :=
  row.entries.mergeSort fun a b => labelLE a.1 b.1

/-- The lines for the transitions of one state. -/
def stateLines (A : Automaton) (q : Int) : List String :=
  (sortedRow (A.row q)).map fun e =>
    s!"  State {q} --({showLabel e.1})--> {bracketed e.2.toList}"

/-- The lines for all transitions of the states of an automaton, states ascending. -/
def transitionLines (A : Automaton) : List String := A.states.toList.flatMap (stateLines A)

/-- The heading of a report on an automaton: the title, or else its name. -/
def heading (A : Automaton) : Option String → String
  | none => A.name
  | some title => if title = "" then A.name else title

/-- How a report shows a start state. -/
def showStart : Option Int → String
  | none => "None"
  | some q => toString q

/-- The report on an automaton. -/
def automaton (A : Automaton) (title : Option String) : List String :=
  ["", rule '=' 30, s!"  NFA for: {heading A title}", rule '=' 30,
    s!"Total States: {A.states.size}", s!"Start State: {showStart A.start}",
    s!"Final States: {bracketed A.finals.toList}", rule '-' 30, "Transitions:"]
    ++ transitionLines A ++ [rule '=' 30, ""]

/-! ## Tables -/

/-- The entries of a row in the order of their symbols. -/
def sortedEntries (row : OrderedMap String Int) : List (String × Int) :=
  row.entries.mergeSort fun a b => decide (a.1 ≤ b.1)

/-- The lines for all transitions of a table, states ascending. -/
def tableLines (T : Table) : List String :=
  T.states.toList.flatMap fun q =>
    (sortedEntries (T.row q)).map fun e => s!"  State {q} --({e.1})--> {e.2}"

/-- The report on a table. -/
def table (T : Table) (title : String) (showTransitions : Bool) : List String :=
  [title ++ ":", s!"Total DFA States: {T.rows.size}", s!"Start State: {T.start}",
    s!"Final States: {bracketed T.finals.toList}", s!"Alphabet: {String.join T.alphabet}"]
    ++ (if showTransitions then rule '-' 30 :: "DFA Transitions:" :: tableLines T else [])
    ++ [rule '=' 30, ""]

/-- The report on a table before and after minimization. -/
def minimization (before after : Table) (showTransitions : Bool) : List String :=
  ["", rule '=' 30, "        DFA Minimization       ", rule '=' 30]
    ++ table before "Before Minimization" showTransitions
    ++ table after "After Minimization" showTransitions

/-! ## Source texts -/

/-- The report on the tokens that belong to a category. -/
def tokens (ts : List Token) : List String :=
  let recognized := ts.filterMap fun t =>
    t.category.map fun category => s!"Token: {t.text}, Type: {category}"
  ["", "Tokenized Code:", rule '=' 30] ++ recognized
    ++ [rule '=' 30, s!"Total Number of Tokens: {recognized.length}"]

/-- One line of columns of the given widths, with a space between two columns. -/
def columns (cells : List (Nat × String)) : String :=
  " ".intercalate (cells.map fun c => padRight c.1 c.2)

/-- A table with its headline, or a remark in place of no rows. -/
def ruled (title remark : String) (headline : String) (rows : List String) : List String :=
  ["", title, rule '=' 42, headline, rule '-' 42] ++ rows
    ++ (if rows.isEmpty then [remark] else []) ++ [rule '=' 42]

/-- The report on the tokens that belong to no category. -/
def lexemeErrors (es : List LexemeError) : List String :=
  ruled "Lexeme Errors:" "No lexeme errors found."
    (columns [(10, "Line No"), (15, "Unidentified Token"), (20, "Reason")])
    (es.map fun e => columns [(10, toString e.line), (15, e.token), (20, e.reason)])

/-- The report on the declared variables. -/
def symbolTable (es : List SymbolEntry) : List String :=
  ruled "Symbol Table:" "No variables found."
    (columns [(15, "Identifier"), (10, "Datatype"), (10, "Scope")])
    (es.map fun e => columns [(15, e.identifier), (10, e.datatype), (10, e.scope)])

end Report

end LexAutomata
