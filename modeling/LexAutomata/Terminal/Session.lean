/-
# Sessions of the terminal

A session stores automata and tables by name, remembers which fragments are built,
and holds a source text.  Each line changes the session and prints lines; a line
that fails prints an error, and keeps what it changed before it failed.  An
interrupt is one of the inputs: it comes while a line is awaited, and not while one
is being answered.
-/
import LexAutomata.Automaton.Merge
import LexAutomata.Drawing.Digraph
import LexAutomata.Source.Reading
import LexAutomata.Table.Minimal
import LexAutomata.Table.Subset
import LexAutomata.Table.ToAutomaton
import LexAutomata.Terminal.Command

namespace LexAutomata.Terminal

open Drawing (Picture)

/-- What can be stored under a name. -/
inductive Stored where
  /-- A nondeterministic automaton. -/
  | automaton (A : Automaton)
  /-- A transition table. -/
  | table (T : Table)
deriving DecidableEq

/-- The number of states. -/
def Stored.stateCount : Stored → Nat
  | automaton A => A.states.size
  | table T => T.rows.size

/-- The word for the kind. -/
def Stored.kind : Stored → String
  | automaton _ => "NFA"
  | table _ => "DFA"

/-- What the terminal remembers. -/
structure Session where
  /-- The source of states for all automata of the session. -/
  counter : Counter := {}
  /-- The fragments that are built, by category. -/
  fragments : Fragments := ∅
  /-- What is stored, by name. -/
  store : OrderedMap String Stored := ∅
  /-- The source text, once one is loaded. -/
  source : Option String := none
deriving DecidableEq

/-- What made a command fail. -/
inductive Failure where
  /-- A fragment could not be built. -/
  | build (error : BuildError)
  /-- A source text could not be read. -/
  | read (error : Source.ReadError)
  /-- An automaton or a table is broken. -/
  | broken (violation : Violation)
  /-- The symbol table could not be made. -/
  | symbols (error : Source.SymbolError)
deriving DecidableEq

/-- The failure in words. -/
def Failure.message : Failure → String
  | build e => e.message
  | read e => e.message
  | broken v => v.message
  | symbols e => e.message

/-- The effect of a command. -/
structure Reaction where
  /-- The session afterwards. -/
  session : Session
  /-- The lines that are printed. -/
  lines : List String := []
  /-- The pictures that are rendered. -/
  pictures : List Picture := []
  /-- What made the command fail, if it did. -/
  failure : Option Failure := none

namespace Session

/-- Stores something under a name. -/
def keep (s : Session) (name : String) (x : Stored) : Session :=
  { s with store := s.store.insert name x }

/-- The line for a name under which nothing is stored. -/
def missing (name : String) : String := "Automaton not found: " ++ name

/-! ## Building and storing -/

/-- Builds the fragments of categories, except those that are built, up to the first failure. -/
def build (s : Session) : List String → Reaction
  | [] => { session := s }
  | name :: names =>
    if s.fragments.contains name then
      let r := s.build names
      { r with lines := ("Already built: " ++ name) :: r.lines }
    else
      match Catalogue.standard.build name s.counter with
      | (.error e, c) => { session := { s with counter := c }, failure := some (.build e) }
      | (.ok A, c) =>
        let s := { s with counter := c, fragments := s.fragments.insert name A }
        let r := (s.keep name (.automaton A)).build names
        { r with lines := s!"Created automaton: {name} ({A.states.size} states)" :: r.lines }

/-- Merges all fragments. -/
def merge (s : Session) (result : String) : Reaction :=
  if s.fragments.size = 0 then
    { session := s, lines := ["Build the category fragments first"] }
  else
    let r := Automaton.merge s.fragments.values (some s.counter) result
    let s := { s with counter := r.2.getD s.counter }
    match r.1 with
    | .error v => { session := s, failure := some (.broken v) }
    | .ok A =>
      { session := s.keep result (.automaton A), lines := ["Created automaton: " ++ result] }

/-- Makes the table of a stored automaton. -/
def determinize (s : Session) (name result : String) : Reaction :=
  match s.store.get? name with
  | none => { session := s, lines := [missing name] }
  | some (.table _) => { session := s, lines := ["Already a DFA: " ++ name] }
  | some (.automaton A) =>
    match A.determinize with
    | .error v => { session := s, failure := some (.broken v) }
    | .ok T =>
      { session := s.keep result (.table T)
        lines := [s!"Created DFA: {result} ({T.rows.size} states)"] }

/-- Minimizes a stored table.  The line printed counts the states of what is stored under both
names afterwards. -/
def minimize (s : Session) (name : String) (criterion : Criterion) (result : String) : Reaction :=
  match s.store.get? name with
  | none => { session := s, lines := [missing name] }
  | some (.automaton _) =>
    { session := s, lines := ["Minimization only defined for DFAs, use to_dfa first"] }
  | some (.table T) =>
    match T.minimize criterion with
    | .error v => { session := s, failure := some (.broken v) }
    | .ok M =>
      let before := if name = result then M.rows.size else T.rows.size
      { session := s.keep result (.table M)
        lines := [s!"Created DFA: {result} ({before} -> {M.rows.size} states)"] }

/-- Forgets something stored, and the fragment of that name. -/
def delete (s : Session) (name : String) : Reaction :=
  if s.store.contains name then
    { session := { s with store := s.store.erase name, fragments := s.fragments.erase name }
      lines := ["Deleted automaton: " ++ name] }
  else { session := s, lines := ["Not found: " ++ name] }

/-! ## Looking -/

/-- Lists what is stored, by name. -/
def listing (s : Session) : List String :=
  if s.store.size = 0 then ["Nothing built"]
  else
    "Automata:" :: ((s.store.entries.mergeSort fun a b => decide (a.1 ≤ b.1)).map fun e =>
      s!"  {e.1}: {e.2.kind}, {e.2.stateCount} states")

/-- Reports on something stored. -/
def presentation (s : Session) (name : String) : List String :=
  match s.store.get? name with
  | none => [missing name]
  | some (.automaton A) => Report.automaton A (some name)
  | some (.table T) => Report.table T name true

/-- Draws something stored. -/
def draw (s : Session) (name : String) : Reaction :=
  match s.store.get? name with
  | none => { session := s, lines := [missing name] }
  | some (.automaton A) => { session := s, pictures := [Drawing.picture A name true] }
  | some (.table T) =>
    match T.toAutomaton name with
    | .error v => { session := s, failure := some (.broken v) }
    | .ok A => { session := s, pictures := [Drawing.picture A name true] }

/-- Does something stored accept the word? -/
def accepts (x : Stored) (word : String) : Except Violation Bool :=
  match x with
  | .automaton A => A.accepts word
  | .table T => .ok (T.accepts word)

/-- Tests whether something stored accepts a word. -/
def test (s : Session) (name word : String) : Reaction :=
  match s.store.get? name with
  | none => { session := s, lines := [missing name] }
  | some x =>
    match accepts x word with
    | .error v => { session := s, failure := some (.broken v) }
    | .ok true => { session := s, lines := [s!"'{word}' is ACCEPTED"] }
    | .ok false => { session := s, lines := [s!"'{word}' is REJECTED"] }

/-- Classifies a token with the fragments that are built. -/
def classify (s : Session) (token : String) : Reaction :=
  if s.fragments.size = 0 then
    { session := s, lines := ["Build the category fragments first"] }
  else
    match Source.classify token s.fragments with
    | .error v => { session := s, failure := some (.broken v) }
    | .ok category =>
      let shown := category.getD "Unrecognized"
      { session := s, lines := [s!"Token: {token}, Type: {shown}"] }

/-! ## Source texts -/

/-- Loads a source text.  The one before it stays if that fails. -/
def load (files : Files) (s : Session) (name : String) : Reaction :=
  match Source.read files name with
  | .error e => { session := s, failure := some (.read e) }
  | .ok code =>
    { session := { s with source := some code }
      lines := [s!"Loaded {Text.lineCount code} lines from {name}"] }

/-- The lines of a report on a source text. -/
def reportLines (fragments : Fragments) (code : String) :
    SourceReport → Except Failure (List String)
  | .tokens => ((Source.tokenize code fragments).map Report.tokens).mapError .broken
  | .errors => ((Source.lexemeErrors code fragments).map Report.lexemeErrors).mapError .broken
  | .symbols => ((Source.symbolTable code fragments).map Report.symbolTable).mapError .symbols

/-- Reports on the source text, once it is loaded and all categories are built. -/
def report (s : Session) (kind : SourceReport) : Reaction :=
  match s.source with
  | none => { session := s, lines := ["Load a source file first"] }
  | some code =>
    if Category.all.all s.fragments.contains then
      match reportLines s.fragments code kind with
      | .error e => { session := s, failure := some e }
      | .ok lines => { session := s, lines := lines }
    else { session := s, lines := ["Build all category fragments first"] }

/-! ## Lines -/

/-- Does what a command asks for. -/
def execute (files : Files) (s : Session) : Command → Reaction
  | .nothing | .leave => { session := s }
  | .help => { session := s, lines := [helpText] }
  | .build names => s.build names
  | .list => { session := s, lines := s.listing }
  | .merge result => s.merge result
  | .present name => { session := s, lines := s.presentation name }
  | .draw name => s.draw name
  | .test name word => s.test name word
  | .classify token => s.classify token
  | .determinize name result => s.determinize name result
  | .minimize name criterion result => s.minimize name criterion result
  | .load file => s.load files file
  | .report kind => s.report kind
  | .delete name => s.delete name
  | .clear =>
    { session := { s with fragments := ∅, store := ∅, source := none }, lines := ["Cleared all"] }
  | .incomplete usage => { session := s, lines := ["Usage: " ++ usage] }
  | .unknown word => { session := s, lines := ["Unknown command: " ++ word] }

end Session

/-- The text that a command prints: its lines, and an error if it failed. -/
def Reaction.text (r : Reaction) : String :=
  match r.failure with
  | none => Text.unlines r.lines
  | some f => Text.unlines (r.lines ++ ["Error: " ++ f.message])

/-! ## Dialogues -/

/-- What comes from the keyboard. -/
inductive Input where
  /-- A line. -/
  | line (text : String)
  /-- The key that interrupts. -/
  | interrupt
deriving DecidableEq

/-- The text that a dialogue begins with. -/
def banner : String := "Lexical Automata Terminal - Type 'help' for commands\n\n"

/-- The text that a dialogue ends with. -/
def farewell : String := "Goodbye!\n"

/-- The effect of one input, and none if it ends the dialogue. -/
def respond (files : Files) (s : Session) : Input → Option Reaction
  | .interrupt => some { session := s, lines := ["\nUse 'exit' to quit"] }
  | .line text =>
    match Command.ofLine text with
    | .leave => none
    | command => some (s.execute files command)

/-- The texts printed after each input up to the one that ends the dialogue, and the pictures
rendered meanwhile. -/
def dialogueFrom (files : Files) (s : Session) : List Input → List String × List Picture
  | [] => ([farewell], [])
  | i :: is =>
    match respond files s i with
    | none => ([farewell], [])
    | some r =>
      let rest := dialogueFrom files r.session is
      (r.text :: rest.1, r.pictures ++ rest.2)

/-- A whole dialogue: the texts between the inputs, and the pictures rendered meanwhile. -/
def dialogue (files : Files) (inputs : List Input) : List String × List Picture :=
  let rest := dialogueFrom files {} inputs
  (banner :: rest.1, rest.2)

end LexAutomata.Terminal
