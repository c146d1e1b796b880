/-
# Commands of the terminal

A line is a command word, in any mixture of cases, and the words after it.  Words
beyond those that a command uses are overlooked.
-/
import LexAutomata.Pattern.Catalogue
import LexAutomata.Table.Partition
import LexAutomata.Text.Blank
import LexAutomata.Text.LowerCase

namespace LexAutomata.Terminal

/-- The reports on the loaded source text. -/
inductive SourceReport where
  /-- All recognized tokens. -/
  | tokens
  /-- All unrecognized tokens. -/
  | errors
  /-- All declared variables. -/
  | symbols
deriving DecidableEq

/-- What a line asks for. -/
inductive Command where
  /-- Nothing. -/
  | nothing
  /-- To leave the terminal. -/
  | leave
  /-- A list of the commands. -/
  | help
  /-- The fragments of some categories. -/
  | build (categories : List String)
  /-- A list of what is stored. -/
  | list
  /-- The union of all fragments. -/
  | merge (result : String)
  /-- A report on something stored. -/
  | present (name : String)
  /-- A drawing of something stored. -/
  | draw (name : String)
  /-- Whether something stored accepts a word. -/
  | test (name word : String)
  /-- The category of a token. -/
  | classify (token : String)
  /-- The table of a stored automaton. -/
  | determinize (name result : String)
  /-- A stored table with fewer states. -/
  | minimize (name : String) (criterion : Criterion) (result : String)
  /-- A source text. -/
  | load (file : String)
  /-- A report on the source text. -/
  | report (kind : SourceReport)
  /-- To forget something stored. -/
  | delete (name : String)
  /-- To forget everything. -/
  | clear
  /-- A command without the words it needs. -/
  | incomplete (usage : String)
  /-- No command. -/
  | unknown (word : String)
deriving DecidableEq

namespace Command

/-- The criterion and the name for the result of a minimization. -/
def minimizeWords (name : String) : List String → Command
  | [] => .minimize name .targetGroup (name ++ "_min")
  | w :: ws =>
    if w = Criterion.targetState.name then .minimize name .targetState (ws.headD (name ++ "_min"))
    else .minimize name .targetGroup w

/-- The command for a lower-case command word and the words after it. -/
def ofWord (word : String) (rest : List String) : Command :=
  match word, rest with
  | "exit", _ | "quit", _ => .leave
  | "help", _ => .help
  | "build", [] => .build Category.all
  | "build", names => .build names
  | "list", _ => .list
  | "merge", [] => .merge "Combined"
  | "merge", result :: _ => .merge result
  | "show", [] => .incomplete "show <name>"
  | "show", name :: _ => .present name
  | "graph", [] => .incomplete "graph <name>"
  | "graph", name :: _ => .draw name
  | "test", name :: word :: _ => .test name word
  | "test", _ => .incomplete "test <name> <word>"
  | "classify", [] => .incomplete "classify <token>"
  | "classify", token :: _ => .classify token
  | "to_dfa", [] => .incomplete "to_dfa <name> [result]"
  | "to_dfa", [name] => .determinize name (name ++ "_dfa")
  | "to_dfa", name :: result :: _ => .determinize name result
  | "minimize", [] => .incomplete "minimize <name> [raw] [result]"
  | "minimize", name :: rest => minimizeWords name rest
  | "load", [] => .incomplete "load <filename>"
  | "load", file :: _ => .load file
  | "tokens", _ => .report .tokens
  | "errors", _ => .report .errors
  | "symbols", _ => .report .symbols
  | "delete", [] => .incomplete "delete <name>"
  | "delete", name :: _ => .delete name
  | "clear", _ => .clear
  | word, _ => .unknown word

/-- The command on a line. -/
def ofLine (line : String) : Command :=
  match Text.words line with
  | [] => .nothing
  | word :: rest => ofWord (Text.lower word) rest

end Command

/-- The list of the commands. -/
def helpText : String :=
  Text.unlines [
    "",
    "Commands:",
    "  BUILDING:",
    "    build [category ...]         - Build category fragments (default: all five)",
    "    merge [result]               - Merge all fragments into one NFA (default: Combined)",
    "    to_dfa <name> [result]       - Determinize an NFA",
    "    minimize <name> [raw] [res]  - Minimize a DFA ('raw' compares raw target ids)",
    "    list                         - List all automata",
    "",
    "  INSPECTION:",
    "    show <name>                  - Show automaton states and transitions",
    "    graph <name>                 - Visualize automaton",
    "    test <name> <word>           - Test if word is accepted",
    "    classify <token>             - Classify a token with the category fragments",
    "",
    "  SOURCE CODE:",
    "    load <file>                  - Load a source file",
    "    tokens                       - Tokenize the loaded source",
    "    errors                       - List unrecognized tokens of the loaded source",
    "    symbols                      - Show the symbol table of the loaded source",
    "",
    "  GENERAL:",
    "    delete <name>                - Delete automaton",
    "    clear                        - Clear all",
    "    exit                         - Exit"]

end LexAutomata.Terminal
