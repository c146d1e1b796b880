/-
# Options

What the analyzer can be told on its command line: which file to read, how tables
are minimized, how much is logged, where drawings go, and whether transitions are
listed.
-/
import LexAutomata.Table.Partition
import LexAutomata.Text.Blank
import LexAutomata.Text.Quoted

namespace LexAutomata

/-- How important a log message is. -/
inductive LogLevel where
  /-- Details. -/
  | debug
  /-- Progress. -/
  | info
  /-- Doubtful events. -/
  | warning
  /-- Failures. -/
  | error
deriving DecidableEq

namespace LogLevel

/-- The word for the level. -/
def name : LogLevel → String
  | debug => "DEBUG"
  | info => "INFO"
  | warning => "WARNING"
  | error => "ERROR"

/-- The levels from the lowest to the highest. -/
def all : List LogLevel := [debug, info, warning, error]

/-- The level of a given name. -/
def ofName? (s : String) : Option LogLevel := all.find? fun l => l.name = s

/-- The place of the level among all. -/
def rank : LogLevel → Nat
  | debug => 0
  | info => 1
  | warning => 2
  | error => 3

end LogLevel

/-- What is said about a directory for drawings. -/
inductive GraphTarget where
  /-- Nothing. -/
  | unasked
  /-- That there is to be one, but not which. -/
  | unnamed
  /-- Its path, which may be empty. -/
  | directory (path : String)
deriving DecidableEq

/-- The directory to draw into.  Without one that is named nothing is drawn. -/
def GraphTarget.path? : GraphTarget → Option String
  | unasked | unnamed => none
  | directory path => if path = "" then none else some path

/-- The settings of one analysis. -/
structure Options where
  /-- The file to analyze. -/
  source : String := "code.txt"
  /-- What keeps states together when a table is minimized. -/
  criterion : Criterion := .targetGroup
  /-- The lowest level of messages that are logged, unless it was asked for without a value. -/
  logLevel : Option LogLevel := some .warning
  /-- Where drawings go. -/
  graphs : GraphTarget := .unasked
  /-- Are transitions listed before and after minimization? -/
  showTransitions : Bool := false
deriving DecidableEq

/-! ## Switches -/

/-- The switches of the command line. -/
inductive Switch where
  /-- Asks for help. -/
  | help
  /-- Sets the criterion. -/
  | criterion
  /-- Sets the log level. -/
  | logLevel
  /-- Sets the directory for drawings. -/
  | graphDirectory
  /-- Lists transitions. -/
  | showTransitions
deriving DecidableEq

namespace Switch

/-- The long spelling. -/
def long : Switch → String
  | help => "--help"
  | criterion => "--criterion"
  | logLevel => "--log-level"
  | graphDirectory => "--graph-dir"
  | showTransitions => "--show-transitions"

/-- The switches in the order in which they are listed. -/
def all : List Switch := [help, criterion, logLevel, graphDirectory, showTransitions]

/-- All spellings, as error messages name the switch. -/
def spellings : Switch → String
  | help => "-h/--help"
  | s => s.long

/-- Does a value follow the switch? -/
def takesValue : Switch → Bool
  | criterion | logLevel | graphDirectory => true
  | help | showTransitions => false

end Switch

/-! ## Errors -/

/-- What is wrong with a command line. -/
inductive OptionError where
  /-- The beginning of a switch fits several. -/
  | ambiguous (argument : String) (fitting : List Switch)
  /-- A switch that takes a value has none. -/
  | missingValue (switch : Switch)
  /-- A switch that takes no value has one. -/
  | superfluousValue (switch : Switch) (value : String)
  /-- The value is none of those to choose from. -/
  | invalidChoice (switch : Switch) (value : String) (choices : List String)
  /-- Some arguments have no meaning. -/
  | unrecognized (arguments : List String)
deriving DecidableEq

/-- The error in words. -/
def OptionError.message : OptionError → String
  | ambiguous argument fitting =>
    let matching := ", ".intercalate (fitting.map Switch.long)
    s!"ambiguous option: {argument} could match {matching}"
  | missingValue switch => s!"argument {switch.spellings}: expected one argument"
  | superfluousValue switch value =>
    s!"argument {switch.spellings}: ignored explicit argument {Text.quoted value}"
  | invalidChoice switch value choices =>
    let offered := ", ".intercalate (choices.map Text.quoted)
    s!"argument {switch.spellings}: invalid choice: {Text.quoted value} (choose from {offered})"
  | unrecognized arguments => "unrecognized arguments: " ++ " ".intercalate arguments

/-- Why there are no options to work with. -/
inductive Refusal where
  /-- Help was asked for. -/
  | help
  /-- The command line is wrong. -/
  | wrong (error : OptionError)
  /-- The criterion was asked for without a value. -/
  | noCriterion
deriving DecidableEq

/-! ## Texts -/

namespace Options

/-- The forms of a command line. -/
def usage : String :=
  Text.unlines [
    "usage: main.py [-h] [--criterion \x7bpartition,raw\x7d]",
    "               [--log-level \x7bDEBUG,INFO,WARNING,ERROR\x7d]",
    "               [--graph-dir GRAPH_DIR] [--show-transitions]",
    "               [source]"]

/-- What the arguments mean. -/
def explanation : String :=
  Text.unlines [
    "",
    "Classify tokens with finite automata and report on a source file",
    "",
    "positional arguments:",
    "  source                Source file to analyze",
    "",
    "options:",
    "  -h, --help            show this help message and exit",
    "  --criterion \x7bpartition,raw\x7d",
    "                        Refinement rule used when minimizing the DFA",
    "  --log-level \x7bDEBUG,INFO,WARNING,ERROR\x7d",
    "  --graph-dir GRAPH_DIR",
    "                        Render the automata as PNG files into this directory",
    "  --show-transitions    List the DFA transitions before and after minimization"]

end Options

/-- The exit code, standard output and standard error that answer a refused command line.  There
is no answer to a criterion without a value. -/
def Refusal.answer : Refusal → Except Criterion.Unknown (Nat × String × String)
  | help => .ok (0, Options.usage ++ Options.explanation, "")
  | wrong error => .ok (2, "", Options.usage ++ "main.py: error: " ++ error.message ++ "\n")
  | noCriterion => .error .nothing

end LexAutomata
