/-
# The analyzer

Builds a recognizer, reports on it, has its automata drawn if that is wanted, and
reports on the tokens and variables of a source text.  Drawing is the work of a
renderer outside; it may fail and may change files, and neither keeps the source
text from being read and reported on.
-/
import LexAutomata.Drawing.Digraph
import LexAutomata.Drawing.Location
import LexAutomata.Options.CommandLine
import LexAutomata.Recognizer
import LexAutomata.Source.Reading
import LexAutomata.Table.ToAutomaton

namespace LexAutomata

open Drawing (Picture)

/-! ## Log messages -/

/-- A message with its level. -/
structure LogEntry where
  /-- The level. -/
  level : LogLevel
  /-- The message. -/
  message : String
deriving DecidableEq

/-- The line for a message, unless its level is below the lowest that is logged. -/
def LogEntry.line? (lowest : LogLevel) (e : LogEntry) : Option String :=
  if lowest.rank ≤ e.level.rank then some (e.level.name ++ ": " ++ e.message) else none

namespace Recognizer

/-- The messages about the making of a recognizer. -/
def log (r : Recognizer) (criterion : Criterion) : List LogEntry :=
  let states := r.combined.states.size
  let rows := r.table.rows.size
  let finals := r.table.finals.size
  let fewer := r.minimal.rows.size
  (r.fragments.entries.map fun e =>
      ⟨.info, s!"Built {e.1} fragment: {e.2.states.size} states"⟩)
    ++ [⟨.info, s!"Combined NFA: {states} states"⟩,
      ⟨.debug, s!"Subset construction: {states} NFA states -> {rows} DFA states"⟩,
      ⟨.info, s!"DFA built: |Q| = {rows}, |F| = {finals}"⟩,
      ⟨.debug, s!"Minimization ({criterion.name}): {rows} -> {fewer} states"⟩,
      ⟨.info, s!"Minimized DFA: |Q| = {fewer}"⟩]

/-- The automata to be drawn: the fragments, their union, and both tables. -/
def automata (r : Recognizer) : List Automaton :=
  r.fragments.values ++ [r.combined]
    ++ [r.table.toAutomaton "DFA", r.minimal.toAutomaton "MinimalDFA"].filterMap Except.toOption

end Recognizer

namespace Analyzer

/-! ## Rendering -/

/-- Why a picture was not rendered. -/
inductive RenderFailure where
  /-- The rendering program is not there. -/
  | programMissing (message : String)
  /-- The rendering program failed. -/
  | programFailed (message : String)
  /-- The file could not be written. -/
  | notWritten (message : String)
deriving DecidableEq

/-- The failure in words. -/
def RenderFailure.message : RenderFailure → String
  | programMissing m | programFailed m | notWritten m => m

/-- What renders pictures: it may fail, and may change the files in either case. -/
abbrev Renderer := Picture → Files → Except RenderFailure Unit × Files

/-- Why rendering ended before its end. -/
inductive Stop where
  /-- The directory for the pictures could not be made. -/
  | noDirectory (error : PathError)
  /-- A picture was not rendered. -/
  | failed (failure : RenderFailure)
deriving DecidableEq

/-- The reason in words. -/
def Stop.message : Stop → String
  | noDirectory e => e.message
  | failed f => f.message

/-- How rendering went. -/
structure Rendered where
  /-- Why it ended early, if it did. -/
  stop : Option Stop
  /-- The pictures that were handed to the renderer. -/
  pictures : List Picture
  /-- The files afterwards. -/
  files : Files

/-- Has automata rendered into a directory one after the other, up to the first failure. -/
def renderInto (render : Renderer) (directory : String) (files : Files) :
    List Automaton → Rendered
  | [] => ⟨none, [], files⟩
  | A :: rest =>
    match Drawing.location files directory A.name with
    | (.error e, files) => ⟨some (.noDirectory e), [], files⟩
    | (.ok path, files) =>
      let picture := Drawing.picture A path false
      match render picture files with
      | (.error f, files) => ⟨some (.failed f), [picture], files⟩
      | (.ok (), files) =>
        let r := renderInto render directory files rest
        { r with pictures := picture :: r.pictures }

/-- Has the automata of a recognizer rendered, if there is a directory for them. -/
def renderGraphs (render : Renderer) (o : Options) (files : Files) (r : Recognizer) : Rendered :=
  match o.graphs.path? with
  | none => ⟨none, [], files⟩
  | some directory => renderInto render directory files r.automata

/-- The message about rendering, if there was any. -/
def renderLog (o : Options) (r : Rendered) : List LogEntry :=
  match r.stop, o.graphs.path? with
  | some stop, _ => [⟨.error, "Could not render graphs: " ++ stop.message⟩]
  | none, some directory => [⟨.info, "Graphs written to " ++ directory⟩]
  | none, none => []

/-! ## Reports -/

/-- The reports on the recognizer. -/
def recognizerReport (o : Options) (r : Recognizer) : List String :=
  Report.automaton r.combined (some "Combined")
    ++ Report.minimization r.table r.minimal o.showTransitions

/-- The reports on a source text. -/
def sourceReport (code : String) (fragments : Fragments) :
    Except Source.SymbolError (List String) := do
  let errors ← (Source.lexemeErrors code fragments).mapError .broken
  let tokens ← (Source.tokenize code fragments).mapError .broken
  let symbols ← Source.symbolTable code fragments
  return Report.lexemeErrors errors ++ Report.tokens tokens ++ Report.symbolTable symbols

/-! ## The run -/

/-- What a run leaves behind. -/
structure Outcome where
  /-- The exit code. -/
  exitCode : Nat
  /-- The text on standard output. -/
  output : String
  /-- The text on standard error. -/
  errors : String := ""
  /-- The pictures that were handed to the renderer. -/
  pictures : List Picture := []
  /-- The files afterwards. -/
  files : Files

/-- The line for an error that ends a run. -/
def errorLine (message : String) : String := "Error: " ++ message

/-- The reports on the source text after those on the recognizer, or the error that prevents
them: exit code, lines on standard output, and lines on standard error. -/
def finish (o : Options) (files : Files) (r : Recognizer) : Nat × List String × List String :=
  match Source.read files o.source with
  | .error e => (1, recognizerReport o r, [errorLine e.message])
  | .ok code =>
    match sourceReport code r.fragments with
    | .error e => (1, recognizerReport o r, [errorLine e.message])
    | .ok report => (0, recognizerReport o r ++ report, [])

/-- Why a run breaks off without an outcome. -/
inductive Abort where
  /-- The criterion was asked for without a value. -/
  | noCriterion (error : Criterion.Unknown)
  /-- The log level was asked for without a value. -/
  | noLogLevel
  /-- The directory for drawings is no path. -/
  | noPath (error : PathError)
deriving DecidableEq

/-- The reason in words. -/
def Abort.message : Abort → String
  | noCriterion e => e.message
  | noLogLevel => "attribute name must be string, not 'list'"
  | noPath e => e.message

/-- Ends a run once rendering has gone as it did, with messages from a level upwards.  A directory
name with a null character is refused as a whole. -/
def conclude (level : LogLevel) (o : Options) (r : Recognizer) (rendered : Rendered) :
    Except Abort Outcome :=
  match rendered.stop with
  | some (.noDirectory ⟨.nullCharacter, path⟩) => .error (.noPath ⟨.nullCharacter, path⟩)
  | _ =>
    let (exitCode, output, errors) := finish o rendered.files r
    let log := (r.log o.criterion ++ renderLog o rendered).filterMap (LogEntry.line? level)
    .ok
      { exitCode := exitCode
        output := Text.unlines output
        errors := Text.unlines (log ++ errors)
        pictures := rendered.pictures
        files := rendered.files }

/-- Goes on once a recognizer is built, or ends the run if none could be. -/
def proceed (level : LogLevel) (render : Renderer) (o : Options) (files : Files) :
    Except BuildError Recognizer → Except Abort Outcome
  | .error e =>
    .ok {
      exitCode := 1
      output := ""
      errors := Text.unlines [errorLine e.message]
      files := files }
  | .ok r => conclude level o r (renderGraphs render o files r)

/-- Analyzes as the options say, with messages from a level upwards. -/
def analyzeAt (level : LogLevel) (render : Renderer) (o : Options) (files : Files) :
    Except Abort Outcome :=
  proceed level render o files (Recognizer.build o.criterion ⟨0⟩).1

/-- Analyzes as the options say.  Nothing is done before the log level is known. -/
def analyze (render : Renderer) (o : Options) (files : Files) : Except Abort Outcome :=
  match o.logLevel with
  | none => .error .noLogLevel
  | some level => analyzeAt level render o files

/-- Reads a command line and does what it says. -/
def run (render : Renderer) (args : List String) (files : Files) : Except Abort Outcome :=
  match Options.parse args with
  | .ok o => analyze render o files
  | .error refusal =>
    match refusal.answer with
    | .error e => .error (.noCriterion e)
    | .ok (exitCode, output, errors) =>
      .ok { exitCode := exitCode, output := output, errors := errors, files := files }

end Analyzer

end LexAutomata
