/-
# The program

Analyzes a file as the command line says, or holds a dialogue when its only
argument is `--terminal`.  Only what a run reads is fetched from the disk
beforehand: the source text.  Directories that a run made are made on the disk
afterwards, and every picture is written as text, here in the DOT language.
-/
import LexAutomata.Analyzer
import LexAutomata.Drawing
import LexAutomata.Terminal.Session

namespace LexAutomata.Program

/-- The tree that holds the file of the given path, if there is one that can be read. -/
def fetch (path : String) : IO Files := do
  try
    let bytes ← IO.FS.readBinFile path
    return (Files.store {} path bytes.toList).toOption.getD {}
  catch _ => return {}

/-- Has every picture rendered, and leaves the files alone. -/
def acceptAll : Analyzer.Renderer := fun _ files => (.ok (), files)

/-- Makes a directory on the disk. -/
def makeDirectory (path : String) : IO Unit := do
  try IO.FS.createDirAll path
  catch e => IO.eprintln (Analyzer.errorLine (toString e))

section

variable (text : Drawing.Digraph → String)

/-- Writes pictures, each as the text of what is drawn. -/
def write (pictures : List Drawing.Picture) : IO Unit :=
  for p in pictures do
    try IO.FS.writeFile (p.filename ++ ".dot") (text p.graph)
    catch e => IO.eprintln (Analyzer.errorLine (toString e))

/-- Analyzes a file. -/
def analyze (args : List String) : IO UInt32 := do
  let (source, directory) := match Options.parse args with
    | .ok o => (o.source, o.graphs.path?)
    | .error _ => ("", none)
  match Analyzer.run acceptAll args (← fetch source) with
  | .error e =>
    IO.eprintln (Analyzer.errorLine e.message)
    return 1
  | .ok outcome =>
    IO.print outcome.output
    IO.eprint outcome.errors
    unless outcome.pictures.isEmpty do makeDirectory (directory.getD "")
    write text outcome.pictures
    return outcome.exitCode.toUInt32

/-- Answers lines until one ends the dialogue or there are no more. -/
partial def converse (input : IO.FS.Stream) (s : Terminal.Session) : IO Unit := do
  IO.print "> "
  (← IO.getStdout).flush
  let line ← input.getLine
  if line.isEmpty then IO.print Terminal.farewell
  else
    let files ← match Terminal.Command.ofLine line with
      | .load path => fetch path
      | _ => pure {}
    match Terminal.respond files s (.line line) with
    | none => IO.print Terminal.farewell
    | some r =>
      IO.print r.text
      write text r.pictures
      converse input r.session

/-- Holds a dialogue. -/
def terminal : IO UInt32 := do
  IO.print Terminal.banner
  converse text (← IO.getStdin) {}
  return 0

end

end LexAutomata.Program

/-- Analyzes a file, or holds a dialogue. -/
def main (args : List String) : IO UInt32 :=
  let text := LexAutomata.Drawing.Digraph.source
  if args = ["--terminal"] then LexAutomata.Program.terminal text
  else LexAutomata.Program.analyze text args
