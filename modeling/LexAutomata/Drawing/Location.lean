/-
# Where drawings go

The drawing of an automaton goes into a directory, which is made if it is missing,
under the name of the automaton, in which only letters, numbers, hyphens and
underscores are kept.
-/
import LexAutomata.Files.Directory
import LexAutomata.Text.Alphanumeric

namespace LexAutomata.Drawing

/-- The character as it may stand in a file name. -/
def safeChar (c : Char) : Char :=
  if Text.isAlphanumeric c || c = '-' || c = '_' then c else '_'

/-- The name of an automaton as a file name. -/
def safeName (name : String) : String :=
  if name = "" then "automaton" else String.ofList (name.toList.map safeChar)

/-- A path that leads from a directory to a name in it. -/
def join (directory name : String) : String :=
  if directory.toList.getLast? = some '/' then directory ++ name else directory ++ "/" ++ name

/-- Makes the directory, and gives the path of the drawing of an automaton in it. -/
def location (files : Files) (directory name : String) : Except PathError String × Files :=
  match files.makeDirectories directory with
  | (.error e, files') => (.error e, files')
  | (.ok (), files') => (.ok (join directory (safeName name)), files')

end LexAutomata.Drawing
