/-
# Files

A tree of files and directories, and the working directory in it.  Each file has a
place, the list of the names that lead to it from the top; the top itself is a
directory and its own parent.  A path is followed from name to name, from the top
if it begins with a slash and otherwise from the working directory, and each step
but the last has to lead to a directory.

Files have no owners and no permissions, and no device fails: what stands at a place
can be read, and a directory can be made where nothing stands in the way.
-/
import LexAutomata.OrderedMap
import LexAutomata.Text.Quoted

namespace LexAutomata

/-- What stands at a place. -/
inductive Node where
  /-- A file with its bytes. -/
  | file (bytes : List UInt8)
  /-- A directory with what stands under each name in it. -/
  | directory (entries : List (String × Node))

/-- The names that lead from the top to a place. -/
abbrev Place := List String

namespace Node

/-- What is in a directory.  A file holds no names. -/
def entries : Node → List (String × Node)
  | file _ => []
  | directory es => es

/-- Puts something at a place below a directory.  Directories that are missing on the way are
made. -/
def put (new : Node) : Place → Node → Node
  | [], _ => new
  | name :: names, node =>
    directory (OrderedMap.alterEntries name
      (fun old => put new names (old.getD (directory []))) node.entries)

mutual

/-- The places of all directories below a directory. -/
def places : Node → List Place
  | file _ => []
  | directory es => placesOfAll es

/-- The places of the directories among entries, and of all directories below them. -/
def placesOfAll : List (String × Node) → List Place
  | [] => []
  | e :: es => placesOf e ++ placesOfAll es

/-- The place of an entry that is a directory, and of all directories below it. -/
def placesOf : String × Node → List Place
  | (_, file _) => []
  | (name, directory es) => [name] :: (placesOfAll es).map (name :: ·)

end

end Node

/-- A tree of files. -/
structure Files where
  /-- What stands at the top. -/
  top : Node := .directory []
  /-- The place of the working directory. -/
  home : Place := []

/-- Why a path cannot be used. -/
inductive PathFault where
  /-- Some name on the path is not there. -/
  | notFound
  /-- Something is there already. -/
  | exists
  /-- A name on the path is not that of a directory. -/
  | notDirectory
  /-- A name or the whole path is too long. -/
  | nameTooLong
  /-- The path holds a null character. -/
  | nullCharacter
deriving DecidableEq

/-- A path that cannot be used. -/
structure PathError where
  /-- What is wrong. -/
  fault : PathFault
  /-- The path. -/
  path : String
deriving DecidableEq

/-- The error in words. -/
def PathError.message (e : PathError) : String :=
  match e.fault with
  | .notFound => "[Errno 2] No such file or directory: " ++ Text.quoted e.path
  | .exists => "[Errno 17] File exists: " ++ Text.quoted e.path
  | .notDirectory => "[Errno 20] Not a directory: " ++ Text.quoted e.path
  | .nameTooLong => "[Errno 36] File name too long: " ++ Text.quoted e.path
  | .nullCharacter => "embedded null byte"

/-! ## Paths -/

/-- The longest name, in bytes. -/
def maxNameBytes : Nat := 255

/-- The longest path, in bytes. -/
def maxPathBytes : Nat := 4095

/-- The parts of a path between its slashes. -/
def pathParts : List Char → List (List Char)
  | [] => [[]]
  | c :: cs =>
    if c = '/' then [] :: pathParts cs
    else
      match pathParts cs with
      | [] => [[c]]
      | p :: ps => (c :: p) :: ps

/-- The parts of a path between its slashes. -/
def parts (path : String) : List String := (pathParts path.toList).map String.ofList

/-- The fault of a path that is refused before it is followed. -/
def pathFault? (path : String) : Option PathFault :=
  if '\x00' ∈ path.toList then some .nullCharacter
  else if path = "" then some .notFound
  else if path.utf8ByteSize > maxPathBytes then some .nameTooLong
  else none

/-! ## Positions -/

/-- A place in a tree, seen from it. -/
structure Position where
  /-- What stands there. -/
  node : Node
  /-- The names that lead there, the last first, each with the directory in which it is. -/
  above : List (String × Node) := []

namespace Position

/-- The place itself. -/
def place (p : Position) : Place := (p.above.map Prod.fst).reverse

/-- The position above.  The top is its own parent. -/
def parent (p : Position) : Position :=
  match p.above with
  | [] => p
  | (_, node) :: above => ⟨node, above⟩

/-- Follows the parts of a path.  An empty part and a dot stay where they are. -/
def follow (p : Position) : List String → Except PathFault Position
  | [] => .ok p
  | name :: names =>
    match p.node with
    | .file _ => .error .notDirectory
    | .directory es =>
      if name = "" ∨ name = "." then p.follow names
      else if name = ".." then p.parent.follow names
      else if name.utf8ByteSize > maxNameBytes then .error .nameTooLong
      else
        match OrderedMap.findEntry name es with
        | none => .error .notFound
        | some node => follow ⟨node, (name, p.node) :: p.above⟩ names

end Position

namespace Files

/-- The tree that holds a working directory at the given place and nothing else. -/
def empty (home : Place) : Files where
  top := Node.put (.directory []) home (.directory [])
  home := home

/-- Puts something at a place. -/
def put (fs : Files) (place : Place) (node : Node) : Files :=
  { fs with top := node.put place fs.top }

/-- Follows the parts of a path, from the top if `path` begins with a slash and otherwise from the
working directory. -/
def follow (fs : Files) (path : String) (names : List String) : Except PathFault Position :=
  Position.follow ⟨fs.top, []⟩
    (if path.toList.head? = some '/' then names else fs.home ++ names)

/-- What a path leads to. -/
def resolve (fs : Files) (path : String) : Except PathFault Node :=
  match pathFault? path with
  | some fault => .error fault
  | none =>
    match fs.follow path (parts path) with
    | .error fault => .error fault
    | .ok p => .ok p.node

/-- Does the path lead to anything? -/
def pathExists (fs : Files) (path : String) : Bool :=
  match fs.resolve path with
  | .ok _ => true
  | .error _ => false

/-- Does the path lead to a directory? -/
def isDirectory (fs : Files) (path : String) : Bool :=
  match fs.resolve path with
  | .ok (.directory _) => true
  | _ => false

/-- The bytes of the file that a path leads to. -/
def fileBytes? (fs : Files) (path : String) : Option (List UInt8) :=
  match fs.resolve path with
  | .ok (.file bytes) => some bytes
  | _ => none

/-- The paths of all directories below the working directory. -/
def directories (fs : Files) : List String :=
  match fs.resolve "." with
  | .ok node => node.places.map "/".intercalate
  | .error _ => []

end Files

end LexAutomata
