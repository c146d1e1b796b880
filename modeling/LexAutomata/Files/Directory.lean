/-
# Making directories

One directory is made at the end of a path whose other names lead to directories.
To make a directory with all that lead to it, the missing ones are made from the
top down; directories that are there already are left as they are, and those that
were made before a failure stay.
-/
import LexAutomata.Files.Basic

namespace LexAutomata.Files

/-- The parts of a path without the empty ones at its end. -/
def dropEmptyEnd (names : List String) : List String :=
  (names.reverse.dropWhile (· = "")).reverse

/-- Makes the directory that a path names. -/
def makeDirectory (fs : Files) (path : String) : Except PathFault Files :=
  match pathFault? path with
  | some fault => .error fault
  | none =>
    let names := dropEmptyEnd (parts path)
    match names.getLast? with
    | none => .error .exists
    | some name =>
      match fs.follow path names.dropLast with
      | .error fault => .error fault
      | .ok p =>
        match p.node with
        | .file _ => .error .notDirectory
        | .directory es =>
          if name = "." ∨ name = ".." then .error .exists
          else if name.utf8ByteSize > maxNameBytes then .error .nameTooLong
          else if (OrderedMap.findEntry name es).isSome then .error .exists
          else .ok (fs.put (p.place ++ [name]) (.directory []))

/-! ## Heads and tails of paths -/

/-- The path after its last slash. -/
def tailPart (path : List Char) : List Char := (path.reverse.takeWhile (· ≠ '/')).reverse

/-- The path up to its last slash, without slashes at the end unless it has nothing else. -/
def headPart (path : List Char) : List Char :=
  let head := path.reverse.dropWhile (· ≠ '/')
  if head.all (· = '/') then head else (head.dropWhile (· = '/')).reverse

/-- Where a path is divided: before its last part, and slashes at the end do not count. -/
def divide (path : List Char) : List Char × List Char :=
  if tailPart path = [] then (headPart (headPart path), tailPart (headPart path))
  else (headPart path, tailPart path)

/-- The parts of a path are together no longer than the path. -/
theorem length_headPart_add_length_tailPart (path : List Char) :
    (headPart path).length + (tailPart path).length ≤ path.length := by
  have h := congrArg List.length
    (List.takeWhile_append_dropWhile (p := fun c => decide (c ≠ '/')) (l := path.reverse))
  have h2 := (List.dropWhile_sublist (fun c => decide (c = '/'))
    (l := path.reverse.dropWhile fun c => decide (c ≠ '/'))).length_le
  rw [List.length_append, List.length_reverse] at h
  unfold headPart tailPart
  rw [List.length_reverse]
  dsimp only
  split
  · omega
  · rw [List.length_reverse]
    omega

/-- What stands before a nonempty last part is shorter than the path. -/
theorem length_divide_lt {path : List Char} (h : (divide path).2 ≠ []) :
    (divide path).1.length < path.length := by
  have h1 := length_headPart_add_length_tailPart path
  unfold divide at h ⊢
  split
  · rename_i ht
    rw [if_pos ht] at h
    have h2 := length_headPart_add_length_tailPart (headPart path)
    have h3 : 0 < (tailPart (headPart path)).length := List.length_pos_iff.2 h
    show (headPart (headPart path)).length < path.length
    omega
  · rename_i ht
    have h3 := List.length_pos_iff.2 ht
    dsimp only
    omega

/-- Makes the directory that a path names, once those before it are there. -/
def makeLast (fs : Files) (path : List Char) : Except PathError Unit × Files :=
  match fs.makeDirectory (String.ofList path) with
  | .ok fs' => (.ok (), fs')
  | .error fault =>
    if fs.isDirectory (String.ofList path) then (.ok (), fs)
    else (.error ⟨fault, String.ofList path⟩, fs)

/-- Makes the directory that a path names and all that lead to it. -/
def makeAll (fs : Files) (path : List Char) : Except PathError Unit × Files :=
  if _h : (divide path).1 ≠ [] ∧ (divide path).2 ≠ []
      ∧ ¬ fs.pathExists (String.ofList (divide path).1) then
    match fs.makeAll (divide path).1 with
    | (.error ⟨.exists, _⟩, fs') | (.ok (), fs') =>
      if (divide path).2 = ['.'] then (.ok (), fs') else fs'.makeLast path
    | (.error e, fs') => (.error e, fs')
  else fs.makeLast path
termination_by path.length
decreasing_by exact length_divide_lt _h.2.1

/-- Makes the directory that a path names and all that lead to it. -/
def makeDirectories (fs : Files) (path : String) : Except PathError Unit × Files :=
  fs.makeAll path.toList

/-- Puts a file at the end of a path, and makes the directories that lead to it. -/
def store (fs : Files) (path : String) (bytes : List UInt8) : Except PathError Files :=
  let directory := String.ofList (headPart path.toList)
  let made := if directory = "" then (.ok (), fs) else fs.makeDirectories directory
  match made with
  | (.error e, _) => .error e
  | (.ok (), fs') =>
    match fs'.follow directory (parts directory) with
    | .error fault => .error ⟨fault, path⟩
    | .ok p => .ok (fs'.put (p.place ++ [String.ofList (tailPart path.toList)]) (.file bytes))

end LexAutomata.Files
