/-
# Comments

A comment runs from two slashes to the end of the line, or from slash and star to
the next star and slash; a text without that end is no comment.  Comments are
found from left to right, so one that is open hides the beginning of another.
They are blanked out: only their line breaks stay.
-/

namespace LexAutomata.Source

/-- The text before the first star and slash, and the text after them. -/
def splitAtClose : List Char → Option (List Char × List Char)
  | [] => none
  | '*' :: '/' :: rest => some ([], rest)
  | c :: cs => (splitAtClose cs).map fun r => (c :: r.1, r.2)

/-- What follows the end of a block comment is shorter than what follows its beginning. -/
theorem length_of_splitAtClose {cs : List Char} {r : List Char × List Char}
    (h : splitAtClose cs = some r) : r.2.length < cs.length := by
  fun_induction splitAtClose cs generalizing r with
  | case1 => simp at h
  | case2 rest =>
    cases h
    simp only [List.length_cons]
    omega
  | case3 c cs _ ih =>
    rw [Option.map_eq_some_iff] at h
    obtain ⟨r', h', rfl⟩ := h
    have := ih h'
    simp only [List.length_cons]
    omega

/-- The line breaks of a text. -/
def breaksOf (cs : List Char) : List Char := cs.filter fun c => c = '\n'

/-- Blanks out the comments of a text. -/
def blankComments (cs : List Char) : List Char :=
  match cs with
  | [] => []
  | '/' :: '/' :: rest => blankComments (rest.dropWhile fun c => c ≠ '\n')
  | '/' :: '*' :: rest =>
    match _h : splitAtClose rest with
    | some r => breaksOf r.1 ++ blankComments r.2
    | none => '/' :: blankComments ('*' :: rest)
  | c :: rest => c :: blankComments rest
termination_by cs.length
decreasing_by
  · have := (List.dropWhile_sublist (fun c => decide (c ≠ '\n')) (l := rest)).length_le
    simp only [List.length_cons]
    omega
  · have := length_of_splitAtClose _h
    simp only [List.length_cons]
    omega
  · simp
  · simp

/-- The text with its comments blanked out. -/
def stripComments (code : String) : String := String.ofList (blankComments code.toList)

end LexAutomata.Source
