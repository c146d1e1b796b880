/-
# Blank space

Which characters separate words, how a text is trimmed and cut into words, and
how it is cut into lines.
-/

namespace LexAutomata.Text

/-- Is the character white space in any script? -/
def isBlank (c : Char) : Bool :=
  let n := c.toNat
  (0x09 ≤ n && n ≤ 0x0D) || (0x1C ≤ n && n ≤ 0x20) || n == 0x85 || n == 0xA0 || n == 0x1680
    || (0x2000 ≤ n && n ≤ 0x200A) || n == 0x2028 || n == 0x2029 || n == 0x202F || n == 0x205F
    || n == 0x3000

/-- The list without the elements of the class at its end. -/
def trimEnd (p : Char → Bool) (cs : List Char) : List Char :=
  (cs.reverse.dropWhile p).reverse

/-- The text without white space at its end. -/
def trimRight (s : String) : String := String.ofList (trimEnd isBlank s.toList)

/-- Does the text hold nothing but white space? -/
def isAllBlank (s : String) : Bool := s.toList.all isBlank

/-- The maximal runs of characters that are not white space. -/
def wordsOf (cs : List Char) : List (List Char) :=
  match cs with
  | [] => []
  | c :: rest =>
    if isBlank c then wordsOf rest
    else (c :: rest.takeWhile fun d => !isBlank d) :: wordsOf (rest.dropWhile fun d => !isBlank d)
termination_by cs.length
decreasing_by
  · simp
  · have := (List.dropWhile_sublist (fun d => !isBlank d) (l := rest)).length_le
    simp only [List.length_cons]
    omega

/-- The words of a text. -/
def words (s : String) : List String := (wordsOf s.toList).map String.ofList

/-! ## Lines -/

/-- Does the character end a line on its own? -/
def isLineBreak (c : Char) : Bool :=
  let n := c.toNat
  (0x0A ≤ n && n ≤ 0x0D) || (0x1C ≤ n && n ≤ 0x1E) || n == 0x85 || n == 0x2028 || n == 0x2029

/-- The number of lines of a text, where `pending` tells whether a line has begun.  A carriage
return and a line feed after it are one break, and a break at the end begins no line. -/
def countLines (pending : Bool) : List Char → Nat
  | [] => if pending then 1 else 0
  | '\r' :: '\n' :: cs => 1 + countLines false cs
  | c :: cs => if isLineBreak c then 1 + countLines false cs else countLines true cs

/-- The number of lines of a text. -/
def lineCount (s : String) : Nat := countLines false s.toList

/-- Cuts a text at every line feed, which leaves at least one line. -/
def splitLines : List Char → List (List Char)
  | [] => [[]]
  | c :: cs =>
    if c = '\n' then [] :: splitLines cs
    else
      match splitLines cs with
      | [] => [[c]]
      | l :: ls => (c :: l) :: ls

/-- Lines as one text, in which each ends in a line feed. -/
def unlines (lines : List String) : String := String.join (lines.map (· ++ "\n"))

/-- The lines of a text between its line feeds. -/
def lines (s : String) : List String := (splitLines s.toList).map String.ofList

end LexAutomata.Text
