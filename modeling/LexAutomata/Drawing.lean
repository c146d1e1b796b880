/-
# Drawings as text

One way to write a drawing down: the DOT language, with a statement for the
attributes of the graph, of its nodes and of its edges, and one for each node and
each edge.  The program uses it for the files that it writes; nothing else depends
on it.
-/
import LexAutomata.Drawing.Digraph

namespace LexAutomata.Drawing

/-! ## Identifiers of the DOT language -/

/-- Is the character a letter or an underscore? -/
def isIdStart (c : Char) : Bool := c.isAlpha || c = '_'

/-- Is the text a name: a letter or underscore, then letters, digits and underscores? -/
def isName : List Char → Bool
  | [] => false
  | c :: cs => isIdStart c && cs.all fun d => isIdStart d || d.isDigit

/-- Is the text a numeral without sign: digits with at most one point, and a digit somewhere? -/
def isUnsigned (cs : List Char) : Bool :=
  let whole := cs.takeWhile Char.isDigit
  match cs.dropWhile Char.isDigit with
  | [] => !whole.isEmpty
  | '.' :: fraction => fraction.all Char.isDigit && !(whole.isEmpty && fraction.isEmpty)
  | _ => false

/-- Is the text a numeral? -/
def isNumeral : List Char → Bool
  | '-' :: cs => isUnsigned cs
  | cs => isUnsigned cs

/-- The text without one line feed at its end. -/
def dropFinalBreak (cs : List Char) : List Char :=
  if cs.getLast? = some '\n' then cs.dropLast else cs

/-- The words that have a meaning of their own, in any mixture of cases. -/
def reserved : List String := ["node", "edge", "graph", "digraph", "subgraph", "strict"]

/-- Is the text enclosed in angle brackets, which makes it formatted text? -/
def isMarkup (cs : List Char) : Bool :=
  match cs with
  | '<' :: rest => (dropFinalBreak rest).getLast? = some '>'
  | _ => false

/-- Puts a backslash before each double quote that has none; of the `pending` backslashes before
a quote only an odd one counts as its escape. -/
def escapeQuotes (pending : Nat) : List Char → List Char
  | [] => []
  | '\\' :: cs => '\\' :: escapeQuotes (pending + 1) cs
  | '"' :: cs =>
    if pending % 2 = 0 then '\\' :: '"' :: escapeQuotes 0 cs else '"' :: escapeQuotes 0 cs
  | c :: cs => c :: escapeQuotes 0 cs

/-- The identifier for a text, in double quotes unless it can stand alone. -/
def identifier (s : String) : String :=
  let cs := s.toList
  let plain := dropFinalBreak cs
  if isMarkup cs then s
  else if (isName plain || isNumeral plain) && !(s.toLower ∈ reserved) then s
  else String.ofList ('"' :: escapeQuotes 0 cs ++ ['"'])

/-! ## Statements -/

/-- Attributes in the order of their names. -/
def Attributes.sorted (as : Attributes) : Attributes :=
  as.mergeSort fun a b => decide (a.1 ≤ b.1)

/-- Attributes in the order of their names, but for the label, which comes first. -/
def Attributes.labelFirst (as : Attributes) : Attributes :=
  as.filter (fun a => a.1 = "label") ++ sorted (as.filter fun a => a.1 ≠ "label")

/-- A list of attributes in brackets. -/
def Attributes.written (as : Attributes) : String :=
  "[" ++ " ".intercalate (as.map fun a => identifier a.1 ++ "=" ++ identifier a.2) ++ "]"

/-- The statement for a node or an edge. -/
def Item.line : Item → String
  | node n => identifier n.name ++ " " ++ n.attributes.labelFirst.written
  | edge e => identifier e.tail ++ " -> " ++ identifier e.head ++ " "
      ++ e.attributes.labelFirst.written

/-- The drawing in the DOT language. -/
def Digraph.source (D : Digraph) : String :=
  let defaults := ["graph " ++ D.graphAttributes.sorted.written,
    "node " ++ D.nodeAttributes.sorted.written, "edge " ++ D.edgeAttributes.sorted.written]
  Text.unlines (["digraph " ++ identifier D.name ++ " \x7b"]
    ++ (defaults ++ D.items.map Item.line).map ("\t" ++ ·) ++ ["\x7d"])

/-- The drawing of an automaton in the DOT language. -/
def source (A : Automaton) : String := (digraph A).source

/-- What is drawn, in the DOT language. -/
def Picture.source (p : Picture) : String := p.graph.source

end LexAutomata.Drawing
