/-
# Drawings

The drawing of an automaton: a circle for each state, double for a final one, an
arrow without origin to the start state, and one arrow for all the labels that lead
from one state to another.  A drawing is the list of the nodes and edges that it is
made of, each with its attributes; how it is written down and rendered is not a
matter of this module.
-/
import LexAutomata.Report

namespace LexAutomata.Drawing

/-! ## Graphs with attributes -/

/-- Attributes with their values, in the order in which they were given. -/
abbrev Attributes := List (String × String)

/-- A node. -/
structure Node where
  /-- The name, by which edges refer to the node. -/
  name : String
  /-- The attributes of this node. -/
  attributes : Attributes
deriving DecidableEq

/-- An edge from one node to another. -/
structure Edge where
  /-- The name of the node that the edge leaves. -/
  tail : String
  /-- The name of the node that the edge enters. -/
  head : String
  /-- The attributes of this edge. -/
  attributes : Attributes
deriving DecidableEq

/-- What a graph is made of. -/
inductive Item where
  /-- A node. -/
  | node (n : Node)
  /-- An edge. -/
  | edge (e : Edge)
deriving DecidableEq

/-- The node that was added, if it is one. -/
def Item.node? : Item → Option Node
  | node n => some n
  | edge _ => none

/-- The edge that was added, if it is one. -/
def Item.edge? : Item → Option Edge
  | node _ => none
  | edge e => some e

/-- A directed graph whose nodes and edges have attributes. -/
structure Digraph where
  /-- The name of the graph. -/
  name : String
  /-- The attributes of the graph. -/
  graphAttributes : Attributes
  /-- The attributes of the nodes that have no other value of their own. -/
  nodeAttributes : Attributes
  /-- The attributes of the edges that have no other value of their own. -/
  edgeAttributes : Attributes
  /-- The nodes and edges, in the order in which they were added. -/
  items : List Item
deriving DecidableEq

namespace Digraph

/-- The nodes, in the order in which they were added. -/
def nodes (D : Digraph) : List Node := D.items.filterMap Item.node?

/-- The edges, in the order in which they were added. -/
def edges (D : Digraph) : List Edge := D.items.filterMap Item.edge?

end Digraph

/-! ## Nodes and edges of an automaton -/

/-- The name of the node of a state. -/
def nodeName (q : Int) : String := s!"q{q}"

/-- The name of the node that the arrow to the start state comes from. -/
def originName : String := "__start__"

/-- The node that the arrow to the start state comes from, which is not to be seen. -/
def origin : Node := ⟨originName, [("shape", "point"), ("width", "0.01"), ("style", "invis")]⟩

/-- The node of a state. -/
def stateNode (A : Automaton) (q : Int) : Node where
  name := nodeName q
  attributes := ("label", toString q) ::
    if A.isFinal q then [("shape", "doublecircle"), ("fillcolor", "lightgreen")] else []

/-- The arrow to the start state, once there is one. -/
def startEdges (A : Automaton) : List Edge :=
  match A.start with
  | none => []
  | some q => [⟨originName, nodeName q, [("penwidth", "2")]⟩]

/-- The pairs of states with a transition, in ascending order, each with the labels that lead
from the first to the second, in ascending order. -/
def arrows (A : Automaton) : List ((Int × Int) × List String) :=
  let sources := StateSet.ofList (A.transitions.map fun t => t.1)
  sources.toList.flatMap fun p =>
    let out := A.transitions.filter fun t => t.1 = p
    (StateSet.ofList (out.map fun t => t.2.2)).toList.map fun q =>
      let labels := (out.filter fun t => t.2.2 = q).map fun t => Report.showLabel t.2.1
      ((p, q), labels.mergeSort fun a b => decide (a ≤ b))

/-- The edge between two states; an edge back to its origin is led over it. -/
def arrowEdge (a : (Int × Int) × List String) : Edge where
  tail := nodeName a.1.1
  head := nodeName a.1.2
  attributes := ("label", ", ".intercalate a.2) ::
    if a.1.1 = a.1.2 then [("headport", "n"), ("tailport", "n")] else []

/-! ## The whole drawing -/

/-- The title: the name, or else the kind of automaton. -/
def title (A : Automaton) : String :=
  if A.name ≠ "" then A.name else if A.isDeterministic then "DFA" else "NFA"

/-- The drawing of an automaton. -/
def digraph (A : Automaton) : Digraph where
  name := title A
  graphAttributes := [("rankdir", "LR"), ("splines", "true"), ("nodesep", "0.8"),
    ("ranksep", "1.2"), ("label", title A), ("labelloc", "t"), ("fontsize", "14"),
    ("fontname", "Arial"), ("bgcolor", "white")]
  nodeAttributes := [("shape", "circle"), ("fontsize", "14"), ("fontname", "Arial"),
    ("style", "filled"), ("fillcolor", "lightblue")]
  edgeAttributes := [("fontsize", "12"), ("fontname", "Arial"), ("arrowsize", "0.8")]
  items := [.node origin] ++ A.states.toList.map (fun q => .node (stateNode A q))
    ++ (startEdges A).map .edge ++ (arrows A).map fun a => .edge (arrowEdge a)

/-- A drawing that is to be rendered. -/
structure Picture where
  /-- The path of the rendered file, without its extension. -/
  filename : String
  /-- Is the picture shown after rendering? -/
  view : Bool
  /-- What is drawn. -/
  graph : Digraph
deriving DecidableEq

/-- The drawing of an automaton, to be rendered under the given path. -/
def picture (A : Automaton) (filename : String) (view : Bool) : Picture :=
  ⟨filename, view, digraph A⟩

end LexAutomata.Drawing
