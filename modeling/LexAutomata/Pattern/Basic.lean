/-
# Patterns

A pattern describes the words of a token category: runs of characters, listed
words, or single characters.  It is built into an automaton whose states are
drawn from a counter, in ascending order and beginning with the start state.
-/
import LexAutomata.Automaton.Basic
import LexAutomata.Counter

namespace LexAutomata

/-- A description of the words of a category. -/
inductive Pattern where
  /-- A nonempty run of characters; with a separator, possibly followed by it and a second run. -/
  | run (charset : String) (separator : Option String)
  /-- One of the listed words. -/
  | words (list : List String)
  /-- One character. -/
  | single (charset : String)
deriving DecidableEq

/-- The symbol that consists of one character. -/
def Label.ofChar (c : Char) : Label := .symbol (String.ofList [c])

namespace Pattern

/-! ## Pieces of an automaton -/

/-- Makes a known state final. -/
def accept (A : Automaton) (q : Int) : Automaton := { A with finals := A.finals.insert q }

/-- Leads from `p` to `q`, and from `q` back to itself, by every listed character. -/
def addLoops (A : Automaton) (p q : Int) (charset : List Char) : Automaton :=
  charset.foldl (fun A c => (A.connect p q (.ofChar c)).connect q q (.ofChar c)) A

/-- Adds a final state for the nonempty runs of characters that begin in `p`. -/
def addRun (A : Automaton) (p : Int) (charset : List Char) (c : Counter) : Automaton :=
  accept (addLoops (A.addState c.next) p c.next charset) c.next

/-- Spells a word along new states that begin in `p`, and makes the last one final. -/
def addWord (A : Automaton) (p : Int) (c : Counter) : List Char → Automaton × Counter
  | [] => (accept A p, c)
  | x :: w => addWord (A.connect p c.next (.ofChar x)) c.next c.advance w

/-- Spells the words one after the other from `p`, each along its own states. -/
def addWords (A : Automaton) (p : Int) (c : Counter) : List String → Automaton × Counter
  | [] => (A, c)
  | w :: ws =>
    let r := addWord A p c w.toList
    addWords r.1 p r.2 ws

/-! ## Fragments -/

/-- Completes the automaton `A`, which has the start state `p` alone, to the pattern's words.
A separator has to be one character; the states taken until then stay taken. -/
def extend (A : Automaton) (p : Int) (c : Counter) :
    Pattern → Except Violation Automaton × Counter
  | run charset none => (.ok (addRun A p charset.toList c), c.advance)
  | run charset (some separator) =>
    let r := addRun A p charset.toList c
    let point := c.advance
    match (r.addState point.next).addTransition c.next point.next (.text separator) with
    | .error v => (.error v, point.advance)
    | .ok B => (.ok (addRun B point.next charset.toList point.advance), point.advance.advance)
  | words list =>
    let r := addWords A p c list
    (.ok r.1, r.2)
  | single charset =>
    let B := charset.toList.foldl (fun B x => B.connect p c.next (.ofChar x)) (A.addState c.next)
    (.ok (accept B c.next), c.advance)

/-- The automaton of a pattern under the given name, and the counter it leaves behind. -/
def fragment (pattern : Pattern) (name : String) (c : Counter) :
    Except Violation Automaton × Counter :=
  let A : Automaton := { name := name, states := .singleton c.next, start := some c.next }
  extend A c.next c.advance pattern

end Pattern

end LexAutomata
