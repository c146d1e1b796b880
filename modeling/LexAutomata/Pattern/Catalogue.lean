/-
# Catalogues of categories

A catalogue knows the patterns of some category names.  The standard one has the
five categories of a small language: identifiers, numbers, keywords, operators
and punctuators.  Fragments for several categories are built from one counter.
-/
import LexAutomata.Pattern.Basic

namespace LexAutomata

/-- The patterns of the known category names. -/
abbrev Catalogue := String → Option Pattern

/-- Why the fragment of a category could not be built. -/
inductive BuildError where
  /-- The catalogue does not know the category. -/
  | unknownCategory (name : String)
  /-- The pattern of the category is malformed. -/
  | malformed (violation : Violation)
deriving DecidableEq

/-- The error in words. -/
def BuildError.message : BuildError → String
  | unknownCategory name => "Unrecognized category: " ++ Text.quoted name
  | malformed v => v.message

/-! ## The standard categories -/

namespace Category

/-- The category of names. -/
def identifier : String := "Identifier"

/-- The category of numbers. -/
def number : String := "Number"

/-- The category of reserved words. -/
def keyword : String := "Keyword"

/-- The category of operators. -/
def operator : String := "Operator"

/-- The category of punctuation. -/
def punctuator : String := "Punctuator"

/-- The five categories in the order in which they are built. -/
def all : List String := [identifier, number, keyword, operator, punctuator]

/-- The five categories in the order in which a token is tried against them. -/
def priority : List String := [keyword, number, operator, punctuator, identifier]

/-- The reserved words. -/
def keywords : List String :=
  ["for", "if", "else", "return", "void", "main", "int", "bool", "char", "float"]

end Category

/-- The patterns of the five categories. -/
def Catalogue.standard : Catalogue := fun name =>
  if name = Category.identifier then some (.run "abcdefghijklmnopqrstuvwxyz" none)
  else if name = Category.number then some (.run "0123456789" (some "."))
  else if name = Category.keyword then some (.words Category.keywords)
  else if name = Category.operator then some (.single "+-*/%=")
  else if name = Category.punctuator then some (.single ",;\x7b\x7d[]()")
  else none

/-! ## Building -/

/-- Automata by category name. -/
abbrev Fragments := OrderedMap String Automaton

namespace Catalogue

/-- The fragment of one category.  An unknown category leaves the counter where it is. -/
def build (k : Catalogue) (name : String) (c : Counter) : Except BuildError Automaton × Counter :=
  match k name with
  | none => (.error (.unknownCategory name), c)
  | some pattern =>
    let r := pattern.fragment name c
    (r.1.mapError .malformed, r.2)

/-- Adds the fragments of the named categories one after the other, up to the first failure. -/
def buildOnto (k : Catalogue) (built : Fragments) (c : Counter) :
    List String → Except BuildError Fragments × Counter
  | [] => (.ok built, c)
  | name :: names =>
    match k.build name c with
    | (.error e, c') => (.error e, c')
    | (.ok A, c') => k.buildOnto (built.insert name A) c' names

/-- The fragments of the named categories; the last build of a repeated name counts. -/
def buildAll (k : Catalogue) (names : List String) (c : Counter) :
    Except BuildError Fragments × Counter :=
  k.buildOnto ∅ c names

end Catalogue

end LexAutomata
