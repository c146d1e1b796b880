/-
# Declared variables

A data type declares the identifiers that follow it on its line, up to a
semicolon.  An equals sign begins an initializer, in which nothing is declared; a
comma outside parentheses ends it.  Declarations before the first line position
where `main` is followed by an opening parenthesis are global, the others local.
-/
import LexAutomata.Source.Token

namespace LexAutomata.Source

/-- The names of the data types. -/
def datatypes : List String := ["int", "float", "bool", "char"]

/-- A variable with the type it was declared with and where it is known. -/
structure SymbolEntry where
  /-- The name. -/
  identifier : String
  /-- The data type. -/
  datatype : String
  /-- The scope. -/
  scope : String
deriving DecidableEq

/-- The word for a scope. -/
def scopeName (isLocal : Bool) : String := if isLocal then "Local" else "Global"

/-- The tokens after a data type that stand where a name is declared: not in an initializer, and
before the semicolon.  `depth` counts the parentheses that are open. -/
def declaredAfter (inInitializer : Bool) (depth : Nat) : List String → List String
  | [] => []
  | t :: ts =>
    if t = ";" then []
    else if t = "(" then declaredAfter inInitializer (depth + 1) ts
    else if t = ")" then declaredAfter inInitializer (depth - 1) ts
    else if t = "," ∧ depth = 0 then declaredAfter false depth ts
    else if t = "=" then declaredAfter true depth ts
    else if ¬ inInitializer ∧ t ≠ "main" then t :: declaredAfter inInitializer depth ts
    else declaredAfter inInitializer depth ts

/-- Does the main function begin with this token? -/
def beginsMain (t : String) (rest : List String) : Bool := t = "main" && rest.head? = some "("

/-- The possible declarations of a line; `isLocal` tells whether the main function has begun. -/
def lineCandidates (isLocal : Bool) : List String → List SymbolEntry
  | [] => []
  | t :: rest =>
    let isLocal := isLocal || beginsMain t rest
    let own :=
      if t ∈ datatypes then
        (declaredAfter false 0 rest).map fun name => ⟨name, t, scopeName isLocal⟩
      else []
    own ++ lineCandidates isLocal rest

/-- Does the main function begin on the line? -/
def hasMain : List String → Bool
  | [] => false
  | t :: rest => beginsMain t rest || hasMain rest

/-- The possible declarations of consecutive lines. -/
def candidates (isLocal : Bool) : List (List String) → List SymbolEntry
  | [] => []
  | l :: ls => lineCandidates isLocal l ++ candidates (isLocal || hasMain l) ls

/-- The entries whose name the automaton accepts. -/
def keepAccepted (A : Automaton) : List SymbolEntry → Except Violation (List SymbolEntry)
  | [] => .ok []
  | e :: es => do
    let accepted ← A.accepts e.identifier
    let rest ← keepAccepted A es
    return if accepted then e :: rest else rest

/-- Why a symbol table could not be made. -/
inductive SymbolError where
  /-- There is no automaton for identifiers. -/
  | noIdentifier
  /-- The automaton for identifiers cannot be run. -/
  | broken (violation : Violation)
deriving DecidableEq

/-- The error in words. -/
def SymbolError.message : SymbolError → String
  | noIdentifier => Text.quoted Category.identifier
  | broken v => v.message

/-- The variables that a source text declares. -/
def symbolTable (code : String) (fragments : Fragments) : Except SymbolError (List SymbolEntry) :=
  match fragments.get? Category.identifier with
  | none => .error .noIdentifier
  | some A => (keepAccepted A (candidates false (tokenLines code))).mapError .broken

end LexAutomata.Source
