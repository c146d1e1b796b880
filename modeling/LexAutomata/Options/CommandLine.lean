/-
# Reading a command line

Each argument is first taken by itself: as a switch, perhaps shortened and perhaps
with a value after an equals sign, as something that looks like a switch, or as an
operand; behind a double hyphen everything is an operand.  Then the arguments are
followed from left to right.  The first operand is the source; whatever finds no
place is collected and reported at the end.  The last repetition of a switch counts.

Argument parsers differ in what a double hyphen behind an equals sign means: older ones take
it for the separator and leave the switch without a value, newer ones take it for a value.
The rules here are those of the older ones (`setWritten`).
-/
import LexAutomata.Options.Basic
import LexAutomata.Text.DecimalDigit

namespace LexAutomata.Options

/-- What an argument is, taken by itself. -/
inductive Mark where
  /-- An operand or a value. -/
  | operand (s : String)
  /-- The double hyphen before operands. -/
  | separator
  /-- A switch in its long or short spelling, with the value written to it. -/
  | switch (s : Switch) (isShort : Bool) (value : Option String)
  /-- Something that looks like a switch. -/
  | unknown (s : String)
deriving DecidableEq

/-! ## Single arguments -/

/-- The text before the first equals sign and the text after it. -/
def splitAtEquals (cs : List Char) : List Char × Option (List Char) :=
  match cs.dropWhile (· ≠ '=') with
  | [] => (cs, none)
  | _ :: value => (cs.takeWhile (· ≠ '='), some value)

/-- The switches whose long spelling begins with the given characters. -/
def fitting (cs : List Char) : List Switch :=
  Switch.all.filter fun s => cs.isPrefixOf s.long.toList

/-- Is the text a decimal numeral without sign? -/
def isDecimal (cs : List Char) : Bool :=
  let fraction := (cs.dropWhile Text.isDecimalDigit)
  match fraction with
  | [] => !cs.isEmpty
  | '.' :: ds => !ds.isEmpty && ds.all Text.isDecimalDigit
  | _ => false

/-- Is the text after a hyphen a number?  One line feed at its end is overlooked. -/
def isNegativeNumber (cs : List Char) : Bool :=
  isDecimal (if cs.getLast? = some '\n' then cs.dropLast else cs)

/-- What an argument is that begins with a hyphen and is no full spelling of a switch. -/
def unspelledMark (arg : String) (rest : List Char) : Mark :=
  if isNegativeNumber rest || rest.contains ' ' then .operand arg else .unknown arg

/-- What an argument is that begins with two hyphens, the second of which begins `rest`. -/
def longMark (arg : String) (rest : List Char) : Except OptionError Mark :=
  let division := splitAtEquals arg.toList
  let value := division.2.map String.ofList
  match Switch.all.find? fun s => s.long.toList = division.1 with
  | some s => .ok (.switch s false value)
  | none =>
    match fitting division.1 with
    | [] => .ok (unspelledMark arg rest)
    | [s] => .ok (.switch s false value)
    | several => .error (.ambiguous arg several)

/-- What an argument before any double hyphen is. -/
def markOf (arg : String) : Except OptionError Mark :=
  match arg.toList with
  | '-' :: rest =>
    match rest with
    | [] => .ok (.operand arg)
    | '-' :: _ => longMark arg rest
    | ['h'] => .ok (.switch .help true none)
    | 'h' :: '=' :: value => .ok (.switch .help true (some (String.ofList value)))
    | 'h' :: value => .ok (.switch .help true (some (String.ofList value)))
    | _ => .ok (unspelledMark arg rest)
  | _ => .ok (.operand arg)

/-- What the arguments are, up to the first that cannot be told. -/
def marks : List String → Except OptionError (List Mark)
  | [] => .ok []
  | arg :: args =>
    if arg = "--" then .ok (.separator :: args.map .operand)
    else do
      let m ← markOf arg
      let ms ← marks args
      return m :: ms

/-! ## The whole line -/

/-- What has been read so far. -/
structure Reading where
  /-- The options with the values read. -/
  options : Options := {}
  /-- Has the source been read? -/
  hasSource : Bool := false
  /-- Was the criterion last asked for without a value? -/
  lacksCriterion : Bool := false
  /-- The arguments without a place, in order. -/
  surplus : List String := []
deriving DecidableEq

/-- Sets the value of a switch. -/
def setValue (r : Reading) (s : Switch) (value : String) : Except Refusal Reading :=
  match s with
  | .criterion =>
    match Criterion.ofName? value with
    | some c => .ok { r with options := { r.options with criterion := c }, lacksCriterion := false }
    | none => .error (.wrong (.invalidChoice s value (Criterion.all.map Criterion.name)))
  | .logLevel =>
    match LogLevel.ofName? value with
    | some l => .ok { r with options := { r.options with logLevel := some l } }
    | none => .error (.wrong (.invalidChoice s value (LogLevel.all.map LogLevel.name)))
  | .graphDirectory => .ok { r with options := { r.options with graphs := .directory value } }
  | .help | .showTransitions => .error (.wrong (.superfluousValue s value))

/-- Takes the value of a switch away again, as older argument parsers do for a double hyphen behind
an equals sign.  A switch that takes no value has been given one. -/
def unsetValue (r : Reading) (s : Switch) (value : String) : Except Refusal Reading :=
  match s with
  | .criterion => .ok { r with lacksCriterion := true }
  | .logLevel => .ok { r with options := { r.options with logLevel := none } }
  | .graphDirectory => .ok { r with options := { r.options with graphs := .unnamed } }
  | .help | .showTransitions => .error (.wrong (.superfluousValue s value))

/-- The effect of a value behind the equals sign of a switch.  A double hyphen is a separator
there as well, which leaves no value.  This is the rule of older argument parsers, which drop
double hyphens from the values of a switch; newer ones keep them as a value like any other. -/
def setWritten (r : Reading) (s : Switch) (value : String) : Except Refusal Reading :=
  if value = "--" then unsetValue r s value else setValue r s value

/-- The effect of a switch that takes no value. -/
def setFlag (r : Reading) (s : Switch) : Except Refusal Reading :=
  match s with
  | .help => .error .help
  | .showTransitions => .ok { r with options := { r.options with showTransitions := true } }
  | .criterion | .logLevel | .graphDirectory => .error (.wrong (.missingValue s))

/-- The effect of the characters behind a short request for help: they have to repeat it. -/
def helpRepeated : List Char → Refusal
  | ['h'] => .help
  | 'h' :: cs => helpRepeated cs
  | cs => .wrong (.superfluousValue .help (String.ofList cs))

/-- Follows the arguments from left to right. -/
def follow (r : Reading) : List Mark → Except Refusal Reading
  | [] => .ok r
  | .operand s :: rest =>
    if r.hasSource then follow { r with surplus := r.surplus ++ [s] } rest
    else
      let r := { r with options := { r.options with source := s }, hasSource := true }
      match rest with
      | .separator :: rest => follow r rest
      | rest => follow r rest
  | .separator :: rest =>
    if r.hasSource then follow { r with surplus := r.surplus ++ ["--"] } rest else follow r rest
  | .unknown s :: rest => follow { r with surplus := r.surplus ++ [s] } rest
  | .switch .help true (some value) :: _ => .error (helpRepeated value.toList)
  | .switch s _ (some value) :: rest => do follow (← setWritten r s value) rest
  | .switch s _ none :: rest =>
    if s.takesValue then
      match rest with
      | .operand value :: rest => do follow (← setValue r s value) rest
      | _ => .error (.wrong (.missingValue s))
    else do follow (← setFlag r s) rest

/-- Reads a command line. -/
def parse (args : List String) : Except Refusal Options := do
  let ms ← (marks args).mapError .wrong
  let r ← follow {} ms
  if r.surplus ≠ [] then .error (.wrong (.unrecognized r.surplus))
  else if r.lacksCriterion then .error .noCriterion
  else return r.options

end LexAutomata.Options
