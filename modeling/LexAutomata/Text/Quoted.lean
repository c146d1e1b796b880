/-
# Quoted text

The form in which messages show a text: between quotes, on one line, with every
character that does not show as itself written as an escape.  Single quotes
enclose it unless the text holds a single quote and no double quote.
-/
import LexAutomata.Text.Printable

namespace LexAutomata.Text

/-- The lower-case hexadecimal digits of a number, at least `width` of them. -/
def hexDigits (width n : Nat) : List Char :=
  let digits := Nat.toDigits 16 n
  List.replicate (width - digits.length) '0' ++ digits

/-- One character between the quotes `mark`. -/
def quotedChar (mark c : Char) : List Char :=
  if c = mark || c = '\\' then ['\\', c]
  else if c = '\n' then ['\\', 'n']
  else if c = '\r' then ['\\', 'r']
  else if c = '\t' then ['\\', 't']
  else if ' ' ≤ c && c < '\x7f' then [c]
  else if isPrintable c then [c]
  else if c.toNat < 0x100 then '\\' :: 'x' :: hexDigits 2 c.toNat
  else if c.toNat < 0x10000 then '\\' :: 'u' :: hexDigits 4 c.toNat
  else '\\' :: 'U' :: hexDigits 8 c.toNat

/-- The mark that encloses a text. -/
def quotationMark (cs : List Char) : Char :=
  if '\'' ∈ cs ∧ ¬ '"' ∈ cs then '"' else '\''

/-- The text between quotes. -/
def quoted (s : String) : String :=
  let mark := quotationMark s.toList
  String.ofList (mark :: s.toList.flatMap (quotedChar mark) ++ [mark])

end LexAutomata.Text
