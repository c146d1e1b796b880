/-
# Reading a source text

A source text is a file in UTF-8.  All kinds of line breaks become line feeds, and
white space at the end is left out; a text of nothing else is refused.
-/
import LexAutomata.Files.Basic
import LexAutomata.Text.Blank
import LexAutomata.Text.Utf8

namespace LexAutomata.Source

/-- Why a source text could not be read. -/
inductive ReadError where
  /-- The name does not lead to a file. -/
  | notFound (name : String)
  /-- The file holds nothing but white space. -/
  | empty (name : String)
  /-- The file is not in UTF-8. -/
  | undecodable (error : Text.Utf8Error)
deriving DecidableEq

/-- The error in words. -/
def ReadError.message : ReadError → String
  | notFound name => "Source file not found: " ++ name
  | empty name => "Source file is empty: " ++ name
  | undecodable e => e.message

/-- Turns a carriage return, with a line feed after it or alone, into a line feed. -/
def unifyBreaks : List Char → List Char
  | [] => []
  | '\r' :: '\n' :: cs => '\n' :: unifyBreaks cs
  | '\r' :: cs => '\n' :: unifyBreaks cs
  | c :: cs => c :: unifyBreaks cs

/-- The source text that bytes hold, if it is not blank. -/
def textOf (name : String) (bytes : List UInt8) : Except ReadError String :=
  match Text.decodeUtf8 bytes with
  | .error e => .error (.undecodable e)
  | .ok cs =>
    let content := String.ofList (unifyBreaks cs)
    if Text.isAllBlank content then .error (.empty name) else .ok (Text.trimRight content)

/-- Reads the source text in a file. -/
def read (files : Files) (name : String) : Except ReadError String :=
  match files.fileBytes? name with
  | none => .error (.notFound name)
  | some bytes => textOf name bytes

end LexAutomata.Source
