/-
# Decoding UTF-8

Bytes are read as characters one sequence after the other.  A sequence is refused
at the first byte that cannot belong to it; the second byte of a sequence is held
to the ranges that exclude overlong forms, surrogates and what lies beyond the
last character.  So no text holds half a surrogate pair.
-/

namespace LexAutomata.Text

/-- Why a sequence of bytes is not a character. -/
inductive Utf8Fault where
  /-- No character begins with the byte. -/
  | invalidStart
  /-- A byte follows that does not continue the sequence. -/
  | invalidContinuation
  /-- The bytes end within the sequence. -/
  | unexpectedEnd
deriving DecidableEq

/-- A sequence that is not a character. -/
structure Utf8Error where
  /-- The place of its first byte. -/
  position : Nat
  /-- The first byte. -/
  lead : UInt8
  /-- The number of its bytes. -/
  length : Nat
  /-- What is wrong with it. -/
  fault : Utf8Fault
deriving DecidableEq

/-- The fault in words. -/
def Utf8Fault.message : Utf8Fault → String
  | invalidStart => "invalid start byte"
  | invalidContinuation => "invalid continuation byte"
  | unexpectedEnd => "unexpected end of data"

/-- The error in words. -/
def Utf8Error.message (e : Utf8Error) : String :=
  let place :=
    if e.length = 1 then
      let digits := Nat.toDigits 16 e.lead.toNat
      s!"byte 0x{String.ofList digits} in position {e.position}"
    else s!"bytes in position {e.position}-{e.position + e.length - 1}"
  s!"'utf-8' codec can't decode {place}: {e.fault.message}"

/-- The lowest and the highest byte that each of the following bytes may be. -/
def continuationRanges (lead : UInt8) : Option (List (UInt8 × UInt8)) :=
  if lead < 0x80 then some []
  else if lead < 0xC2 then none
  else if lead < 0xE0 then some [(0x80, 0xBF)]
  else if lead = 0xE0 then some [(0xA0, 0xBF), (0x80, 0xBF)]
  else if lead = 0xED then some [(0x80, 0x9F), (0x80, 0xBF)]
  else if lead < 0xF0 then some [(0x80, 0xBF), (0x80, 0xBF)]
  else if lead = 0xF0 then some [(0x90, 0xBF), (0x80, 0xBF), (0x80, 0xBF)]
  else if lead < 0xF4 then some [(0x80, 0xBF), (0x80, 0xBF), (0x80, 0xBF)]
  else if lead = 0xF4 then some [(0x80, 0x8F), (0x80, 0xBF), (0x80, 0xBF)]
  else none

/-- The bytes at the beginning of a list that fall into the ranges one by one. -/
def matching : List (UInt8 × UInt8) → List UInt8 → List UInt8
  | r :: rs, b :: bs => if r.1 ≤ b && b ≤ r.2 then b :: matching rs bs else []
  | _, _ => []

/-- The bits that a first byte contributes, when `following` bytes follow it. -/
def leadBits (lead : UInt8) (following : Nat) : Nat :=
  match following with
  | 0 => lead.toNat
  | 1 => lead.toNat % 32
  | 2 => lead.toNat % 16
  | _ => lead.toNat % 8

/-- The character of a complete sequence. -/
def assembleChar (lead : UInt8) (following : List UInt8) : Char :=
  Char.ofNat (following.foldl (fun n b => n * 64 + b.toNat % 64) (leadBits lead following.length))

/-- The characters of bytes, the first of which stands at `position`. -/
def decodeUtf8From (position : Nat) (bytes : List UInt8) : Except Utf8Error (List Char) :=
  match bytes with
  | [] => .ok []
  | lead :: rest =>
    match continuationRanges lead with
    | none => .error ⟨position, lead, 1, .invalidStart⟩
    | some ranges =>
      let following := matching ranges rest
      if following.length = ranges.length then
        (decodeUtf8From (position + 1 + following.length) (rest.drop following.length)).map
          fun cs => assembleChar lead following :: cs
      else
        let fault := if rest.length = following.length then .unexpectedEnd else .invalidContinuation
        .error ⟨position, lead, 1 + following.length, fault⟩
termination_by bytes.length
decreasing_by
  simp only [List.length_drop, List.length_cons]
  omega

/-- The characters of bytes. -/
def decodeUtf8 (bytes : List UInt8) : Except Utf8Error (List Char) := decodeUtf8From 0 bytes

end LexAutomata.Text
