/-!
What an answer of the engine is: its status code and the limits of the words in which it travels.
-/
namespace Switchboard

/-- The status of an answer: a result, an error, the end of a stream, an event of a stream, or a code
that means nothing here. -/
inductive Status where
  | success
  | error
  | streamTerminated
  | streamEvent
  | unknown (code : UInt32)
  deriving DecidableEq, Repr

namespace Status

/-- The status with a code. -/
def ofCode (code : UInt32) : Status :=
  if code = 0 then .success
  else if code = 1 then .error
  else if code = 2 then .streamTerminated
  else if code = 100 then .streamEvent
  else .unknown code

/-- The code of a status. -/
def code : Status → UInt32
  | .success => 0
  | .error => 1
  | .streamTerminated => 2
  | .streamEvent => 100
  | .unknown code => code

end Status

/-- A length as a word of 32 bits, if it fits one. -/
def wireLength? (length : Nat) : Option UInt32 :=
  if length < 4294967296 then some (UInt32.ofNat length) else none

/-- A text lent to the engine: its octets, or none at all for an empty text, and how many of them
count. -/
structure LentText where
  content : Option (List UInt8)
  length : UInt32
  deriving DecidableEq, Repr

namespace LentText

/-- Lends octets, if their number fits a word. -/
def lend? (octets : List UInt8) : Option LentText :=
  if octets.isEmpty then some ⟨none, 0⟩
  else (wireLength? octets.length).map (⟨some octets, ·⟩)

/-- The same text with no more than so many octets counting. -/
def shorten (t : LentText) (length : UInt32) : LentText := { t with length := min t.length length }

/-- The octets that count. -/
def octets (t : LentText) : List UInt8 :=
  match t.content with
  | some octets => octets.take t.length.toNat
  | none => []

end LentText

end Switchboard
