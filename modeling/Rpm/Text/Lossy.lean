import Rpm.Bytes.Basic

/-!
Text out of bytes that need not be UTF-8.

Each well-formed character is taken as it is. Where there is none, the longest row of bytes that
could begin one, or a single byte, becomes one replacement character.
-/

namespace Rpm.Text

def replacement : Char := '\ufffd'

def isContinuation (b : UInt8) : Bool := 0x80 ≤ b && b ≤ 0xbf

/-- Whether `b` can follow `first` in a character: overlong forms, surrogates and numbers beyond
the last character are excluded here. -/
def canFollow (first b : UInt8) : Bool :=
  if first = 0xe0 then 0xa0 ≤ b && b ≤ 0xbf
  else if first = 0xed then 0x80 ≤ b && b ≤ 0x9f
  else if first = 0xf0 then 0x90 ≤ b && b ≤ 0xbf
  else if first = 0xf4 then 0x80 ≤ b && b ≤ 0x8f
  else isContinuation b

/-- The number of bytes at a position, where no character stands, that become one replacement
character. -/
def brokenLength (bytes : ByteArray) (i : Nat) : Nat :=
  let first := byteAt bytes i
  let second := byteAt bytes (i + 1)
  let third := byteAt bytes (i + 2)
  if first < 0xe0 || 0xf5 ≤ first || bytes.size ≤ i + 1 || !canFollow first second then 1
  else if first < 0xf0 || bytes.size ≤ i + 2 || !isContinuation third then 2
  else 3

def lossyFrom (bytes : ByteArray) : Nat → Nat → List Char
  | 0, _ => []
  | fuel + 1, i =>
    if bytes.size ≤ i then []
    else
      match bytes.utf8DecodeChar? i with
      | some c => c :: lossyFrom bytes fuel (i + c.utf8Size)
      | none => replacement :: lossyFrom bytes fuel (i + brokenLength bytes i)

/-- The text of bytes, with replacement characters where they are no text. -/
def lossy (bytes : ByteArray) : String := String.ofList (lossyFrom bytes bytes.size 0)

end Rpm.Text
